import SwapPool.Proofs.Pool.Runs
import SwapPool.Proofs.Stable.ImbalanceFee
import SwapPool.Proofs.Stable.Liquidity

/-! What a withdrawal by tokens costs. It burns the shares that the fall of the
charged invariant is worth, rounded up, and what this is above the worth of the
uncharged fall, rounded down, is its fee in shares, of which the admin recipients
get their part. Between the two roundings there can be a share where no fee was
due. While the recipients get a part only, this share stays with the pool; where
they get all, those who remain give up less than one share. And the invariant is
a whole number, so that a withdrawal which leaves it as it was burns nothing. -/

namespace SwapPool

namespace Pool

open StableInvariant (calcD calcCharged calcCharged_of_free)

variable {p : Pool} {c : StableCurve} {units amounts : List Int} {fees : AdminFees} {q : Quote}
  {d₀ d₁ d₂ : Int}

/-! ### The burn and the fee -/

section Steps

variable (h : p.WithdrawalSteps c units amounts fees q d₀ d₁ d₂)

include h in
theorem WithdrawalSteps.newAmounts_eq : q.newAmounts = List.zipWith (· - ·) p.amounts amounts :=
  (subs_eq_ok h.left).1

include h in
theorem WithdrawalSteps.supply_pos (hl : p.shares.Balanced) : 0 < p.shares.totalSupply :=
  lt_of_le_of_ne hl.totalSupply_nonneg h.supply_ne.symm

include h in
/-- The burn pays for the fall of the charged invariant. -/
theorem WithdrawalSteps.fall_le (ha : 1 ≤ c.amp) :
    p.shares.totalSupply * (d₀ - d₂) ≤ q.value * d₀ := by
  rw [h.value_eq]
  exact Checked.le_ceiling_mul _ (h.before_pos ha)

include h in
theorem WithdrawalSteps.adminMints_le (hf : 0 ≤ p.totalFee) : total (q.adminMints.map Prod.snd) ≤
    q.value - (p.shares.totalSupply * (d₀ - d₁)).fdiv d₀ := by
  have hfee := sub_nonneg.2 h.le_value
  rw [h.minted]
  exact (fees.total_splitShares_le (AdminFees.adminPart_nonneg hfee hf)).trans
    (AdminFees.adminPart_le hfee hf h.validated)

include h in
theorem WithdrawalSteps.charged_of_free (hp : p.Admissible) (hu : units.length = p.tokens.length)
    (hf : p.totalFee = 0) : d₂ = d₁ := by
  have hlen : (comparables units p.amounts).length = (comparables units q.newAmounts).length := by
    obtain ⟨ha, -⟩ := checkAmounts_eq_ok_iff.1 h.checked
    rw [h.newAmounts_eq, length_comparables (hu.trans hp.amounts_length.symm),
      length_comparables] <;> simp [hu, hp.amounts_length, ha]
  have hcharged : calcCharged c.amp (comparables units p.amounts) (comparables units q.newAmounts)
      d₀ d₁ 0 p.config = .ok d₂ := hf ▸ bind_eq_ok_iff.2 h.charged
  exact Except.ok.inj ((calcCharged_of_free h.before_ne hlen hcharged).symm.trans h.after)

include h in
theorem WithdrawalSteps.adminMints_lt (hr : fees.adminRate < p.totalFee)
    (hfee : 0 < q.value - (p.shares.totalSupply * (d₀ - d₁)).fdiv d₀) :
    total (q.adminMints.map Prod.snd) <
      q.value - (p.shares.totalSupply * (d₀ - d₁)).fdiv d₀ := by
  have hf : 0 ≤ p.totalFee := fees.adminRate_nonneg.trans hr.le
  rw [h.minted]
  exact (fees.total_splitShares_le (AdminFees.adminPart_nonneg hfee.le hf)).trans_lt
    (AdminFees.adminPart_lt hfee hr)

/-! ### Dilution -/

include h in
/-- What is burned and not minted again falls short of the fall by less than one share. -/
theorem WithdrawalSteps.fall_lt (ha : 1 ≤ c.amp) (hf : 0 ≤ p.totalFee) :
    p.shares.totalSupply * (d₀ - d₁) <
      (q.value - total (q.adminMints.map Prod.snd)) * d₀ + d₀ := by
  have hpos := h.before_pos ha
  have hadmin := h.adminMints_le hf
  set fair := (p.shares.totalSupply * (d₀ - d₁)).fdiv d₀
  calc p.shares.totalSupply * (d₀ - d₁) < (fair + 1) * d₀ := Int.lt_fdiv_add_one_mul_self _ hpos
    _ ≤ (q.value - total (q.adminMints.map Prod.snd) + 1) * d₀ :=
        mul_le_mul_of_nonneg_right (by omega) hpos.le
    _ = (q.value - total (q.adminMints.map Prod.snd)) * d₀ + d₀ := by ring

include h in
theorem WithdrawalSteps.fall_le_kept (ha : 1 ≤ c.amp) (hs : 0 ≤ p.shares.totalSupply)
    (hd : d₂ ≤ d₁) (hm : total (q.adminMints.map Prod.snd) ≤ 0 ∨
      total (q.adminMints.map Prod.snd) <
        q.value - (p.shares.totalSupply * (d₀ - d₁)).fdiv d₀) :
    p.shares.totalSupply * (d₀ - d₁) ≤
      (q.value - total (q.adminMints.map Prod.snd)) * d₀ := by
  have hpos := h.before_pos ha
  have hfall := h.fall_le ha
  set minted := total (q.adminMints.map Prod.snd)
  set fair := (p.shares.totalSupply * (d₀ - d₁)).fdiv d₀
  rcases hm with hnone | hless
  · calc p.shares.totalSupply * (d₀ - d₁) ≤ p.shares.totalSupply * (d₀ - d₂) :=
          mul_le_mul_of_nonneg_left (by omega) hs
      _ ≤ q.value * d₀ := hfall
      _ ≤ (q.value - minted) * d₀ := mul_le_mul_of_nonneg_right (by omega) hpos.le
  · calc p.shares.totalSupply * (d₀ - d₁) ≤ (fair + 1) * d₀ :=
          (Int.lt_fdiv_add_one_mul_self _ hpos).le
      _ ≤ (q.value - minted) * d₀ := mul_le_mul_of_nonneg_right (by omega) hpos.le

include h in
theorem WithdrawalSteps.fall_le_of_free (hp : p.Admissible) (hc : p.curve = .stable c)
    (hu : units.length = p.tokens.length) (hs : 0 ≤ p.shares.totalSupply) (hf : p.totalFee = 0) :
    p.shares.totalSupply * (d₀ - d₁) ≤
      (q.value - total (q.adminMints.map Prod.snd)) * d₀ := by
  refine h.fall_le_kept (one_le_amp hp hc) hs (h.charged_of_free hp hu hf).le (.inl ?_)
  have hrate : fees.adminRate = 0 :=
    le_antisymm (hf ▸ AdminFees.adminRate_le h.validated) fees.adminRate_nonneg
  rw [h.minted, AdminFees.splitShares_of_adminFree hrate]
  rfl

include h in
theorem WithdrawalSteps.fall_le_of_partial (ha : 1 ≤ c.amp) (hs : 0 ≤ p.shares.totalSupply)
    (hr : fees.adminRate < p.totalFee) (hd : d₂ ≤ d₁) :
    p.shares.totalSupply * (d₀ - d₁) ≤
      (q.value - total (q.adminMints.map Prod.snd)) * d₀ := by
  refine h.fall_le_kept ha hs hd ?_
  obtain hzero | hfee := h.le_value.eq_or_lt
  · left
    have := h.adminMints_le (fees.adminRate_nonneg.trans hr.le)
    omega
  · exact .inr (h.adminMints_lt hr (sub_pos.2 hfee))

end Steps

/-- A withdrawal by tokens leaves those who remain their part of the invariant, down to less than
one share of it; and all of it if there is no fee, or if the admin recipients get less than the
whole fee and the fee does not raise the invariant that the solver finds. -/
theorem withdrawal_dilutes_below_a_share {p : Pool} {c : StableCurve} (hp : p.check = .ok ())
    (hc : p.curve = .stable c) (hs : 0 < p.shares.totalSupply) {amounts : List Int}
    {fees : AdminFees} {rates : Option (List Int)} {q : Quote}
    (hq : p.quoteWithdrawal c amounts fees rates = .ok q) :
    ∃ applied, c.effectiveRates p.tokens.length rates = .ok applied ∧
      let old := comparables (c.units applied) p.amounts
      let new := comparables (c.units applied) (List.zipWith (· - ·) p.amounts amounts)
      let supply := p.shares.totalSupply
      let remaining := supply - q.value + total (q.adminMints.map Prod.snd)
      ∃ d₀ d₁ d₂, calcD c.amp old p.config = .ok d₀ ∧ calcD c.amp new p.config = .ok d₁ ∧
        calcCharged c.amp old new d₀ d₁ p.totalFee p.config = .ok d₂ ∧ 0 < d₀ ∧ d₁ ≤ d₀ ∧
        d₀ * remaining < d₁ * supply + d₀ ∧
        (p.totalFee = 0 ∨ fees.adminRate < p.totalFee ∧ d₂ ≤ d₁ →
          d₀ * remaining ≤ d₁ * supply) := by
  replace hp := check_eq_ok_iff.1 hp
  have ha := one_le_amp hp hc
  obtain ⟨applied, hr, d₀, d₁, d₂, h⟩ := quoteWithdrawal_steps hq
  have hu := StableCurve.length_units_of_applied (hp.curve c hc) hr
  have hshort := h.fall_lt ha hp.fee_nonneg
  refine ⟨applied, hr, d₀, d₁, d₂, h.before, h.newAmounts_eq ▸ h.after,
    h.newAmounts_eq ▸ bind_eq_ok_iff.2 h.charged, h.before_pos ha, h.after_le, ?_, fun hkept => ?_⟩
  · linarith
  · have hfall : p.shares.totalSupply * (d₀ - d₁) ≤
        (q.value - total (q.adminMints.map Prod.snd)) * d₀ := by
      obtain hfree | ⟨hpartial, hd⟩ := hkept
      · exact h.fall_le_of_free hp hc hu hs.le hfree
      · exact h.fall_le_of_partial ha hs.le hpartial hd
    linarith

/-- Of the sixty-one shares of a lopsided withdrawal's fee the exchange gets twenty. -/
theorem withdrawal_dilutes_below_a_share_part_owed :
    let c : StableCurve := ⟨[18, 18], 100, .pegged⟩
    let shares : Ledger := ⟨100000, ⟨[("lp", 100000), ("dao", 0)], by decide⟩⟩
    let p : Pool := ⟨["x", "y"], [50000, 50000], 30, shares, [.zero, .zero], .standard, .stable c⟩
    let fees : AdminFees := ⟨10, "dao", 0, none, by decide, by decide, by decide⟩
    let units := c.units (c.cachedRates 2)
    let q : Quote := ⟨40180, [10000, 50000], [("dao", 20)]⟩
    p.quoteWithdrawal c [40000, 0] fees none = .ok q ∧
      ∃ d₀ d₁, calcD c.amp (comparables units p.amounts) p.config = .ok d₀ ∧
        calcD c.amp (comparables units q.newAmounts) p.config = .ok d₁ ∧
        d₀ * (100000 - q.value + total (q.adminMints.map Prod.snd)) ≤ d₁ * 100000 := by
  intro c shares p fees units q
  have hq : p.quoteWithdrawal c [40000, 0] fees none = .ok q := by decide +kernel
  have hafter : calcD c.amp (comparables units q.newAmounts) p.config = .ok 59881 := by
    decide +kernel
  have hcharged : calcCharged c.amp (comparables units p.amounts) (comparables units q.newAmounts)
      100000 59881 30 p.config = .ok 59820 := by
    decide +kernel
  have hbefore : calcD c.amp (comparables units p.amounts) p.config = .ok 100000 := by
    decide +kernel
  obtain ⟨_, ⟨⟩, d₀, d₁, d₂, hd₀, hd₁, hd₂, -, -, -, hkept⟩ :=
    withdrawal_dilutes_below_a_share (by decide +kernel) rfl (by decide) hq
  obtain rfl : 100000 = d₀ := Except.ok.inj (hbefore.symm.trans hd₀)
  obtain rfl : 59881 = d₁ := Except.ok.inj (hafter.symm.trans hd₁)
  obtain rfl : 59820 = d₂ := Except.ok.inj (hcharged.symm.trans hd₂)
  exact ⟨hq, 100000, 59881, hbefore, hafter, hkept (.inr ⟨by decide, by decide⟩)⟩

/-- All of the fee is owed to the exchange. A basket of one and two units burns two shares for one
and nine tenths, no fee is due on it, and the exchange gets a share for the tenth. -/
theorem withdrawal_dilutes_where_all_is_owed :
    let c : StableCurve := ⟨[18, 18], 1, .pegged⟩
    let p₀ : Pool := ⟨["x", "y"], [0, 0], 30, .empty, [.zero, .zero], .standard, .stable c⟩
    let p := p₀.after [⟨∅, .register "lp"⟩, ⟨∅, .register "dao"⟩,
      ⟨∅, .addStableLiquidity "lp" [20, 20] 0 .none false none⟩,
      ⟨∅, .removeLiquidityByTokens "lp" [6, 0] 9 .none false⟩]
    let fees : AdminFees := ⟨30, "dao", 0, none, by decide, by decide, by decide⟩
    let q : Quote := ⟨2, [13, 18], [("dao", 1)]⟩
    p₀.Created ∧ fees.validate p.totalFee = .ok () ∧ p.shares.totalSupply = 31 ∧
      p.quoteWithdrawal c [1, 2] fees none = .ok q ∧
      calcD c.amp (comparables (c.units (c.cachedRates 2)) p.amounts) p.config = .ok 33 ∧
      calcD c.amp (comparables (c.units (c.cachedRates 2)) q.newAmounts) p.config = .ok 31 ∧
      ¬ 33 * (31 - q.value + total (q.adminMints.map Prod.snd)) ≤ 31 * 31 := by
  intro c p₀ p fees q
  have start : p₀.Created := ⟨["x", "y"], 30, .stable c, .standard, by rfl⟩
  exact ⟨start, by decide +kernel, by decide +kernel, by decide +kernel, by decide +kernel,
    by decide +kernel, by decide⟩

/-! ### Withdrawals that burn nothing -/

theorem WithdrawalSteps.value_pos_iff
    (h : p.WithdrawalSteps c units amounts fees q d₀ d₁ d₂) (ha : 1 ≤ c.amp)
    (hs : 0 < p.shares.totalSupply) : 0 < q.value ↔ d₂ < d₀ := by
  constructor
  · intro hburn
    refine lt_of_le_of_ne h.charged_le ?_
    rintro rfl
    rw [h.value_eq, sub_self, mul_zero, Checked.ceiling, neg_zero, Int.zero_fdiv] at hburn
    exact lt_irrefl 0 hburn
  · intro hlt
    have hworth : 0 < p.shares.totalSupply * (d₀ - d₂) := mul_pos hs (sub_pos.2 hlt)
    exact pos_of_mul_pos_left (hworth.trans_le (h.fall_le ha)) (h.before_pos ha).le

/-- The invariant after an operation that leads to `p'`, once each balance has paid its imbalance
fee. -/
def chargedInvariant (p p' : Pool) (c : StableCurve) : Except Fault Int := do
  calcCharged c.amp (p.comparableReserves c (c.cachedRates p.tokens.length))
    (p'.comparableReserves c (c.cachedRates p'.tokens.length)) (← p.invariant c)
    (← p'.invariant c) p.totalFee p.config

theorem WithdrawalSteps.chargedInvariant_eq {l : Ledger} {mints burns : List (String × Int)}
    {t : Option Trade} (h : p.WithdrawalSteps c (c.units (c.cachedRates p.tokens.length)) amounts
      fees q d₀ d₁ d₂) :
    p.chargedInvariant (Settlement.outcome ⟨q.newAmounts, mints, burns, t⟩ l p) c = .ok d₂ :=
  bind_eq_ok_iff.2 ⟨d₀, h.before, bind_eq_ok_iff.2 ⟨d₁, h.after, bind_eq_ok_iff.2 h.charged⟩⟩

/-- In every pool of a run from a new one a withdrawal by tokens takes something. It burns shares,
never more than its sender has, exactly if the invariant less the fee is below the one before it; so
who has no shares can take only what the invariant does not show. -/
theorem withdrawal_burns_iff_invariant_falls {p : Pool} (start : p.Created) (calls : List Call)
    {sender : String} {amounts : List Int} {maxBurn burned : Int} {fees : AdminFees} {q' : Pool}
    (h : removeLiquidityByTokens sender amounts maxBurn fees false (p.after calls) =
      .ok burned q') :
    let q := p.after calls
    (∃ a ∈ amounts, 0 < a) ∧ 0 ≤ burned ∧ burned ≤ q.shares.balanceOf sender ∧
      ∃ c d₀ d₂, q.curve = .stable c ∧ q.invariant c = .ok d₀ ∧
        q.chargedInvariant q' c = .ok d₂ ∧ 0 < d₀ ∧ d₂ ≤ d₀ ∧ (0 < burned ↔ d₂ < d₀) ∧
        (q.shares.balanceOf sender = 0 → d₂ = d₀) := by
  intro q
  have hq : q.Admissible := start.admissible.after calls
  have hl : q.shares.Balanced := balanced_after start.admissible start.balanced calls
  obtain ⟨c, quote, l, hc, hquote, rfl, hle, -, rfl⟩ := Command.stableWithdrawal_settled hq h
  obtain ⟨_, ⟨⟩, d₀, d₁, d₂, hsteps⟩ := quoteWithdrawal_steps hquote
  have ha := one_le_amp hq hc
  have hs := hsteps.supply_pos hl
  have hburn := hsteps.value_pos_iff ha hs
  have hnonneg := quoteWithdrawal_value_nonneg ha hs.le hquote
  have hcharged := hsteps.charged_le
  have htakes : ∃ a ∈ amounts, 0 < a := by
    obtain ⟨-, hamounts⟩ := checkAmounts_eq_ok_iff.1 hsteps.checked
    obtain ⟨a, hmem, hne⟩ := hsteps.some_ne
    exact ⟨a, hmem, lt_of_le_of_ne (hamounts a hmem) hne.symm⟩
  refine ⟨htakes, hnonneg, hle, c, d₀, d₂, hc, hsteps.before, hsteps.chargedInvariant_eq,
    hsteps.before_pos ha, hcharged, hburn, fun hnone => ?_⟩
  by_contra hne
  have := hburn.2 (lt_of_le_of_ne hcharged hne)
  omega

/-- Six of twenty units burn nine of forty shares. -/
theorem withdrawal_burns_iff_invariant_falls_nine_shares :
    let c : StableCurve := ⟨[18, 18], 1, .pegged⟩
    let p : Pool := ⟨["x", "y"], [0, 0], 30, .empty, [.zero, .zero], .standard, .stable c⟩
    let q := p.after
      [⟨∅, .register "lp"⟩, ⟨∅, .addStableLiquidity "lp" [20, 20] 0 .none false none⟩]
    let withdrawal := removeLiquidityByTokens "lp" [6, 0] 9 .none false
    withdrawal q = .ok 9 (withdrawal.after q) ∧ ∃ d₀ d₂, q.invariant c = .ok d₀ ∧
      q.chargedInvariant (withdrawal.after q) c = .ok d₂ ∧ d₂ < d₀ := by
  intro c p q withdrawal
  have start : p.Created := ⟨["x", "y"], 30, .stable c, .standard, by rfl⟩
  have hanswer : withdrawal.answer? q = some 9 := by decide +kernel
  have hcurve : q.curve = .stable c := by decide +kernel
  have hout := Action.eq_ok_of_answer? hanswer
  obtain ⟨-, -, -, c', d₀, d₂, hc, hd₀, hd₂, -, -, hburn, -⟩ :=
    withdrawal_burns_iff_invariant_falls start _ hout
  obtain rfl : c = c' := Curve.stable.inj (hcurve.symm.trans hc)
  exact ⟨hout, d₀, d₂, hd₀, hd₂, hburn.1 (by decide)⟩

/-- Ten units of a token are worth one comparable unit, and nine can be taken for nothing, by an
account that is not even registered. -/
theorem withdrawal_free_to_a_stranger :
    let c : StableCurve := ⟨[24, 24], 100, .rated [Int.pow 10 23, Int.pow 10 24]⟩
    let p : Pool := ⟨["x", "y"], [0, 0], 30, .empty, [.zero, .zero], .standard, .stable c⟩
    let q := p.after
      [⟨∅, .register "lp"⟩, ⟨∅, .addStableLiquidity "lp" [109, 10] 0 .none false none⟩]
    let withdrawal := removeLiquidityByTokens "stranger" [9, 0] 1 .none false
    p.Created ∧ q.amounts = [109, 10] ∧ q.shares.totalSupply = 20 ∧
      q.shares.isRegistered "stranger" = false ∧ q.shares.balanceOf "stranger" = 0 ∧
      withdrawal q = .ok 0 (withdrawal.after q) ∧ (withdrawal.after q).amounts = [100, 10] := by
  intro c p q withdrawal
  have start : p.Created := ⟨["x", "y"], 30, .stable c, .standard, by rfl⟩
  have hanswer : withdrawal.answer? q = some 0 := by decide +kernel
  exact ⟨start, by decide +kernel, by decide +kernel, by decide +kernel, by decide +kernel,
    Action.eq_ok_of_answer? hanswer, by decide +kernel⟩

end Pool

end SwapPool
