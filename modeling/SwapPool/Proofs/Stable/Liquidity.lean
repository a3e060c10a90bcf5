import SwapPool.Proofs.Pool.Commands
import SwapPool.Proofs.Pool.Coverage

/-! Deposits and withdrawals of a stable pool against each other. Both price the
same change of the invariant: a deposit mints at most what the change is worth in
the shares before it, and a withdrawal burns at least what it is worth in the
shares before that. The fee moves either price in favour of the pool, wherever
the solver stops, since both sides check that it did. So a deposit dilutes nobody,
and one that is taken back costs what it minted or more. -/

namespace SwapPool

theorem zipWith_sub_zipWith_add {xs ys : List Int} (h : xs.length = ys.length) :
    List.zipWith (· - ·) (List.zipWith (· + ·) xs ys) ys = xs := by
  refine List.ext_getElem (by simp [h]) fun k hk hx => ?_
  rw [List.getElem_zipWith, List.getElem_zipWith]
  exact add_sub_cancel_right _ _

namespace Pool

open StableInvariant (calcD)

variable {p : Pool} {c : StableCurve} {units amounts : List Int} {fees : AdminFees} {q : Quote}
  {d₀ d₁ d₂ : Int}

/-! ### The two prices -/

theorem DepositSteps.value_mul_le (h : p.DepositSteps c units amounts fees q d₀ d₁ d₂)
    (ha : 1 ≤ c.amp) : q.value * d₀ ≤ p.shares.totalSupply * (d₁ - d₀) :=
  (le_fdiv_iff (h.before_pos ha)).1 h.value_le

theorem DepositSteps.adminMints_le (h : p.DepositSteps c units amounts fees q d₀ d₁ d₂)
    (hf : 0 ≤ p.totalFee) : total (q.adminMints.map Prod.snd) ≤
      (p.shares.totalSupply * (d₁ - d₀)).fdiv d₀ - q.value := by
  have hfee := sub_nonneg.2 h.value_le
  rw [h.minted]
  exact (fees.total_splitShares_le (AdminFees.adminPart_nonneg hfee hf)).trans
    (AdminFees.adminPart_le hfee hf h.validated)

theorem WithdrawalSteps.le_value_of_mul_le
    (h : p.WithdrawalSteps c units amounts fees q d₀ d₁ d₂) (ha : 1 ≤ c.amp) {m : Int}
    (hm : m * d₀ ≤ p.shares.totalSupply * (d₀ - d₁)) : m ≤ q.value :=
  ((le_fdiv_iff (h.before_pos ha)).2 hm).trans h.le_value

/-- Shares that are worth a growth at the old price and supply are worth no more than it at the
new ones, which the shares themselves have raised. -/
theorem mul_le_of_growth {supply supply' minted : Int} (hd : d₀ ≤ d₁)
    (hm : minted * d₀ ≤ supply * (d₁ - d₀)) (hs : supply + minted ≤ supply') :
    minted * d₁ ≤ supply' * (d₁ - d₀) :=
  calc minted * d₁ = minted * d₀ + minted * (d₁ - d₀) := by ring
    _ ≤ supply * (d₁ - d₀) + minted * (d₁ - d₀) := by linarith
    _ = (supply + minted) * (d₁ - d₀) := by ring
    _ ≤ supply' * (d₁ - d₀) := mul_le_mul_of_nonneg_right hs (by omega)

/-! ### A deposit dilutes nobody -/

/-- A deposit mints something, and all the shares that it mints, for the sender and for the admin
recipients, are together worth at most the growth of the invariant: the invariant per share does
not fall, whatever basket, rates and admin policy are supplied and wherever the solver stops. -/
theorem deposit_dilutes_nobody {p : Pool} {c : StableCurve} (hp : p.check = .ok ())
    (hc : p.curve = .stable c) (hs : 0 < p.shares.totalSupply) {amounts : List Int}
    {fees : AdminFees} {rates : Option (List Int)} {q : Quote}
    (hq : p.quoteDeposit c amounts fees rates = .ok q) :
    ∃ applied, c.effectiveRates p.tokens.length rates = .ok applied ∧
      let comparable := comparables (c.units applied)
      let supply := p.shares.totalSupply
      let minted := q.value + total (q.adminMints.map Prod.snd)
      ∃ d₀ d₁, calcD c.amp (comparable p.amounts) p.config = .ok d₀ ∧
        calcD c.amp (comparable (List.zipWith (· + ·) p.amounts amounts)) p.config = .ok d₁ ∧
        0 < d₀ ∧ 0 < q.value ∧ minted ≤ (supply * (d₁ - d₀)).fdiv d₀ ∧
        d₀ * (supply + minted) ≤ d₁ * supply := by
  replace hp := check_eq_ok_iff.1 hp
  have ha : 1 ≤ c.amp := (hp.curve c hc).minAmp_le
  obtain ⟨applied, hr, d₀, d₁, d₂, hsteps⟩ := quoteDeposit_steps hq hs.ne'
  have hpos := hsteps.before_pos ha
  have hadmin := hsteps.adminMints_le hp.fee_nonneg
  set supply := p.shares.totalSupply
  set minted := q.value + total (q.adminMints.map Prod.snd) with hminted
  have hle : minted ≤ (supply * (d₁ - d₀)).fdiv d₀ := by omega
  have hworth : minted * d₀ ≤ supply * (d₁ - d₀) := (le_fdiv_iff hpos).1 hle
  refine ⟨applied, hr, d₀, d₁, hsteps.before, hsteps.newAmounts_eq ▸ hsteps.after, hpos,
    quoteDeposit_value_pos ha hs.le hq, hle, ?_⟩
  calc d₀ * (supply + minted) = d₀ * supply + minted * d₀ := by ring
    _ ≤ d₀ * supply + supply * (d₁ - d₀) := by linarith
    _ = d₁ * supply := by ring

/-- A lopsided basket at a doubled rate, of whose fee both admin recipients get a part. -/
theorem deposit_dilutes_nobody_lopsided :
    let c : StableCurve := ⟨[18, 18], 100, .rated [ratePrecision, ratePrecision]⟩
    let shares : Ledger := ⟨100000, ⟨[("lp", 100000), ("dao", 0), ("ref", 0)], by decide⟩⟩
    let p : Pool := ⟨["x", "y"], [50000, 50000], 30, shares, [.zero, .zero], .standard, .stable c⟩
    let fees : AdminFees := ⟨10, "dao", 5, some "ref", by decide, by decide, by decide⟩
    let rates := [2 * ratePrecision, ratePrecision]
    let q : Quote := ⟨53148, [90000, 50000], [("dao", 18), ("ref", 9)]⟩
    p.quoteDeposit c [40000, 0] fees (some rates) = .ok q ∧
      ∃ d₀ d₁, calcD c.amp (comparables (c.units rates) [50000, 50000]) p.config = .ok d₀ ∧
        calcD c.amp (comparables (c.units rates) [90000, 50000]) p.config = .ok d₁ ∧
        0 < d₀ ∧ d₀ * (100000 + 53175) ≤ d₁ * 100000 := by
  intro c shares p fees rates q
  have hq : p.quoteDeposit c [40000, 0] fees (some rates) = .ok q := by decide +kernel
  obtain ⟨applied, hr, d₀, d₁, hd₀, hd₁, hpos, -, -, hkept⟩ :=
    deposit_dilutes_nobody (by decide +kernel) rfl (by decide) hq
  have hsupplied : c.effectiveRates p.tokens.length (some rates) = .ok rates := by decide +kernel
  obtain rfl : applied = rates := Except.ok.inj (hr.symm.trans hsupplied)
  exact ⟨hq, d₀, d₁, hd₀, hd₁, hpos, hkept⟩

/-! ### A deposit taken back -/

/-- Taking a basket back out of a stable pool right after it was deposited costs at least the
shares that were minted for it, whatever the admin policies of the two calls are and wherever the
solver stopped. -/
theorem deposit_taken_back {p p' p'' : Pool} {limits : Limits} {sender : String}
    {amounts : List Int} {minShares maxBurn minted burned : Int} {fees fees' : AdminFees}
    {poolId : Option Int} {simulate : Bool} (hp : p.check = .ok ())
    (hs : 0 < p.shares.totalSupply)
    (hin : addStableLiquidity limits sender amounts minShares fees false poolId p = .ok minted p')
    (hout : removeLiquidityByTokens sender amounts maxBurn fees' simulate p' = .ok burned p'') :
    minted ≤ burned := by
  replace hp := check_eq_ok_iff.1 hp
  obtain ⟨c, q, l, hc, hq, rfl, hl, rfl⟩ := Command.stableDeposit_eq_ok hp hin
  obtain ⟨c', q', hc', hq', rfl⟩ := Command.stableWithdrawal_eq_ok
    (Settlement.outcome_admissible hp (fits_of_quoteDeposit hp hq) l) hout
  obtain rfl : c = c' := Curve.stable.inj (hc.symm.trans hc')
  obtain ⟨applied, hr, d₀, d₁, d₂, hdeposit⟩ := quoteDeposit_steps hq hs.ne'
  obtain ⟨applied', hr', e₀, e₁, e₂, hwithdrawal⟩ := quoteWithdrawal_steps hq'
  obtain rfl : applied = applied' := Except.ok.inj (hr.symm.trans hr')
  have ha : 1 ≤ c.amp := (hp.curve c hc).minAmp_le
  -- The withdrawal starts where the deposit ended and ends where it started.
  have hstart : d₁ = e₀ := Except.ok.inj (hdeposit.after.symm.trans hwithdrawal.before)
  have hend : d₀ = e₁ := by
    obtain ⟨hlen, -⟩ := checkAmounts_eq_ok_iff.1 hdeposit.checked
    have hnew : q'.newAmounts = List.zipWith (· - ·) q.newAmounts amounts :=
      (subs_eq_ok hwithdrawal.left).1
    have hback : q'.newAmounts = p.amounts := by
      rw [hnew, hdeposit.newAmounts_eq,
        zipWith_sub_zipWith_add (hp.amounts_length.trans hlen.symm)]
    have hafter := hwithdrawal.after
    rw [hback] at hafter
    exact Except.ok.inj (hdeposit.before.symm.trans hafter)
  subst hstart hend
  have hsupply : p.shares.totalSupply + q.value ≤ l.totalSupply := by
    have hsettled := Ledger.totalSupply_of_settle hl
    have hadmin : 0 ≤ total (q.adminMints.map Prod.snd) :=
      total_nonneg (List.forall_mem_map.2 fun m hm => ((quoteDeposit_eq_ok hq).2.2 m hm).le)
    simp only [List.map_nil, total_nil, List.map_cons, total_cons] at hsettled
    omega
  exact hwithdrawal.le_value_of_mul_le ha
    (mul_le_of_growth hdeposit.grows.le (hdeposit.value_mul_le ha) hsupply)

/-- An uneven basket, of which twenty shares go to the admin recipient. -/
theorem deposit_taken_back_uneven :
    let c : StableCurve := ⟨[18, 18], 100, .pegged⟩
    let shares : Ledger := ⟨100000, ⟨[("lp", 100000), ("dao", 0)], by decide⟩⟩
    let p : Pool := ⟨["x", "y"], [50000, 50000], 30, shares, [.zero, .zero], .standard, .stable c⟩
    let fees : AdminFees := ⟨10, "dao", 0, none, by decide, by decide, by decide⟩
    let deposit := addStableLiquidity ∅ "lp" [40000, 0] 0 fees false none
    let withdrawal := removeLiquidityByTokens "lp" [40000, 0] 50000 .none false
    let p' := deposit.after p
    let p'' := withdrawal.after p'
    p'.shares.balanceOf "dao" = 20 ∧ p''.amounts = p.amounts ∧
      ∃ minted burned, deposit p = .ok minted p' ∧ withdrawal p' = .ok burned p'' ∧
        minted ≤ burned := by
  intro c shares p fees deposit withdrawal p' p''
  have hp : p.check = .ok () := by decide +kernel
  have hin : deposit.succeeds p = true := by decide +kernel
  have hout : withdrawal.succeeds p' = true := by decide +kernel
  obtain ⟨minted, hin⟩ := Action.eq_ok_of_succeeds hin
  obtain ⟨burned, hout⟩ := Action.eq_ok_of_succeeds hout
  exact ⟨by decide +kernel, by decide +kernel, minted, burned, hin, hout,
    deposit_taken_back hp (by decide) hin hout⟩

end Pool

end SwapPool
