import SwapPool.Proofs.Pool.Commands
import SwapPool.Proofs.Pool.Coverage

/-! A stable swap loses no invariant. The solved balance errs in favour of the
pool by less than the unit that is held back, and conversions round the same
way, so the reserves after the swap carry the invariant that was found before
it; and they still do without the admin part of the fee, which bounds the shares
minted for that part. -/

namespace SwapPool.Pool

open StableInvariant (calcD calcD_nonneg le_calcD Carries Exceeds calcY_succ_exceeds others_pos)

/-- The invariant of the reserves at the cached rates. -/
def invariant (p : Pool) (c : StableCurve) : Except Fault Int :=
  calcD c.amp (p.comparableReserves c (c.cachedRates p.tokens.length)) p.config

/-- The shares that a swap owes to the admin recipients: what depositing their part of the fee
would mint without a fee. -/
def swapShares (p : Pool) (c : StableCurve) (i : Nat) (x : Int) (newAmounts : List Int)
    (fees : AdminFees) : Except Fault Int := do
  let units := c.units (c.cachedRates p.tokens.length)
  let part := fees.adminPart (Checked.ceiling (x * p.totalFee) feeDivisor) p.totalFee
  let supply := p.shares.totalSupply
  if part = 0 ∨ supply = 0 then return 0
  let without := newAmounts.set i (newAmounts.getD i 0 - part)
  let d₀ ← calcD c.amp (comparables units without) p.config
  let d₁ ← calcD c.amp (comparables units newAmounts) p.config
  return (supply * (d₁ - d₀)).fdiv d₀

section Steps

variable {p : Pool} {c : StableCurve} {i j : Nat} {x : Int} {fees : AdminFees} {q : Quote}
  {fee d y : Int} (hp : p.Admissible) (hc : p.curve = .stable c) (hi : i < p.tokens.length)
  (hj : j < p.tokens.length)
  (h : p.SwapSteps c (c.units (c.cachedRates p.tokens.length)) i x j fees q fee d y)

include hp hc in
theorem one_le_amp : 1 ≤ c.amp :=
  (hp.curve c hc).minAmp_le

include hp hc in
theorem applied_units_facts {rates : Option (List Int)} {applied : List Int}
    (hr : c.effectiveRates p.tokens.length rates = .ok applied) :
    (c.units applied).length = p.amounts.length ∧ ∀ u ∈ c.units applied, 0 < u := by
  have hcurve := hp.curve c hc
  refine ⟨?_, StableCurve.units_pos (StableCurve.applied_facts hcurve hr).2⟩
  rw [StableCurve.length_units_of_applied hcurve hr, hp.amounts_length]

include hp hc in
theorem units_facts : (c.units (c.cachedRates p.tokens.length)).length = p.amounts.length ∧
    ∀ u ∈ c.units (c.cachedRates p.tokens.length), 0 < u := by
  have hcached : c.effectiveRates p.tokens.length none = .ok _ := rfl
  exact applied_units_facts hp hc hcached

include hp hc in
theorem comparables_ne_nil {amounts : List Int} (hl : amounts.length = p.amounts.length) :
    comparables (c.units (c.cachedRates p.tokens.length)) amounts ≠ [] := by
  have hn := hp.two_le_tokens
  rw [← hp.amounts_length, ← hl] at hn
  refine List.ne_nil_of_length_pos ?_
  rw [length_comparables ((units_facts hp hc).1.trans hl.symm)]
  omega

include hp hc h in
theorem SwapSteps.invariant_nonneg : 0 ≤ d :=
  calcD_nonneg (one_le_amp hp hc) h.reserves_pos (comparables_ne_nil hp hc rfl) h.invariant

include hp hc hj h in
theorem SwapSteps.value_le (hv : q.value ≠ 0) : q.value ≤
    fromComparable ((c.units (c.cachedRates p.tokens.length)).getD j 0)
      (toComparable ((c.units (c.cachedRates p.tokens.length)).getD j 0) (p.amounts.getD j 0)
        - y - 1) := by
  obtain ⟨hlen, hpos⟩ := units_facts hp hc
  set units := c.units (c.cachedRates p.tokens.length)
  have hja : j < p.amounts.length := hp.amounts_length.symm ▸ hj
  have hju : j < units.length := hlen.symm ▸ hja
  have ha : 0 ≤ p.amounts.getD j 0 := getD_nonneg hp.amounts_nonneg j
  have hval := h.value_eq
  rw [getD_comparables hju hja] at hval
  set old := toComparable (units.getD j 0) (p.amounts.getD j 0)
  have hdy : 0 < old - y - 1 := by
    by_contra hle
    rw [max_eq_right (not_lt.1 hle), fromComparable, zero_mul, Int.zero_fdiv] at hval
    exact hv (hval.trans (min_eq_left ha))
  rw [max_eq_left hdy.le] at hval
  exact hval.trans_le (min_le_left _ _)

include hp hc hj h in
theorem SwapSteps.succ_le_output (hv : q.value ≠ 0) :
    y + 1 ≤ toComparable ((c.units (c.cachedRates p.tokens.length)).getD j 0)
      (p.amounts.getD j 0 - q.value) := by
  obtain ⟨hlen, hpos⟩ := units_facts hp hc
  have hju : j < (c.units (c.cachedRates p.tokens.length)).length := by
    rw [hlen, hp.amounts_length]
    exact hj
  have hsub := sub_le_toComparable_sub (a := p.amounts.getD j 0) (getD_pos hpos hju)
    (h.value_le hp hc hj hv)
  omega

include hp hc hi h in
/-- With one unit more than was solved for, and the input without its fee, the balances exceed the
invariant found before the swap. -/
theorem SwapSteps.exceeds :
    let units := c.units (c.cachedRates p.tokens.length)
    let input := toComparable (units.getD i 0) (p.amounts.getD i 0 + (x - fee))
    0 < input ∧ 0 ≤ y ∧
      Exceeds c.amp (((comparables units p.amounts).set i input).set j (y + 1)) d := by
  obtain ⟨hlen, hpos⟩ := units_facts hp hc
  have hia : i < p.amounts.length := hp.amounts_length.symm ▸ hi
  have hfee := h.fee_le
  have hin := toComparable_pos_of_le hlen hpos h.reserves_pos hia
    (by omega : p.amounts.getD i 0 ≤ p.amounts.getD i 0 + (x - fee))
  exact ⟨hin, calcY_succ_exceeds (one_le_amp hp hc) (others_pos h.reserves_pos hin i j)
    (h.invariant_nonneg hp hc) h.solved⟩

include hp hc hi hj h in
/-- After the swap the reserves carry the invariant found before it, as soon as the input without
its fee has come in. -/
theorem SwapSteps.carries (hv : q.value ≠ 0) {z : Int}
    (hz : p.amounts.getD i 0 + (x - fee) ≤ z) :
    let new := comparables (c.units (c.cachedRates p.tokens.length))
      ((p.amounts.set i z).set j (p.amounts.getD j 0 - q.value))
    (∀ b ∈ new, 0 < b) ∧ Carries c.amp new d := by
  obtain ⟨hlen, hpos⟩ := units_facts hp hc
  obtain ⟨hxpos, hy, hexceeds⟩ := h.exceeds hp hc hi
  have hout := h.succ_le_output hp hc hj hv
  have hold := h.reserves_pos
  have hne := comparables_ne_nil hp hc (rfl : p.amounts.length = _)
  have hiu : i < (c.units (c.cachedRates p.tokens.length)).length := by
    rw [hlen, hp.amounts_length]
    exact hi
  have hin := toComparable_mono (getD_pos hpos hiu).le hz
  set units := c.units (c.cachedRates p.tokens.length)
  rw [comparables_set, comparables_set]
  have hall := forall₂_set (forall₂_set
    (List.forall₂_same.2 fun (b : Int) (_ : b ∈ comparables units p.amounts) => le_rfl) hin i) hout j
  have hsolved_pos := forall_mem_set (forall_mem_set hold hxpos i) (by omega : 0 < y + 1) j
  refine ⟨forall_mem_set (forall_mem_set hold (hxpos.trans_le hin) i) (by omega) j, ?_⟩
  exact hexceeds.carries.mono (one_le_amp hp hc) (h.invariant_nonneg hp hc) hsolved_pos
    (by simpa using hne) hall

include hp hc hi hj h in
/-- The invariant found after the swap, or after it without some of the fee, is no less. -/
theorem SwapSteps.le_invariant (hv : q.value ≠ 0) {z : Int}
    (hz : p.amounts.getD i 0 + (x - fee) ≤ z) {d' : Int}
    (hd' : calcD c.amp (comparables (c.units (c.cachedRates p.tokens.length))
      ((p.amounts.set i z).set j (p.amounts.getD j 0 - q.value))) p.config = .ok d') : d ≤ d' := by
  obtain ⟨hpos, hcarries⟩ := h.carries hp hc hi hj hv hz
  exact le_calcD (one_le_amp hp hc) hpos (comparables_ne_nil hp hc (by simp))
    (h.invariant_nonneg hp hc) hcarries hd'

include hp h in
theorem SwapSteps.fee_nonneg (hx : 0 < x) : 0 ≤ fee := by
  rw [h.fee_eq]
  exact Checked.ceiling_nonneg (mul_nonneg (mul_nonneg hx.le hp.fee_nonneg) (by decide))

include hp hi hj h in
theorem SwapSteps.newAmounts_eq (hij : i ≠ j) : q.newAmounts =
    (p.amounts.set i (p.amounts.getD i 0 + x)).set j (p.amounts.getD j 0 - q.value) :=
  ((movedAmounts_eq_ok_iff (hp.amounts_length.symm ▸ hi) (hp.amounts_length.symm ▸ hj) hij).1
    h.moved).2

include hp hc hi hj h in
theorem SwapSteps.comparables_pos (hij : i ≠ j) (hx : 0 < x) (hv : q.value ≠ 0) :
    ∀ b ∈ comparables (c.units (c.cachedRates p.tokens.length)) q.newAmounts, 0 < b := by
  have hfee := h.fee_nonneg hp hx
  rw [h.newAmounts_eq hp hi hj hij]
  exact (h.carries hp hc hi hj hv (by omega)).1

include hp hc hi hj h in
theorem SwapSteps.le_invariant_without (hij : i ≠ j) (hv : q.value ≠ 0) {part : Int}
    (hpart : part ≤ fee) {d' : Int} (hd' : calcD c.amp
      (comparables (c.units (c.cachedRates p.tokens.length))
        (q.newAmounts.set i (q.newAmounts.getD i 0 - part))) p.config = .ok d') : d ≤ d' := by
  obtain ⟨hreserve, -⟩ := getD_of_movedAmounts (hp.amounts_length.symm ▸ hi)
    (hp.amounts_length.symm ▸ hj) hij h.moved
  rw [hreserve, h.newAmounts_eq hp hi hj hij, List.set_comm _ _ hij.symm, List.set_set] at hd'
  exact h.le_invariant hp hc hi hj hv (by omega) hd'

include hp hc hi hj h in
/-- What a swap mints for the admin recipients is the split of the shares that it owes them, which
are worth no more than the growth of the invariant. -/
theorem SwapSteps.adminShares (hij : i ≠ j) (hx : 0 < x) (hv : q.value ≠ 0)
    (hs : 0 ≤ p.shares.totalSupply) : ∃ shares, p.swapShares c i x q.newAmounts fees = .ok shares ∧
      0 ≤ shares ∧ (fees.adminRate = 0 → shares = 0) ∧ q.adminMints = fees.splitShares shares ∧
      ∀ d', d ≤ d' → calcD c.amp (comparables (c.units (c.cachedRates p.tokens.length))
        q.newAmounts) p.config = .ok d' → d * shares ≤ p.shares.totalSupply * (d' - d) := by
  have hd := h.invariant_nonneg hp hc
  have hfee := h.fee_nonneg hp hx
  have hpart : 0 ≤ fees.adminPart fee p.totalFee := AdminFees.adminPart_nonneg hfee hp.fee_nonneg
  have hpartle : fees.adminPart fee p.totalFee ≤ fee :=
    AdminFees.adminPart_le hfee hp.fee_nonneg h.validated
  have hout : 0 < q.value :=
    lt_of_le_of_ne (h.value_nonneg hp (units_facts hp hc).2) hv.symm
  unfold swapShares
  rw [← h.fee_eq]
  obtain ⟨hnone, hmints⟩ | ⟨hpos, hsome, d₁, d₂, hd₁, hd₂, hne, hle, hmints⟩ :=
    swapMints_eq_ok h.minted
  · refine ⟨0, if_pos (by omega), le_rfl, fun _ => rfl, hmints, fun d' hle _ => ?_⟩
    rw [mul_zero]
    exact mul_nonneg hs (sub_nonneg.2 hle)
  · have hd₂le : d ≤ d₂ := h.le_invariant_without hp hc hi hj hij hv hpartle hd₂
    have hd₂pos : 0 < d₂ := by omega
    set supply := p.shares.totalSupply
    have hn0 : 0 ≤ (supply * (d₁ - d₂)).fdiv d₂ :=
      Int.fdiv_nonneg (mul_nonneg hs (by omega)) hd₂pos.le
    refine ⟨_, ?_, hn0, fun hrate => ?_, hmints, fun d' _ hd' => ?_⟩
    · simp only [if_neg (by omega : ¬ (fees.adminPart fee p.totalFee = 0 ∨ supply = 0)), hd₁, hd₂,
        ok_bind, pure_eq_ok]
    · exact absurd (AdminFees.adminPart_of_adminFree hrate fee p.totalFee) hpos.ne'
    · obtain rfl : d₁ = d' := Except.ok.inj (hd₁.symm.trans hd')
      calc d * (supply * (d₁ - d₂)).fdiv d₂
          ≤ d₂ * (supply * (d₁ - d₂)).fdiv d₂ := mul_le_mul_of_nonneg_right hd₂le hn0
        _ = (supply * (d₁ - d₂)).fdiv d₂ * d₂ := mul_comm _ _
        _ ≤ supply * (d₁ - d₂) := fdiv_mul_le _ hd₂pos
        _ ≤ supply * (d₁ - d) := mul_le_mul_of_nonneg_left (by omega) hs

include hp hc hi hj h in
theorem SwapSteps.dilution_le (hij : i ≠ j) (hx : 0 < x) (hv : q.value ≠ 0)
    (hs : 0 < p.shares.totalSupply) {d' : Int} (hle : d ≤ d')
    (hd' : calcD c.amp (comparables (c.units (c.cachedRates p.tokens.length))
      q.newAmounts) p.config = .ok d') :
    d * (p.shares.totalSupply + total (q.adminMints.map Prod.snd)) ≤
      d' * p.shares.totalSupply := by
  obtain ⟨shares, -, h0, -, hm, hworth⟩ := h.adminShares hp hc hi hj hij hx hv hs.le
  have hd := h.invariant_nonneg hp hc
  have hminted : total (q.adminMints.map Prod.snd) ≤ shares := hm ▸ fees.total_splitShares_le h0
  set supply := p.shares.totalSupply
  calc d * (supply + total (q.adminMints.map Prod.snd))
      ≤ d * (supply + shares) := mul_le_mul_of_nonneg_left (by omega) hd
    _ = d * supply + d * shares := by ring
    _ ≤ d * supply + supply * (d' - d) := add_le_add_right (hworth d' hle hd') _
    _ = d' * supply := by ring

end Steps

/-- A swap on a stable curve never lowers the invariant, and never lowers the invariant per share,
whatever part of the fee is minted for admin recipients. -/
theorem stable_swap_keeps_invariant {p p' : Pool} {c : StableCurve} (hp : p.check = .ok ())
    (hc : p.curve = .stable c) {limits : Limits} {tokenIn tokenOut : String} {x minimum out : Int}
    {fees : AdminFees} {poolId : Option Int}
    (h : swap limits tokenIn x tokenOut minimum fees false poolId p = .ok out p') :
    p'.curve = .stable c ∧ ∃ d, p.invariant c = .ok d ∧ ∀ d', p'.invariant c = .ok d' →
      d ≤ d' ∧ (0 < p.shares.totalSupply →
        d * p'.shares.totalSupply ≤ d' * p.shares.totalSupply) := by
  replace hp := check_eq_ok_iff.1 hp
  obtain ⟨i, j, q, l, hq, -, hl, rfl⟩ := Command.swap_eq_ok hp h
  unfold curveSwap at hq
  simp only [hc] at hq
  obtain ⟨hij, hx, hv, fee, d, y, hsteps⟩ := quoteStableSwap_eq_ok hq
  obtain ⟨hi, hj, hne⟩ := swapIndices_eq_ok hij
  refine ⟨hc, d, hsteps.invariant, fun d' hd' => ?_⟩
  have hfee := hsteps.fee_nonneg hp hx
  change calcD c.amp (comparables _ q.newAmounts) p.config = .ok d' at hd'
  have hle : d ≤ d' := by
    obtain ⟨-, hnew⟩ := (movedAmounts_eq_ok_iff (hp.amounts_length.symm ▸ hi)
      (hp.amounts_length.symm ▸ hj) hne).1 hsteps.moved
    rw [hnew] at hd'
    exact hsteps.le_invariant hp hc hi hj hv (by omega) hd'
  refine ⟨hle, fun hs => ?_⟩
  have hsupply := Ledger.totalSupply_of_settle hl
  rw [List.map_nil, total_nil, add_zero] at hsupply
  change d * l.totalSupply ≤ d' * p.shares.totalSupply
  rw [hsupply]
  exact hsteps.dilution_le hp hc hi hj hne hx hv hs hle hd'

/-- Three shares are minted for the admin part of the fee, and those that were there lose
nothing. -/
theorem stable_swap_minting_shares :
    let c : StableCurve := ⟨[18, 18], 100, .pegged⟩
    let shares : Ledger := ⟨10000, ⟨[("lp", 10000), ("dao", 0)], by decide⟩⟩
    let p : Pool := ⟨["x", "y"], [5000, 5000], 30, shares, [.zero, .zero], .standard, .stable c⟩
    let fees : AdminFees := ⟨10, "dao", 0, none, by decide, by decide, by decide⟩
    let p' := (swap ∅ "x" 4000 "y" 0 fees false none).after p
    p'.amounts = [9000, 1054] ∧ p'.shares.totalSupply = 10003 ∧
      ∃ d, p.invariant c = .ok d ∧ ∀ d', p'.invariant c = .ok d' → d * 10003 ≤ d' * 10000 := by
  intro c shares p fees p'
  have hs : (swap ∅ "x" 4000 "y" 0 fees false none).succeeds p = true := by decide +kernel
  obtain ⟨out, h⟩ := Action.eq_ok_of_succeeds hs
  obtain ⟨-, d, hd, hle⟩ := stable_swap_keeps_invariant (c := c) (by decide +kernel) rfl h
  have hsupply : p'.shares.totalSupply = 10003 := by decide +kernel
  refine ⟨by decide +kernel, hsupply, d, hd, fun d' hd' => ?_⟩
  have := (hle d' hd').2 (by decide)
  rwa [← hsupply]

end SwapPool.Pool
