import SwapPool.Proofs.Stable.ImbalanceFee

/-! Amounts that are converted and converted back. Both conversions round down, so
that neither way round gains, and a reserve keeps at least what a payment leaves of
its worth. A balance that is solved for is not negative, so a swap pays for no more
than the worth of the reserve; the bound on its output is never reached. -/

namespace SwapPool

namespace Pool

open StableInvariant (calcD calcY calcD_nonneg calcY_succ_exceeds others_pos places_of_calcY)

section Unbounded

variable {p : Pool} {c : StableCurve} {rates : Option (List Int)} {applied : List Int}
  (hp : p.Admissible) (hc : p.curve = .stable c)
  (hr : c.effectiveRates p.tokens.length rates = .ok applied)
  (hpos : ∀ b ∈ comparables (c.units applied) p.amounts, 0 < b)

include hp hc hr hpos in
theorem solved_nonneg {i j : Nat} {net d y : Int} (hi : i < p.amounts.length) (hnet : 0 ≤ net)
    (hd : calcD c.amp (comparables (c.units applied) p.amounts) p.config = .ok d)
    (h : calcY c.amp (toComparable ((c.units applied).getD i 0) (p.amounts.getD i 0 + net))
      (comparables (c.units applied) p.amounts) i j d p.config = .ok y) : 0 ≤ y := by
  obtain ⟨hlen, hunits⟩ := applied_units_facts hp hc hr
  have ha := one_le_amp hp hc
  have hinput := toComparable_pos_of_le hlen hunits hpos hi
    (by omega : p.amounts.getD i 0 ≤ p.amounts.getD i 0 + net)
  have hd0 : 0 ≤ d := by
    refine calcD_nonneg ha hpos (List.ne_nil_of_length_pos ?_) hd
    rw [length_comparables hlen]
    omega
  exact (calcY_succ_exceeds ha (others_pos hpos hinput i j) hd0 h).1

include hp hc hr hpos in
theorem paid_le_reserve {j : Nat} {y : Int} (hj : j < p.amounts.length) (hy : 0 ≤ y) :
    fromComparable ((c.units applied).getD j 0)
      (max ((comparables (c.units applied) p.amounts).getD j 0 - y - 1) 0) ≤
        p.amounts.getD j 0 := by
  obtain ⟨hlen, hunits⟩ := applied_units_facts hp hc hr
  have hju : j < (c.units applied).length := hlen.symm ▸ hj
  have hold := getD_pos hpos (by rwa [length_comparables hlen])
  rw [getD_comparables hju hj] at hold ⊢
  exact fromComparable_le (getD_pos hunits hju) (max_le (by omega) hold.le)

include hp hc in
/-- A swap is quoted alike without the bound on its output, whether it is answered or refused. -/
theorem quoteSwap_eq_unbounded (i amountIn j : Int) (fees : AdminFees)
    (rates : Option (List Int)) :
    p.quoteSwap c i amountIn j fees rates =
      p.quoteSwapPaying (fun amount _ => amount) c i amountIn j fees rates := by
  unfold quoteSwap quoteSwapPaying
  refine bind_congr fun _ => bind_congr_of_ok fun applied hr => ?_
  by_cases hempty : (comparables (c.units applied) p.amounts).any (· ≤ 0) = true
  · rw [if_pos hempty, if_pos hempty, throw_eq_error, error_bind, error_bind]
  rw [if_neg hempty, if_neg hempty]
  have hpos : ∀ b ∈ comparables (c.units applied) p.amounts, 0 < b := by simpa using hempty
  refine bind_congr fun fee => bind_congr_of_ok fun net hnet => bind_congr_of_ok fun d hd =>
    bind_congr_of_ok fun unitIn hunitIn => bind_congr_of_ok fun reserveIn hreserveIn =>
    bind_congr_of_ok fun y hy => bind_congr_of_ok fun balance hbalance =>
    bind_congr_of_ok fun unit hunit => bind_congr_of_ok fun reserve hreserve => ?_
  -- The places have been checked as the balance was solved for.
  obtain ⟨⟨hi, hi'⟩, hj, hj'⟩ := places_of_calcY hy
  rw [length_comparables (applied_units_facts hp hc hr).1] at hi' hj'
  obtain ⟨i, rfl⟩ := Int.eq_ofNat_of_zero_le hi
  obtain ⟨j, rfl⟩ := Int.eq_ofNat_of_zero_le hj
  obtain ⟨hfee, rfl⟩ := Checked.sub_eq_ok_iff.1 hnet
  rw [← getD_of_item hunitIn, ← getD_of_item hreserveIn] at hy
  have hy0 := solved_nonneg hp hc hr hpos (by omega) (by omega) hd hy
  have hbound := paid_le_reserve hp hc hr hpos (by omega : j < p.amounts.length) hy0
  rw [getD_of_item hbalance, getD_of_item hunit, getD_of_item hreserve] at hbound
  rw [min_eq_left hbound]

end Unbounded

/-- Conversion between raw and comparable units never overpays, at any token of a stable curve and
any positive rate. Neither way round gains, more of either is worth no less of the other, and paying
out what a comparable amount buys back costs the reserve at most that amount. What the worth of a
reserve covers, the reserve covers, so that no quote of a swap depends on the bound on its
output. -/
theorem conversion_never_overpays (c : StableCurve) (token : Nat) {rate : Int} (hr : 0 < rate) :
    let unit := c.unit (c.decimals.getD token 0) rate
    (∀ a, fromComparable unit (toComparable unit a) ≤ a) ∧
      (∀ b, toComparable unit (fromComparable unit b) ≤ b) ∧
      (∀ a a', a ≤ a' → toComparable unit a ≤ toComparable unit a') ∧
      (∀ b b', b ≤ b' → fromComparable unit b ≤ fromComparable unit b') ∧
      (∀ a dy, toComparable unit a - dy ≤ toComparable unit (a - fromComparable unit dy)) ∧
      (∀ a dy, dy ≤ toComparable unit a → fromComparable unit dy ≤ a) ∧
      ∀ p : Pool, p.check = .ok () → p.curve = .stable c → ∀ i amountIn j fees rates,
        p.quoteSwap c i amountIn j fees rates =
          p.quoteSwapPaying (fun amount _ => amount) c i amountIn j fees rates := by
  intro unit
  have hu : 0 < unit := StableCurve.unit_pos hr
  exact ⟨fun a => fromComparable_le hu le_rfl, toComparable_fromComparable_le hu,
    fun _ _ => toComparable_mono hu.le, fun _ _ => fromComparable_mono hu,
    fun a dy => sub_le_toComparable_sub hu le_rfl, fun a dy => fromComparable_le hu,
    fun p hp hc => quoteSwap_eq_unbounded (check_eq_ok_iff.1 hp) hc⟩

/-- A raw unit that is worth a thousand, and one that is worth a third: eight of these are worth two,
and two buy back six. -/
theorem conversion_never_overpays_uneven_rates :
    let c : StableCurve := ⟨[24, 24], 100, .rated [1000 * ratePrecision, ratePrecision / 3]⟩
    let p : Pool := ⟨["x", "y"], [5, 9000], 30, ⟨5000, ⟨[("lp", 5000)], by decide⟩⟩,
      [.zero, .zero], .standard, .stable c⟩
    let unit := c.unit (c.decimals.getD 1 0) (ratePrecision / 3)
    (∀ a, fromComparable unit (toComparable unit a) ≤ a) ∧ toComparable unit 8 = 2 ∧
      fromComparable unit 2 = 6 ∧ (p.quoteSwap c 0 1 1 .none none).isOk = true ∧
      p.quoteSwap c 0 1 1 .none none =
        p.quoteSwapPaying (fun amount _ => amount) c 0 1 1 .none none := by
  intro c p unit
  obtain ⟨hback, -, -, -, -, -, hquote⟩ :=
    conversion_never_overpays c 1 (by decide : 0 < ratePrecision / 3)
  exact ⟨hback, by decide, by decide, by decide +kernel,
    hquote p (by decide +kernel) rfl 0 1 1 .none none⟩

end Pool

end SwapPool
