import Mathlib.Algebra.Order.Field.Basic
import Mathlib.Data.Rat.Cast.Order
import Mathlib.Order.Bounds.Defs
import Mathlib.Tactic.Ring
import SwapPool.ConstantProduct
import SwapPool.Proofs.Number.Product
import SwapPool.Proofs.Number.Quotient
import SwapPool.Proofs.Number.Root
import SwapPool.Proofs.Outcome

/-! What a constant-product pool owes for its growth. The invariant is the greatest
integer whose power is within the product of the reserves. The shares that its
growth owes are a floored quotient too, and bounded so that the part of the
recipients in the new supply stays within their part of the growth; the supply
grows at most as the invariant does. -/

namespace SwapPool.ConstantProduct

/-! ### The invariant -/

section Invariant

variable {reserves : List Int} {r k : Int}

theorem invariant_of_nonneg (h : ∀ r ∈ reserves, 0 ≤ r) (hne : reserves ≠ []) :
    invariant reserves = .ok (Root.floorRoot reserves.length (product reserves).toNat) := by
  have hlen := List.length_pos_of_ne_nil hne
  rw [invariant, integerRoot_of_nonneg (product_nonneg h) (by omega), Int.toNat_natCast]

theorem invariant_nonneg (h : invariant reserves = .ok r) : 0 ≤ r := by
  simp only [invariant, integerRoot, unless_eq_ok_iff, Except.ok.injEq] at h
  omega

/-- The invariant is the greatest integer whose power is within the product of the reserves. -/
theorem le_invariant_iff (h : ∀ r ∈ reserves, 0 ≤ r) (hne : reserves ≠ [])
    (hr : invariant reserves = .ok r) (hk : 0 ≤ k) :
    k ≤ r ↔ k ^ reserves.length ≤ product reserves := by
  obtain ⟨k, rfl⟩ := Int.eq_ofNat_of_zero_le hk
  obtain ⟨prod, hprod⟩ := Int.eq_ofNat_of_zero_le (product_nonneg h)
  rw [invariant_of_nonneg h hne, Except.ok.injEq, hprod] at hr
  rw [hprod, ← hr, Int.toNat_natCast]
  exact_mod_cast Root.le_floorRoot_iff (List.length_pos_of_ne_nil hne)

theorem pow_invariant_le (h : ∀ r ∈ reserves, 0 ≤ r) (hne : reserves ≠ [])
    (hr : invariant reserves = .ok r) : r ^ reserves.length ≤ product reserves :=
  (le_invariant_iff h hne hr (invariant_nonneg hr)).1 le_rfl

theorem lt_succ_invariant_pow (h : ∀ r ∈ reserves, 0 ≤ r) (hne : reserves ≠ [])
    (hr : invariant reserves = .ok r) : product reserves < (r + 1) ^ reserves.length := by
  have h0 := invariant_nonneg hr
  rw [← not_le, ← le_invariant_iff h hne hr (by omega)]
  omega

theorem invariant_pos (h : ∀ r ∈ reserves, 0 < r) (hne : reserves ≠ [])
    (hr : invariant reserves = .ok r) : 0 < r := by
  have hprod := product_pos h
  have hone : (1 : Int) ≤ r := by
    rw [le_invariant_iff (fun r hm => (h r hm).le) hne hr zero_le_one, one_pow]
    exact hprod
  exact hone

end Invariant

/-! ### The shares of the admin recipients -/

/-- The current invariant less the admin part of its growth, in parts of the total fee. -/
def keptInvariant (previous current rate total : Int) : Int :=
  current * (total - rate) + previous * rate

section Shares

variable {P : Fault → Prop} {supply previous current rate total shares : Int}

/-- Nothing is owed without a fee, or without an admin part of it. -/
theorem protocolFeeShares_of_free (h : rate = 0 ∨ total = 0) :
    protocolFeeShares supply previous current rate total = .ok 0 := by
  rw [protocolFeeShares, if_pos (.inr h)]

/-- Nothing is owed without growth. -/
theorem protocolFeeShares_of_le (h : current ≤ previous) :
    protocolFeeShares supply previous current rate total = .ok 0 := by
  rw [protocolFeeShares, if_pos h, ite_self]

theorem protocolFeeShares_eq_ok
    (h : protocolFeeShares supply previous current rate total = .ok shares) :
    shares = 0 ∨ previous < current ∧ rate ≠ 0 ∧ rate ≤ total ∧
      shares = (supply * (current - previous) * rate).fdiv
        (keptInvariant previous current rate total) := by
  simp only [protocolFeeShares] at h
  split at h
  · exact .inl (Except.ok.inj h).symm
  · split at h
    · exact .inl (Except.ok.inj h).symm
    · simp only [bind_eq_ok_iff, Checked.sub_eq_ok_iff, Checked.quot_eq_ok_iff] at h
      obtain ⟨_, ⟨-, rfl⟩, _, ⟨hrest, rfl⟩, -, rfl⟩ := h
      exact .inr ⟨by omega, by omega, hrest, rfl⟩

theorem keptInvariant_pos (hprev : 0 < previous) (hle : previous ≤ current) (hrate : 0 < rate)
    (htotal : rate ≤ total) : 0 < keptInvariant previous current rate total :=
  add_pos_of_nonneg_of_pos (mul_nonneg (by omega) (by omega)) (mul_pos hprev hrate)

/-- What is kept of a growth is at least the invariant before it. -/
theorem previous_mul_le_kept (hle : previous ≤ current) (htotal : rate ≤ total) :
    previous * total ≤ keptInvariant previous current rate total := by
  have hgrowth : 0 ≤ (current - previous) * (total - rate) := mul_nonneg (by omega) (by omega)
  unfold keptInvariant
  linarith

theorem protocolFeeShares_nonneg (hs : 0 ≤ supply) (hprev : 0 ≤ previous) (hrate : 0 ≤ rate)
    (h : protocolFeeShares supply previous current rate total = .ok shares) : 0 ≤ shares := by
  obtain rfl | ⟨hgrowth, -, hrest, rfl⟩ := protocolFeeShares_eq_ok h
  · exact le_rfl
  · refine Int.fdiv_nonneg (mul_nonneg (mul_nonneg hs (by omega)) hrate) ?_
    exact add_nonneg (mul_nonneg (by omega) (by omega)) (mul_nonneg hprev hrate)

/-- Where there is a growth and an admin part of it, the shares are the quotient by what is kept. -/
theorem protocolFeeShares_of_growth (hs : supply ≠ 0) (hprev : 0 < previous)
    (hgrowth : previous < current) (hrate : 0 < rate) (htotal : rate ≤ total) :
    protocolFeeShares supply previous current rate total =
      .ok ((supply * (current - previous) * rate).fdiv
        (keptInvariant previous current rate total)) := by
  have hkept := keptInvariant_pos hprev hgrowth.le hrate htotal
  rw [protocolFeeShares, if_neg (by omega), if_neg (not_le.2 hgrowth),
    Checked.sub_eq_ok_iff.2 ⟨hgrowth.le, rfl⟩, Checked.sub_eq_ok_iff.2 ⟨htotal, rfl⟩]
  exact Checked.quot_eq_ok_iff.2 ⟨hkept.ne', rfl⟩

/-- The admin part of a growth has a positive divisor as long as the invariant was positive. -/
theorem failsWithin_protocolFeeShares (hprev : 0 < previous) (hrate : 0 ≤ rate)
    (hle : rate ≤ total) :
    FailsWithin P (protocolFeeShares supply previous current rate total) := by
  by_cases hfree : supply = 0 ∨ rate = 0 ∨ total = 0
  · rw [protocolFeeShares, if_pos hfree]
    exact failsWithin_ok _
  obtain hfallen | hgrowth := le_or_gt current previous
  · rw [protocolFeeShares_of_le hfallen]
    exact failsWithin_ok _
  · rw [protocolFeeShares_of_growth (by omega) hprev hgrowth (by omega) hle]
    exact failsWithin_ok _

variable (hs : 0 ≤ supply) (hprev : 0 < previous) (hle : previous ≤ current) (hrate : 0 ≤ rate)
  (htotal : rate ≤ total)

include hs hprev hle hrate htotal

/-- The recipients' part of the new supply is within the admin part of the growth. -/
theorem supply_mul_kept_le
    (h : protocolFeeShares supply previous current rate total = .ok shares) :
    (supply + shares) * keptInvariant previous current rate total ≤ supply * current * total := by
  have hshares : shares * keptInvariant previous current rate total ≤
      supply * (current - previous) * rate := by
    obtain rfl | ⟨-, hne, -, rfl⟩ := protocolFeeShares_eq_ok h
    · rw [zero_mul]
      exact mul_nonneg (mul_nonneg hs (by omega)) hrate
    · exact fdiv_mul_le _ (keptInvariant_pos hprev hle (by omega) htotal)
  calc (supply + shares) * keptInvariant previous current rate total
      = supply * keptInvariant previous current rate total +
          shares * keptInvariant previous current rate total := add_mul ..
    _ ≤ supply * keptInvariant previous current rate total +
          supply * (current - previous) * rate := by omega
    _ = supply * current * total := by
      unfold keptInvariant
      ring

/-- The supply grows at most as the invariant does. -/
theorem previous_mul_supply_le
    (h : protocolFeeShares supply previous current rate total = .ok shares) :
    previous * (supply + shares) ≤ current * supply := by
  have hnonneg := protocolFeeShares_nonneg hs hprev.le hrate h
  obtain rfl | ⟨-, hne, -, -⟩ := protocolFeeShares_eq_ok h
  · rw [add_zero]
    exact mul_le_mul_of_nonneg_right hle hs
  · have ht : 0 < total := by omega
    refine le_of_mul_le_mul_right ?_ ht
    calc previous * (supply + shares) * total
        = (supply + shares) * (previous * total) := by ring
      _ ≤ (supply + shares) * keptInvariant previous current rate total :=
          mul_le_mul_of_nonneg_left (previous_mul_le_kept hle htotal) (by omega)
      _ ≤ supply * current * total := supply_mul_kept_le hs hprev hle hrate htotal h
      _ = current * supply * total := by ring

end Shares

/-! ### The cut of a growth -/

section Cut

variable {supply previous current rate total s : Int}

/-- In the supply with `s` shares more, the part that these are is within the admin part of the
growth, cleared of the divisors. -/
def WithinCut (supply previous current rate total s : Int) : Prop :=
  s * current * total ≤ (supply + s) * (current - previous) * rate

/-- The shares stand on both sides of the bound; brought to one they are a multiple of what is
kept. -/
theorem withinCut_iff_mul_kept_le : WithinCut supply previous current rate total s ↔
    s * keptInvariant previous current rate total ≤ supply * (current - previous) * rate := by
  have hkept : s * keptInvariant previous current rate total =
      s * current * total - s * (current - previous) * rate := by
    unfold keptInvariant
    ring
  rw [WithinCut, hkept, add_mul, add_mul, sub_le_iff_le_add]

theorem withinCut_iff_part_le (hs : 0 < supply + s) (hcurrent : 0 < current) (htotal : 0 < total) :
    WithinCut supply previous current rate total s ↔
      (s : ℚ) / (supply + s) ≤ rate / total * ((current - previous) / current) := by
  have hs' : (0 : ℚ) < supply + s := by exact_mod_cast hs
  have hdiv : (0 : ℚ) < total * current := by exact_mod_cast mul_pos htotal hcurrent
  rw [div_mul_div_comm, div_le_div_iff₀ hs' hdiv, WithinCut, ← Int.cast_le (R := ℚ)]
  push_cast
  rw [mul_assoc (s : ℚ), mul_comm (current : ℚ), mul_assoc ((supply : ℚ) + s),
    mul_comm ((current : ℚ) - previous), mul_comm ((rate : ℚ) * _)]

/-- The recipients get as many shares as their part of the growth covers, and no more: one share
more would be a larger part of the supply than the admin part of the growth. The supply grows at
most as the invariant does. -/
theorem fee_shares_take_the_cut (hs : 0 < supply) (hprev : 1 ≤ previous)
    (hgrowth : previous < current) (hrate : 0 < rate) (htotal : rate ≤ total) :
    ∃ shares, protocolFeeShares supply previous current rate total = .ok shares ∧
      IsGreatest {s | s * current * total ≤ (supply + s) * (current - previous) * rate} shares ∧
      (shares : ℚ) / (supply + shares) ≤ rate / total * ((current - previous) / current) ∧
      rate / total * ((current - previous) / current) < (shares + 1 : ℚ) / (supply + (shares + 1)) ∧
      (supply + shares) * previous ≤ supply * current := by
  have hanswer := protocolFeeShares_of_growth hs.ne' hprev hgrowth hrate htotal
  have hkept := keptInvariant_pos hprev hgrowth.le hrate htotal
  have hnonneg := protocolFeeShares_nonneg hs.le (by omega) hrate.le hanswer
  have hdilution := previous_mul_supply_le hs.le hprev hgrowth.le hrate.le htotal hanswer
  set shares := (supply * (current - previous) * rate).fdiv
    (keptInvariant previous current rate total) with hshares
  have hcut (s : Int) : WithinCut supply previous current rate total s ↔ s ≤ shares := by
    rw [withinCut_iff_mul_kept_le, hshares, le_fdiv_iff hkept]
  refine ⟨shares, hanswer, ⟨(hcut shares).2 le_rfl, fun s => (hcut s).1⟩, ?_, ?_, ?_⟩
  · exact (withinCut_iff_part_le (by omega) (by omega) (by omega)).1 ((hcut shares).2 le_rfl)
  · have hmore := mt (hcut (shares + 1)).1 (not_le.2 (lt_add_one shares))
    rw [withinCut_iff_part_le (by omega) (by omega) (by omega), not_le] at hmore
    exact_mod_cast hmore
  · linarith

/-- A growth by a tenth of which a sixth is owed, and one that is owed whole. -/
theorem fee_shares_take_the_cut_sixth_and_whole :
    protocolFeeShares 1000 100 110 5 30 = .ok 15 ∧ (1000 + 15) * 100 ≤ (1000 * 110 : Int) ∧
      protocolFeeShares 1000 100 110 30 30 = .ok 100 ∧
      (1000 + 100) * 100 ≤ (1000 * 110 : Int) := by
  have hgrowth : (100 : Int) < 110 := by decide
  obtain ⟨part, hpart, -, -, -, hdilution⟩ :=
    fee_shares_take_the_cut (by decide : (0 : Int) < 1000) (by decide) hgrowth
      (by decide : (0 : Int) < 5) (by decide : (5 : Int) ≤ 30)
  obtain ⟨whole, hwhole, -, -, -, hdilution'⟩ :=
    fee_shares_take_the_cut (by decide : (0 : Int) < 1000) (by decide) hgrowth
      (by decide : (0 : Int) < 30) (le_refl (30 : Int))
  obtain rfl : 15 = part := Except.ok.inj hpart
  obtain rfl : 100 = whole := Except.ok.inj hwhole
  exact ⟨hpart, hdilution, hwhole, hdilution'⟩

end Cut

end SwapPool.ConstantProduct
