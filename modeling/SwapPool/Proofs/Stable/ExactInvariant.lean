import Mathlib.Topology.Instances.Real.Lemmas
import Mathlib.Topology.Order.IntermediateValue
import SwapPool.Proofs.Stable.Solvers

/-! The exact invariant. Cleared of its quotient the equation of the invariant sets
terms that grow with the invariant against a constant, so that it has a positive
solution over the reals, and balances carry, or exceed, an integer exactly if the
solution is at least, or above, it. The solution is at most the sum of the balances,
since none have a larger product for their sum than equal ones. -/

namespace SwapPool.StableInvariant

/-- The inequality between the arithmetic and the geometric mean of the entries. -/
theorem pow_mul_product_le {xs : List Int} (h : ∀ x ∈ xs, 0 ≤ x) :
    (xs.length : Int) ^ xs.length * product xs ≤ total xs ^ xs.length := by
  induction xs with
  | nil => decide
  | cons x xs ih =>
    rw [List.forall_mem_cons] at h
    obtain ⟨hx, hxs⟩ := h
    have hs : 0 ≤ total xs := total_nonneg hxs
    replace ih := ih hxs
    rw [total_cons, product_cons, List.length_cons]
    push_cast
    set m := xs.length
    set s := total xs
    set P := product xs
    obtain hzero | hm := Nat.eq_zero_or_pos m
    · obtain rfl : xs = [] := List.eq_nil_of_length_eq_zero hzero
      simp [s, P, hzero]
    -- The tangent to the power at the mean of the others, scaled by `m (m + 1)`.
    have htangent := tangent_le m (mul_nonneg m.cast_nonneg (add_nonneg hx hs))
      (mul_nonneg (by omega : (0 : Int) ≤ m + 1) hs)
    refine le_of_mul_le_mul_left ?_ (pow_pos (by omega : (0 : Int) < m) (m + 1))
    calc (m : Int) ^ (m + 1) * ((m + 1) ^ (m + 1) * (x * P))
        = m * (m + 1) ^ (m + 1) * x * (m ^ m * P) := by ring
      _ ≤ m * (m + 1) ^ (m + 1) * x * s ^ m :=
          mul_le_mul_of_nonneg_left ih (by positivity)
      _ = (m + 1) * (m * (x + s)) * ((m + 1) * s) ^ m - m * ((m + 1) * s) ^ (m + 1) := by
          rw [mul_pow ((m : Int) + 1), mul_pow ((m : Int) + 1)]
          ring
      _ ≤ (m * (x + s)) ^ (m + 1) := by linarith
      _ = m ^ (m + 1) * (x + s) ^ (m + 1) := mul_pow ..

/-- `D` is the invariant of the balances: the positive solution of its equation. -/
def IsInvariant (amp : Int) (balances : List Int) (D : ℝ) : Prop :=
  let n := balances.length
  0 < D ∧ ann amp n * total balances + D =
    ann amp n * D + D ^ (n + 1) / ((n : ℝ) ^ n * product balances)

/-- The terms of the equation that grow with the invariant, cleared of the quotient. -/
def growing (amp : Int) (balances : List Int) (D : ℝ) : ℝ :=
  let n := balances.length
  D ^ (n + 1) + (n : ℝ) ^ n * product balances * ((ann amp n - 1) * D)

/-- The constant that they are set against. -/
def constant (amp : Int) (balances : List Int) : ℝ :=
  let n := balances.length
  (n : ℝ) ^ n * product balances * (ann amp n * total balances)

section Equation

variable {amp : Int} {balances : List Int} {D : ℝ} {k : Int}

theorem scaledProduct_pos (hb : ∀ x ∈ balances, 0 < x) (hne : balances ≠ []) :
    0 < (balances.length : ℝ) ^ balances.length * product balances := by
  exact_mod_cast scaled_pos hb hne

theorem isInvariant_iff (hb : ∀ x ∈ balances, 0 < x) (hne : balances ≠ []) :
    IsInvariant amp balances D ↔ 0 < D ∧ growing amp balances D = constant amp balances := by
  have hpos := scaledProduct_pos hb hne
  unfold IsInvariant growing constant
  refine and_congr_right fun _ => ?_
  set n := balances.length
  set G := (n : ℝ) ^ n * product balances
  constructor
  · intro h
    have hquotient : D ^ (n + 1) / G = ann amp n * total balances - (ann amp n - 1) * D := by
      linarith
    rw [div_eq_iff hpos.ne'] at hquotient
    linarith
  · intro h
    have hquotient : D ^ (n + 1) / G = ann amp n * total balances - (ann amp n - 1) * D := by
      rw [div_eq_iff hpos.ne']
      linarith
    linarith

theorem carries_iff_growing_le :
    Carries amp balances k ↔ growing amp balances k ≤ constant amp balances := by
  unfold Carries growing constant
  rw [← Int.cast_le (R := ℝ)]
  push_cast
  constructor <;> intro h <;> linarith

theorem exceeds_iff_growing_lt :
    Exceeds amp balances k ↔ growing amp balances k < constant amp balances := by
  unfold Exceeds capacity growing constant
  rw [← Int.cast_lt (R := ℝ)]
  push_cast
  constructor <;> intro h <;> linarith

variable (ha : 1 ≤ amp) (hb : ∀ x ∈ balances, 0 < x) (hne : balances ≠ [])

include ha hb hne

theorem strictMonoOn_growing : StrictMonoOn (growing amp balances) (Set.Ici 0) := by
  have hann : (1 : ℝ) ≤ ann amp balances.length := by
    exact_mod_cast ann_pos ha (List.length_pos_of_ne_nil hne)
  intro x hx y _ hxy
  have hpower : x ^ (balances.length + 1) < y ^ (balances.length + 1) :=
    pow_lt_pow_left₀ hxy hx (by omega)
  have hslope : (ann amp balances.length - 1) * x ≤ (ann amp balances.length - 1) * y :=
    mul_le_mul_of_nonneg_left hxy.le (by linarith)
  exact add_lt_add_of_lt_of_le hpower
    (mul_le_mul_of_nonneg_left hslope (scaledProduct_pos hb hne).le)

/-- Balances carry what their exact invariant is at least. -/
theorem IsInvariant.carries_iff (h : IsInvariant amp balances D) (hk : 0 ≤ k) :
    Carries amp balances k ↔ (k : ℝ) ≤ D := by
  obtain ⟨hD, heq⟩ := (isInvariant_iff hb hne).1 h
  rw [carries_iff_growing_le, ← heq]
  exact (strictMonoOn_growing ha hb hne).le_iff_le (Set.mem_Ici.2 (Int.cast_nonneg hk)) hD.le

/-- Balances exceed what their exact invariant is above. -/
theorem IsInvariant.exceeds_iff (h : IsInvariant amp balances D) (hk : 0 ≤ k) :
    Exceeds amp balances k ↔ (k : ℝ) < D := by
  obtain ⟨hD, heq⟩ := (isInvariant_iff hb hne).1 h
  rw [exceeds_iff_growing_lt, ← heq]
  exact (strictMonoOn_growing ha hb hne).lt_iff_lt (Set.mem_Ici.2 (Int.cast_nonneg hk)) hD.le

/-- Positive balances have an invariant, and it is at most their sum. -/
theorem exists_isInvariant : ∃ D, IsInvariant amp balances D ∧ D ≤ total balances := by
  have hpos := scaledProduct_pos hb hne
  have hsum : (0 : ℝ) < total balances := by exact_mod_cast total_pos hne hb
  have hann : (1 : ℝ) ≤ ann amp balances.length := by
    exact_mod_cast ann_pos ha (List.length_pos_of_ne_nil hne)
  have hzero : growing amp balances 0 = 0 := by simp [growing]
  have hstart : 0 < constant amp balances := mul_pos hpos (mul_pos (by linarith) hsum)
  have hend : constant amp balances ≤ growing amp balances (total balances) := by
    have hmean : (balances.length : ℝ) ^ balances.length * product balances ≤
        (total balances : ℝ) ^ balances.length := by
      exact_mod_cast pow_mul_product_le fun x hx => (hb x hx).le
    have hgrown := mul_le_mul_of_nonneg_right hmean hsum.le
    rw [← pow_succ] at hgrown
    unfold growing constant
    linarith
  have hcontinuous : ContinuousOn (growing amp balances) (Set.Icc 0 (total balances)) := by
    unfold growing
    fun_prop
  obtain ⟨D, ⟨hD, hle⟩, heq⟩ :=
    intermediate_value_Icc hsum.le hcontinuous ⟨hzero.le.trans hstart.le, hend⟩
  have hne0 : D ≠ 0 := by
    rintro rfl
    exact hstart.ne (hzero.symm.trans heq)
  exact ⟨D, (isInvariant_iff hb hne).2 ⟨lt_of_le_of_ne hD hne0.symm, heq⟩, hle⟩

end Equation

/-! ### A balance solved from the invariant -/

section Solved

variable {amp x d y : Int} {balances : List Int} {moved solved : Nat} {config : Config}

/-- Balances that exceed `d` leave its side of the equation short of the other, over any one of
them. -/
theorem Exceeds.equation_lt (h : Exceeds amp ((balances.set moved x).set solved y) d)
    (hsolved : solved < balances.length) (hy : 0 < y)
    (hothers : ∀ z ∈ others balances x moved solved, 0 < z) :
    let n := balances.length
    let rest := others balances x moved solved
    (ann amp n : ℚ) * d + d ^ (n + 1) / ((n : ℚ) ^ n * product rest * y) <
      ann amp n * (total rest + y) + d := by
  intro n rest
  have hlen : 0 < n := by omega
  have hproduct : 0 < product rest := product_pos hothers
  have hscaled : (0 : ℚ) < (n : ℚ) ^ n * product rest * y := by positivity
  unfold Exceeds capacity at h
  simp only [List.length_set] at h
  rw [total_solved hsolved, product_solved hsolved, ← Int.cast_lt (R := ℚ)] at h
  push_cast at h
  have hquotient : (d : ℚ) ^ (n + 1) / ((n : ℚ) ^ n * product rest * y) <
      ann amp n * (y + total rest) - (ann amp n - 1) * d := by
    rw [div_lt_iff₀ hscaled]
    linarith
  linarith

/-- With one unit more than `calcY` answers, the equation of the invariant stands above equality, and
the exact invariant of the balances above the one that they were solved for, wherever the iteration
starts from and stops. Only the balances that stay, and the one that moved, need be positive. -/
theorem calcY_favours_pool (ha : 1 ≤ amp)
    (hothers : ∀ z ∈ others balances x moved solved, 0 < z) (hd : 0 < d)
    (h : calcY amp x balances moved solved d config = .ok y) :
    let n := balances.length
    let rest := others balances x moved solved
    0 ≤ y ∧
      (ann amp n : ℚ) * d + d ^ (n + 1) / ((n : ℚ) ^ n * product rest * (y + 1)) <
        ann amp n * (total rest + y + 1) + d ∧
      (∃ D, IsInvariant amp ((balances.set moved x).set solved (y + 1)) D) ∧
      ∀ D, IsInvariant amp ((balances.set moved x).set solved (y + 1)) D → d < D := by
  intro n rest
  have hsolved : solved < balances.length := by exact_mod_cast (places_of_calcY h).2.2
  obtain ⟨hy, hexceeds⟩ := calcY_succ_exceeds ha hothers hd.le h
  have hpos := solved_pos hothers (by omega : 0 < y + 1)
  have hne : (balances.set moved x).set solved (y + 1) ≠ [] :=
    List.ne_nil_of_length_pos (by simp only [List.length_set]; omega)
  refine ⟨hy, ?_, ?_, fun D hD => (hD.exceeds_iff ha hpos hne hd.le).1 hexceeds⟩
  · have hequation := hexceeds.equation_lt hsolved (by omega) hothers
    push_cast at hequation
    rwa [← add_assoc] at hequation
  · obtain ⟨D, hD, -⟩ := exists_isInvariant ha hpos hne
    exact ⟨D, hD⟩

/-- The iteration starts below the solution here. -/
theorem calcY_favours_pool_start_below :
    calcY 1 7 [700, 900, 1500] 0 2 4000 .standard = .ok 9082 ∧
      (∃ D, IsInvariant 1 [7, 900, 9083] D) ∧ ∀ D, IsInvariant 1 [7, 900, 9083] D → 4000 < D := by
  have hanswer : calcY 1 7 [700, 900, 1500] (0 : Nat) (2 : Nat) 4000 .standard = .ok 9082 := by
    decide +kernel
  obtain ⟨-, -, hsolved, habove⟩ :=
    calcY_favours_pool (by decide) (by decide) (by decide) hanswer
  exact ⟨hanswer, hsolved, fun D hD => by exact_mod_cast habove D hD⟩

end Solved

end SwapPool.StableInvariant
