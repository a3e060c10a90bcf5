import Mathlib.Algebra.Order.Ring.Pow
import Mathlib.Tactic.Linarith
import Mathlib.Tactic.Positivity
import Mathlib.Tactic.Ring
import SwapPool.Number.Root

/-! Newton's descent to a root. No step passes below an integer whose power is at
most `x`, since the step is a tangent of a convex power, and a step that does not
fall is taken from an integer whose power is at most `x`; so the descent stops at
the greatest one, and the two searches by units that follow find nothing to do. -/

namespace SwapPool

/-- The inequality between weighted arithmetic and geometric means that every Newton step for a
root rests on. -/
theorem tangent_le (n : Nat) {d e : Int} (hd : 0 ≤ d) (he : 0 ≤ e) :
    (n + 1) * d * e ^ n ≤ d ^ (n + 1) + n * e ^ (n + 1) := by
  induction n with
  | zero => simp
  | succ n ih =>
    have hsq : 0 ≤ (n + 1) * e ^ n * (e - d) ^ 2 :=
      mul_nonneg (mul_nonneg (by positivity) (pow_nonneg he n)) (sq_nonneg _)
    have hd' := mul_le_mul_of_nonneg_left ih hd
    push_cast
    calc ((n : Int) + 1 + 1) * d * e ^ (n + 1)
        = d * ((n + 1) * d * e ^ n) + (n + 1) * e ^ n * (e * e - (e - d) ^ 2)
            - n * d * e ^ (n + 1) := by ring
      _ ≤ d * (d ^ (n + 1) + n * e ^ (n + 1)) + (n + 1) * e ^ n * (e * e)
            - n * d * e ^ (n + 1) := by linarith
      _ = d ^ (n + 1 + 1) + (n + 1) * e ^ (n + 1 + 1) := by ring

namespace Root

variable {n x r k : Nat}

theorem start_pos (n x : Nat) : 1 ≤ start n x := Nat.pow_pos (by decide)

/-- A step from above or below lands no lower than the root. -/
theorem le_step (hn : 1 ≤ n) (hr : 1 ≤ r) (hk : k ^ n ≤ x) : k ≤ step n x r := by
  obtain ⟨m, rfl⟩ : ∃ m, n = m + 1 := ⟨n - 1, by omega⟩
  have htangent : (m + 1) * k * r ^ m ≤ k ^ (m + 1) + m * r ^ (m + 1) := by
    exact_mod_cast tangent_le m (Int.natCast_nonneg k) (Int.natCast_nonneg r)
  have hquotient : k * (m + 1) - m * r ≤ x / r ^ m := by
    rw [Nat.le_div_iff_mul_le (Nat.pow_pos hr), Nat.sub_mul]
    have hleft : k * (m + 1) * r ^ m = (m + 1) * k * r ^ m := by ring
    have hright : m * r * r ^ m = m * r ^ (m + 1) := by ring
    omega
  change k ≤ (m * r + x / r ^ m) / (m + 1)
  rw [Nat.le_div_iff_mul_le (by omega)]
  omega

theorem step_pos (hn : 1 ≤ n) (hx : 1 ≤ x) (hr : 1 ≤ r) : 1 ≤ step n x r :=
  le_step hn hr (by rwa [one_pow])

/-- A step that does not fall is taken from within the root. -/
theorem pow_le_of_le_step (hn : 1 ≤ n) (hr : 1 ≤ r) (h : r ≤ step n x r) : r ^ n ≤ x := by
  obtain ⟨m, rfl⟩ : ∃ m, n = m + 1 := ⟨n - 1, by omega⟩
  change r ≤ (m * r + x / r ^ m) / (m + 1) at h
  rw [Nat.le_div_iff_mul_le (by omega), Nat.mul_succ, Nat.mul_comm r m] at h
  have hquotient : r ≤ x / r ^ m := by omega
  rw [Nat.le_div_iff_mul_le (Nat.pow_pos hr)] at hquotient
  rwa [pow_succ']

/-- From a start that is not below it, the descent ends at the greatest integer whose power is at
most `x`. -/
theorem le_descend_iff (hn : 2 ≤ n) (hx : 1 ≤ x) (hr : 1 ≤ r) (hstart : ∀ k, k ^ n ≤ x → k ≤ r) :
    k ≤ descend n x r ↔ k ^ n ≤ x := by
  induction r using descend.induct n x with
  | case1 r hlt ih =>
    rw [descend, if_pos hlt]
    exact ih (step_pos (by omega) hx hr) fun k hk => le_step (by omega) hr hk
  | case2 r hlt =>
    rw [descend, if_neg hlt]
    refine ⟨fun hk => ?_, hstart k⟩
    exact (Nat.pow_le_pow_left hk n).trans (pow_le_of_le_step (by omega) hr (not_lt.1 hlt))

theorem lower_of_pow_le (h : r ^ n ≤ x) : lower n x r = r := by
  cases r with
  | zero => rfl
  | succ r => exact if_neg h.not_gt

theorem raise_of_lt_succ_pow (h : x < (r + 1) ^ n) : raise n x r = r := by
  rw [raise, if_neg fun hle => h.not_ge hle.2]

theorem lt_start_pow (hn : 1 ≤ n) (x : Nat) : x < start n x ^ n := by
  have hexponent : x.log2 + n < (x.log2 + n) / n * n + n := Nat.lt_div_mul_add hn
  calc x < 2 ^ (x.log2 + 1) := Nat.lt_log2_self
    _ ≤ 2 ^ ((x.log2 + n) / n * n) := Nat.pow_le_pow_right (by decide) (by omega)
    _ = start n x ^ n := pow_mul 2 _ n

theorem floorRoot_of_trivial (h : x < 2 ∨ n = 1) : floorRoot n x = x := by
  rw [floorRoot, if_pos]
  simpa using h

theorem le_descend_start_iff (hn : 2 ≤ n) (hx : 1 ≤ x) :
    k ≤ descend n x (start n x) ↔ k ^ n ≤ x := by
  refine le_descend_iff hn hx (start_pos n x) fun k hk => ?_
  have hlt : k ^ n < start n x ^ n := hk.trans_lt (lt_start_pow (by omega) x)
  exact (lt_of_pow_lt_pow_left₀ n (Nat.zero_le _) hlt).le

/-- The descent alone comes to the root. -/
theorem floorRoot_eq_descend (hn : 2 ≤ n) (hx : 2 ≤ x) :
    floorRoot n x = descend n x (start n x) := by
  have hbelow : descend n x (start n x) ^ n ≤ x := (le_descend_start_iff hn (by omega)).1 le_rfl
  have habove : x < (descend n x (start n x) + 1) ^ n :=
    not_le.1 (mt (le_descend_start_iff hn (by omega)).2 (by omega))
  have hsmall : ¬ (x < 2 || n = 1) = true := by simp; omega
  rw [floorRoot, if_neg hsmall, lower_of_pow_le hbelow, raise_of_lt_succ_pow habove]

/-- The root is the greatest integer whose power is at most `x`. -/
theorem le_floorRoot_iff (hn : 1 ≤ n) : k ≤ floorRoot n x ↔ k ^ n ≤ x := by
  by_cases htrivial : x < 2 ∨ n = 1
  · rw [floorRoot_of_trivial htrivial]
    rcases htrivial with hx | rfl
    · -- Zero and one are their own powers.
      have hself : x ^ n = x := by
        rcases (by omega : x = 0 ∨ x = 1) with rfl | rfl
        · exact Nat.zero_pow hn
        · exact Nat.one_pow n
      refine ⟨fun hk => (Nat.pow_le_pow_left hk n).trans_eq hself, fun hk => ?_⟩
      rw [← Nat.pow_le_pow_iff_left (by omega : n ≠ 0), hself]
      exact hk
    · rw [pow_one]
  · rw [floorRoot_eq_descend (by omega) (by omega)]
    exact le_descend_start_iff (by omega) (by omega)

end Root

theorem integerRoot_of_nonneg {x n : Int} (hx : 0 ≤ x) (hn : 0 < n) :
    integerRoot x n = .ok (Root.floorRoot n.toNat x.toNat) := by
  rw [integerRoot, if_neg (by omega), if_neg (by omega)]

end SwapPool
