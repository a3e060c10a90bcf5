import Mathlib.Tactic.Linarith
import SwapPool.Number.Checked

/-! What a rounded quotient promises. A quotient rounded down is the greatest
integer whose product with the divisor stays within the dividend, and a ceiling
the least whose product reaches it; all bounds on prices and shares are drawn
from these two. -/

namespace SwapPool

theorem le_fdiv_iff {a b k : Int} (hb : 0 < b) : k ≤ a.fdiv b ↔ k * b ≤ a := by
  rw [Int.fdiv_eq_ediv_of_nonneg a hb.le]
  exact Int.le_ediv_iff_mul_le hb

theorem fdiv_mul_le (a : Int) {b : Int} (hb : 0 < b) : a.fdiv b * b ≤ a :=
  (le_fdiv_iff hb).1 le_rfl

/-- A quotient rounded down is within any bound that the exact one is within. -/
theorem fdiv_le_of_le_mul {a b k : Int} (hb : 0 < b) (h : a ≤ k * b) : a.fdiv b ≤ k := by
  have hf := fdiv_mul_le a hb
  by_contra hk
  have : (k + 1) * b ≤ a.fdiv b * b := mul_le_mul_of_nonneg_right (by omega) hb.le
  linarith

theorem fdiv_mono {a a' b : Int} (hb : 0 < b) (h : a ≤ a') : a.fdiv b ≤ a'.fdiv b := by
  rw [le_fdiv_iff hb]
  exact (fdiv_mul_le a hb).trans h

/-- A factor that the change of a quantity and the quantity share cancels. -/
theorem fdiv_scaled {n : Int} (hn : 0 < n) (supply x y z : Int) :
    (supply * (n * x - n * y)).fdiv (n * z) = (supply * (x - y)).fdiv z := by
  rw [← mul_sub, mul_left_comm, Int.mul_fdiv_mul_of_pos _ _ hn]

namespace Checked

theorem ceiling_scaled {n : Int} (hn : 0 < n) (supply x y z : Int) :
    ceiling (supply * (n * x - n * y)) (n * z) = ceiling (supply * (x - y)) z := by
  rw [ceiling, ← mul_sub, mul_left_comm, ← mul_neg, Int.mul_fdiv_mul_of_pos _ _ hn]
  rfl

theorem le_ceiling_mul (a : Int) {b : Int} (hb : 0 < b) : a ≤ ceiling a b * b := by
  have hf := fdiv_mul_le (-a) hb
  unfold ceiling
  linarith

/-- A ceiling is less than one above the exact quotient. -/
theorem ceiling_mul_lt (a : Int) {b : Int} (hb : 0 < b) : ceiling a b * b < a + b := by
  have hf : -a < ((-a).fdiv b + 1) * b := Int.lt_fdiv_add_one_mul_self _ hb
  unfold ceiling
  linarith

theorem ceiling_le_iff {a b k : Int} (hb : 0 < b) : ceiling a b ≤ k ↔ a ≤ k * b := by
  rw [ceiling, neg_le, le_fdiv_iff hb, neg_mul, neg_le_neg_iff]

/-- A ceiling is not negative where dividend and divisor are on the same side of zero. -/
theorem ceiling_nonneg {a b : Int} (h : 0 ≤ a * b) : 0 ≤ ceiling a b := by
  have hf : (-a).fdiv b ≤ 0 := by
    rcases lt_trichotomy b 0 with hb | rfl | hb
    · have ha : a ≤ 0 := by
        by_contra ha
        have := mul_neg_of_pos_of_neg (not_le.1 ha) hb
        omega
      rw [← Int.neg_fdiv_neg, neg_neg]
      exact fdiv_le_of_le_mul (by omega) (by omega)
    · exact (Int.fdiv_zero _).le
    · exact fdiv_le_of_le_mul hb (by have := nonneg_of_mul_nonneg_left h hb; omega)
  unfold ceiling
  omega

end Checked

end SwapPool
