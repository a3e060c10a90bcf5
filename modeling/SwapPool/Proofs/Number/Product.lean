import Mathlib.Data.List.Forall2
import Mathlib.Data.List.GetD
import Mathlib.Tactic.Linarith
import Mathlib.Tactic.Ring
import SwapPool.Number.Checked

/-! Sums and products of lists under change. Raising entries raises both, a
change of one entry is read off the list without it, and scaling every entry
scales the product by a power. -/

namespace SwapPool

theorem total_nonneg {xs : List Int} (h : ∀ x ∈ xs, 0 ≤ x) : 0 ≤ total xs := by
  induction xs with
  | nil => decide
  | cons x xs ih =>
    rw [List.forall_mem_cons] at h
    exact add_nonneg h.1 (ih h.2)

theorem total_map_nonneg {α : Type} {f : α → Int} {xs : List α} (h : ∀ x ∈ xs, 0 ≤ f x) :
    0 ≤ total (xs.map f) :=
  total_nonneg (List.forall_mem_map.2 h)

theorem total_pos {xs : List Int} (hne : xs ≠ []) (h : ∀ x ∈ xs, 0 < x) : 0 < total xs := by
  cases xs with
  | nil => exact absurd rfl hne
  | cons x xs =>
    rw [List.forall_mem_cons] at h
    exact add_pos_of_pos_of_nonneg h.1 (total_nonneg fun y hy => (h.2 y hy).le)

theorem le_total_of_mem {xs : List Int} {x : Int} (h : ∀ y ∈ xs, 0 ≤ y) (hx : x ∈ xs) :
    x ≤ total xs := by
  induction xs with
  | nil => exact absurd hx List.not_mem_nil
  | cons y ys ih =>
    rw [List.forall_mem_cons] at h
    rw [total_cons]
    rcases List.mem_cons.1 hx with rfl | hx
    · have := total_nonneg h.2
      omega
    · have := ih h.2 hx
      omega

theorem total_eq_zero {xs : List Int} (h : ∀ x ∈ xs, x = 0) : total xs = 0 := by
  induction xs with
  | nil => rfl
  | cons x xs ih =>
    rw [List.forall_mem_cons] at h
    rw [total_cons, h.1, ih h.2, add_zero]

theorem product_nonneg {xs : List Int} (h : ∀ x ∈ xs, 0 ≤ x) : 0 ≤ product xs := by
  induction xs with
  | nil => decide
  | cons x xs ih =>
    rw [List.forall_mem_cons] at h
    exact mul_nonneg h.1 (ih h.2)

theorem product_pos {xs : List Int} (h : ∀ x ∈ xs, 0 < x) : 0 < product xs := by
  induction xs with
  | nil => decide
  | cons x xs ih =>
    rw [List.forall_mem_cons] at h
    exact mul_pos h.1 (ih h.2)

theorem total_replicate (n : Nat) (x : Int) : total (List.replicate n x) = n * x := by
  induction n with
  | zero => simp
  | succ n ih =>
    rw [List.replicate_succ, total_cons, ih]
    push_cast
    ring

theorem product_replicate (n : Nat) (x : Int) : product (List.replicate n x) = x ^ n := by
  induction n with
  | zero => simp
  | succ n ih => rw [List.replicate_succ, product_cons, ih, pow_succ']

theorem total_mono {xs ys : List Int} (h : List.Forall₂ (· ≤ ·) xs ys) : total xs ≤ total ys := by
  induction h with
  | nil => exact le_rfl
  | cons hxy _ ih => exact add_le_add hxy ih

theorem product_mono {xs ys : List Int} (hx : ∀ x ∈ xs, 0 ≤ x)
    (h : List.Forall₂ (· ≤ ·) xs ys) : product xs ≤ product ys := by
  induction h with
  | nil => exact le_rfl
  | cons hxy _ ih =>
    rw [List.forall_mem_cons] at hx
    exact mul_le_mul hxy (ih hx.2) (product_nonneg hx.2) (hx.1.trans hxy)

theorem getD_pos {xs : List Int} {i : Nat} (h : ∀ x ∈ xs, 0 < x) (hi : i < xs.length) :
    0 < xs.getD i 0 := by
  rw [List.getD_eq_getElem xs 0 hi]
  exact h _ (List.getElem_mem hi)

theorem set_getD_self {xs : List Int} {i : Nat} (hi : i < xs.length) :
    xs.set i (xs.getD i 0) = xs := by
  rw [List.getD_eq_getElem xs 0 hi, List.set_getElem_self]

theorem getD_nonneg {xs : List Int} (h : ∀ x ∈ xs, 0 ≤ x) (i : Nat) : 0 ≤ xs.getD i 0 := by
  rcases lt_or_ge i xs.length with hi | hi
  · rw [List.getD_eq_getElem xs 0 hi]
    exact h _ (List.getElem_mem hi)
  · rw [List.getD_eq_default xs 0 hi]

theorem mem_of_getD_pos {xs : List Int} {i : Nat} (h : 0 < xs.getD i 0) : xs.getD i 0 ∈ xs := by
  rcases lt_or_ge i xs.length with hi | hi
  · rw [List.getD_eq_getElem xs 0 hi]
    exact List.getElem_mem hi
  · rw [List.getD_eq_default xs 0 hi] at h
    exact absurd h (lt_irrefl 0)

theorem getD_zipWith {f : Int → Int → Int} {xs ys : List Int} {k : Nat}
    (hk : k < (List.zipWith f xs ys).length) :
    (List.zipWith f xs ys).getD k 0 = f (xs.getD k 0) (ys.getD k 0) := by
  obtain ⟨hx, hy⟩ : k < xs.length ∧ k < ys.length := by
    simpa [List.length_zipWith] using hk
  rw [List.getD_eq_getElem _ 0 hk, List.getElem_zipWith, List.getD_eq_getElem xs 0 hx,
    List.getD_eq_getElem ys 0 hy]

theorem getD_set {xs : List Int} {k : Nat} (hk : k < xs.length) (i : Nat) (v : Int) :
    (xs.set i v).getD k 0 = if i = k then v else xs.getD k 0 := by
  rw [List.getD_eq_getElem _ 0 (by rwa [List.length_set]), List.getElem_set,
    List.getD_eq_getElem xs 0 hk]

theorem exists_of_mem_zipWith {α β γ : Type} {f : α → β → γ} {xs : List α} {ys : List β} {z : γ}
    (h : z ∈ List.zipWith f xs ys) : ∃ x ∈ xs, ∃ y ∈ ys, z = f x y := by
  rw [← List.map_uncurry_zip_eq_zipWith, List.mem_map] at h
  obtain ⟨⟨x, y⟩, hxy, rfl⟩ := h
  exact ⟨x, (List.of_mem_zip hxy).1, y, (List.of_mem_zip hxy).2, rfl⟩

theorem zipWith_sub_of_zero {xs ys : List Int} (hlen : xs.length = ys.length)
    (h : ∀ y ∈ ys, y = 0) : List.zipWith (· - ·) xs ys = xs := by
  induction xs generalizing ys with
  | nil => rfl
  | cons x xs ih =>
    cases ys with
    | nil => cases hlen
    | cons y ys =>
      rw [List.forall_mem_cons] at h
      rw [List.zipWith_cons_cons, h.1, sub_zero, ih (Nat.succ.inj hlen) h.2]

theorem forall_mem_set {P : Int → Prop} {xs : List Int} {u : Int} (h : ∀ x ∈ xs, P x) (hu : P u)
    (i : Nat) : ∀ x ∈ xs.set i u, P x := by
  intro x hx
  rcases List.mem_or_eq_of_mem_set hx with hx | rfl
  · exact h x hx
  · exact hu

theorem forall₂_set {R : Int → Int → Prop} {xs ys : List Int} {u v : Int}
    (h : List.Forall₂ R xs ys) (hr : R u v) (i : Nat) :
    List.Forall₂ R (xs.set i u) (ys.set i v) := by
  induction h generalizing i with
  | nil => exact .nil
  | cons hxy h ih =>
    cases i with
    | zero => exact .cons hr h
    | succ i => exact .cons hxy (ih i)

theorem total_set {xs : List Int} {i : Nat} (hi : i < xs.length) (z : Int) :
    total (xs.set i z) = z + total (xs.eraseIdx i) := by
  induction xs generalizing i with
  | nil => simp at hi
  | cons x xs ih =>
    cases i with
    | zero => rfl
    | succ i =>
      rw [List.set_cons_succ, List.eraseIdx_cons_succ, total_cons, total_cons,
        ih (Nat.lt_of_succ_lt_succ hi)]
      ring

theorem product_set {xs : List Int} {i : Nat} (hi : i < xs.length) (z : Int) :
    product (xs.set i z) = z * product (xs.eraseIdx i) := by
  induction xs generalizing i with
  | nil => simp at hi
  | cons x xs ih =>
    cases i with
    | zero => rfl
    | succ i =>
      rw [List.set_cons_succ, List.eraseIdx_cons_succ, product_cons, product_cons,
        ih (Nat.lt_of_succ_lt_succ hi)]
      ring

/-- Two entries contribute their product, whatever the others are. -/
theorem product_set_set {xs : List Int} {i j : Nat} (hi : i < xs.length) (hj : j < xs.length)
    (hij : i ≠ j) (u v : Int) :
    product ((xs.set i u).set j v) = u * v * product ((xs.set i 1).set j 1) := by
  have hj' (w : Int) : j < (xs.set i w).length := by rwa [List.length_set]
  have hi' : i < (xs.set j 1).length := by rwa [List.length_set]
  have hv : product ((xs.set i u).set j v) = v * product ((xs.set i u).set j 1) := by
    rw [product_set (hj' u), product_set (hj' u) 1, one_mul]
  have hu : product ((xs.set i u).set j 1) = u * product ((xs.set i 1).set j 1) := by
    rw [List.set_comm _ _ hij, List.set_comm _ _ hij, product_set hi', product_set hi' 1, one_mul]
  rw [hv, hu]
  ring

/-- The product follows a pair of entries whose product does not fall. -/
theorem product_le_set_set {xs : List Int} {i j : Nat} {u v : Int} (hx : ∀ x ∈ xs, 0 ≤ x)
    (hi : i < xs.length) (hj : j < xs.length) (hij : i ≠ j)
    (h : xs.getD i 0 * xs.getD j 0 ≤ u * v) : product xs ≤ product ((xs.set i u).set j v) := by
  have hrest : 0 ≤ product ((xs.set i 1).set j 1) :=
    product_nonneg (forall_mem_set (forall_mem_set hx (by decide) i) (by decide) j)
  have hself : (xs.set i (xs.getD i 0)).set j (xs.getD j 0) = xs := by
    rw [set_getD_self hi, set_getD_self hj]
  calc product xs = xs.getD i 0 * xs.getD j 0 * product ((xs.set i 1).set j 1) := by
        rw [← product_set_set hi hj hij, hself]
    _ ≤ u * v * product ((xs.set i 1).set j 1) := mul_le_mul_of_nonneg_right h hrest
    _ = product ((xs.set i u).set j v) := (product_set_set hi hj hij u v).symm

/-- Positive entries cannot all stay or fall, and one of them fall, without their product. -/
theorem eq_of_product_le {xs ys : List Int} (h : List.Forall₂ (· ≤ ·) xs ys)
    (hx : ∀ x ∈ xs, 0 < x) (hp : product ys ≤ product xs) : xs = ys := by
  induction h with
  | nil => rfl
  | @cons x y xs ys hxy h ih =>
    rw [List.forall_mem_cons] at hx
    have hpos : 0 < product xs := product_pos hx.2
    have hle : product xs ≤ product ys := product_mono (fun z hz => (hx.2 z hz).le) h
    rw [product_cons, product_cons] at hp
    have hy : y = x := by
      by_contra hne
      have hlt : x * product xs < y * product xs := mul_lt_mul_of_pos_right (by omega) hpos
      have := mul_le_mul_of_nonneg_left hle (hx.1.le.trans hxy)
      omega
    subst hy
    rw [ih hx.2 (le_of_mul_le_mul_left hp hx.1)]

/-- If every entry grows at least by the ratio `b / a`, the product grows at least by its power. -/
theorem product_scaled {a b : Int} {xs ys : List Int} (ha : 0 ≤ a) (hb : 0 ≤ b)
    (hx : ∀ x ∈ xs, 0 ≤ x) (hy : ∀ y ∈ ys, 0 ≤ y)
    (h : List.Forall₂ (fun x y => x * b ≤ y * a) xs ys) :
    product xs * b ^ xs.length ≤ product ys * a ^ xs.length := by
  induction h with
  | nil => simp
  | @cons x y xs ys hxy _ ih =>
    rw [List.forall_mem_cons] at hx hy
    have hs : product xs * b ^ xs.length ≤ product ys * a ^ xs.length := ih hx.2 hy.2
    have hn : 0 ≤ product xs * b ^ xs.length := mul_nonneg (product_nonneg hx.2) (pow_nonneg hb _)
    calc product (x :: xs) * b ^ (x :: xs).length
        = (x * b) * (product xs * b ^ xs.length) := by
          rw [product_cons, List.length_cons, pow_succ]; ring
      _ ≤ (y * a) * (product ys * a ^ xs.length) :=
          mul_le_mul hxy hs hn (mul_nonneg hy.1 ha)
      _ = product (y :: ys) * a ^ (x :: xs).length := by
          rw [product_cons, List.length_cons, pow_succ]; ring

end SwapPool
