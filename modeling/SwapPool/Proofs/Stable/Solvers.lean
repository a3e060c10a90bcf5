import Mathlib.Tactic.Linarith
import Mathlib.Tactic.Ring
import SwapPool.Proofs.Number.Product
import SwapPool.Proofs.Number.Quotient
import SwapPool.Proofs.Number.Root
import SwapPool.Proofs.Outcome
import SwapPool.StableInvariant

/-! The direction in which the two solvers err. Balances carry `d` when their
exact invariant is at least `d`. Every Newton step for the invariant, from
whatever estimate, stays at or above each integer that the balances carry, so
`calcD` never answers less, at any tolerance and wherever it stops. Every step
for a balance ends less than one unit below the exact solution, so that with one
unit more than `calcY` answers the balances exceed the invariant they were solved
for. -/

namespace SwapPool.StableInvariant

/-- The exact invariant of the balances is at least `d`: the equation of the invariant, taken at
`d` and cleared of its quotient. -/
def Carries (amp : Int) (balances : List Int) (d : Int) : Prop :=
  let n := balances.length
  d ^ (n + 1) ≤ (n : Int) ^ n * product balances *
    (ann amp n * total balances - (ann amp n - 1) * d)

theorem ann_pos {amp : Int} (ha : 1 ≤ amp) {n : Nat} (hn : 1 ≤ n) : 1 ≤ ann amp n := by
  have hp : (0 : Int) < (n : Int) ^ n := pow_pos (by omega) n
  have : 0 < ann amp n := mul_pos (by omega) hp
  omega

theorem lt_ann {amp : Int} (ha : 1 ≤ amp) {n : Nat} (hn : 2 ≤ n) : (n : Int) < ann amp n := by
  have hpow : (n : Int) < (n : Int) ^ n := by exact_mod_cast Nat.lt_pow_self (by omega)
  exact hpow.trans_le (le_mul_of_one_le_left (by omega) ha)

theorem scaled_pos {balances : List Int} (hb : ∀ x ∈ balances, 0 < x) (hne : balances ≠ []) :
    0 < (balances.length : Int) ^ balances.length * product balances := by
  have hlen : 1 ≤ balances.length := List.length_pos_of_ne_nil hne
  exact mul_pos (pow_pos (by omega) _) (product_pos hb)

/-- The side of that equation which the balances are on. -/
def capacity (amp : Int) (balances : List Int) (d : Int) : Int :=
  let n := balances.length
  (n : Int) ^ n * product balances * (ann amp n * total balances - (ann amp n - 1) * d)

/-- The exact invariant of the balances is above `d`. -/
def Exceeds (amp : Int) (balances : List Int) (d : Int) : Prop :=
  d ^ (balances.length + 1) < capacity amp balances d

instance (amp : Int) (balances : List Int) (d : Int) : Decidable (Exceeds amp balances d) :=
  inferInstanceAs (Decidable (_ < _))

theorem carries_iff {amp : Int} {balances : List Int} {d : Int} :
    Carries amp balances d ↔ d ^ (balances.length + 1) ≤ capacity amp balances d :=
  Iff.rfl

theorem Exceeds.carries {amp : Int} {balances : List Int} {d : Int}
    (h : Exceeds amp balances d) : Carries amp balances d :=
  le_of_lt h

theorem capacity_mono {amp : Int} (ha : 1 ≤ amp) {xs ys : List Int} {d d' : Int}
    (hx : ∀ x ∈ xs, 0 < x) (hne : xs ≠ []) (h : List.Forall₂ (· ≤ ·) xs ys) (hd : d' ≤ d)
    (h0 : 0 ≤ capacity amp xs d) : capacity amp xs d ≤ capacity amp ys d' := by
  unfold capacity at h0 ⊢
  rw [← h.length_eq]
  have hlen : 1 ≤ xs.length := List.length_pos_of_ne_nil hne
  have hann := ann_pos ha hlen
  have hpow : (0 : Int) < (xs.length : Int) ^ xs.length := pow_pos (by omega) _
  have hxs := scaled_pos hx hne
  have hroom : 0 ≤ ann amp xs.length * total xs - (ann amp xs.length - 1) * d :=
    nonneg_of_mul_nonneg_right h0 hxs
  have hprod : (xs.length : Int) ^ xs.length * product xs ≤
      (xs.length : Int) ^ xs.length * product ys :=
    mul_le_mul_of_nonneg_left (product_mono (fun x hm => (hx x hm).le) h) hpow.le
  have htotal : ann amp xs.length * total xs ≤ ann amp xs.length * total ys :=
    mul_le_mul_of_nonneg_left (total_mono h) (by omega)
  have hslope : (ann amp xs.length - 1) * d' ≤ (ann amp xs.length - 1) * d :=
    mul_le_mul_of_nonneg_left hd (by omega)
  exact mul_le_mul hprod (by linarith) hroom (hxs.le.trans hprod)

/-- More of any token carries no less. -/
theorem Carries.mono {amp : Int} (ha : 1 ≤ amp) {xs ys : List Int} {d : Int} (hd : 0 ≤ d)
    (hx : ∀ x ∈ xs, 0 < x) (hne : xs ≠ []) (h : List.Forall₂ (· ≤ ·) xs ys)
    (hc : Carries amp xs d) : Carries amp ys d := by
  have hgrown := capacity_mono ha hx hne h le_rfl ((pow_nonneg hd _).trans hc)
  rw [carries_iff] at hc ⊢
  rw [← h.length_eq]
  exact hc.trans hgrown

/-- More of any token exceeds no less, and anything below. -/
theorem Exceeds.mono {amp : Int} (ha : 1 ≤ amp) {xs ys : List Int} {d d' : Int} (hd' : 0 ≤ d')
    (hd : d' ≤ d) (hx : ∀ x ∈ xs, 0 < x) (hne : xs ≠ []) (h : List.Forall₂ (· ≤ ·) xs ys)
    (hc : Exceeds amp xs d) : Exceeds amp ys d' := by
  have hpow : 0 ≤ d ^ (xs.length + 1) := pow_nonneg (hd'.trans hd) _
  have hgrown := capacity_mono ha hx hne h hd (hpow.trans hc.le)
  unfold Exceeds at hc ⊢
  rw [← h.length_eq]
  exact (pow_le_pow_left₀ hd' hd _).trans_lt (hc.trans_le hgrown)

/-- An answer of the iteration is a step from some estimate. -/
theorem iterate_eq_step {step : Int → Except Fault Int} {I : Int → Prop}
    (hI : ∀ x y, I x → step x = .ok y → I y) {tolerance cap : Nat} {stalled : Fault} {x r : Int}
    (hx : I x) (h : iterate step tolerance stalled cap x = .ok r) :
    ∃ e, I e ∧ step e = .ok r := by
  induction cap generalizing x with
  | zero => simp [iterate] at h
  | succ cap ih =>
    rw [iterate] at h
    cases hs : step x with
    | error e => simp [hs] at h
    | ok next =>
      simp only [hs] at h
      split at h
      · cases h
        exact ⟨x, hx, hs⟩
      · exact ih (hI x next hx hs) h

/-- The iteration fails as its steps do, from estimates that the steps keep to, or stalls. -/
theorem failsWithin_iterate {step : Int → Except Fault Int} {I : Int → Prop} {P : Fault → Prop}
    (hI : ∀ x y, I x → step x = .ok y → I y) (hs : ∀ x, I x → FailsWithin P (step x))
    {tolerance cap : Nat} {stalled : Fault} (hstalled : P stalled) {x : Int} (hx : I x) :
    FailsWithin P (iterate step tolerance stalled cap x) := by
  induction cap generalizing x with
  | zero => simpa [iterate] using hstalled
  | succ cap ih =>
    rw [iterate]
    cases h : step x with
    | error e => simpa [h] using hs x hx
    | ok next => simp [ih (hI x next hx h)]

section Invariant

variable {ann sum prod e r : Int} {n : Nat}

/-- What a step for the invariant computes, and that its divisors are positive. -/
theorem stepD_eq_ok (hann : 1 ≤ ann) (hprod : 0 < prod) (he : 0 ≤ e)
    (h : stepD ann sum prod n e = .ok r) :
    ∃ dp, dp = (e ^ (n + 1)).fdiv prod ∧ 0 ≤ dp ∧ 0 < (ann - 1) * e + dp * (n + 1) ∧
      r = ((ann * sum + dp * n) * e).fdiv ((ann - 1) * e + dp * (n + 1)) := by
  simp only [stepD, bind_eq_ok_iff, Checked.quot_eq_ok_iff, Checked.sub_eq_ok_iff] at h
  obtain ⟨dp, ⟨-, rfl⟩, slope, ⟨-, rfl⟩, hne, rfl⟩ := h
  have hdp : 0 ≤ (e ^ (n + 1)).fdiv prod := Int.fdiv_nonneg (pow_nonneg he _) hprod.le
  refine ⟨_, rfl, hdp, ?_, rfl⟩
  have : 0 ≤ (ann - 1) * e + (e ^ (n + 1)).fdiv prod * (n + 1) :=
    add_nonneg (mul_nonneg (by omega) he) (mul_nonneg hdp (by omega))
  exact lt_of_le_of_ne this (Ne.symm hne)

theorem stepD_nonneg (hann : 1 ≤ ann) (hprod : 0 < prod) (hsum : 0 ≤ sum) (he : 0 ≤ e)
    (h : stepD ann sum prod n e = .ok r) : 0 ≤ r := by
  obtain ⟨dp, -, hdp, hpos, rfl⟩ := stepD_eq_ok hann hprod he h
  exact Int.fdiv_nonneg
    (mul_nonneg (add_nonneg (mul_nonneg (by omega) hsum) (mul_nonneg hdp (by omega))) he) hpos.le

/-- A step never falls below what the balances carry, from whatever estimate it starts: the
rounded-down `dp` moves it up, and the exact step is a tangent of a convex function. -/
theorem le_stepD (hann : 1 ≤ ann) (hprod : 0 < prod) (he : 0 ≤ e) {d : Int} (hd : 0 ≤ d)
    (hc : d ^ (n + 1) ≤ prod * (ann * sum - (ann - 1) * d))
    (h : stepD ann sum prod n e = .ok r) : d ≤ r := by
  obtain ⟨dp, hdp, hdp0, hpos, rfl⟩ := stepD_eq_ok hann hprod he h
  rw [le_fdiv_iff hpos]
  set room := ann * sum - (ann - 1) * d
  have hroom : 0 ≤ room := nonneg_of_mul_nonneg_right ((pow_nonneg hd _).trans hc) hprod
  suffices hkey : dp * ((n + 1) * d - n * e) ≤ e * room by
    have : e * room = ann * sum * e - (ann - 1) * d * e := by ring
    linarith
  rcases le_or_gt ((n + 1) * d - n * e) 0 with hle | hgt
  · exact (mul_nonpos_of_nonneg_of_nonpos hdp0 hle).trans (mul_nonneg he hroom)
  · have hdpm : dp * prod ≤ e ^ (n + 1) := by rw [hdp]; exact fdiv_mul_le _ hprod
    have htan : e ^ n * ((n + 1) * d - n * e) ≤ d ^ (n + 1) := by
      have := tangent_le n hd he
      calc e ^ n * ((n + 1) * d - n * e) = (n + 1) * d * e ^ n - n * e ^ (n + 1) := by ring
        _ ≤ d ^ (n + 1) := by linarith
    refine le_of_mul_le_mul_left ?_ hprod
    calc prod * (dp * ((n + 1) * d - n * e)) = dp * prod * ((n + 1) * d - n * e) := by ring
      _ ≤ e ^ (n + 1) * ((n + 1) * d - n * e) := mul_le_mul_of_nonneg_right hdpm hgt.le
      _ = e * (e ^ n * ((n + 1) * d - n * e)) := by ring
      _ ≤ e * d ^ (n + 1) := mul_le_mul_of_nonneg_left htan he
      _ ≤ e * (prod * room) := mul_le_mul_of_nonneg_left hc he
      _ = prod * (e * room) := by ring

/-- A step from a positive estimate divides by something positive. -/
theorem failsWithin_stepD {P : Fault → Prop} {d : Int} (hann : 2 ≤ ann) (hprod : 0 < prod)
    (hd : 1 ≤ d) : FailsWithin P (stepD ann sum prod n d) := by
  simp only [stepD, failsWithin_bind, Checked.failsWithin_quot hprod.ne', true_and,
    Checked.failsWithin_sub (by omega : (1 : Int) ≤ ann), Checked.quot_eq_ok_iff,
    Checked.sub_eq_ok_iff]
  rintro dp ⟨-, rfl⟩ slope ⟨-, rfl⟩
  have hdp : 0 ≤ (d.pow (n + 1)).fdiv prod :=
    Int.fdiv_nonneg (pow_nonneg (by omega) (n + 1)) hprod.le
  have hslope : 0 < (ann - 1) * d := mul_pos (by omega) (by omega)
  have hrest : 0 ≤ (d.pow (n + 1)).fdiv prod * (n + 1) := mul_nonneg hdp (by omega)
  exact Checked.failsWithin_quot (by omega)

/-- The estimates of the invariant of positive balances are positive after one step. -/
theorem one_le_stepD {d : Int} (hann : 1 ≤ ann) (hprod : 0 < prod)
    (hsum : 1 ≤ sum) (hd : 0 ≤ d) (h : stepD ann sum prod n d = .ok r) : 1 ≤ r := by
  refine le_stepD hann hprod hd (by decide) ?_ h
  have hgrowth : ann * 1 ≤ ann * sum := mul_le_mul_of_nonneg_left hsum (by omega)
  rw [one_pow, mul_one]
  exact one_le_mul_of_one_le_of_one_le (by omega) (by omega)

end Invariant

section Solver

variable {amp : Int} {balances : List Int} {config : Config} {d r : Int}

/-- One iteration of the solver for the invariant. -/
def nextEstimate (amp : Int) (balances : List Int) : Int → Except Fault Int :=
  stepD (ann amp balances.length) (total balances)
    ((balances.length : Int) ^ balances.length * product balances) balances.length

/-- For positive balances `calcD` iterates from their sum. -/
theorem calcD_eq_iterate (hb : ∀ x ∈ balances, 0 < x) (hne : balances ≠ []) (config : Config) :
    calcD amp balances config = iterate (nextEstimate amp balances) config.tolerance
      (.invariantStalled config.maxIterations) config.maxIterations (total balances) := by
  unfold calcD
  rw [if_neg (total_pos hne hb).ne', if_neg (by simpa using hb)]
  rfl

/-- For positive balances it fails only by running out of iterations. -/
theorem calcD_stalls (ha : 1 ≤ amp) (hn : 2 ≤ balances.length) (hb : ∀ x ∈ balances, 0 < x)
    (config : Config) :
    FailsWithin (· = .invariantStalled config.maxIterations) (calcD amp balances config) := by
  have hne : balances ≠ [] := List.ne_nil_of_length_pos (by omega)
  have hann := lt_ann ha hn
  have hsum := total_pos hne hb
  have hprod := scaled_pos hb hne
  rw [calcD_eq_iterate hb hne]
  exact failsWithin_iterate (I := (1 ≤ ·)) (P := (· = .invariantStalled config.maxIterations))
    (fun _ _ hd hs => one_le_stepD (by omega) hprod hsum (zero_le_one.trans hd) hs)
    (fun _ hd => failsWithin_stepD (by omega) hprod hd) rfl hsum

/-- What `calcD` answers for positive balances is a step from an estimate that is not negative. -/
theorem calcD_eq_step (ha : 1 ≤ amp) (hb : ∀ x ∈ balances, 0 < x) (hne : balances ≠ [])
    (h : calcD amp balances config = .ok r) :
    ∃ e, 0 ≤ e ∧ nextEstimate amp balances e = .ok r := by
  have hlen : 1 ≤ balances.length := List.length_pos_of_ne_nil hne
  have hsum := total_pos hne hb
  rw [calcD_eq_iterate hb hne] at h
  exact iterate_eq_step (I := (0 ≤ ·))
    (fun x y hx => stepD_nonneg (ann_pos ha hlen) (scaled_pos hb hne) hsum.le hx) hsum.le h

theorem calcD_nonneg (ha : 1 ≤ amp) (hb : ∀ x ∈ balances, 0 < x) (hne : balances ≠ [])
    (h : calcD amp balances config = .ok r) : 0 ≤ r := by
  have hlen : 1 ≤ balances.length := List.length_pos_of_ne_nil hne
  obtain ⟨e, he, hs⟩ := calcD_eq_step ha hb hne h
  exact stepD_nonneg (ann_pos ha hlen) (scaled_pos hb hne) (total_pos hne hb).le he hs

/-- An invariant that is found is zero, or that of positive balances. -/
theorem calcD_cases (h : calcD amp balances config = .ok r) :
    r = 0 ∨ balances ≠ [] ∧ ∀ x ∈ balances, 0 < x := by
  unfold calcD at h
  by_cases hsum : total balances = 0
  · rw [if_pos hsum] at h
    exact .inl (Except.ok.inj h).symm
  · rw [if_neg hsum] at h
    obtain ⟨hpos, -⟩ := unless_eq_ok_iff.1 h
    refine .inr ⟨?_, by simpa using hpos⟩
    rintro rfl
    exact hsum rfl

theorem nonneg_of_calcD (ha : 1 ≤ amp) (h : calcD amp balances config = .ok r) : 0 ≤ r := by
  obtain rfl | ⟨hne, hb⟩ := calcD_cases h
  · exact le_rfl
  · exact calcD_nonneg ha hb hne h

/-- Whatever the tolerance and the cap, `calcD` answers at least what the balances carry. -/
theorem le_calcD (ha : 1 ≤ amp) (hb : ∀ x ∈ balances, 0 < x) (hne : balances ≠ []) (hd : 0 ≤ d)
    (hc : Carries amp balances d) (h : calcD amp balances config = .ok r) : d ≤ r := by
  have hlen : 1 ≤ balances.length := List.length_pos_of_ne_nil hne
  obtain ⟨e, he, hs⟩ := calcD_eq_step ha hb hne h
  exact le_stepD (ann_pos ha hlen) (scaled_pos hb hne) he hd hc hs

end Solver

/-- One unit above a step for a balance satisfies the quadratic that the step approximates. -/
theorem lt_stepY_succ {b c d y r : Int} (hc : 0 ≤ c) (h : stepY b c d y = .ok r) :
    0 ≤ r ∧ c < (r + 1) * (r + 1 + b - d) := by
  unfold stepY at h
  simp only [unless_eq_ok_iff, Checked.quot_eq_ok_iff, not_le] at h
  obtain ⟨hden, -, rfl⟩ := h
  set r := (y * y + c).fdiv (2 * y + b - d) with hr
  have hlt : y * y + c < (r + 1) * (2 * y + b - d) := Int.lt_fdiv_add_one_mul_self _ hden
  refine ⟨Int.fdiv_nonneg (by nlinarith [mul_self_nonneg y]) hden.le, ?_⟩
  have hsq := mul_self_nonneg (r + 1 - y)
  nlinarith

theorem places_of_calcY {amp x d y moved solved : Int} {balances : List Int} {config : Config}
    (h : calcY amp x balances moved solved d config = .ok y) :
    (0 ≤ moved ∧ moved < balances.length) ∧ 0 ≤ solved ∧ solved < balances.length := by
  simp only [calcY, checkPosition, bind_eq_ok_iff, unless_eq_ok_iff, exists_unit_iff] at h
  obtain ⟨⟨hmoved, -⟩, ⟨hsolved, -⟩, -⟩ := h
  omega

/-- An answer for a balance is a step under the rounded-down coefficients of the quadratic. -/
theorem calcY_eq_step {amp x d y : Int} {balances : List Int} {moved solved : Nat}
    {config : Config} (h : calcY amp x balances moved solved d config = .ok y) :
    let n := balances.length
    let rest := others balances x moved solved
    ∃ e, stepY (total rest + d.fdiv (ann amp n))
      ((d ^ (n + 1)).fdiv (product rest * (n : Int) ^ n * ann amp n)) d e = .ok y := by
  simp only [calcY, bind_eq_ok_iff, throw_eq_error, error_bind, unless_eq_ok_iff,
    Checked.quot_eq_ok_iff, Int.toNat_natCast] at h
  obtain ⟨-, -, -, -, -, c, ⟨-, rfl⟩, q, ⟨-, rfl⟩, h⟩ := h
  obtain ⟨e, -, hs⟩ := iterate_eq_step (I := fun _ => True) (fun _ _ _ _ => trivial) trivial h
  exact ⟨e, hs⟩

theorem others_pos {x : Int} {balances : List Int} (hb : ∀ z ∈ balances, 0 < z) (hx : 0 < x)
    (moved solved : Nat) : ∀ z ∈ others balances x moved solved, 0 < z :=
  fun z hz => forall_mem_set hb hx moved z (List.mem_of_mem_eraseIdx hz)

theorem solved_pos {x y : Int} {balances : List Int} {moved solved : Nat}
    (h : ∀ z ∈ others balances x moved solved, 0 < z) (hy : 0 < y) :
    ∀ z ∈ (balances.set moved x).set solved y, 0 < z := by
  intro z hz
  obtain ⟨k, hk, rfl⟩ := List.mem_iff_getElem.1 hz
  rw [List.length_set] at hk
  rw [List.getElem_set]
  split
  · exact hy
  · exact h _ (List.mem_eraseIdx_iff_getElem.2 ⟨k, hk, by omega, rfl⟩)

theorem total_solved {x : Int} {balances : List Int} {moved solved : Nat}
    (hs : solved < balances.length) (z : Int) :
    total ((balances.set moved x).set solved z) = z + total (others balances x moved solved) :=
  total_set (by rwa [List.length_set]) z

theorem product_solved {x : Int} {balances : List Int} {moved solved : Nat}
    (hs : solved < balances.length) (z : Int) :
    product ((balances.set moved x).set solved z) = z * product (others balances x moved solved) :=
  product_set (by rwa [List.length_set]) z

/-- With one unit more than `calcY` answers at the solved place, the balances exceed the invariant
that they were solved for. -/
theorem calcY_succ_exceeds {amp x d y : Int} {balances : List Int} {moved solved : Nat}
    {config : Config} (ha : 1 ≤ amp) (hothers : ∀ z ∈ others balances x moved solved, 0 < z)
    (hd : 0 ≤ d) (h : calcY amp x balances moved solved d config = .ok y) :
    0 ≤ y ∧ Exceeds amp ((balances.set moved x).set solved (y + 1)) d := by
  obtain ⟨e, hs⟩ := calcY_eq_step h
  have hj : solved < balances.length := by exact_mod_cast (places_of_calcY h).2.2
  have hann : 1 ≤ ann amp balances.length := ann_pos ha (by omega)
  unfold Exceeds capacity
  simp only [List.length_set]
  rw [total_solved hj, product_solved hj]
  set rest := others balances x moved solved
  set k := ann amp balances.length
  have hpow : (0 : Int) < (balances.length : Int) ^ balances.length := pow_pos (by omega) _
  set N := (balances.length : Int) ^ balances.length
  have hP : 0 < product rest := product_pos hothers
  have hdiv : 0 < product rest * N * k := mul_pos (mul_pos hP hpow) (by omega)
  set D := d ^ (balances.length + 1)
  set c := D.fdiv (product rest * N * k) with hc
  have hc0 : 0 ≤ c := Int.fdiv_nonneg (pow_nonneg hd _) hdiv.le
  have hD : D < (c + 1) * (product rest * N * k) := Int.lt_fdiv_add_one_mul_self _ hdiv
  have hq : d.fdiv k * k ≤ d := fdiv_mul_le d (by omega)
  obtain ⟨hy, hlt⟩ := lt_stepY_succ hc0 hs
  refine ⟨hy, hD.trans_le ?_⟩
  calc (c + 1) * (product rest * N * k)
      ≤ (y + 1) * (y + 1 + (total rest + d.fdiv k) - d) * (product rest * N * k) :=
        mul_le_mul_of_nonneg_right hlt hdiv.le
    _ = N * ((y + 1) * product rest) * (k * (y + 1 + total rest) + d.fdiv k * k - k * d) := by ring
    _ ≤ N * ((y + 1) * product rest) * (k * (y + 1 + total rest) - (k - 1) * d) :=
        mul_le_mul_of_nonneg_left (by linarith)
          (mul_nonneg hpow.le (mul_nonneg (by omega) hP.le))

end SwapPool.StableInvariant
