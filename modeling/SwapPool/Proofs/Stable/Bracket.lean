import SwapPool.Proofs.Stable.ExactInvariant

/-! The invariant that is found, between bounds. No estimate of the solver falls
below an integer that the balances carry, and so with one unit more its power is
above the scaled product of the balances. This keeps the rounded-down quotient of
the next step from falling short by more than the number of tokens, which in turn
keeps the step within the sum that the iteration started from. Balances that are
equal are where it starts, and a step stays there. -/

namespace SwapPool.StableInvariant

theorem sub_mul_succ_pow_le {d : Int} (hd : 0 ≤ d) (n : Nat) :
    (d - n) * (d + 1) ^ n ≤ d ^ (n + 1) := by
  have htangent := tangent_le n hd (by omega : 0 ≤ d + 1)
  calc (d - n) * (d + 1) ^ n = (n + 1) * d * (d + 1) ^ n - n * (d + 1) ^ (n + 1) := by ring
    _ ≤ d ^ (n + 1) := by linarith

section Step

variable {ann sum P d r : Int} {n : Nat}

theorem stepD_le_sum {prod : Int} (hann : n < ann) (hprod : 0 < prod) (hd : 1 ≤ d) (hle : d ≤ sum)
    (hshort : d - n ≤ (d ^ (n + 1)).fdiv prod) (hpart : d ≤ (n + 1) * (d ^ (n + 1)).fdiv prod)
    (h : stepD ann sum prod n d = .ok r) : r ≤ sum := by
  obtain ⟨dp, hdp, -, hpos, rfl⟩ := stepD_eq_ok (by omega) hprod (by omega) h
  rw [← hdp] at hshort hpart
  by_contra hlt
  have habove := (le_fdiv_iff hpos).1 (Int.add_one_le_of_lt (not_le.1 hlt))
  have hsum : d * ((n + 1) * dp - d) ≤ sum * ((n + 1) * dp - d) :=
    mul_le_mul_of_nonneg_right hle (by omega)
  have hquotient : d * (d - n) ≤ d * dp := mul_le_mul_of_nonneg_left hshort (by omega)
  -- One unit above the sum costs this slope more than the quotient's shortfall gives back.
  have hslope : 0 < (ann - n) * d := mul_pos (by omega) (by omega)
  linarith

/-- What is one unit short of exceeding `n` times a geometric mean is at least `n`. -/
theorem le_of_lt_succ_pow (hn : 1 ≤ n) (hP : 0 < P) (hd : 0 ≤ d)
    (habove : (n : Int) ^ n * P < (d + 1) ^ n) : (n : Int) ≤ d := by
  have hpow : (0 : Int) < (n : Int) ^ n := pow_pos (by omega) n
  have hlt : (n : Int) ^ n < (d + 1) ^ n :=
    (le_mul_of_one_le_right hpow.le (by omega)).trans_lt habove
  exact Int.lt_add_one_iff.1 (lt_of_pow_lt_pow_left₀ n (by omega) hlt)

/-- Where `d + 1` is above `n` times the geometric mean of the balances, the quotient is positive and
falls short of `d` by at most `n`. -/
theorem quotient_bounds (hn : 1 ≤ n) (hP : 0 < P) (hd : 0 ≤ d)
    (habove : (n : Int) ^ n * P < (d + 1) ^ n) :
    d - n ≤ (d ^ (n + 1)).fdiv ((n : Int) ^ n * P) ∧
      1 ≤ (d ^ (n + 1)).fdiv ((n : Int) ^ n * P) := by
  have hpow : (0 : Int) < (n : Int) ^ n := pow_pos (by omega) n
  have hprod : 0 < (n : Int) ^ n * P := mul_pos hpow hP
  have hnd := le_of_lt_succ_pow hn hP hd habove
  have hshort : d - n ≤ (d ^ (n + 1)).fdiv ((n : Int) ^ n * P) := by
    rw [le_fdiv_iff hprod]
    exact (mul_le_mul_of_nonneg_left habove.le (by omega)).trans (sub_mul_succ_pow_le hd n)
  refine ⟨hshort, ?_⟩
  obtain hlt | rfl := hnd.lt_or_eq
  · omega
  · -- The product is at most `n`, since a product of `n + 1` would reach the power above.
    have hP' : P ≤ n := by
      by_contra hgt
      obtain ⟨m, rfl⟩ : ∃ m, n = m + 1 := ⟨n - 1, by omega⟩
      have htangent := sub_mul_succ_pow_le hd m
      push_cast at hgt habove htangent
      have hreach : ((m : Int) + 1 + 1) ^ (m + 1) ≤ (m + 1) ^ (m + 1) * P :=
        calc ((m : Int) + 1 + 1) ^ (m + 1)
            = (m + 1 - m) * (m + 1 + 1) ^ m * (m + 1 + 1) := by ring
          _ ≤ (m + 1) ^ (m + 1) * (m + 1 + 1) :=
              mul_le_mul_of_nonneg_right htangent (by omega)
          _ ≤ (m + 1) ^ (m + 1) * P := mul_le_mul_of_nonneg_left (by omega) (by positivity)
      omega
    rw [le_fdiv_iff hprod, one_mul, pow_succ]
    exact mul_le_mul_of_nonneg_left hP' hpow.le

end Step

section Estimates

variable {amp : Int} {balances : List Int} {config : Config} {d r : Int}

/-- Balances carry all that is within their number times their geometric mean. -/
theorem carries_of_pow_le (ha : 1 ≤ amp) (hb : ∀ x ∈ balances, 0 < x) (hne : balances ≠ [])
    (hd : 0 ≤ d)
    (h : d ^ balances.length ≤ (balances.length : Int) ^ balances.length * product balances) :
    Carries amp balances d := by
  have hlen : 1 ≤ balances.length := List.length_pos_of_ne_nil hne
  have hmean := pow_mul_product_le fun x hx => (hb x hx).le
  have hsum : d ≤ total balances :=
    le_of_pow_le_pow_left₀ (by omega) (total_pos hne hb).le (h.trans hmean)
  have hann : 0 ≤ ann amp balances.length := (ann_pos ha hlen).trans' zero_le_one
  have hroom : d ≤ ann amp balances.length * total balances - (ann amp balances.length - 1) * d := by
    have := mul_le_mul_of_nonneg_left hsum hann
    linarith
  rw [carries_iff, pow_succ]
  exact mul_le_mul h hroom hd (scaled_pos hb hne).le

/-- What the solver keeps to: an estimate is positive and within the sum of the balances, and one
unit above it the power is above their scaled product. -/
structure Estimate (balances : List Int) (d : Int) : Prop where
  pos : 1 ≤ d
  le_total : d ≤ total balances
  lt_pow : (balances.length : Int) ^ balances.length * product balances <
    (d + 1) ^ balances.length

theorem estimate_total (hb : ∀ x ∈ balances, 0 < x) (hne : balances ≠ []) :
    Estimate balances (total balances) where
  pos := total_pos hne hb
  le_total := le_rfl
  lt_pow :=
    have hsum : 0 ≤ total balances := (total_pos hne hb).le
    (pow_mul_product_le fun x hx => (hb x hx).le).trans_lt
      (pow_lt_pow_left₀ (lt_add_one _) hsum (List.length_pos_of_ne_nil hne).ne')

theorem Estimate.length_le (hb : ∀ x ∈ balances, 0 < x) (hne : balances ≠ [])
    (hd : Estimate balances d) : (balances.length : Int) ≤ d :=
  le_of_lt_succ_pow (List.length_pos_of_ne_nil hne) (product_pos hb) (zero_le_one.trans hd.pos)
    hd.lt_pow

theorem Estimate.step (ha : 1 ≤ amp) (hn : 2 ≤ balances.length) (hb : ∀ x ∈ balances, 0 < x)
    (hd : Estimate balances d) (h : nextEstimate amp balances d = .ok r) :
    Estimate balances r := by
  have hne : balances ≠ [] := List.ne_nil_of_length_pos (by omega)
  have hann := lt_ann ha hn
  have hprod := scaled_pos hb hne
  have hd0 : 0 ≤ d := zero_le_one.trans hd.pos
  obtain ⟨hshort, hone⟩ := quotient_bounds (by omega) (product_pos hb) hd0 hd.lt_pow
  have hpart : d ≤ (balances.length + 1) * (d ^ (balances.length + 1)).fdiv
      ((balances.length : Int) ^ balances.length * product balances) := by
    have := mul_le_mul_of_nonneg_left hone (balances.length.cast_nonneg (α := Int))
    linarith
  have hpos : 1 ≤ r := one_le_stepD (by omega) hprod (total_pos hne hb) hd0 h
  refine ⟨hpos, stepD_le_sum hann hprod hd.pos hd.le_total hshort hpart h, ?_⟩
  by_contra hle
  have hcarries := carries_of_pow_le ha hb hne (by omega) (not_lt.1 hle)
  have := le_stepD (by omega) hprod hd0 (by omega) hcarries h
  omega

theorem estimate_of_calcD (ha : 1 ≤ amp) (hn : 2 ≤ balances.length) (hb : ∀ x ∈ balances, 0 < x)
    (h : calcD amp balances config = .ok d) : Estimate balances d := by
  have hne : balances ≠ [] := List.ne_nil_of_length_pos (by omega)
  rw [calcD_eq_iterate hb hne] at h
  obtain ⟨e, he, hs⟩ :=
    iterate_eq_step (fun _ _ hx => Estimate.step ha hn hb hx) (estimate_total hb hne) h
  exact he.step ha hn hb hs

end Estimates

/-! ### Equal balances -/

section Equal

variable {amp b : Int} {balances : List Int}

theorem iterate_of_fixed {step : Int → Except Fault Int} {x : Int} (h : step x = .ok x)
    (tolerance : Nat) (stalled : Fault) {cap : Nat} (hcap : 1 ≤ cap) :
    iterate step tolerance stalled cap x = .ok x := by
  obtain ⟨cap, rfl⟩ : ∃ k, cap = k + 1 := ⟨cap - 1, by omega⟩
  simp [iterate, h]

theorem stepD_equal {ann : Int} (hann : 1 ≤ ann) {n : Nat} (hn : 1 ≤ n) (hb : 0 < b) :
    stepD ann (n * b) ((n : Int) ^ n * b ^ n) n (n * b) = .ok (n * b) := by
  have hsum : 0 < (n : Int) * b := mul_pos (by omega) hb
  have hprod : 0 < ((n : Int) * b) ^ n := pow_pos hsum n
  have hslope : 0 < (ann + n) * ((n : Int) * b) := mul_pos (by omega) hsum
  have hquotient : (((n : Int) * b) ^ (n + 1)).fdiv ((n : Int) ^ n * b ^ n) = n * b := by
    rw [← mul_pow, pow_succ, Int.mul_fdiv_cancel_left _ hprod.ne']
  have hslope_eq : (ann - 1) * ((n : Int) * b) + n * b * (n + 1) = (ann + n) * (n * b) := by ring
  have hrise : (ann * ((n : Int) * b) + n * b * n) * (n * b) = (ann + n) * (n * b) * (n * b) := by
    ring
  simp only [stepD, bind_eq_ok_iff, Checked.quot_eq_ok_iff, Checked.sub_eq_ok_iff]
  refine ⟨n * b, ⟨?_, hquotient.symm⟩, ann - 1, ⟨hann, rfl⟩, ?_, ?_⟩
  · rw [← mul_pow]
    exact hprod.ne'
  · rw [hslope_eq]
    exact hslope.ne'
  · rw [hslope_eq, hrise, Int.mul_fdiv_cancel_left _ hslope.ne']

theorem calcD_equal (ha : 1 ≤ amp) (hne : balances ≠ []) (hb : 0 < b)
    (h : ∀ x ∈ balances, x = b) (config : Config) :
    calcD amp balances config = .ok (balances.length * b) := by
  have hlen : 1 ≤ balances.length := List.length_pos_of_ne_nil hne
  have hpos : ∀ x ∈ balances, 0 < x := fun x hx => by rwa [h x hx]
  have heq : balances = List.replicate balances.length b := List.eq_replicate_iff.2 ⟨rfl, h⟩
  rw [calcD_eq_iterate hpos hne, nextEstimate]
  set n := balances.length
  rw [heq, total_replicate, product_replicate]
  exact iterate_of_fixed (stepD_equal (ann_pos ha hlen) hlen hb) _ _ config.one_le_maxIterations

end Equal

/-- The solver fails only by running out of iterations. What it finds is positive and within the sum
of the balances, it is never below the floor of the exact invariant, and of equal balances it is
their sum. -/
theorem calcD_brackets_invariant {amp : Int} {balances : List Int} (ha : 1 ≤ amp)
    (hn : 2 ≤ balances.length) (hb : ∀ x ∈ balances, 0 < x) (config : Config) :
    let n := balances.length
    let G := (n : Int) ^ n * product balances
    FailsWithin (· = .invariantStalled config.maxIterations) (calcD amp balances config) ∧
      (∀ d, calcD amp balances config = .ok d →
        1 ≤ d ∧ d ≤ total balances ∧
        ann amp n * total balances * G < (d + 1) ^ (n + 1) + (ann amp n - 1) * (d + 1) * G ∧
        G < (d + 1) ^ n ∧
        (∃ D, IsInvariant amp balances D) ∧ ∀ D, IsInvariant amp balances D → ⌊D⌋ ≤ d) ∧
      ∀ b, (∀ x ∈ balances, x = b) → calcD amp balances config = .ok (n * b) := by
  intro n G
  have hne : balances ≠ [] := List.ne_nil_of_length_pos (by omega)
  refine ⟨calcD_stalls ha hn hb config, fun d h => ?_, fun b h => ?_⟩
  · have hd := estimate_of_calcD ha hn hb h
    have hd0 : 0 ≤ d + 1 := by have := hd.pos; omega
    have hcarries : ¬ Carries amp balances (d + 1) := fun hc => by
      have := le_calcD ha hb hne hd0 hc h
      omega
    obtain ⟨D, hD, -⟩ := exists_isInvariant ha hb hne
    refine ⟨hd.pos, hd.le_total, ?_, hd.lt_pow, ⟨D, hD⟩, fun D hD => ?_⟩
    · have := not_le.1 (mt carries_iff.2 hcarries)
      unfold capacity at this
      linarith
    · rw [hD.carries_iff ha hb hne hd0, not_le] at hcarries
      exact Int.lt_add_one_iff.1 (Int.floor_lt.2 hcarries)
  · obtain ⟨x, hx⟩ := List.exists_mem_of_ne_nil _ hne
    exact calcD_equal ha hne (h x hx ▸ hb x hx) h config

/-- A tolerance of twenty stops the iteration a unit above where it would come to rest. -/
theorem calcD_brackets_invariant_wide_tolerance :
    let config : Config := ⟨5, 20, 10000, 1000, by decide⟩
    calcD 1 [1, 1000] config = .ok 237 ∧ 4 * 1000 < (238 : Int) ^ 2 ∧
      (∃ D, IsInvariant 1 [1, 1000] D) ∧ ∀ D, IsInvariant 1 [1, 1000] D → ⌊D⌋ ≤ 237 := by
  intro config
  have hanswer : calcD 1 [1, 1000] config = .ok 237 := by decide +kernel
  obtain ⟨-, hbracket, -⟩ := calcD_brackets_invariant (le_refl (1 : Int))
    (by decide : 2 ≤ ([1, 1000] : List Int).length) (by decide) config
  obtain ⟨-, -, -, hpower, hinvariant⟩ := hbracket 237 hanswer
  exact ⟨hanswer, hpower, hinvariant⟩

end SwapPool.StableInvariant
