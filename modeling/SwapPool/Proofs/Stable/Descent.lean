import SwapPool.Proofs.Stable.Bracket

/-! How the solver for the invariant comes to rest. The exact invariant is less than
a unit above every estimate, and over that unit the growing side of the equation
rises by at most twice what its tangent does, so that no step rises by more than a
unit. Under a tolerance of at least one, an iteration that does not stop therefore
falls by two or more; a descent of positive estimates from the sum of the balances
is no longer than half of that sum. -/

namespace SwapPool.StableInvariant

/-! ### The estimates of an iteration -/

section Chain

variable {step : Int → Except Fault Int} {tolerance cap : Nat} {stalled e : Fault} {x : Int}
  {I : Int → Prop}

/-- The iteration makes `next` from `d` and does not stop there. -/
def GoesOn (step : Int → Except Fault Int) (tolerance : Nat) (d next : Int) : Prop :=
  step d = .ok next ∧ tolerance < (next - d).natAbs

theorem exists_chain_of_iterate_error (hI : ∀ d, I d → ∃ next, step d = .ok next ∧ I next)
    (hx : I x) (h : iterate step tolerance stalled cap x = .error e) :
    ∃ ds : List Int, ds.length = cap ∧ (x :: ds).IsChain (GoesOn step tolerance) := by
  induction cap generalizing x with
  | zero => exact ⟨[], rfl, .singleton x⟩
  | succ cap ih =>
    obtain ⟨next, hstep, hnext⟩ := hI x hx
    simp only [iterate, hstep] at h
    split at h
    · cases h
    · rename_i hfar
      obtain ⟨ds, hlength, hchain⟩ := ih hnext h
      refine ⟨next :: ds, by rw [List.length_cons, hlength], ?_⟩
      exact List.isChain_cons_cons.2 ⟨⟨hstep, not_le.1 hfar⟩, hchain⟩

/-- What one iteration keeps and does, all of them do. -/
theorem chain_of_goesOn {R : Int → Int → Prop}
    (hI : ∀ d next, I d → GoesOn step tolerance d next → I next ∧ R d next) (hx : I x)
    {ds : List Int} (h : (x :: ds).IsChain (GoesOn step tolerance)) :
    (∀ d ∈ x :: ds, I d) ∧ (x :: ds).IsChain R := by
  induction ds generalizing x with
  | nil => exact ⟨List.forall_mem_singleton.2 hx, .singleton x⟩
  | cons next ds ih =>
    obtain ⟨hgoes, hchain⟩ := List.isChain_cons_cons.1 h
    obtain ⟨hnext, hr⟩ := hI x next hx hgoes
    obtain ⟨hall, hrest⟩ := ih hnext hchain
    exact ⟨List.forall_mem_cons.2 ⟨hx, hall⟩, List.isChain_cons_cons.2 ⟨hr, hrest⟩⟩

theorem two_mul_length_lt {ds : List Int} (hpos : ∀ d ∈ x :: ds, 1 ≤ d)
    (h : (x :: ds).IsChain fun d next => next + 2 ≤ d) : 2 * (ds.length : Int) < x := by
  induction ds generalizing x with
  | nil => exact hpos x List.mem_cons_self
  | cons next ds ih =>
    obtain ⟨hfall, hchain⟩ := List.isChain_cons_cons.1 h
    have hrest := ih (List.forall_mem_cons.1 hpos).2 hchain
    rw [List.length_cons]
    push_cast
    omega

theorem nodup_of_falls {ds : List Int} (h : ds.IsChain fun d next => next + 2 ≤ d) : ds.Nodup := by
  have hstrict : ds.IsChain (· > ·) := h.imp fun _ _ hfall => by omega
  exact (List.isChain_iff_pairwise.1 hstrict).imp ne_of_gt

end Chain

/-! ### One step -/

section Step

variable {ann sum prod d r : Int} {n m : Nat}

theorem sq_mul_succ_pow_le (hd : 0 ≤ d) (hm : m ≤ d + 1) :
    d ^ 2 * (d + 1) ^ m ≤ d ^ m * (d ^ 2 + m * d + m * (m - 1)) := by
  induction m with
  | zero => simp
  | succ m ih =>
    push_cast at hm ⊢
    -- What one factor more leaves over; this is where the exponent may not exceed `d + 1`.
    have hloss : 0 ≤ d ^ m * (m * (d + 1 - m)) :=
      mul_nonneg (pow_nonneg hd m) (mul_nonneg m.cast_nonneg (by omega))
    calc d ^ 2 * (d + 1) ^ (m + 1) = d ^ 2 * (d + 1) ^ m * (d + 1) := by ring
      _ ≤ d ^ m * (d ^ 2 + m * d + m * (m - 1)) * (d + 1) :=
          mul_le_mul_of_nonneg_right (ih (by omega)) (by omega)
      _ = d ^ (m + 1) * (d ^ 2 + (m + 1) * d + (m + 1) * (m + 1 - 1))
            - d ^ m * (m * (d + 1 - m)) := by ring
      _ ≤ d ^ (m + 1) * (d ^ 2 + (m + 1) * d + (m + 1) * (m + 1 - 1)) := sub_le_self _ hloss

theorem mul_succ_pow_le (hd : 0 < d) (hn : n ≤ d) :
    d * (d + 1) ^ (n + 1) ≤ d ^ (n + 1) * (d + 2 * (n + 1)) := by
  have hsecond : ((n : Int) + 1) * n ≤ (n + 1) * d := mul_le_mul_of_nonneg_left hn (by omega)
  refine le_of_mul_le_mul_left ?_ hd
  calc d * (d * (d + 1) ^ (n + 1)) = d ^ 2 * (d + 1) ^ (n + 1) := by ring
    _ ≤ d ^ (n + 1) * (d ^ 2 + (n + 1) * d + (n + 1) * n) := by
        have := sq_mul_succ_pow_le (m := n + 1) hd.le (by push_cast; omega)
        push_cast at this
        rwa [add_sub_cancel_right] at this
    _ ≤ d ^ (n + 1) * (d ^ 2 + (n + 1) * d + (n + 1) * d) :=
        mul_le_mul_of_nonneg_left (by linarith) (pow_nonneg hd.le _)
    _ = d * (d ^ (n + 1) * (d + 2 * (n + 1))) := by ring

theorem rounding_le_slope (hn : 2 ≤ n) (hann : (n : Int) ^ n ≤ ann) (hd : n ≤ d) :
    n = 2 ∧ d = 2 ∨ d + 2 * (n + 1) ≤ (ann - 1) * d := by
  obtain hn | rfl : 3 ≤ n ∨ n = 2 := by omega
  · have hcube : 3 ^ 3 ≤ n ^ n :=
      (Nat.pow_le_pow_left hn 3).trans (Nat.pow_le_pow_right (by omega) hn)
    have hlarge : (3 : Int) ^ 3 ≤ ann := le_trans (by exact_mod_cast hcube) hann
    have : 4 * d ≤ (ann - 1) * d := mul_le_mul_of_nonneg_right (by omega) (by omega)
    omega
  · have hfour : 4 ≤ ann := hann
    have : 3 * d ≤ (ann - 1) * d := mul_le_mul_of_nonneg_right (by omega) (by omega)
    obtain rfl | hd : d = 2 ∨ 3 ≤ d := by omega
    · -- At the smallest estimate of two balances the slope falls short of what rounding takes.
      exact .inl ⟨rfl, rfl⟩
    · exact .inr (by push_cast; omega)

/-- Over a unit above an estimate the growing side of the equation rises by at most twice its
tangent, as a step has it, with the quotient rounded down. -/
theorem rise_le_twice_tangent (hn : 2 ≤ n) (hann : (n : Int) ^ n ≤ ann) (hprod : 0 < prod)
    (hd : n ≤ d) (hlt : prod < (d + 1) ^ n) :
    d * (d + 1) ^ (n + 1) ≤
      (d ^ (n + 1) + 1 - prod) * (d + 2 * (n + 1)) + prod * ((ann - 1) * d) := by
  obtain ⟨rfl, rfl⟩ | hslope := rounding_le_slope hn hann hd
  · have : prod * (3 * 2) ≤ prod * ((ann - 1) * 2) :=
      mul_le_mul_of_nonneg_left (by norm_num at hann; omega) hprod.le
    norm_num at hlt ⊢
    omega
  · have hpower := mul_succ_pow_le (by omega) hd
    have := mul_le_mul_of_nonneg_left hslope hprod.le
    linarith

theorem stepD_le_succ (hn : 2 ≤ n) (hann : (n : Int) ^ n ≤ ann) (hprod : 0 < prod) (hd : n ≤ d)
    (hlt : prod < (d + 1) ^ n)
    (hroom : prod * (ann * sum - (ann - 1) * (d + 1)) < (d + 1) ^ (n + 1))
    (h : stepD ann sum prod n d = .ok r) : r ≤ d + 1 := by
  have hpow : (0 : Int) < (n : Int) ^ n := pow_pos (by omega) n
  obtain ⟨dp, hdp, -, hpos, rfl⟩ := stepD_eq_ok (by omega) hprod (by omega) h
  by_contra hgt
  -- A step of two units asks for more room than twice the tangent leaves.
  have habove := (le_fdiv_iff hpos).1 (Int.add_one_le_of_lt (not_le.1 hgt))
  have hquotient : d ^ (n + 1) < (dp + 1) * prod := by
    rw [hdp]
    exact Int.lt_fdiv_add_one_mul_self _ hprod
  have hrise := rise_le_twice_tangent hn hann hprod hd hlt
  have hunit : d * (prod * (ann * sum - (ann - 1) * (d + 1))) < d * (d + 1) ^ (n + 1) :=
    mul_lt_mul_of_pos_left hroom (by omega)
  have hrounded : (d ^ (n + 1) + 1 - prod) * (d + 2 * (n + 1)) ≤ dp * prod * (d + 2 * (n + 1)) :=
    mul_le_mul_of_nonneg_right (by linarith) (by omega)
  have hscaled : prod * (dp * (d + 2 * (n + 1)) + (ann - 1) * d) ≤
      prod * (d * (ann * sum - (ann - 1) * (d + 1))) :=
    mul_le_mul_of_nonneg_left (by linarith) hprod.le
  linarith

end Step

/-! ### The solver -/

section Solver

variable {amp : Int} {balances : List Int} {config : Config} {d r : Int}

/-- An estimate that the exact invariant is less than a unit above. -/
structure UpperEstimate (amp : Int) (balances : List Int) (d : Int) : Prop
    extends Estimate balances d where
  not_carries : ¬ Carries amp balances (d + 1)

variable (ha : 1 ≤ amp) (hn : 2 ≤ balances.length) (hb : ∀ x ∈ balances, 0 < x)

include ha hn hb

theorem upperEstimate_total : UpperEstimate amp balances (total balances) := by
  have hne : balances ≠ [] := List.ne_nil_of_length_pos (by omega)
  have hsum := total_pos hne hb
  obtain ⟨D, hD, hle⟩ := exists_isInvariant ha hb hne
  refine ⟨estimate_total hb hne, fun hcarries => ?_⟩
  have := (hD.carries_iff ha hb hne (by omega)).1 hcarries
  push_cast at this
  linarith

theorem UpperEstimate.step (hd : UpperEstimate amp balances d)
    (h : nextEstimate amp balances d = .ok r) : UpperEstimate amp balances r ∧ r ≤ d + 1 := by
  have hne : balances ≠ [] := List.ne_nil_of_length_pos (by omega)
  have hann := lt_ann ha hn
  have hprod := scaled_pos hb hne
  have hd0 : 0 ≤ d := zero_le_one.trans hd.pos
  have hr := hd.toEstimate.step ha hn hb h
  refine ⟨⟨hr, fun hcarries => ?_⟩, ?_⟩
  · have := le_stepD (by omega) hprod hd0 (by have := hr.pos; omega) hcarries h
    omega
  · have hscale : (balances.length : Int) ^ balances.length ≤ ann amp balances.length :=
      le_mul_of_one_le_left (pow_nonneg (by omega) _) ha
    exact stepD_le_succ hn hscale hprod (hd.length_le hb hne) hd.lt_pow
      (not_le.1 (mt carries_iff.2 hd.not_carries)) h

theorem UpperEstimate.exists_step (hd : UpperEstimate amp balances d) :
    ∃ next, nextEstimate amp balances d = .ok next ∧ UpperEstimate amp balances next := by
  have hne : balances ≠ [] := List.ne_nil_of_length_pos (by omega)
  have hann := lt_ann ha hn
  have hanswered : FailsWithin (fun _ => False) (nextEstimate amp balances d) :=
    failsWithin_stepD (by omega) (scaled_pos hb hne) hd.pos
  obtain ⟨next, hnext⟩ := hanswered.exists_ok
  exact ⟨next, hnext, (hd.step ha hn hb hnext).1⟩

/-- Under a tolerance of at least one, an iteration that goes on falls by two or more. -/
theorem UpperEstimate.falls {tolerance : Nat} (ht : 1 ≤ tolerance)
    (hd : UpperEstimate amp balances d)
    (h : GoesOn (nextEstimate amp balances) tolerance d r) : r + 2 ≤ d := by
  have := (hd.step ha hn hb h.1).2
  have := h.2
  omega

theorem descent_of_goesOn {tolerance : Nat} (ht : 1 ≤ tolerance) {ds : List Int}
    (h : (total balances :: ds).IsChain (GoesOn (nextEstimate amp balances) tolerance)) :
    (∀ d ∈ total balances :: ds, 1 ≤ d) ∧
      (total balances :: ds).IsChain fun d next => next + 2 ≤ d := by
  obtain ⟨hall, hchain⟩ := chain_of_goesOn (I := UpperEstimate amp balances)
    (fun _ _ hd hgoes => ⟨(hd.step ha hn hb hgoes.1).1, hd.falls ha hn hb ht hgoes⟩)
    (upperEstimate_total ha hn hb) h
  exact ⟨fun d hd => (hall d hd).pos, hchain⟩

theorem exists_chain_of_calcD_error {e : Fault} (h : calcD amp balances config = .error e) :
    ∃ ds : List Int, ds.length = config.maxIterations ∧
      (total balances :: ds).IsChain (GoesOn (nextEstimate amp balances) config.tolerance) := by
  have hne : balances ≠ [] := List.ne_nil_of_length_pos (by omega)
  rw [calcD_eq_iterate hb hne] at h
  exact exists_chain_of_iterate_error (fun d hd => hd.exists_step ha hn hb)
    (upperEstimate_total ha hn hb) h

/-- With half as many iterations as the balances sum to the solver has an answer. -/
theorem exists_calcD (ht : 1 ≤ config.tolerance)
    (hcap : total balances ≤ 2 * config.maxIterations) :
    ∃ d, calcD amp balances config = .ok d := by
  cases h : calcD amp balances config with
  | ok d => exact ⟨d, rfl⟩
  | error e =>
    obtain ⟨ds, hlength, hchain⟩ := exists_chain_of_calcD_error ha hn hb h
    obtain ⟨hpos, hfalls⟩ := descent_of_goesOn ha hn hb ht hchain
    have := two_mul_length_lt hpos hfalls
    omega

end Solver

/-- Under a tolerance of at least one the solver for the invariant does not cycle. It iterates from
the sum of the balances, each iteration that does not stop falls by two or more, and so no estimate
comes back. With as many iterations as the balances sum to there is an answer, and without one the
solver has used up its iterations on such a descent. -/
theorem calcD_descends {amp : Int} {balances : List Int} (ha : 1 ≤ amp)
    (hn : 2 ≤ balances.length) (hb : ∀ x ∈ balances, 0 < x) {config : Config}
    (ht : 1 ≤ config.tolerance) :
    let sum := total balances
    let next := nextEstimate amp balances
    calcD amp balances config = iterate next config.tolerance
        (.invariantStalled config.maxIterations) config.maxIterations sum ∧
      (∀ ds, (sum :: ds).IsChain (GoesOn next config.tolerance) →
        (sum :: ds).Nodup ∧ (sum :: ds).IsChain fun d d' => d' + 2 ≤ d) ∧
      (sum ≤ config.maxIterations → ∃ d, calcD amp balances config = .ok d) ∧
      ∀ e, calcD amp balances config = .error e →
        e = .invariantStalled config.maxIterations ∧ ∃ ds : List Int,
          ds.length = config.maxIterations ∧
            (sum :: ds).IsChain fun d d' => next d = .ok d' ∧ d' + 2 ≤ d := by
  intro sum next
  have hne : balances ≠ [] := List.ne_nil_of_length_pos (by omega)
  refine ⟨calcD_eq_iterate hb hne config, fun ds h => ?_, fun hcap => ?_,
    fun e h => ⟨calcD_stalls ha hn hb config e h, ?_⟩⟩
  · have hfalls := (descent_of_goesOn ha hn hb ht h).2
    exact ⟨nodup_of_falls hfalls, hfalls⟩
  · have hsum : 0 < sum := total_pos hne hb
    exact exists_calcD ha hn hb ht (by omega)
  · obtain ⟨ds, hlength, hchain⟩ := exists_chain_of_calcD_error ha hn hb h
    obtain ⟨-, hmade⟩ := chain_of_goesOn (I := UpperEstimate amp balances)
      (R := fun d d' => next d = .ok d' ∧ d' + 2 ≤ d)
      (fun _ _ hd hgoes => ⟨(hd.step ha hn hb hgoes.1).1, hgoes.1, hd.falls ha hn hb ht hgoes⟩)
      (upperEstimate_total ha hn hb) hchain
    exact ⟨ds, hlength, hmade⟩

/-- One iteration is too few for balances far apart, and eight are enough for a sum of eight. -/
theorem calcD_descends_capped :
    let one : Config := ⟨1, 1, 9999, 1000, by decide⟩
    (calcD 100 [1, 10 ^ 30] one = .error (.invariantStalled 1) ∧ ∃ ds : List Int, ds.length = 1 ∧
      (total [1, 10 ^ 30] :: ds).IsChain fun d d' =>
        nextEstimate 100 [1, 10 ^ 30] d = .ok d' ∧ d' + 2 ≤ d) ∧
      ∃ d, calcD 1 [1, 7] ⟨8, 1, 9999, 1000, by decide⟩ = .ok d := by
  intro one
  let eight : Config := ⟨8, 1, 9999, 1000, by decide⟩
  have hstalled : calcD 100 [1, 10 ^ 30] one = .error (.invariantStalled 1) := by decide +kernel
  obtain ⟨-, -, -, hcapped⟩ := calcD_descends (by decide : (1 : Int) ≤ 100)
    (by decide : 2 ≤ ([1, 10 ^ 30] : List Int).length) (by decide) (le_refl one.tolerance)
  obtain ⟨-, -, hanswered, -⟩ := calcD_descends (by decide : (1 : Int) ≤ 1)
    (by decide : 2 ≤ ([1, 7] : List Int).length) (by decide) (le_refl eight.tolerance)
  exact ⟨⟨hstalled, (hcapped _ hstalled).2⟩, hanswered (by decide)⟩

/-- A step can rise by a unit, so that without a tolerance the estimates alternate. -/
example : nextEstimate 1 [1, 7] 6 = .ok 7 ∧ nextEstimate 1 [1, 7] 7 = .ok 6 := by decide

end SwapPool.StableInvariant
