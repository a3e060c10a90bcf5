import SwapPool.Proofs.Pool.Plan

/-! The guard of a call. It lets a call through, answer and state, unless the call
succeeds in a pool that has a cap and comes out above it; then the cap is the
fault, and the pool is as it was. -/

namespace SwapPool.Pool

variable {p p' : Pool} {limits : Limits} {poolId value limit : Int}

/-! ### The check -/

/-- The value of a risk-capped pool is that of its reserves. -/
theorem tvl_eq_lockedValue {c : StableCurve} (hc : p.curve = .stable c) (hk : p.kind = .degen) :
    p.tvl = .ok (p.lockedValue c) := by
  simp [tvl, curveOfKind, hc, hk]

theorem assertWithinCap_of_cap (hc : p.cap? limits poolId = some limit) (hv : p.tvl = .ok value) :
    p.assertWithinCap limits poolId =
      if limit < value then .error (.limitExceeded poolId value limit) else .ok () := by
  simp [assertWithinCap, hc, hv]

theorem assertWithinCap_of_uncapped (h : p.cap? limits poolId = none) :
    p.assertWithinCap limits poolId = .ok () := by
  simp [assertWithinCap, h]

/-- A pool with a cap is risk-capped. -/
theorem kind_of_cap (h : p.cap? limits poolId = some limit) :
    p.kind = .degen ∧ limits.limit? poolId = some limit := by
  unfold cap? at h
  split at h
  · exact ⟨‹_›, h⟩
  · cases h

theorem cap?_of_constantProduct (hc : p.curve = .constantProduct) (limits : Limits) (poolId : Int) :
    p.cap? limits poolId = none := by
  simp [cap?, kind, hc]

theorem curve_of_degen (h : p.kind = .degen) : ∃ c, p.curve = .stable c := by
  cases hc : p.curve with
  | constantProduct => simp [kind, hc] at h
  | stable c => exact ⟨c, rfl⟩

/-- The check fails only where a cap is exceeded. -/
theorem assertWithinCap_cases (p : Pool) (limits : Limits) (poolId : Int) :
    p.assertWithinCap limits poolId = .ok () ∨ ∃ value limit,
      p.assertWithinCap limits poolId = .error (.limitExceeded poolId value limit) := by
  cases hl : p.cap? limits poolId with
  | none => exact .inl (assertWithinCap_of_uncapped hl)
  | some limit =>
    obtain ⟨hk, -⟩ := kind_of_cap hl
    obtain ⟨c, hc⟩ := curve_of_degen hk
    rw [assertWithinCap_of_cap hl (tvl_eq_lockedValue hc hk)]
    split
    · exact .inr ⟨_, _, rfl⟩
    · exact .inl rfl

/-! ### The guarded call -/

variable {α : Type} {act : Action Pool α} {a : α}

theorem guarded_of_ok (h : act p = .ok a p') :
    guarded limits (some poolId) false act p = match p'.assertWithinCap limits poolId with
      | .ok () => .ok a p'
      | .error e => .error e p := by
  simp only [guarded, Action.atomically, Action.restoring, Action.bind_apply, h, Action.get_apply,
    Action.lift_apply]
  cases p'.assertWithinCap limits poolId <;> rfl

/-- A call that succeeds in a pool without a cap is let through. -/
theorem guarded_of_uncapped (h : act p = .ok a p') (hcap : ∀ id, p'.cap? limits id = none)
    (poolId : Option Int) (simulate : Bool) :
    guarded limits poolId simulate act p = .ok a p' := by
  cases simulate with
  | true => exact h
  | false =>
    cases poolId with
    | none => exact h
    | some id => rw [guarded_of_ok h, assertWithinCap_of_uncapped (hcap id)]

/-- A call that succeeds is let through, or refused by the cap. -/
theorem guarded_cases (limits : Limits) (h : act p = .ok a p') (poolId : Option Int) (simulate : Bool) :
    guarded limits poolId simulate act p = .ok a p' ∨ ∃ id value limit,
      guarded limits poolId simulate act p = .error (.limitExceeded id value limit) p := by
  cases simulate with
  | true => exact .inl h
  | false =>
    cases poolId with
    | none => exact .inl h
    | some id =>
      rw [guarded_of_ok h]
      obtain hw | ⟨value, limit, hw⟩ := assertWithinCap_cases p' limits id
      · exact .inl (by rw [hw])
      · exact .inr ⟨id, value, limit, by rw [hw]⟩

end SwapPool.Pool
