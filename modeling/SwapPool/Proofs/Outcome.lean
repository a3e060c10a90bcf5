import Mathlib.Data.List.Forall2
import SwapPool.Action
import SwapPool.Number.Checked

/-! How outcomes combine. A request succeeds when each of its parts does. An
action succeeds by a chain of successes, and fails at its first part that fails,
in the state that this part leaves behind. -/

namespace SwapPool

section Request

variable {α β : Type}

@[simp] theorem throw_eq_error (e : Fault) : (throw e : Except Fault α) = .error e := rfl

@[simp] theorem pure_eq_ok (a : α) : (pure a : Except Fault α) = .ok a := rfl

@[simp] theorem ok_bind (a : α) (f : α → Except Fault β) : (Except.ok a >>= f) = f a := rfl

@[simp] theorem error_bind (e : Fault) (f : α → Except Fault β) :
    (Except.error e >>= f) = .error e := rfl

@[simp] theorem bind_eq_ok_iff {x : Except Fault α} {f : α → Except Fault β} {b : β} :
    (x >>= f) = .ok b ↔ ∃ a, x = .ok a ∧ f a = .ok b := by
  cases x with
  | ok a => simp
  | error e => simp

/-- What follows an answer may depend on the answer. -/
theorem bind_congr_of_ok {x : Except Fault α} {f g : α → Except Fault β}
    (h : ∀ a, x = .ok a → f a = g a) : (x >>= f) = x >>= g := by
  cases x with
  | ok a => exact h a rfl
  | error e => rfl

@[simp] theorem unless_eq_ok_iff {c : Prop} [Decidable c] {e : Fault} {x : Except Fault α} {a : α} :
    (if c then .error e else x) = .ok a ↔ ¬ c ∧ x = .ok a := by
  split <;> simp_all

@[simp] theorem provided_eq_ok_iff {c : Prop} [Decidable c] {e : Fault} {x : Except Fault α}
    {a : α} : (if c then x else .error e) = .ok a ↔ c ∧ x = .ok a := by
  split <;> simp_all

@[simp] theorem exists_unit_iff {p : Unit → Prop} : (∃ u, p u) ↔ p () :=
  ⟨fun ⟨(), h⟩ => h, fun h => ⟨(), h⟩⟩

theorem mapM_eq_ok_iff {f : α → Except Fault β} {xs : List α} {ys : List β} :
    xs.mapM f = .ok ys ↔ List.Forall₂ (fun x y => f x = .ok y) xs ys := by
  induction xs generalizing ys with
  | nil => cases ys <;> simp
  | cons x xs ih =>
    rw [List.mapM_cons]
    cases ys with
    | nil => simp
    | cons y ys => simp [ih]

/-! ### Faults of a request -/

variable {P Q : Fault → Prop} {x : Except Fault α}

/-- If the request fails, the fault is one that `P` admits. -/
def FailsWithin (P : Fault → Prop) (x : Except Fault α) : Prop := ∀ e, x = .error e → P e

theorem FailsWithin.mono (h : FailsWithin P x) (hpq : ∀ e, P e → Q e) : FailsWithin Q x :=
  fun e he => hpq e (h e he)

@[simp] theorem failsWithin_ok (a : α) : FailsWithin P (.ok a : Except Fault α) := nofun

@[simp] theorem failsWithin_error {e : Fault} :
    FailsWithin P (.error e : Except Fault α) ↔ P e :=
  ⟨fun h => h e rfl, fun h _ he => Except.error.inj he ▸ h⟩

/-- A request that admits no fault is answered. -/
theorem FailsWithin.exists_ok (h : FailsWithin (fun _ => False) x) : ∃ a, x = .ok a := by
  cases x with
  | ok a => exact ⟨a, rfl⟩
  | error e => exact (h e rfl).elim

@[simp] theorem failsWithin_bind {f : α → Except Fault β} :
    FailsWithin P (x >>= f) ↔ FailsWithin P x ∧ ∀ a, x = .ok a → FailsWithin P (f a) := by
  cases x <;> simp

@[simp] theorem failsWithin_ite {c : Prop} [Decidable c] {x y : Except Fault α} :
    FailsWithin P (if c then x else y) ↔ (c → FailsWithin P x) ∧ (¬ c → FailsWithin P y) := by
  split <;> simp_all

theorem failsWithin_mapM {f : α → Except Fault β} {xs : List α}
    (hf : ∀ a ∈ xs, FailsWithin P (f a)) : FailsWithin P (xs.mapM f) := by
  induction xs with
  | nil => simp
  | cons x xs ih =>
    rw [List.forall_mem_cons] at hf
    simp [List.mapM_cons, hf.1, ih hf.2]

theorem Checked.failsWithin_sub {a b : Int} (h : b ≤ a) : FailsWithin P (sub a b) := by
  rw [sub_eq_ok_iff.2 ⟨h, rfl⟩]
  exact failsWithin_ok _

theorem Checked.failsWithin_quot {a b : Int} (h : b ≠ 0) : FailsWithin P (quot a b) := by
  rw [quot_eq_ok_iff.2 ⟨h, rfl⟩]
  exact failsWithin_ok _

end Request

namespace Action

variable {σ τ α β : Type} {s s' : σ}

@[simp] theorem pure_apply (a : α) (s : σ) : (pure a : Action σ α) s = .ok a s := rfl

@[simp] theorem throw_apply (e : Fault) (s : σ) : (throw e : Action σ α) s = .error e s := rfl

@[simp] theorem get_apply (s : σ) : (get : Action σ σ) s = .ok s s := rfl

@[simp] theorem set_apply (s t : σ) : (set t : Action σ PUnit) s = .ok ⟨⟩ t := rfl

@[simp] theorem modify_apply (f : σ → σ) (s : σ) : (modify f : Action σ PUnit) s = .ok ⟨⟩ (f s) :=
  rfl

@[simp] theorem lift_apply (x : Except Fault α) (s : σ) :
    (liftM x : Action σ α) s = ofExcept x s := rfl

@[simp] theorem lift_ok (a : α) :
    (liftM (Except.ok a : Except Fault α) : Action σ α) = pure a := rfl

@[simp] theorem lift_error (e : Fault) :
    (liftM (Except.error e : Except Fault α) : Action σ α) = throw e := rfl

@[simp] theorem throw_bind (e : Fault) (f : α → Action σ β) :
    ((throw e : Action σ α) >>= f) = throw e := rfl

@[simp] theorem get_bind_apply (f : σ → Action σ α) (s : σ) : (get >>= f) s = f s s := rfl

theorem mapM_lift (f : α → Except Fault β) (xs : List α) :
    (xs.mapM fun x => (liftM (f x) : Action σ β)) = liftM (xs.mapM f) := by
  induction xs with
  | nil => rfl
  | cons x xs ih =>
    rw [List.mapM_cons, List.mapM_cons, ih]
    cases f x with
    | error e => rfl
    | ok y => cases xs.mapM f <;> rfl

@[simp] theorem ofExcept_eq_ok_iff {x : Except Fault α} {a : α} :
    ofExcept x s = .ok a s' ↔ x = .ok a ∧ s' = s := by
  cases x <;> simp [eq_comm]

theorem bind_apply (act : Action σ α) (f : α → Action σ β) (s : σ) :
    (act >>= f) s = match act s with
      | .ok a t => f a t
      | .error e t => .error e t := by
  change EStateM.bind act f s = _
  unfold EStateM.bind
  cases act s <;> rfl

theorem map_apply (f : α → β) (act : Action σ α) (s : σ) :
    (f <$> act) s = match act s with
      | .ok a t => .ok (f a) t
      | .error e t => .error e t := by
  rw [map_eq_pure_bind, bind_apply]
  rfl

@[simp] theorem bind_eq_ok_iff {act : Action σ α} {f : α → Action σ β} {b : β} :
    (act >>= f) s = .ok b s' ↔ ∃ a t, act s = .ok a t ∧ f a t = .ok b s' := by
  rw [bind_apply]
  cases act s <;> simp [and_assoc]

@[simp] theorem bind_eq_error_iff {act : Action σ α} {f : α → Action σ β} {e : Fault} :
    (act >>= f) s = .error e s' ↔
      act s = .error e s' ∨ ∃ a t, act s = .ok a t ∧ f a t = .error e s' := by
  rw [bind_apply]
  cases act s <;> simp [and_assoc]

@[simp] theorem map_eq_ok_iff {act : Action σ α} {f : α → β} {b : β} :
    (f <$> act) s = .ok b s' ↔ ∃ a, act s = .ok a s' ∧ f a = b := by
  change (act >>= fun a => pure (f a)) s = _ ↔ _
  simp only [bind_eq_ok_iff, pure_apply, EStateM.Result.ok.injEq]
  constructor
  · rintro ⟨a, t, ha, hb, rfl⟩
    exact ⟨a, ha, hb⟩
  · rintro ⟨a, ha, hb⟩
    exact ⟨a, s', ha, hb, rfl⟩

@[simp] theorem map_eq_error_iff {act : Action σ α} {f : α → β} {e : Fault} :
    (f <$> act) s = .error e s' ↔ act s = .error e s' := by
  change (act >>= fun a => pure (f a)) s = _ ↔ _
  simp only [bind_eq_error_iff, pure_apply, reduceCtorEq, and_false, exists_false, or_false]

@[simp] theorem unless_eq_ok_iff {c : Prop} [Decidable c] {e : Fault} {act : Action σ α} {a : α} :
    (if c then throw e else act) s = .ok a s' ↔ ¬ c ∧ act s = .ok a s' := by
  split <;> simp_all

@[simp] theorem provided_eq_ok_iff {c : Prop} [Decidable c] {e : Fault} {act : Action σ α} {a : α} :
    (if c then act else throw e) s = .ok a s' ↔ c ∧ act s = .ok a s' := by
  split <;> simp_all

@[simp] theorem forM_nil_apply (f : α → Action σ Unit) (s : σ) :
    ([] : List α).forM f s = .ok () s := rfl

@[simp] theorem forM_cons_eq_ok_iff {f : α → Action σ Unit} {x : α} {xs : List α} :
    (x :: xs).forM f s = .ok () s' ↔ ∃ t, f x s = .ok () t ∧ xs.forM f t = .ok () s' := by
  rw [List.forM_eq_forM, List.forM_cons, bind_eq_ok_iff, exists_unit_iff]

@[simp] theorem mapM_nil_apply (f : α → Action σ β) (s : σ) :
    ([] : List α).mapM f s = .ok [] s := rfl

@[simp] theorem mapM_cons_eq_ok_iff {f : α → Action σ β} {x : α} {xs : List α} {ys : List β} :
    (x :: xs).mapM f s = .ok ys s' ↔
      ∃ y t zs, f x s = .ok y t ∧ xs.mapM f t = .ok zs s' ∧ y :: zs = ys := by
  rw [List.mapM_cons]
  simp only [bind_eq_ok_iff, pure_apply, EStateM.Result.ok.injEq]
  constructor
  · rintro ⟨y, t, hy, zs, u, hzs, rfl, rfl⟩
    exact ⟨y, t, zs, hy, hzs, rfl⟩
  · rintro ⟨y, t, zs, hy, hzs, rfl⟩
    exact ⟨y, t, hy, zs, s', hzs, rfl, rfl⟩

/-- What every part of a chain keeps, the chain keeps. -/
theorem forM_keeps {f : α → Action σ Unit} {xs : List α} {I : σ → Prop}
    (step : ∀ x s s', I s → f x s = .ok () s' → I s') (hs : I s) (h : xs.forM f s = .ok () s') :
    I s' := by
  induction xs generalizing s with
  | nil =>
    simp only [forM_nil_apply, EStateM.Result.ok.injEq, true_and] at h
    exact h ▸ hs
  | cons x xs ih =>
    obtain ⟨t, hx, h⟩ := forM_cons_eq_ok_iff.1 h
    exact ih (step x s t hs hx) h

@[simp] theorem restoring_eq_ok_iff {undo : σ → σ → σ} {act : Action σ α} {a : α} :
    restoring undo act s = .ok a s' ↔ act s = .ok a s' := by
  unfold restoring
  cases act s <;> simp

theorem after_of_ok {act : Action σ α} {a : α} (h : act s = .ok a s') : act.after s = s' := by
  simp [after, h]

theorem after_of_error {act : Action σ α} {e : Fault} (h : act s = .error e s') :
    act.after s = s' := by
  simp [after, h]

/-- The action succeeds on the state, as a value that can be computed. -/
def succeeds (act : Action σ α) (s : σ) : Bool :=
  match act s with
  | .ok _ _ => true
  | .error _ _ => false

theorem eq_ok_of_succeeds {act : Action σ α} (h : act.succeeds s = true) :
    ∃ a, act s = .ok a (act.after s) := by
  unfold succeeds at h
  unfold after
  cases hs : act s with
  | ok a t => exact ⟨a, rfl⟩
  | error e t => simp [hs] at h

theorem eq_error_of_not_succeeds {act : Action σ α} (h : act.succeeds s = false) :
    ∃ e, act s = .error e (act.after s) := by
  unfold succeeds at h
  unfold after
  cases hs : act s with
  | ok a t => simp [hs] at h
  | error e t => exact ⟨e, rfl⟩

/-- The answer of the action on the state, as a value that can be computed. -/
def answer? (act : Action σ α) (s : σ) : Option α :=
  match act s with
  | .ok a _ => some a
  | .error _ _ => none

theorem eq_ok_of_answer? {act : Action σ α} {a : α} (h : act.answer? s = some a) :
    act s = .ok a (act.after s) := by
  unfold answer? at h
  unfold after
  cases hs : act s with
  | ok b t => simp_all
  | error e t => simp [hs] at h

/-- The fault that the action ends in on the state, as a value that can be computed. -/
def fault? (act : Action σ α) (s : σ) : Option Fault :=
  match act s with
  | .ok _ _ => none
  | .error e _ => some e

theorem eq_error_of_fault? {act : Action σ α} {e : Fault} (h : act.fault? s = some e) :
    act s = .error e (act.after s) := by
  unfold fault? at h
  unfold after
  cases hs : act s with
  | ok a t => simp [hs] at h
  | error e' t => simp_all

/-! ### Failing in place -/

/-- If the action fails on `s`, it has written nothing. -/
def FailsInPlace (act : Action σ α) (s : σ) : Prop := ∀ e s', act s = .error e s' → s' = s

@[simp] theorem failsInPlace_pure (a : α) : FailsInPlace (pure a : Action σ α) s :=
  fun _ _ h => by simp at h

@[simp] theorem failsInPlace_throw (e : Fault) : FailsInPlace (throw e : Action σ α) s :=
  fun _ _ h => by simp_all

@[simp] theorem failsInPlace_set (t : σ) : FailsInPlace (set t : Action σ PUnit) s :=
  fun _ _ h => by simp at h

@[simp] theorem failsInPlace_modify (f : σ → σ) : FailsInPlace (modify f : Action σ PUnit) s :=
  fun _ _ h => by simp at h

@[simp] theorem failsInPlace_get_bind (f : σ → Action σ β) :
    FailsInPlace (get >>= f) s ↔ FailsInPlace (f s) s := by
  simp [FailsInPlace]

@[simp] theorem failsInPlace_lift_bind (x : Except Fault α) (f : α → Action σ β) :
    FailsInPlace (liftM x >>= f) s ↔ ∀ a, x = .ok a → FailsInPlace (f a) s := by
  cases x <;> simp [FailsInPlace]

@[simp] theorem failsInPlace_ite {c : Prop} [Decidable c] (x y : Action σ α) :
    FailsInPlace (if c then x else y) s ↔
      (c → FailsInPlace x s) ∧ (¬ c → FailsInPlace y s) := by
  split <;> simp_all

@[simp] theorem failsInPlace_map (f : α → β) (act : Action σ α) :
    FailsInPlace (f <$> act) s ↔ FailsInPlace act s := by
  simp [FailsInPlace]

/-- Failing in place goes through a chain whose later part cannot fail. -/
theorem FailsInPlace.bind {act : Action σ α} {f : α → Action σ β} (h : FailsInPlace act s)
    (hf : ∀ a t, act s = .ok a t → ∀ e t', f a t ≠ .error e t') :
    FailsInPlace (act >>= f) s := by
  intro e s' hs
  rw [bind_eq_error_iff] at hs
  rcases hs with hs | ⟨a, t, ha, hs⟩
  · exact h e s' hs
  · exact absurd hs (hf a t ha e s')

theorem failsInPlace_atomically (act : Action σ α) : FailsInPlace (atomically act) s := by
  intro e s' h
  unfold atomically restoring at h
  cases hs : act s with
  | ok a t => simp [hs] at h
  | error e' t =>
    simp only [hs, EStateM.Result.error.injEq] at h
    exact h.2.symm

theorem FailsInPlace.on {part : σ → τ} {write : τ → σ → σ} {act : Action τ α}
    (hw : write (part s) s = s) (h : FailsInPlace act (part s)) :
    FailsInPlace (Action.on part write act) s := by
  intro e s' hs
  unfold Action.on at hs
  cases ha : act (part s) with
  | ok a t => simp [ha] at hs
  | error e' t =>
    simp only [ha, EStateM.Result.error.injEq] at hs
    rw [← hs.2, h e' t ha, hw]

/-! ### What holds after every outcome -/

/-- From a state with `I` the action ends in one, whether it succeeds or fails. -/
def Keeps (I : σ → Prop) (act : Action σ α) : Prop := ∀ s, I s → I (act.after s)

variable {I : σ → Prop}

theorem keeps_pure (a : α) : Keeps I (pure a : Action σ α) := fun _ h => h

theorem keeps_throw (e : Fault) : Keeps I (throw e : Action σ α) := fun _ h => h

theorem keeps_get : Keeps I (get : Action σ σ) := fun _ h => h

theorem keeps_lift (x : Except Fault α) : Keeps I (liftM x : Action σ α) := by
  cases x with
  | ok a => exact keeps_pure a
  | error e => exact keeps_throw e

theorem Keeps.bind {act : Action σ α} {f : α → Action σ β} (h : Keeps I act)
    (hf : ∀ a, Keeps I (f a)) : Keeps I (act >>= f) := by
  intro s hs
  have ht := h s hs
  unfold after at ht ⊢
  rw [bind_apply]
  cases ha : act s with
  | ok a t => exact hf a t (by simpa [ha] using ht)
  | error e t => simpa [ha] using ht

theorem keeps_on {part : σ → τ} {write : τ → σ → σ} {act : Action τ α}
    (hw : ∀ t s, I s → I (write t s)) : Keeps I (Action.on part write act) := by
  intro s hs
  unfold after Action.on
  cases act (part s) with
  | ok a t => exact hw t s hs
  | error e t => exact hw t s hs

theorem Keeps.restoring {act : Action σ α} {undo : σ → σ → σ} (h : Keeps I act)
    (hu : ∀ s s', I s → I s' → I (undo s s')) : Keeps I (restoring undo act) := by
  intro s hs
  have ht := h s hs
  unfold after at ht ⊢
  unfold Action.restoring
  cases ha : act s with
  | ok a t => simpa [ha] using ht
  | error e t => exact hu s t hs (by simpa [ha] using ht)

end Action

end SwapPool
