import SwapPool.Fault

/-! Operations on a state that may fail part-way. What has been written before a
fault stays written, so that an operation leaves its state alone on failure is
a property to be established and not a feature of the notation; `restoring` is
the one way to undo. -/

namespace SwapPool

abbrev Action (σ : Type) := EStateM Fault σ

namespace Action

variable {σ τ α : Type}

def ofExcept : Except Fault α → Action σ α
  | .ok a => pure a
  | .error e => throw e

instance : MonadLift (Except Fault) (Action σ) := ⟨ofExcept⟩

@[simp] theorem ofExcept_ok (a : α) (s : σ) : (ofExcept (.ok a) : Action σ α) s = .ok a s := rfl

@[simp] theorem ofExcept_error (e : Fault) (s : σ) :
    (ofExcept (.error e) : Action σ α) s = .error e s := rfl

/-- The state after an operation, whether it succeeded or not. -/
def after (act : Action σ α) (s : σ) : σ :=
  match act s with
  | .ok _ s' => s'
  | .error _ s' => s'

/-- An operation on a part of the state. -/
def on (part : σ → τ) (write : τ → σ → σ) (act : Action τ α) : Action σ α := fun s =>
  match act (part s) with
  | .ok a t => .ok a (write t s)
  | .error e t => .error e (write t s)

/-- On failure the state is what `undo` makes of the states before and after. -/
def restoring (undo : σ → σ → σ) (act : Action σ α) : Action σ α := fun s =>
  match act s with
  | .ok a s' => .ok a s'
  | .error e s' => .error e (undo s s')

/-- All or nothing: on failure the whole state is what it was at the start. -/
def atomically (act : Action σ α) : Action σ α := restoring (fun s _ => s) act

end Action

end SwapPool
