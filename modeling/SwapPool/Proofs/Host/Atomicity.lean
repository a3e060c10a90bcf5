import SwapPool.Host
import SwapPool.Proofs.Pool.Runs

/-! Failure leaves no trace. A command that fails changes nothing in the pool, and
a block that fails puts back the pool that it began with, unless another was
loaded in the meantime; so it is enough that its steps load none. -/

namespace SwapPool

mutual

/-- No pool is loaded by the step, inside blocks either. -/
def Step.loadsNone : Step → Bool
  | .reload _ => false
  | .block steps _ => Step.allLoadNone steps
  | _ => true

def Step.allLoadNone : List Step → Bool
  | [] => true
  | s :: rest => s.loadsNone && Step.allLoadNone rest

end

namespace Host

open SwapPool.Action (Keeps keeps_pure keeps_throw keeps_get keeps_lift keeps_on)

variable {n : Nat} {h h' : Host}

theorem onPool_keeps_loads {α : Type} (act : Action Pool α) : Keeps (·.loads = n) (onPool act) :=
  keeps_on fun _ _ h => h

theorem onLimits_keeps_loads {α : Type} (act : Action Limits α) :
    Keeps (·.loads = n) (onLimits act) :=
  keeps_on fun _ _ h => h

theorem undo_loads (before after : Host) : (undo before after).loads = after.loads := by
  unfold undo
  split <;> rfl

mutual

theorem perform_keeps_loads : ∀ s : Step, s.loadsNone = true → Keeps (·.loads = n) (perform s)
  | .command request, _ =>
    (keeps_lift request).bind fun _ => keeps_get.bind fun _ => onPool_keeps_loads _
  | .query request, _ =>
    (keeps_lift request).bind fun _ => keeps_get.bind fun _ => keeps_lift _
  | .setLimit poolId limit, _ => (onLimits_keeps_loads _).bind fun _ => keeps_pure _
  | .removeLimit poolId, _ => (onLimits_keeps_loads _).bind fun _ => keeps_pure _
  | .dump poolId, _ => keeps_get.bind fun _ => (keeps_lift _).bind fun _ => keeps_pure _
  | .reload _, h => nomatch h
  | .block steps abort, h => by
    refine Keeps.restoring ((performAll_keeps_loads steps h).bind fun replies => ?_)
      fun before after _ ha => (undo_loads before after).trans ha
    cases abort
    · exact keeps_pure _
    · exact keeps_throw _

theorem performAll_keeps_loads : ∀ steps : List Step, Step.allLoadNone steps = true →
    Keeps (·.loads = n) (performAll steps)
  | [], _ => keeps_pure _
  | s :: rest, h => by
    obtain ⟨hs, hr⟩ := Bool.and_eq_true_iff.1 h
    exact (perform_keeps_loads s hs).bind fun _ => (performAll_keeps_loads rest hr).bind fun _ =>
      keeps_pure _

end

/-- A block that fails without a load gives back the pool that it began with. -/
theorem pool_of_block_failure {steps : List Step} (hs : Step.allLoadNone steps = true)
    {abort : Bool} {e : Fault} (hf : perform (.block steps abort) h = .error e h') :
    h'.pool = h.pool := by
  have hl := perform_keeps_loads (.block steps abort) hs h rfl
  rw [Action.after_of_error hf] at hl
  rw [perform] at hf
  unfold Action.restoring at hf
  split at hf
  · cases hf
  · cases hf
    rw [undo_loads] at hl
    rw [undo, if_pos hl]

end Host

/-- Failure is atomic for commands and for blocks: in every pool of a run, a command that fails
and a block of steps that fails at any point leave the whole pool as it was. -/
theorem failure_atomic {p : Pool} (start : p.Created ∨ p.Loaded) (calls : List Call) :
    (∀ limits c e q, Command.run limits c (p.after calls) = .error e q → q = p.after calls) ∧
      ∀ steps abort e (h h' : Host), Step.allLoadNone steps = true → h.pool = p.after calls →
        Host.perform (.block steps abort) h = .error e h' → h'.pool = p.after calls := by
  have hp : p.Admissible := start.elim Pool.Created.admissible Pool.Loaded.admissible
  constructor
  · intro limits c e q hf
    exact Command.run_failsInPlace (hp.after calls) limits c e q hf
  · intro steps abort e h h' hs hh hf
    rw [← hh]
    exact Host.pool_of_block_failure hs hf

/-- The admin part of a swap cannot be minted for an account that is not registered, neither
alone nor in a block that has already moved shares. -/
theorem failure_atomic_unregistered_recipient :
    let p : Pool := ⟨["x", "y"], [0, 0], 30, .empty, [.zero, .zero], .standard, .constantProduct⟩
    let q := p.after
      [⟨∅, .register "lp"⟩, ⟨∅, .register "bob"⟩, ⟨∅, .addLiquidity "lp" [5000, 5000] false⟩]
    let fees : AdminFees := ⟨10, "dao", 0, none, by decide, by decide, by decide⟩
    let c := Command.swap "x" 4000 "y" 0 fees false none
    let block := Host.perform
      (.block [.command (.ok (.transfer "lp" "bob" 70)), .command (.ok c)] false)
    (c.run ∅).succeeds q = false ∧ (c.run ∅).after q = q ∧
      block.succeeds (.ofPool .unbounded q) = false ∧
      (block.after (.ofPool .unbounded q)).pool = q := by
  intro p q fees c block
  have start : p.Created := ⟨["x", "y"], 30, .constantProduct, .standard, by rfl⟩
  have hc : (c.run ∅).succeeds q = false := by decide +kernel
  have hb : block.succeeds (.ofPool .unbounded q) = false := by decide +kernel
  obtain ⟨_, hcf⟩ := Action.eq_error_of_not_succeeds hc
  obtain ⟨_, hbf⟩ := Action.eq_error_of_not_succeeds hb
  obtain ⟨hcommand, hblock⟩ := failure_atomic (.inl start)
    [⟨∅, .register "lp"⟩, ⟨∅, .register "bob"⟩, ⟨∅, .addLiquidity "lp" [5000, 5000] false⟩]
  exact ⟨hc, hcommand _ _ _ _ hcf, hb, hblock _ _ _ _ _ (by decide) rfl hbf⟩

end SwapPool
