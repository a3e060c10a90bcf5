import SwapPool.Pool.Command
import SwapPool.Record.Decode
import SwapPool.Record.Encode

/-! A host: one pool and the store of caps beside it. Steps come one at a time; a
step that fails does not end the run. A block of steps is all or nothing for the
pool that it began with. A pool loaded inside the block takes its place for good,
and the caps, which are not the pool's, keep what the block wrote. -/

namespace SwapPool

structure Host where
  pool : Pool
  limits : Limits
  digits : DigitLimit
  /-- How many pools were loaded, each in the place of the one before. -/
  loads : Nat

inductive Step
  /-- A command, or why its arguments could not be put together. -/
  | command (request : Except Fault Command)
  /-- A query, or why its arguments could not be put together. -/
  | query (request : Except Fault Query)
  | setLimit (poolId limit : Int)
  | removeLimit (poolId : Int)
  | dump (poolId : Int)
  | reload (poolId : Int)
  | block (steps : List Step) (abort : Bool)

namespace Host

/-- A host of a pool, without caps. -/
def ofPool (digits : DigitLimit) (p : Pool) : Host := ⟨p, ∅, digits, 0⟩

def onPool {α : Type} (act : Action Pool α) : Action Host α :=
  .on (·.pool) (fun p h => { h with pool := p }) act

def onLimits {α : Type} (act : Action Limits α) : Action Host α :=
  .on (·.limits) (fun l h => { h with limits := l }) act

/-- Dump the pool and go on with what the dump loads as. -/
def reload (poolId : Int) : Action Host Reply := do
  let h ← get
  let text ← dumpPool h.digits h.pool poolId
  let (id, loaded) ← loadPool h.digits h.pool.config text
  set { h with pool := loaded, loads := h.loads + 1 }
  return .reloaded id (h.pool.agrees loaded)

/-- The host after a block that began with `before` and failed at `after`. -/
def undo (before after : Host) : Host :=
  if after.loads = before.loads then { after with pool := before.pool } else after

mutual

def perform : Step → Action Host Reply
  | .command request => do
    let c ← request
    onPool (c.run (← get).limits)
  | .query request => do
    let q ← request
    let h ← get
    q.answer h.limits h.pool
  | .setLimit poolId limit => do
    onLimits (Limits.set poolId limit)
    return .nothing
  | .removeLimit poolId => do
    onLimits (Limits.remove poolId)
    return .nothing
  | .dump poolId => do
    let h ← get
    let text ← dumpPool h.digits h.pool poolId
    return .text text
  | .reload poolId => reload poolId
  | .block steps abort =>
    Action.restoring undo do
      let replies ← performAll steps
      if abort then throw .aborted
      return .several replies

/-- The replies of steps, up to the first that fails. -/
def performAll : List Step → Action Host (List Reply)
  | [] => return []
  | s :: rest => do
    let reply ← perform s
    return reply :: (← performAll rest)

end

/-- The host after a run of steps. -/
def after (steps : List Step) (h : Host) : Host :=
  steps.foldl (fun h s => (perform s).after h) h

/-- What each step answers and the host after it. -/
def trace : List Step → Host → List (Except Fault Reply × Host)
  | [], _ => []
  | s :: rest, h =>
    match perform s h with
    | .ok reply h' => (.ok reply, h') :: trace rest h'
    | .error fault h' => (.error fault, h') :: trace rest h'

end Host

end SwapPool
