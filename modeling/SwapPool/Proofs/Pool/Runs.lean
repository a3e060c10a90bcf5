import SwapPool.Proofs.Pool.Commands
import SwapPool.Proofs.Record.Loading

/-! Runs of calls. A pool starts as a new one or as a loaded one, and each call
after that succeeds or fails, under whatever caps the host has at the time. What
one command keeps, a run keeps. -/

namespace SwapPool

/-- A command and the caps under which it is given. -/
structure Call where
  limits : Limits
  command : Command

/-- The pool after a call, whether it succeeded or not. -/
def Call.after (call : Call) (p : Pool) : Pool := (call.command.run call.limits).after p

namespace Pool

variable {p : Pool}

/-- The pool after a run of calls. -/
def after (calls : List Call) (p : Pool) : Pool := calls.foldl (fun p call => call.after p) p

@[simp] theorem after_nil (p : Pool) : p.after [] = p := rfl

@[simp] theorem after_cons (call : Call) (calls : List Call) (p : Pool) :
    p.after (call :: calls) = (call.after p).after calls := rfl

theorem after_append (pre calls : List Call) (p : Pool) :
    p.after (pre ++ calls) = (p.after pre).after calls := List.foldl_append

/-- A pool that was created from its parameters. -/
def Created (p : Pool) : Prop :=
  ∃ tokens totalFee curve config, create tokens totalFee curve config = .ok p

/-- A pool that was loaded from a text. -/
def Loaded (p : Pool) : Prop :=
  ∃ digits config text poolId, loadPool digits config text = .ok (poolId, p)

theorem Created.admissible (h : p.Created) : p.Admissible := by
  obtain ⟨_, _, _, _, hb⟩ := h
  exact build_admissible hb

theorem Created.balanced (h : p.Created) : p.shares.Balanced := by
  obtain ⟨_, _, _, _, hb⟩ := h
  obtain ⟨-, rfl⟩ := build_eq_ok_iff.1 hb
  exact Ledger.empty_balanced

theorem Loaded.admissible (h : p.Loaded) : p.Admissible := by
  obtain ⟨_, _, _, _, hl⟩ := h
  exact (loadPool_eq_ok hl).1.admissible

theorem Loaded.balanced (h : p.Loaded) (hs : p.shares.held = p.shares.totalSupply) :
    p.shares.Balanced := by
  obtain ⟨_, _, _, _, hl⟩ := h
  exact ⟨(loadPool_eq_ok hl).1.balances_nonneg, hs⟩

/-! ### One call -/

/-- A call either succeeds, or changes nothing. -/
theorem after_call_cases (hp : p.Admissible) (call : Call) :
    (∃ reply, call.command.run call.limits p = .ok reply (call.after p)) ∨ call.after p = p := by
  cases h : call.command.run call.limits p with
  | ok reply p' =>
    have ha : call.after p = p' := Action.after_of_ok h
    exact .inl ⟨reply, by rw [ha]⟩
  | error e p' =>
    have ha : call.after p = p' := Action.after_of_error h
    exact .inr (ha.trans (Command.run_failsInPlace hp _ _ e p' h))

theorem Admissible.after_call (hp : p.Admissible) (call : Call) : (call.after p).Admissible := by
  obtain ⟨_, h⟩ | h := after_call_cases hp call
  · exact Command.run_admissible hp h
  · rwa [h]

theorem frame_after_call (hp : p.Admissible) (call : Call) : (call.after p).tokens = p.tokens ∧
    (p.curve = .constantProduct → (call.after p).curve = .constantProduct) := by
  obtain ⟨_, h⟩ | h := after_call_cases hp call
  · exact Command.run_frame hp h
  · rw [h]
    exact ⟨rfl, id⟩

theorem balanced_after_call (hp : p.Admissible) (hb : p.shares.Balanced) (call : Call) :
    (call.after p).shares.Balanced := by
  obtain ⟨_, h⟩ | h := after_call_cases hp call
  · exact Command.run_balanced hp hb h
  · rwa [h]

/-! ### A run -/

theorem Admissible.after (hp : p.Admissible) (calls : List Call) : (p.after calls).Admissible := by
  induction calls generalizing p with
  | nil => exact hp
  | cons call calls ih => exact ih (hp.after_call call)

theorem tokens_after (hp : p.Admissible) (calls : List Call) :
    (p.after calls).tokens = p.tokens := by
  induction calls generalizing p with
  | nil => rfl
  | cons call calls ih => exact (ih (hp.after_call call)).trans (frame_after_call hp call).1

theorem balanced_after (hp : p.Admissible) (hb : p.shares.Balanced) (calls : List Call) :
    (p.after calls).shares.Balanced := by
  induction calls generalizing p with
  | nil => exact hb
  | cons call calls ih => exact ih (hp.after_call call) (balanced_after_call hp hb call)

/-- What every call of a run keeps, the run keeps. -/
theorem after_keeps {I : Pool → Prop} {calls : List Call}
    (step : ∀ call ∈ calls, ∀ {p p' reply}, p.Admissible → p.shares.Balanced → I p →
      call.command.run call.limits p = .ok reply p' → I p')
    (hp : p.Admissible) (hb : p.shares.Balanced) (h : I p) : I (p.after calls) := by
  induction calls generalizing p with
  | nil => exact h
  | cons call calls ih =>
    rw [List.forall_mem_cons] at step
    have hi : I (call.after p) := by
      obtain ⟨_, hok⟩ | hsame := after_call_cases hp call
      · exact step.1 hp hb h hok
      · rwa [hsame]
    exact ih step.2 (hp.after_call call) (balanced_after_call hp hb call) hi

/-- In every pool of a run the balances are not negative and add up to the supply, all lists have
one entry per token, no reserve is negative, the fee is within its bounds, and the cached rates are
positive. -/
theorem run_sound (start : p.Created ∨ p.Loaded ∧ p.shares.held = p.shares.totalSupply)
    (calls : List Call) :
    let q := p.after calls
    let n := q.tokens.length
    ((∀ b ∈ q.shares.balances.values, 0 ≤ b) ∧ q.shares.held = q.shares.totalSupply) ∧
      (2 ≤ n ∧ q.amounts.length = n ∧ q.volumes.length = n) ∧
      (∀ a ∈ q.amounts, 0 ≤ a) ∧ (0 ≤ q.totalFee ∧ q.totalFee ≤ q.maxFee) ∧
      ∀ c, q.curve = .stable c →
        c.decimals.length = n ∧ (c.cachedRates n).length = n ∧ ∀ r ∈ c.cachedRates n, 0 < r := by
  have hp : p.Admissible := start.elim Created.admissible fun h => h.1.admissible
  have hb : p.shares.Balanced := start.elim Created.balanced fun h => h.1.balanced h.2
  have hq := hp.after calls
  have hl := balanced_after hp hb calls
  refine ⟨⟨hl.nonneg, hl.held_eq⟩, ⟨hq.two_le_tokens, hq.amounts_length, hq.volumes_length⟩,
    hq.amounts_nonneg, ⟨hq.fee_nonneg, hq.fee_le⟩, fun c hc => ?_⟩
  have hcurve := hq.curve c hc
  exact ⟨hcurve.decimals_length, hcurve.rates_length, hcurve.rates_pos⟩

theorem run_sound_first_deposit :
    let p : Pool := ⟨["x", "y"], [0, 0], 30, .empty, [.zero, .zero], .standard, .constantProduct⟩
    let q := p.after [⟨∅, .register "lp"⟩, ⟨∅, .addLiquidity "lp" [3, 5] false⟩]
    q.amounts = [3, 5] ∧ q.shares.held = q.shares.totalSupply := by
  have start : Created ⟨["x", "y"], [0, 0], 30, .empty, [.zero, .zero], .standard,
      .constantProduct⟩ := ⟨["x", "y"], 30, .constantProduct, .standard, by rfl⟩
  exact ⟨by rfl, (run_sound (.inl start) _).1.2⟩

end Pool

end SwapPool
