import SwapPool.Proofs.Pool.Coverage
import SwapPool.Proofs.Pool.Guard
import SwapPool.Proofs.Pool.Runs

/-! A simulated call is a rehearsal of the real one. It answers with the plan and
writes nothing; and because a plan that was made can be carried out, the real
call answers the same, unless it would credit an account that is not registered
or would come out above the cap. -/

namespace SwapPool

namespace Command

/-- A command that can be rehearsed. -/
def simulable : Command → Bool
  | addLiquidity .. | addStableLiquidity .. | removeLiquidity .. | removeLiquidityByTokens ..
  | swap .. | swapByOutput .. => true
  | _ => false

/-- The command as a rehearsal or in earnest. -/
def simulating (simulate : Bool) : Command → Command
  | addLiquidity sender amounts _ => addLiquidity sender amounts simulate
  | addStableLiquidity sender amounts minShares fees _ poolId =>
    addStableLiquidity sender amounts minShares fees simulate poolId
  | removeLiquidity sender shares minimums _ => removeLiquidity sender shares minimums simulate
  | removeLiquidityByTokens sender amounts maxBurn fees _ =>
    removeLiquidityByTokens sender amounts maxBurn fees simulate
  | swap tokenIn amountIn tokenOut minimum fees _ poolId =>
    swap tokenIn amountIn tokenOut minimum fees simulate poolId
  | swapByOutput tokenIn amountOut tokenOut maximum fees _ =>
    swapByOutput tokenIn amountOut tokenOut maximum fees simulate
  | c => c

variable {p p' : Pool} {c : Command} {limits : Limits} {reply : Reply}

theorem run_simulating (h : c.simulable = true) (p : Pool) : ∃ plan, ∀ simulate,
    (c.simulating simulate).plan? p = some plan ∧ (c.simulating simulate).run limits p =
      Pool.guarded limits c.poolId? simulate (Plan.perform plan simulate) p := by
  cases c with
  | addLiquidity | addStableLiquidity | removeLiquidity | removeLiquidityByTokens | swap
  | swapByOutput => exact ⟨_, fun _ => ⟨rfl, run_eq_perform rfl⟩⟩
  | modifyTotalFee | updateRates | register | unregister | transfer => cases h

end Command

namespace Plan

variable {pl : Plan} {p : Pool}

theorem perform_of_error (e : Fault) (simulate : Bool) (p : Pool) :
    perform (.error e) simulate p = .error e p := rfl

theorem perform_simulated (pl : Plan) (p : Pool) :
    perform (.ok pl) true p = .ok pl.reply p := rfl

theorem perform_of_write {s : Settlement} {p' : Pool} (hs : pl.settlement = .ok s)
    (hw : s.write p = .ok () p') (simulate : Bool) :
    perform (.ok pl) simulate p = .ok pl.reply (if simulate then p else p') := by
  cases simulate with
  | true => rfl
  | false => simp [perform, hs, Action.bind_apply, hw]

/-- A plan that is carried out in earnest answers as it promised, unless it credits an account
that is not registered. -/
theorem perform_cases (hp : p.Admissible) {s : Settlement} (hs : pl.settlement = .ok s)
    (hf : s.Fits p) (hc : s.Covered p) :
    (∃ p', perform (.ok pl) false p = .ok pl.reply p') ∨
      ∃ a, perform (.ok pl) false p = .error (.unregistered a) p := by
  have h : perform (.ok pl) false p = (s.write >>= fun _ => pure pl.reply) p := by
    simp [perform, hs]
  rw [h, Action.bind_apply]
  obtain ⟨p', hw⟩ | ⟨a, hw⟩ := Settlement.write_cases hp hf hc
  · exact .inl ⟨p', by rw [hw]; rfl⟩
  · exact .inr ⟨a, by rw [hw]⟩

end Plan

namespace Pool

/-- In every pool of a run, a rehearsal changes nothing. It answers whatever the real call would,
and if it answers, the real call does the same or is refused for want of a registration or by
the cap. -/
theorem simulation_agrees {p : Pool}
    (start : p.Created ∨ p.Loaded ∧ p.shares.held = p.shares.totalSupply) (calls : List Call)
    (limits : Limits) {c : Command} (hc : c.simulable = true) :
    let q := p.after calls
    let rehearsal := (c.simulating true).run limits
    let real := (c.simulating false).run limits
    rehearsal.after q = q ∧
      (∀ reply q', real q = .ok reply q' → rehearsal q = .ok reply q) ∧
      ∀ reply q', rehearsal q = .ok reply q' → (∃ q', real q = .ok reply q') ∨
        ∃ e, real q = .error e q ∧ (e.kind = .notRegistered ∨ e.kind = .tvlLimitExceeded) := by
  intro q rehearsal real
  have hp : p.Admissible := start.elim Created.admissible fun h => h.1.admissible
  have hb : p.shares.Balanced := start.elim Created.balanced fun h => h.1.balanced h.2
  have hq : q.Admissible := hp.after calls
  have hl : q.shares.Balanced := balanced_after hp hb calls
  obtain ⟨plan, hplan⟩ := Command.run_simulating hc q
  have hrehearsal : rehearsal q = Plan.perform plan true q := (hplan true).2
  have hreal : real q = guarded limits c.poolId? false (Plan.perform plan false) q := (hplan false).2
  cases plan with
  | error e =>
    have herr : rehearsal q = .error e q := hrehearsal.trans (Plan.perform_of_error e true q)
    have hfail : real q = .error e q :=
      hreal.trans (guarded_of_error (Plan.perform_of_error e false q))
    refine ⟨Action.after_of_error herr, fun reply q' h => ?_, fun reply q' h => ?_⟩
    · simp [hfail] at h
    · simp [herr] at h
  | ok pl =>
    have hok : rehearsal q = .ok pl.reply q := hrehearsal.trans (Plan.perform_simulated pl q)
    obtain ⟨s, hs⟩ := Command.settlement_of_plan? hq hl (hplan false).1 rfl
    have hsettles := Command.settles_of_plan? (hplan false).1 rfl hs
    refine ⟨Action.after_of_ok hok, fun reply q' h => ?_, fun reply q' h => ?_⟩
    · obtain ⟨_, ⟨⟩, rfl, -⟩ := Plan.perform_eq_ok (guarded_eq_ok (hreal.symm.trans h))
      exact hok
    · obtain ⟨rfl, -⟩ : pl.reply = reply ∧ q = q' := by simpa [hok] using h
      obtain ⟨q', hw⟩ | ⟨a, hw⟩ :=
        Plan.perform_cases hq hs (hsettles.fits hq) (hsettles.covered hq hl)
      · obtain hg | ⟨id, value, limit, hg⟩ := guarded_cases limits hw c.poolId? false
        · exact .inl ⟨q', hreal.trans hg⟩
        · exact .inr ⟨_, hreal.trans hg, .inr rfl⟩
      · exact .inr ⟨_, hreal.trans (guarded_of_error hw), .inl rfl⟩

/-- The rehearsal of a swap does not notice that the recipient of the admin part is not
registered, and the real swap is refused for it. -/
theorem simulation_agrees_unregistered_recipient :
    let p : Pool := ⟨["x", "y"], [0, 0], 30, .empty, [.zero, .zero], .standard, .constantProduct⟩
    let q := p.after [⟨∅, .register "lp"⟩, ⟨∅, .addLiquidity "lp" [5000, 5000] false⟩]
    let fees : AdminFees := ⟨10, "dao", 0, none, by decide, by decide, by decide⟩
    let rehearsal := (Command.swap "x" 4000 "y" 0 fees true none).run ∅
    let real := (Command.swap "x" 4000 "y" 0 fees false none).run ∅
    rehearsal.succeeds q = true ∧ rehearsal.after q = q ∧
      ∃ e, real q = .error e q ∧ (e.kind = .notRegistered ∨ e.kind = .tvlLimitExceeded) := by
  intro p q fees rehearsal real
  have start : p.Created := ⟨["x", "y"], 30, .constantProduct, .standard, by rfl⟩
  have hs : rehearsal.succeeds q = true := by decide +kernel
  have hf : real.succeeds q = false := by decide +kernel
  obtain ⟨reply, hok⟩ := Action.eq_ok_of_succeeds hs
  obtain ⟨e', hfail⟩ := Action.eq_error_of_not_succeeds hf
  obtain ⟨hafter, -, hreal⟩ := simulation_agrees (.inl start)
    [⟨∅, .register "lp"⟩, ⟨∅, .addLiquidity "lp" [5000, 5000] false⟩] ∅
    (c := .swap "x" 4000 "y" 0 fees false none) rfl
  refine ⟨hs, hafter, (hreal reply _ hok).resolve_left ?_⟩
  rintro ⟨q', hq'⟩
  cases hq'.symm.trans hfail

end Pool

end SwapPool
