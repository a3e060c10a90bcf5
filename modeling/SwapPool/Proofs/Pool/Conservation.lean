import SwapPool.Proofs.Pool.Coverage
import SwapPool.Proofs.Pool.Runs

/-! Tokens are conserved. A deposit adds what the pool keeps of it, a withdrawal
takes what it pays, and a trade moves what the counters say; nothing else changes
a reserve. So at the end of a run the reserve of a token is what came in less what
went out, with calls that failed, were rehearsed or were undone by the guard left
out of both. -/

namespace SwapPool

/-! ### What a settlement trades -/

namespace Settlement

variable {s : Settlement} {p : Pool} {k : Nat}

/-- What the trade brings in at a place. -/
def input (s : Settlement) (k : Nat) : Int :=
  match s.trade with
  | some t => if t.i = k then t.amountIn else 0
  | none => 0

/-- What the trade takes out at a place. -/
def output (s : Settlement) (k : Nat) : Int :=
  match s.trade with
  | some t => if t.j = k then t.amountOut else 0
  | none => 0

theorem input_nonneg (h : s.Covered p) (k : Nat) : 0 ≤ s.input k := by
  unfold input
  cases ht : s.trade with
  | none => exact le_rfl
  | some t =>
    have := (h.trade_nonneg t ht).1
    dsimp only
    split <;> omega

theorem output_nonneg (h : s.Covered p) (k : Nat) : 0 ≤ s.output k := by
  unfold output
  cases ht : s.trade with
  | none => exact le_rfl
  | some t =>
    have := (h.trade_nonneg t ht).2
    dsimp only
    split <;> omega

theorem getD_counted {vs : List Volume} (hk : k < vs.length) :
    (s.counted vs).getD k .zero =
      ⟨(vs.getD k .zero).input + s.input k, (vs.getD k .zero).output + s.output k⟩ := by
  rw [List.getD_eq_getElem _ _ (by rwa [length_counted]), List.getD_eq_getElem vs _ hk]
  obtain ⟨newAmounts, mints, burns, trade⟩ := s
  cases trade with
  | none => simp [counted, input, output]
  | some t =>
    simp only [counted, input, output, List.getElem_modify]
    split <;> split <;> simp [Volume.addInput, Volume.addOutput]

end Settlement

/-! ### What a command moves -/

namespace Command

variable {p p' : Pool} {c : Command} {limits : Limits} {reply : Reply} {k : Nat}

/-- What the pool keeps of a deposit in earnest that was answered so, by place. -/
def deposited : Command → Reply → List Int
  | addLiquidity _ _ false, .deposit kept => kept.amounts
  | addStableLiquidity _ amounts _ _ false _, _ => amounts
  | _, _ => []

/-- What a withdrawal in earnest that was answered so pays out, by place. -/
def withdrawn : Command → Reply → List Int
  | removeLiquidity _ _ _ false, .integers paid => paid
  | removeLiquidityByTokens _ amounts _ _ false, _ => amounts
  | _, _ => []

end Command

namespace Pool

variable {p p' : Pool} {k : Nat}

theorem getD_of_moved (hp : p.Admissible) {tokenIn tokenOut : String} {i j : Nat} {x y : Int}
    {newAmounts : List Int} (mints : List (String × Int)) (hk : k < p.tokens.length)
    (hij : p.swapIndices tokenIn tokenOut = .ok (i, j))
    (hm : movedAmounts p.amounts i x j y = .ok newAmounts) :
    let s : Settlement := ⟨newAmounts, mints, [], some ⟨i, x, j, y⟩⟩
    newAmounts.getD k 0 = p.amounts.getD k 0 + s.input k - s.output k := by
  obtain ⟨hi, hj, hne⟩ := swapIndices_eq_ok hij
  rw [← hp.amounts_length] at hi hj hk
  obtain ⟨-, rfl⟩ := (movedAmounts_eq_ok_iff hi hj hne).1 hm
  rw [getD_set (by rwa [List.length_set]), getD_set hk]
  dsimp only [Settlement.input, Settlement.output]
  by_cases hik : i = k
  · subst hik
    rw [if_neg hne.symm, if_pos rfl, if_pos rfl, if_neg hne.symm, sub_zero]
  · by_cases hjk : j = k
    · subst hjk
      rw [if_pos rfl, if_neg hik, if_pos rfl, add_zero]
    · rw [if_neg hjk, if_neg hik, if_neg hik, if_neg hjk, add_zero, sub_zero]

end Pool

namespace Command

variable {p p' : Pool} {c : Command} {limits : Limits} {reply : Reply} {k : Nat}

theorem getD_newAmounts (hp : p.Admissible) {plan : Except Fault Plan} {pl : Plan}
    {s : Settlement} (hc : c.plan? p = some plan) (hpl : plan = .ok pl)
    (hs : pl.settlement = .ok s) (hsim : c.simulated = false) (hk : k < p.tokens.length) :
    s.newAmounts.getD k 0 = p.amounts.getD k 0 + (c.deposited pl.reply).getD k 0
      - (c.withdrawn pl.reply).getD k 0 + s.input k - s.output k := by
  have hlen := ((settles_of_plan? hc hpl hs).fits hp).amounts_length
  cases c with
  | addLiquidity sender amounts simulate =>
    obtain rfl : simulate = false := hsim
    obtain rfl := Option.some.inj hc
    obtain ⟨-, kept, -, rfl⟩ := Pool.depositPlan_eq_ok hpl
    obtain rfl := Except.ok.inj hs
    rw [getD_zipWith (hlen ▸ hk)]
    simp [deposited, withdrawn, Settlement.input, Settlement.output]
  | addStableLiquidity sender amounts minShares fees simulate poolId =>
    obtain rfl : simulate = false := hsim
    obtain rfl := Option.some.inj hc
    obtain ⟨_, q, -, hq, -, rfl⟩ := Pool.stableDepositPlan_eq_ok hpl
    obtain rfl := Except.ok.inj hs
    obtain ⟨-, hnew, -⟩ := Pool.quoteDeposit_eq_ok hq
    dsimp only at hlen ⊢
    rw [hnew] at hlen ⊢
    rw [getD_zipWith (hlen ▸ hk)]
    simp [deposited, withdrawn, Settlement.input, Settlement.output]
  | removeLiquidity sender shares minimums simulate =>
    obtain rfl : simulate = false := hsim
    obtain rfl := Option.some.inj hc
    obtain ⟨paid, left, -, hleft, hreply, rfl⟩ := Pool.withdrawalPlan_eq_ok hpl hs
    obtain ⟨rfl, -⟩ := Pool.subs_eq_ok hleft
    rw [getD_zipWith (hlen ▸ hk), hreply]
    simp [deposited, withdrawn, Settlement.input, Settlement.output]
  | removeLiquidityByTokens sender amounts maxBurn fees simulate =>
    obtain rfl : simulate = false := hsim
    obtain rfl := Option.some.inj hc
    obtain ⟨_, q, -, hq, -, -, rfl⟩ := Pool.stableWithdrawalPlan_eq_ok hpl
    obtain rfl := Except.ok.inj hs
    obtain ⟨-, hleft, -⟩ := Pool.quoteWithdrawal_eq_ok hq
    obtain ⟨hnew, -⟩ := Pool.subs_eq_ok hleft
    dsimp only at hlen ⊢
    rw [hnew] at hlen ⊢
    rw [getD_zipWith (hlen ▸ hk)]
    simp [deposited, withdrawn, Settlement.input, Settlement.output]
  | swap tokenIn amountIn tokenOut minimum fees simulate poolId =>
    obtain rfl := Option.some.inj hc
    obtain ⟨i, j, q, hq, rfl⟩ := Pool.swapPlan_eq_ok hpl
    obtain rfl := Except.ok.inj hs
    obtain ⟨hij, -, hm, -⟩ := Pool.curveSwap_eq_ok hq
    have := Pool.getD_of_moved hp q.adminMints hk hij hm
    simpa [deposited, withdrawn] using this
  | swapByOutput tokenIn amountOut tokenOut maximum fees simulate =>
    obtain rfl := Option.some.inj hc
    obtain ⟨-, i, j, q, hq, rfl⟩ := Pool.swapByOutputPlan_eq_ok hpl
    obtain rfl := Except.ok.inj hs
    obtain ⟨hij, -, -, -, hm, -⟩ := Pool.quoteProductSwapByOutput_eq_ok hq
    have := Pool.getD_of_moved hp q.adminMints hk hij hm
    simpa [deposited, withdrawn] using this
  | modifyTotalFee | updateRates | register | unregister | transfer => cases hc

theorem moves_nothing (h : c.plan? p = none ∨ c.simulated = true) (reply : Reply) :
    c.deposited reply = [] ∧ c.withdrawn reply = [] := by
  cases c <;> simp_all [plan?, simulated, deposited, withdrawn]

end Command

/-! ### One command and a run -/

/-- What a call moves of a token, as `of` reads it off the command and its answer; nothing if the
call fails. -/
def Call.tally (of : Command → Reply → List Int) (call : Call) (p : Pool) (k : Nat) : Int :=
  match call.command.run call.limits p with
  | .ok reply _ => (of call.command reply).getD k 0
  | .error _ _ => 0

namespace Pool

variable {p p' : Pool} {limits : Limits} {c : Command} {reply : Reply} {k : Nat}

/-- What the calls of a run move of a token together. -/
def tally (of : Command → Reply → List Int) (p : Pool) : List Call → Nat → Int
  | [], _ => 0
  | call :: calls, k => call.tally of p k + (call.after p).tally of calls k

/-- The counter of a token. -/
def counter (p : Pool) (k : Nat) : Volume := p.volumes.getD k .zero

/-- What there is of a token apart from what trades brought in and took out. -/
def untraded (p : Pool) (k : Nat) : Int :=
  p.amounts.getD k 0 - (p.counter k).input + (p.counter k).output

/-- Apart from its trades, a command changes a reserve by what it deposits and withdraws. -/
theorem untraded_of_run (hp : p.Admissible) (hk : k < p.tokens.length)
    (h : c.run limits p = .ok reply p') : p'.untraded k =
      p.untraded k + (c.deposited reply).getD k 0 - (c.withdrawn reply).getD k 0 := by
  cases hc : c.plan? p with
  | none =>
    obtain ⟨ha, hv, -⟩ := Command.unplanned_keeps hc h
    obtain ⟨hd, hw⟩ := Command.moves_nothing (.inl hc) reply
    simp [untraded, counter, ha, hv, hd, hw]
  | some plan =>
    obtain ⟨pl, hpl, rfl, ⟨hsim, rfl⟩ | ⟨hsim, s, l, hs, -, -, rfl⟩⟩ :=
      Command.planned_eq_ok hp hc h
    · obtain ⟨hd, hw⟩ := Command.moves_nothing (p := p') (.inr hsim) pl.reply
      simp [hd, hw]
    · have hnew := Command.getD_newAmounts hp hc hpl hs hsim hk
      have hcount := Settlement.getD_counted (s := s) (hp.volumes_length.symm ▸ hk)
      change s.newAmounts.getD k 0 - ((s.counted p.volumes).getD k .zero).input
        + ((s.counted p.volumes).getD k .zero).output = _
      rw [hnew, hcount]
      unfold untraded counter
      ring

theorem counter_le_of_run (hp : p.Admissible) (hb : p.shares.Balanced) (hk : k < p.tokens.length)
    (h : c.run limits p = .ok reply p') :
    (p.counter k).input ≤ (p'.counter k).input ∧ (p.counter k).output ≤ (p'.counter k).output := by
  cases hc : c.plan? p with
  | none =>
    obtain ⟨-, hv, -⟩ := Command.unplanned_keeps hc h
    simp [counter, hv]
  | some plan =>
    obtain ⟨pl, hpl, -, ⟨-, rfl⟩ | ⟨-, s, l, hs, -, -, rfl⟩⟩ := Command.planned_eq_ok hp hc h
    · simp
    · have hcovered := (Command.settles_of_plan? hc hpl hs).covered hp hb
      have hcount := Settlement.getD_counted (s := s) (hp.volumes_length.symm ▸ hk)
      have hin := Settlement.input_nonneg hcovered k
      have hout := Settlement.output_nonneg hcovered k
      change _ ≤ ((s.counted p.volumes).getD k .zero).input ∧
        _ ≤ ((s.counted p.volumes).getD k .zero).output
      rw [hcount]
      exact ⟨le_add_of_nonneg_right hin, le_add_of_nonneg_right hout⟩

theorem untraded_after_call (hp : p.Admissible) (hk : k < p.tokens.length) (call : Call) :
    (call.after p).untraded k = p.untraded k + call.tally Command.deposited p k
      - call.tally Command.withdrawn p k := by
  unfold Call.tally
  cases h : call.command.run call.limits p with
  | ok reply p' =>
    have ha : call.after p = p' := Action.after_of_ok h
    rw [ha]
    exact untraded_of_run hp hk h
  | error e p' =>
    have ha : call.after p = p' := Action.after_of_error h
    rw [ha, Command.run_failsInPlace hp _ _ e p' h]
    simp

theorem untraded_after (hp : p.Admissible) (hk : k < p.tokens.length) (calls : List Call) :
    (p.after calls).untraded k = p.untraded k + p.tally Command.deposited calls k
      - p.tally Command.withdrawn calls k := by
  induction calls generalizing p with
  | nil => simp [tally]
  | cons call calls ih =>
    have hk' : k < (call.after p).tokens.length := (frame_after_call hp call).1.symm ▸ hk
    rw [after_cons, ih (hp.after_call call) hk', untraded_after_call hp hk call, tally, tally]
    ring

theorem Created.untraded_eq_zero (h : p.Created) (k : Nat) : p.untraded k = 0 := by
  obtain ⟨tokens, _, _, _, hb⟩ := h
  obtain ⟨-, rfl⟩ := build_eq_ok_iff.1 hb
  change (List.replicate tokens.length (0 : Int)).getD k 0
    - ((List.replicate tokens.length Volume.zero).getD k .zero).input
    + ((List.replicate tokens.length Volume.zero).getD k .zero).output = 0
  simp only [List.getD_eq_getElem?_getD, List.getElem?_getD_replicate_default_eq]
  rfl

theorem counter_le_after (hp : p.Admissible) (hb : p.shares.Balanced) (hk : k < p.tokens.length)
    (calls : List Call) : (p.counter k).input ≤ ((p.after calls).counter k).input ∧
      (p.counter k).output ≤ ((p.after calls).counter k).output := by
  refine (after_keeps (I := fun q => q.tokens = p.tokens ∧
    (p.counter k).input ≤ (q.counter k).input ∧ (p.counter k).output ≤ (q.counter k).output)
    (fun call _ q q' reply hq hl ⟨ht, hin, hout⟩ h => ?_) hp hb ⟨rfl, le_rfl, le_rfl⟩).2
  obtain ⟨hin', hout'⟩ := counter_le_of_run hq hl (ht ▸ hk) h
  exact ⟨(Command.run_frame hq h).1.trans ht, hin.trans hin', hout.trans hout'⟩

/-- In every pool of a run from a new one, the reserve of a token is what the deposits left, less
what the withdrawals paid, with what the counter says came in and less what it says went out; and
along the run no counter falls. -/
theorem tokens_conserved {p : Pool} (start : p.Created) (calls : List Call) {k : Nat}
    (hk : k < p.tokens.length) :
    let q := p.after calls
    q.amounts.getD k 0 = p.tally Command.deposited calls k - p.tally Command.withdrawn calls k
        + (q.counter k).input - (q.counter k).output ∧
      ∀ pre, pre <+: calls → ((p.after pre).counter k).input ≤ (q.counter k).input ∧
        ((p.after pre).counter k).output ≤ (q.counter k).output := by
  intro q
  have hp := start.admissible
  have hb := start.balanced
  constructor
  · have hrun : q.amounts.getD k 0 - (q.counter k).input + (q.counter k).output = _ :=
      untraded_after hp hk calls
    rw [start.untraded_eq_zero k] at hrun
    linarith
  · rintro pre ⟨rest, rfl⟩
    rw [show q = (p.after pre).after rest from after_append pre rest p]
    exact counter_le_after (hp.after pre) (balanced_after hp hb pre)
      ((tokens_after hp pre).symm ▸ hk) rest

/-- A rated pool in which a deposit is rehearsed and made, a swap is made and one is refused, and
withdrawals of both kinds follow: at the first place four thousand came in by the deposit and a
thousand by the swap. -/
theorem tokens_conserved_mixed_run :
    let c : StableCurve := ⟨[6, 18], 100, .rated [ratePrecision, ratePrecision]⟩
    let p : Pool := ⟨["x", "y"], [0, 0], 30, .empty, [.zero, .zero], .standard, .stable c⟩
    let n : Int := 4 * Int.pow 10 15
    let calls : List Call :=
      [⟨∅, .register "lp"⟩, ⟨∅, .addStableLiquidity "lp" [4000, n] 0 .none true none⟩,
        ⟨∅, .addStableLiquidity "lp" [4000, n] 0 .none false none⟩,
        ⟨∅, .swap "x" 1000 "y" 0 .none false none⟩, ⟨∅, .swap "x" 1000 "y" n .none false none⟩,
        ⟨∅, .removeLiquidity "lp" (Int.pow 10 21) [0, 0] false⟩,
        ⟨∅, .removeLiquidityByTokens "lp" [10, 0] (Int.pow 10 30) .none false⟩]
    let q := p.after calls
    p.tally Command.deposited calls 0 = 4000 ∧ (q.counter 0).input = 1000 ∧
      q.amounts.getD 0 0 = 5000 - p.tally Command.withdrawn calls 0 := by
  intro c p n calls q
  have start : p.Created := ⟨["x", "y"], 30, .stable c, .standard, by rfl⟩
  have hd : p.tally Command.deposited calls 0 = 4000 := by decide +kernel
  have hv : q.counter 0 = ⟨1000, 0⟩ := by decide +kernel
  obtain ⟨hq, -⟩ := tokens_conserved start calls (k := 0) (by decide)
  change q.amounts.getD 0 0 = _ at hq
  rw [hd, hv] at hq
  dsimp only at hq
  exact ⟨hd, by rw [hv], by omega⟩

end Pool

end SwapPool
