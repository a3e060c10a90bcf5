import SwapPool.Proofs.Pool.Faults
import SwapPool.Proofs.Pool.Simulation
import SwapPool.Proofs.Stable.Swap

/-! The cap on the value locked in a risk-capped pool. Reserves grow only by calls
that the guard is for, and a guarded call that comes out above the cap is undone;
all other calls leave the reserves as they are or lower them, and the value
locked follows the reserves. So the cap holds in every state of a run in which
those calls are guarded and the risk factors stay. Apart from that the guard
changes nothing: neither an answer nor a fault nor a state. -/

namespace SwapPool

/-! ### The value locked follows the reserves -/

theorem comparables_mono {units xs ys : List Int} (hu : ∀ u ∈ units, 0 < u)
    (h : List.Forall₂ (· ≤ ·) xs ys) :
    List.Forall₂ (· ≤ ·) (comparables units xs) (comparables units ys) := by
  unfold comparables
  induction h generalizing units with
  | nil => simp
  | cons hxy _ ih =>
    cases units with
    | nil => simp
    | cons u units =>
      rw [List.forall_mem_cons] at hu
      exact .cons (toComparable_mono hu.1.le hxy) (ih hu.2)

namespace Pool

variable {p p' : Pool} {c : StableCurve} {limits : Limits} {reply : Reply} {poolId limit : Int}

theorem lockedValue_mono (hp : p.Admissible) (hc : p.curve = .stable c)
    (ht : p'.tokens = p.tokens) (h : List.Forall₂ (· ≤ ·) p'.amounts p.amounts) :
    p'.lockedValue c ≤ p.lockedValue c := by
  unfold lockedValue comparableReserves
  rw [ht]
  refine fdiv_mono StableCurve.ratePrecision_pos (total_mono ?_)
  exact comparables_mono (units_facts hp hc).2 h

theorem lockedValue_of_empty (h : ∀ a ∈ p.amounts, a = 0) (c : StableCurve) :
    p.lockedValue c = 0 := by
  have hzero : ∀ b ∈ p.comparableReserves c (c.cachedRates p.tokens.length), b = 0 := by
    intro b hb
    obtain ⟨u, -, a, ha, rfl⟩ := exists_of_mem_zipWith hb
    rw [h a ha, toComparable, mul_zero, Int.zero_fdiv]
  unfold lockedValue
  rw [total_eq_zero hzero, Int.zero_fdiv]

/-! ### Reserves that do not grow -/

theorem zipWith_sub_le {xs ys : List Int} (hl : xs.length = ys.length) (hy : ∀ y ∈ ys, 0 ≤ y) :
    List.Forall₂ (· ≤ ·) (List.zipWith (· - ·) xs ys) xs := by
  induction xs generalizing ys with
  | nil => simp
  | cons x xs ih =>
    cases ys with
    | nil => simp at hl
    | cons y ys =>
      rw [List.forall_mem_cons] at hy
      exact .cons (sub_le_self x hy.1) (ih (Nat.succ.inj hl) hy.2)

theorem fallen_of_withdrawal (hp : p.Admissible) (hb : p.shares.Balanced) {sender : String}
    {shares : Int} {minimums paid left : List Int}
    (h : p.withdrawal sender shares minimums = .ok paid)
    (hl : ((p.amounts.zip paid).mapM fun (r, a) => Checked.sub r a) = .ok left) :
    List.Forall₂ (· ≤ ·) left p.amounts := by
  obtain ⟨hs, -, rfl⟩ := withdrawal_eq_ok h
  obtain ⟨rfl, -⟩ := subs_eq_ok hl
  refine zipWith_sub_le (by simp) fun a ha => ?_
  obtain ⟨r, hr, rfl⟩ := List.mem_map.1 ha
  exact Int.fdiv_nonneg (mul_nonneg (hp.amounts_nonneg r hr) hs.le) hb.totalSupply_nonneg

theorem fallen_of_quoteWithdrawal (hp : p.Admissible) {amounts : List Int} {fees : AdminFees}
    {rates : Option (List Int)} {q : Quote}
    (h : p.quoteWithdrawal c amounts fees rates = .ok q) :
    List.Forall₂ (· ≤ ·) q.newAmounts p.amounts := by
  obtain ⟨ha, hl, -⟩ := quoteWithdrawal_eq_ok h
  obtain ⟨hlen, hn⟩ := checkAmounts_eq_ok_iff.1 ha
  obtain ⟨hq, -⟩ := subs_eq_ok hl
  rw [hq]
  exact zipWith_sub_le (hp.amounts_length.trans hlen.symm) hn

end Pool

namespace Command

/-- A deposit or an exact-input swap in earnest, which the guard is for. -/
def needsGuard : Command → Bool
  | addStableLiquidity _ _ _ _ simulate _ | swap _ _ _ _ _ simulate _ => !simulate
  | _ => false

/-- The command under the guard of a pool number, or without a guard. -/
def guardedBy (poolId : Option Int) : Command → Command
  | addStableLiquidity sender amounts minShares fees simulate _ =>
    addStableLiquidity sender amounts minShares fees simulate poolId
  | swap tokenIn amountIn tokenOut minimum fees simulate _ =>
    swap tokenIn amountIn tokenOut minimum fees simulate poolId
  | c => c

theorem guardedBy_poolId? (c : Command) : c.guardedBy c.poolId? = c := by
  cases c <;> rfl

end Command

namespace Pool

variable {p p' : Pool} {c : StableCurve} {limits : Limits} {reply : Reply} {poolId limit : Int}

/-- On a stable curve the reserves do not grow by a call that the guard is not for. -/
theorem fallen_of_run (hp : p.Admissible) (hb : p.shares.Balanced) (hc : p.curve = .stable c)
    {command : Command} (hg : command.needsGuard = false)
    (hr : command.run limits p = .ok reply p') :
    List.Forall₂ (· ≤ ·) p'.amounts p.amounts := by
  have hrefl : List.Forall₂ (· ≤ ·) p.amounts p.amounts := List.forall₂_same.2 fun _ _ => le_rfl
  cases hplan : command.plan? p with
  | none =>
    obtain ⟨ha, -⟩ := Command.unplanned_keeps hplan hr
    rwa [ha]
  | some plan =>
    obtain ⟨pl, hpl, -, ⟨-, rfl⟩ | ⟨hsim, s, l, hset, -, -, hp'⟩⟩ :=
      Command.planned_eq_ok hp hplan hr
    · exact hrefl
    · have ha : p'.amounts = s.newAmounts := by rw [hp']; rfl
      rw [ha]
      cases Command.settles_of_plan? hplan hpl hset with
      | withdrawal hpaid hleft => exact fallen_of_withdrawal hp hb hpaid hleft
      | stableWithdrawal _ hq => exact fallen_of_quoteWithdrawal hp hq
      | deposit hcurve | swapByOutput hcurve => cases hc.symm.trans hcurve
      | stableDeposit | swap =>
        simp only [Command.simulated] at hsim
        simp [Command.needsGuard, hsim] at hg

/-! ### The guard -/

theorem kind_congr (h : p'.curve = p.curve) : p'.kind = p.kind := by
  unfold kind
  rw [h]

/-- The check of a risk-capped pool that has a cap. -/
theorem assertWithinCap_of_limit (hk : p.kind = .degen) (hc : p.curve = .stable c)
    (hl : limits.limit? poolId = some limit) : p.assertWithinCap limits poolId =
      if limit < p.lockedValue c then .error (.limitExceeded poolId (p.lockedValue c) limit)
      else .ok () :=
  assertWithinCap_of_cap (by rw [cap?, if_pos hk, hl]) (tvl_eq_lockedValue hc hk)

/-- A call that the guard is for has one plan, whichever number it is guarded by, and on a stable
curve that plan does not fail for a cap. -/
theorem run_guardedBy (limits : Limits) {command : Command} (hg : command.needsGuard = true)
    (hc : p.curve = .stable c) : ∃ plan, CapFree plan ∧ ∀ poolId,
      (command.guardedBy poolId).plan? p = some plan ∧
        (command.guardedBy poolId).run limits p =
          guarded limits poolId false (Plan.perform plan false) p := by
  cases command with
  | addStableLiquidity sender amounts minShares fees simulate _ =>
    obtain rfl : simulate = false := by simpa [Command.needsGuard] using hg
    exact ⟨_, p.capFree_stableDepositPlan sender amounts minShares fees,
      fun _ => ⟨rfl, Command.run_eq_perform rfl⟩⟩
  | swap tokenIn amountIn tokenOut minimum fees simulate _ =>
    obtain rfl : simulate = false := by simpa [Command.needsGuard] using hg
    exact ⟨_, capFree_swapPlan hc tokenIn amountIn tokenOut minimum fees,
      fun _ => ⟨rfl, Command.run_eq_perform rfl⟩⟩
  | _ => cases hg

/-- The guard of a risk-capped pool with a cap lets through whatever stays within the cap, fault or
answer, and turns everything else into the fault of the cap. -/
theorem guard_exact (hp : p.Admissible) (hb : p.shares.Balanced) (hk : p.kind = .degen)
    (hl : limits.limit? poolId = some limit) {command : Command}
    (hg : command.needsGuard = true) :
    (∀ e p', (command.guardedBy none).run limits p = .error e p' →
      p' = p ∧ (command.guardedBy (some poolId)).run limits p = .error e p ∧
        e.kind ≠ .tvlLimitExceeded) ∧
      ∀ reply p', (command.guardedBy none).run limits p = .ok reply p' →
        ∃ value, p'.tvl = .ok value ∧ (command.guardedBy (some poolId)).run limits p =
          if limit < value then .error (.limitExceeded poolId value limit) p
          else .ok reply p' := by
  obtain ⟨c, hc⟩ := curve_of_degen hk
  obtain ⟨plan, hfree, hplan⟩ := run_guardedBy limits hg hc
  constructor
  · intro e p' h
    obtain rfl := Command.run_failsInPlace hp limits _ e p' h
    rw [(hplan none).2, guarded_none] at h
    refine ⟨rfl, (hplan (some poolId)).2.trans (guarded_of_error h), ?_⟩
    cases plan with
    | error e' =>
      obtain rfl : e' = e := by simpa [Plan.perform_of_error] using h
      exact hfree e' rfl
    | ok pl =>
      obtain ⟨s, hs⟩ := Command.settlement_of_plan? hp hb (hplan none).1 rfl
      have hsettles := Command.settles_of_plan? (hplan none).1 rfl hs
      obtain ⟨_, hw⟩ | ⟨a, hw⟩ :=
        Plan.perform_cases hp hs (hsettles.fits hp) (hsettles.covered hp hb)
      · simp [hw] at h
      · obtain rfl : .unregistered a = e := by simpa [hw] using h
        simp [Fault.kind_eq_tvlLimitExceeded_iff]
  · intro reply p' h
    have hcurve : p'.curve = p.curve := by
      obtain ⟨_, -, -, ⟨-, rfl⟩ | ⟨-, s, l, -, -, -, rfl⟩⟩ :=
        Command.planned_eq_ok hp (hplan none).1 h <;> rfl
    rw [(hplan none).2, guarded_none] at h
    have hk' : p'.kind = .degen := (kind_congr hcurve).trans hk
    have hc' : p'.curve = .stable c := hcurve.trans hc
    refine ⟨p'.lockedValue c, tvl_eq_lockedValue hc' hk', ?_⟩
    rw [(hplan (some poolId)).2, guarded_of_ok h, assertWithinCap_of_limit hk' hc' hl]
    by_cases hlt : limit < p'.lockedValue c <;> simp [hlt]

/-! ### One call and a run -/

theorem withinCap_of_run (hp : p.Admissible) (hb : p.shares.Balanced) (hk : p.kind = .degen)
    (hc : p.curve = .stable c) (hcurve : p'.curve = p.curve) {command : Command}
    (hguard : command.needsGuard = true →
      command.poolId? = some poolId ∧ limits.limit? poolId = some limit)
    (hr : command.run limits p = .ok reply p') (h : p.lockedValue c ≤ limit) :
    p'.lockedValue c ≤ limit := by
  cases hg : command.needsGuard with
  | false =>
    have ht := (Command.run_frame hp hr).1
    exact (lockedValue_mono hp hc ht (fallen_of_run hp hb hc hg hr)).trans h
  | true =>
    obtain ⟨hid, hl⟩ := hguard hg
    obtain ⟨herror, hok⟩ := guard_exact hp hb hk hl hg
    rw [← Command.guardedBy_poolId? command, hid] at hr
    cases hfree : (command.guardedBy none).run limits p with
    | error e q => simp [(herror e q hfree).2.1] at hr
    | ok reply' q =>
      obtain ⟨value, hv, hguarded⟩ := hok reply' q hfree
      rw [hguarded] at hr
      split at hr
      · cases hr
      · obtain ⟨rfl, rfl⟩ : reply' = reply ∧ q = p' := by simpa using hr
        rw [tvl_eq_lockedValue (hcurve.trans hc) ((kind_congr hcurve).trans hk)] at hv
        obtain rfl := Except.ok.inj hv
        exact not_lt.1 ‹_›

theorem withinCap_after (hp : p.Admissible) (hb : p.shares.Balanced) (hk : p.kind = .degen)
    (hc : p.curve = .stable c) {calls : List Call}
    (hkept : ∀ pre, pre <+: calls → (p.after pre).curve = p.curve)
    (hguard : ∀ call ∈ calls, call.command.needsGuard = true →
      call.command.poolId? = some poolId ∧ call.limits.limit? poolId = some limit)
    (h : p.lockedValue c ≤ limit) : (p.after calls).lockedValue c ≤ limit := by
  induction calls generalizing p with
  | nil => exact h
  | cons call calls ih =>
    rw [List.forall_mem_cons] at hguard
    have hcurve : (call.after p).curve = p.curve := hkept [call] (by simp)
    have hfirst : (call.after p).lockedValue c ≤ limit := by
      obtain ⟨_, hok⟩ | hsame := after_call_cases hp call
      · exact withinCap_of_run hp hb hk hc hcurve hguard.1 hok h
      · rwa [hsame]
    exact ih (hp.after_call call) (balanced_after_call hp hb call) ((kind_congr hcurve).trans hk)
      (hcurve.trans hc) (fun pre hpre => (hkept (call :: pre) (by simpa using hpre)).trans hcurve.symm)
      hguard.2 hfirst

/-- In every state of a run of a new risk-capped pool in which the risk factors stay and deposits
and swaps are guarded by one cap, the value locked is within the cap; and a guarded call does what
it would do without the guard, except where it would succeed and come out above the cap, which is
the fault of the cap and changes nothing. -/
theorem cap_kept {tokens : List String} {totalFee amp : Int} {decimals factors : List Int}
    {config : Config} {p : Pool}
    (start : create tokens totalFee (.stable ⟨decimals, amp, .riskCapped factors⟩) config = .ok p)
    {poolId limit : Int} (hlimit : 0 ≤ limit) {calls : List Call}
    (hkept : ∀ pre, pre <+: calls → (p.after pre).curve = p.curve)
    (hguard : ∀ call ∈ calls, call.command.needsGuard = true →
      call.command.poolId? = some poolId ∧ call.limits.limit? poolId = some limit) :
    ∀ pre, pre <+: calls →
      let q := p.after pre
      (∃ value, q.tvl = .ok value ∧ value ≤ limit) ∧
        ∀ (limits : Limits) (c : Command), limits.limit? poolId = some limit →
          c.needsGuard = true →
          let free := (c.guardedBy none).run limits
          let guarded := (c.guardedBy (some poolId)).run limits
          (∀ e q', free q = .error e q' →
            q' = q ∧ guarded q = .error e q ∧ e.kind ≠ .tvlLimitExceeded) ∧
          ∀ reply q', free q = .ok reply q' → ∃ value, q'.tvl = .ok value ∧
            guarded q = if limit < value then .error (.limitExceeded poolId value limit) q
              else .ok reply q' := by
  intro pre hpre q
  have hcreated : p.Created := ⟨_, _, _, _, start⟩
  have hp := hcreated.admissible
  have hb := hcreated.balanced
  obtain ⟨-, hnew⟩ := build_eq_ok_iff.1 start
  have hc : p.curve = .stable ⟨decimals, amp, .riskCapped factors⟩ := by rw [hnew]; rfl
  have hk : p.kind = .degen := by simp [kind, hc]
  have hempty : ∀ a ∈ p.amounts, a = 0 := by
    rw [hnew]
    exact fun a ha => List.eq_of_mem_replicate ha
  have hcurve : q.curve = p.curve := hkept pre hpre
  have hq : q.kind = .degen := (kind_congr hcurve).trans hk
  have hwithin : q.lockedValue ⟨decimals, amp, .riskCapped factors⟩ ≤ limit :=
    withinCap_after hp hb hk hc (fun pre' h => hkept pre' (h.trans hpre))
      (fun call h => hguard call (hpre.subset h)) (by rwa [lockedValue_of_empty hempty])
  refine ⟨⟨_, tvl_eq_lockedValue (hcurve.trans hc) hq, hwithin⟩, fun limits c hl hg => ?_⟩
  exact guard_exact (hp.after pre) (balanced_after hp hb pre) hq hl hg

/-- With a cap of twenty, a deposit of worth thirteen stays and one that would bring the pool to
thirty-four does not, though without the guard it would; a withdrawal and a change of the fee in
between need no guard. -/
theorem cap_kept_deposit_refused :
    let c : StableCurve := ⟨[0, 0], 100, .riskCapped [ratePrecision, 2 * ratePrecision]⟩
    let p : Pool := ⟨["x", "y"], [0, 0], 30, .empty, [.zero, .zero], .standard, .stable c⟩
    let limits : Limits := ⟨[(7, 20)], by decide⟩
    let large : Command := .addStableLiquidity "lp" [3, 9] 0 .none false (some 7)
    let calls : List Call :=
      [⟨∅, .register "lp"⟩, ⟨limits, .addStableLiquidity "lp" [3, 5] 0 .none false (some 7)⟩,
        ⟨∅, .modifyTotalFee 40⟩, ⟨limits, large⟩, ⟨∅, .removeLiquidity "lp" 1 [0, 0] false⟩]
    let q := p.after calls
    (∃ value, q.tvl = .ok value ∧ value ≤ 20) ∧
      ((large.guardedBy none).run limits).succeeds q = true ∧
      ∃ value, large.run limits q = .error (.limitExceeded 7 value 20) q := by
  intro c p limits large calls q
  have start : create ["x", "y"] 30 (.stable c) .standard = .ok p := by rfl
  have hkept : ∀ pre ∈ calls.inits, (p.after pre).curve = p.curve := by decide +kernel
  have hguard : ∀ call ∈ calls, call.command.needsGuard = true →
      call.command.poolId? = some 7 ∧ call.limits.limit? 7 = some 20 := by decide +kernel
  have hs : ((large.guardedBy none).run limits).succeeds q = true := by decide +kernel
  have hf : (large.run limits).succeeds q = false := by decide +kernel
  obtain ⟨reply, hok⟩ := Action.eq_ok_of_succeeds hs
  obtain ⟨e, hfail⟩ := Action.eq_error_of_not_succeeds hf
  obtain ⟨hcap, hcall⟩ := cap_kept start (by decide)
    (fun pre hpre => hkept pre ((List.mem_inits _ _).2 hpre)) hguard calls List.prefix_rfl
  obtain ⟨-, hexact⟩ := hcall limits large (by decide) (by decide)
  obtain ⟨value, -, hvalue⟩ := hexact reply _ hok
  refine ⟨hcap, hs, value, ?_⟩
  change large.run limits q = _ at hvalue
  split at hvalue
  · exact hvalue
  · cases hfail.symm.trans hvalue

end Pool

end SwapPool
