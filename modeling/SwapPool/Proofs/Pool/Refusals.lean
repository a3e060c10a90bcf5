import SwapPool.Proofs.ConstantProduct.FeeShares
import SwapPool.Proofs.Pool.Backing
import SwapPool.Proofs.Pool.Simulation

/-! Refusals that a pool states. Outside the imbalance fee no call comes to a
difference below zero, a quotient by zero, a place out of range or a root of a
negative number. The divisors are the supply, the reserves, the fee that is left
of the whole and the invariants, and each is positive where it is used: shares
that are redeemed are part of the supply, reserves are checked or back the
supply, and neither a root nor an estimate of the solver falls to zero. -/

namespace SwapPool

/-- A fault that a pool states itself. -/
def Fault.Stated (e : Fault) : Prop := e.kind.isPoolFault = true

attribute [local simp] Fault.Stated Fault.kind FaultKind.isPoolFault

/-! ### The solvers -/

namespace StableInvariant

variable {P : Fault → Prop} {amp : Int} {balances : List Int}

theorem stated_calcD (ha : 1 ≤ amp) (hn : 2 ≤ balances.length) (config : Config) :
    FailsWithin Fault.Stated (calcD amp balances config) := by
  by_cases hb : ∀ x ∈ balances, 0 < x
  · intro e he
    obtain rfl := calcD_stalls ha hn hb config e he
    rfl
  · have hempty : ∃ x ∈ balances, x ≤ 0 := by simpa using hb
    simpa [calcD] using fun _ hpos => absurd hempty (by simpa using hpos)

theorem stated_stepY (b c d y : Int) : FailsWithin Fault.Stated (stepY b c d y) := by
  simp only [stepY, failsWithin_ite, failsWithin_error]
  exact ⟨fun _ => rfl, fun hpos => Checked.failsWithin_quot (by omega)⟩

/-- Between two places of positive balances the solver divides by positive coefficients. -/
theorem stated_calcY (ha : 1 ≤ amp) (hb : ∀ z ∈ balances, 0 < z) {x : Int} (hx : 0 < x)
    {moved solved : Nat} (hm : moved < balances.length) (hs : solved < balances.length)
    (hne : moved ≠ solved) (d : Int) (config : Config) :
    FailsWithin Fault.Stated (calcY amp x balances moved solved d config) := by
  have hplace {i : Nat} (hi : i < balances.length) : checkPosition i balances.length = .ok () := by
    rw [checkPosition, if_neg (by omega)]
  have hne' : (moved : Int) ≠ solved := by omega
  have hann : 1 ≤ ann amp balances.length := ann_pos ha (by omega)
  have hrest : 0 < product (others balances x moved solved) :=
    product_pos (others_pos hb hx moved solved)
  have hpow : (0 : Int) < (balances.length : Int) ^ balances.length := pow_pos (by omega) _
  have hdiv : product (others balances x moved solved) *
      (balances.length : Int).pow balances.length * ann amp balances.length ≠ 0 :=
    (mul_pos (mul_pos hrest hpow) (by omega)).ne'
  simp only [calcY, hplace hm, hplace hs, ok_bind, if_neg hne', Int.toNat_natCast,
    failsWithin_bind, Checked.failsWithin_quot hdiv, true_and,
    Checked.failsWithin_quot (by omega : ann amp balances.length ≠ 0)]
  intro c _ q _
  exact failsWithin_iterate (I := fun _ => True) (fun _ _ _ _ => trivial)
    (fun y _ => stated_stepY _ _ _ y) (by simp) trivial

end StableInvariant

/-! ### Prices of a constant-product pool -/

namespace ConstantProduct

variable {fee : Int}

theorem stated_amountOut (hf : fee ≤ feeDivisor) (x rIn rOut : Int) :
    FailsWithin Fault.Stated (amountOut x rIn rOut fee) := by
  simp only [amountOut, failsWithin_ite, failsWithin_error, failsWithin_ok, failsWithin_bind,
    Checked.failsWithin_sub hf, Checked.sub_eq_ok_iff, true_and]
  refine ⟨fun _ => rfl, fun hr => ⟨fun _ => trivial, fun hx => ?_⟩⟩
  rintro _ ⟨-, rfl⟩
  have hnet : 0 ≤ x * (feeDivisor - fee) := mul_nonneg (by omega) (by omega)
  have hreserve : 0 < rIn * feeDivisor := mul_pos (by omega) feeDivisor_pos
  exact Checked.failsWithin_quot (by omega)

theorem stated_amountIn (hf : fee < feeDivisor) (y rIn rOut : Int) :
    FailsWithin Fault.Stated (amountIn y rIn rOut fee) := by
  simp only [amountIn, failsWithin_ite, failsWithin_error, failsWithin_ok]
  refine ⟨fun _ => rfl, fun _ => ⟨fun _ => rfl, fun hy => ⟨fun _ => trivial, fun _ => ?_⟩⟩⟩
  have hpos : 0 < (rOut - y) * (feeDivisor - fee) := mul_pos (by omega) (by omega)
  rw [Checked.sub_eq_ok_iff.2 ⟨(not_le.1 hy).le, rfl⟩, Checked.sub_eq_ok_iff.2 ⟨hf.le, rfl⟩]
  simp only [ok_bind, pure_eq_ok, failsWithin_bind, failsWithin_ok, implies_true, and_true]
  exact Checked.failsWithin_quot hpos.ne'

end ConstantProduct

@[simp] theorem AdminFees.stated_validate (fees : AdminFees) (totalFee : Int) :
    FailsWithin Fault.Stated (fees.validate totalFee) := by
  simp [validate]

namespace Pool

open StableInvariant (stated_calcD stated_calcY)

variable {P : Fault → Prop} {p : Pool} {c : StableCurve} {fees : AdminFees}

@[simp] theorem stated_checkAmounts (p : Pool) (amounts : List Int) :
    FailsWithin Fault.Stated (p.checkAmounts amounts) := by
  simp [checkAmounts]

@[simp] theorem stated_swapIndices (p : Pool) (tokenIn tokenOut : String) :
    FailsWithin Fault.Stated (p.swapIndices tokenIn tokenOut) := by
  have hindex (token : String) : FailsWithin Fault.Stated (p.tokenIndex token) := by
    unfold tokenIndex
    split <;> simp
  simp [swapIndices, hindex]

@[simp] theorem stated_checkOutput (amount minimum : Int) :
    FailsWithin Fault.Stated (checkOutput amount minimum) := by
  simp [checkOutput]

/-! ### Liquidity -/

theorem stated_deposit (p : Pool) (amounts : List Int) :
    FailsWithin Fault.Stated (p.deposit amounts) := by
  simp [deposit]

/-- Shares that are redeemed are part of the supply, which is therefore positive. -/
theorem stated_withdrawal (hb : p.shares.Balanced) (sender : String) (shares : Int)
    (minimums : List Int) : FailsWithin Fault.Stated (p.withdrawal sender shares minimums) := by
  simp only [withdrawal, failsWithin_bind, stated_checkAmounts, true_and, throw_eq_error,
    error_bind, failsWithin_ite, failsWithin_error]
  refine fun _ _ => ⟨fun _ => by simp, fun hs => ⟨fun _ => by simp, fun hle => ⟨?_, ?_⟩⟩⟩
  · have hsupply := hb.balanceOf_le sender
    exact failsWithin_mapM fun r _ => Checked.failsWithin_quot (by omega)
  · intro amounts _
    split <;> simp

/-! ### Constant-product swaps -/

/-- Where there are shares the reserves back them, and so the invariant before the swap is
positive. -/
theorem failsWithin_growthMints (hp : p.Admissible) (hb : p.Backed)
    (hs : 0 ≤ p.shares.totalSupply) (hv : fees.validate p.totalFee = .ok ()) {newAmounts : List Int}
    (hnew : ∀ r ∈ newAmounts, 0 ≤ r) (hne : newAmounts ≠ []) :
    FailsWithin P (p.growthMints newAmounts fees) := by
  by_cases h0 : fees.adminRate = 0 ∨ p.shares.totalSupply = 0
  · rw [growthMints, if_pos h0]
    exact failsWithin_ok _
  · have hsupply : 0 < p.shares.totalSupply := by omega
    have hpos := hb.reserves_pos hsupply
    have hprev := ConstantProduct.invariant_of_nonneg hp.amounts_nonneg hp.amounts_ne_nil
    simp only [growthMints, if_neg h0, hprev, ConstantProduct.invariant_of_nonneg hnew hne, ok_bind,
      pure_eq_ok, failsWithin_bind, failsWithin_ok, implies_true, and_true]
    exact ConstantProduct.failsWithin_protocolFeeShares
      (ConstantProduct.invariant_pos hpos hp.amounts_ne_nil hprev) fees.adminRate_nonneg
      (AdminFees.adminRate_le hv)

theorem failsWithin_settleProduct (hp : p.Admissible) (hb : p.Backed)
    (hs : 0 ≤ p.shares.totalSupply) (hv : fees.validate p.totalFee = .ok ())
    {tokenIn tokenOut : String} {i j : Nat} (hij : p.swapIndices tokenIn tokenOut = .ok (i, j))
    {x y : Int} (hx : 0 ≤ x) (hy : y ≤ p.amounts.getD j 0) (value : Int) :
    FailsWithin P (p.settleProduct i x j y value fees) := by
  obtain ⟨hi, hj, hne⟩ := swapIndices_eq_ok hij
  rw [← hp.amounts_length] at hi hj
  have hi0 := getD_nonneg hp.amounts_nonneg i
  rw [settleProduct, (movedAmounts_eq_ok_iff hi hj hne).2 ⟨hy, rfl⟩]
  simp only [ok_bind, pure_eq_ok, failsWithin_bind, failsWithin_ok, implies_true, and_true]
  refine failsWithin_growthMints hp hb hs hv ?_ (by simpa using hp.amounts_ne_nil)
  exact forall_mem_set (forall_mem_set hp.amounts_nonneg (by omega) i) (by omega) j

theorem stated_quoteProductSwap (hp : p.Admissible) (hb : p.Backed)
    (hs : 0 ≤ p.shares.totalSupply) (hf : p.totalFee ≤ feeDivisor) (tokenIn : String) (x : Int)
    (tokenOut : String) (minimum : Int) (fees : AdminFees) :
    FailsWithin Fault.Stated (p.quoteProductSwap tokenIn x tokenOut minimum fees) := by
  simp only [quoteProductSwap, failsWithin_bind, stated_swapIndices, true_and, throw_eq_error,
    error_bind, failsWithin_ite, failsWithin_error, AdminFees.stated_validate, stated_checkOutput,
    ConstantProduct.stated_amountOut hf, pure_eq_ok, failsWithin_ok, implies_true, and_true]
  rintro ⟨i, j⟩ hij
  refine ⟨fun _ => by simp, fun hx _ hv y hy _ _ => ⟨fun _ => by simp, fun _ => ?_⟩⟩
  have hx : 0 < x := not_le.1 hx
  obtain ⟨-, -, hlt, -⟩ := ConstantProduct.amountOut_keeps hx hp.fee_nonneg hy
  exact failsWithin_settleProduct hp hb hs hv hij hx.le hlt.le y

theorem stated_quoteProductSwapByOutput (hp : p.Admissible) (hb : p.Backed)
    (hs : 0 ≤ p.shares.totalSupply) (hf : p.totalFee < feeDivisor) (tokenIn : String) (y : Int)
    (tokenOut : String) (maximum : Option Int) (fees : AdminFees) :
    FailsWithin Fault.Stated (p.quoteProductSwapByOutput tokenIn y tokenOut maximum fees) := by
  simp only [quoteProductSwapByOutput, failsWithin_bind, stated_swapIndices, true_and,
    throw_eq_error, error_bind, failsWithin_ite, failsWithin_error, AdminFees.stated_validate,
    ConstantProduct.stated_amountIn hf]
  rintro ⟨i, j⟩ hij
  refine ⟨fun _ => by simp, fun hy _ hv x hx => ?_⟩
  have hy : 0 < y := not_le.1 hy
  obtain ⟨-, hpos, hlt, -⟩ := ConstantProduct.amountIn_keeps hy hp.fee_nonneg hx
  have hsettled : FailsWithin Fault.Stated (p.settleProduct i x j y x fees) :=
    failsWithin_settleProduct hp hb hs hv hij hpos.le hlt.le x
  cases maximum <;> simp [hsettled]

/-! ### Stable swaps without an admin part -/

theorem swapMints_of_adminFree (h : fees.adminRate = 0) (units newAmounts : List Int) (i : Nat)
    (amountOut fee : Int) :
    p.swapMints c units newAmounts i amountOut (fees.adminPart fee p.totalFee) fees = .ok [] := by
  simp [swapMints, AdminFees.adminPart_of_adminFree h]

/-- A fee that is no more than the whole leaves something to exchange. -/
theorem fee_le_amount {x fee : Int} (hx : 0 ≤ x) (hf : fee ≤ feeDivisor) :
    Checked.ceiling (x * fee) feeDivisor ≤ x := by
  have hle : -x ≤ (-(x * fee)).fdiv feeDivisor := by
    rw [le_fdiv_iff ConstantProduct.feeDivisor_pos, neg_mul, neg_le_neg_iff]
    exact mul_le_mul_of_nonneg_left hf hx
  unfold Checked.ceiling
  omega

theorem stated_quoteSwap (hp : p.Admissible) (hc : p.curve = .stable c)
    (hf : p.totalFee ≤ feeDivisor) (hfree : fees.adminRate = 0) {i j : Nat}
    (hi : i < p.tokens.length) (hj : j < p.tokens.length) (hne : i ≠ j) {x : Int} (hx : 0 < x) :
    FailsWithin Fault.Stated (p.quoteSwap c i x j fees none) := by
  obtain ⟨hlen, hunits⟩ := units_facts hp hc
  have hamp := one_le_amp hp hc
  have htwo := hp.two_le_tokens
  have hia : i < p.amounts.length := hp.amounts_length.symm ▸ hi
  have hja : j < p.amounts.length := hp.amounts_length.symm ▸ hj
  simp only [quoteSwap, quoteSwapPaying, StableCurve.effectiveRates, ok_bind]
  set units := c.units (c.cachedRates p.tokens.length)
  have hiu : i < units.length := hlen.symm ▸ hia
  have hju : j < units.length := hlen.symm ▸ hja
  have hcomp : (comparables units p.amounts).length = p.amounts.length := length_comparables hlen
  have hjc : j < (comparables units p.amounts).length := hcomp.symm ▸ hja
  set fee := Checked.ceiling (x * p.totalFee) feeDivisor
  have hle : fee ≤ x := fee_le_amount hx.le hf
  have hcharged : Checked.ceilQuot (x * p.totalFee) feeDivisor = .ok fee :=
    Checked.ceilQuot_eq_ok_iff.2 ⟨ConstantProduct.feeDivisor_pos.ne', rfl⟩
  have hnet : Checked.sub x fee = .ok (x - fee) := Checked.sub_eq_ok_iff.2 ⟨hle, rfl⟩
  simp only [hcharged, hnet, Position.item_natCast hiu, Position.item_natCast hju,
    Position.item_natCast hia, Position.item_natCast hja, Position.item_natCast hjc, ok_bind,
    throw_eq_error, error_bind, failsWithin_bind, failsWithin_ite, failsWithin_error,
    AdminFees.stated_validate, true_and, swapMints_of_adminFree hfree, pure_eq_ok, failsWithin_ok,
    implies_true, and_true, Int.toNat_natCast]
  refine fun _ _ => ⟨fun _ => by simp, fun hpos => ⟨stated_calcD hamp (by omega) _, fun d _ => ?_⟩⟩
  have hold : ∀ b ∈ comparables units p.amounts, 0 < b := by simpa using hpos
  have hin : 0 < toComparable units[i] (p.amounts[i] + (x - fee)) := by
    rw [← List.getD_eq_getElem units 0 hiu, ← List.getD_eq_getElem p.amounts 0 hia]
    exact toComparable_pos_of_le hlen hunits hold hia (by omega)
  refine ⟨stated_calcY hamp hold hin (hcomp.symm ▸ hia) hjc hne d p.config, fun y _ => ?_⟩
  rw [(movedAmounts_eq_ok_iff hia hja hne).2 ⟨?_, rfl⟩]
  · exact failsWithin_ok _
  · rw [List.getD_eq_getElem _ _ hja]
    exact min_le_right _ _

theorem stated_quoteStableSwap (hp : p.Admissible) (hc : p.curve = .stable c)
    (hf : p.totalFee ≤ feeDivisor) (hfree : fees.adminRate = 0) (tokenIn : String) (x : Int)
    (tokenOut : String) (minimum : Int) :
    FailsWithin Fault.Stated (p.quoteStableSwap c tokenIn x tokenOut minimum fees) := by
  simp only [quoteStableSwap, failsWithin_bind, stated_swapIndices, true_and, throw_eq_error,
    error_bind, failsWithin_ite, failsWithin_error, stated_checkOutput, pure_eq_ok, failsWithin_ok,
    implies_true, and_true]
  rintro ⟨i, j⟩ hij
  obtain ⟨hi, hj, hne⟩ := swapIndices_eq_ok hij
  refine ⟨fun _ => by simp, fun hx => ⟨?_, fun q _ _ _ _ => by simp⟩⟩
  exact stated_quoteSwap hp hc hf hfree hi hj hne (not_le.1 hx)

end Pool

/-! ### Calls -/

namespace Command

variable {p : Pool} {c : Command} {limits : Limits}

/-- A call that never charges the imbalance fee, nor credits a part of a fee on a stable curve: a
deposit or a swap on the constant-product curve, a withdrawal in proportion to shares, or a swap
that owes nothing to admin recipients. -/
def offImbalancePath (c : Command) (p : Pool) : Prop :=
  match c with
  | addLiquidity .. | removeLiquidity .. | swapByOutput .. => True
  | swap _ _ _ _ fees _ _ => p.curve = .constantProduct ∨ fees.adminRate = 0
  | _ => False

/-- The plan of such a call is made, or is refused by the pool. -/
theorem stated_plan? (hp : p.Admissible) (hl : p.shares.Balanced) (hb : p.Backed)
    (hproduct : p.curve = .constantProduct → p.totalFee < feeDivisor)
    (hfee : p.totalFee ≤ feeDivisor) (hc : c.offImbalancePath p) :
    ∃ plan, c.plan? p = some plan ∧ FailsWithin Fault.Stated plan := by
  have hs := hl.totalSupply_nonneg
  cases c with
  | addLiquidity sender amounts simulate =>
    refine ⟨_, rfl, ?_⟩
    unfold Pool.depositPlan
    cases p.curve with
    | constantProduct => simp [Pool.stated_deposit]
    | stable => simp [Pool.unsupported]
  | removeLiquidity sender shares minimums simulate =>
    refine ⟨_, rfl, ?_⟩
    simp [Pool.withdrawalPlan, Pool.stated_withdrawal hl]
  | swap tokenIn x tokenOut minimum fees simulate poolId =>
    refine ⟨_, rfl, ?_⟩
    unfold Pool.swapPlan Pool.curveSwap
    cases hcurve : p.curve with
    | constantProduct => simp [Pool.stated_quoteProductSwap hp hb hs hfee]
    | stable s =>
      have hfree : fees.adminRate = 0 := hc.resolve_left (by simp [hcurve])
      simp [Pool.stated_quoteStableSwap hp hcurve hfee hfree]
  | swapByOutput tokenIn y tokenOut maximum fees simulate =>
    refine ⟨_, rfl, ?_⟩
    unfold Pool.swapByOutputPlan
    cases hcurve : p.curve with
    | constantProduct => simp [Pool.stated_quoteProductSwapByOutput hp hb hs (hproduct hcurve)]
    | stable => simp [Pool.unsupported]
  | addStableLiquidity | removeLiquidityByTokens | modifyTotalFee | updateRates | register
  | unregister | transfer => exact hc.elim

/-- A plan that was made is answered, or would credit an account that is not registered. -/
theorem perform_plan_cases (hp : p.Admissible) (hl : p.shares.Balanced) {pl : Plan}
    (hplan : c.plan? p = some (.ok pl)) :
    (∃ p', Plan.perform (.ok pl) c.simulated p = .ok pl.reply p') ∨
      ∃ a, Plan.perform (.ok pl) c.simulated p = .error (.unregistered a) p := by
  cases c.simulated with
  | true => exact .inl ⟨p, Plan.perform_simulated pl p⟩
  | false =>
    obtain ⟨s, hs⟩ := settlement_of_plan? hp hl hplan rfl
    have hsettles := settles_of_plan? hplan rfl hs
    exact Plan.perform_cases hp hs (hsettles.fits hp) (hsettles.covered hp hl)

/-- A call is refused by the pool alone if its plan is: what else can stand in its way is an account
that is not registered, or the cap. -/
theorem run_answers (hp : p.Admissible) (hl : p.shares.Balanced) {plan : Except Fault Plan}
    (hplan : c.plan? p = some plan) (h : FailsWithin Fault.Stated plan) (limits : Limits) :
    (∃ reply p', c.run limits p = .ok reply p') ∨
      ∃ e, c.run limits p = .error e p ∧ e.Stated := by
  rw [run_eq_perform hplan]
  cases plan with
  | error e =>
    refine .inr ⟨e, Pool.guarded_of_error (Plan.perform_of_error e c.simulated p), ?_⟩
    exact failsWithin_error.1 h
  | ok pl =>
    obtain ⟨p', hok⟩ | ⟨a, hfail⟩ := perform_plan_cases hp hl hplan
    · obtain hg | ⟨id, value, limit, hg⟩ := Pool.guarded_cases limits hok c.poolId? c.simulated
      · exact .inl ⟨_, _, hg⟩
      · exact .inr ⟨_, hg, by simp⟩
    · exact .inr ⟨_, Pool.guarded_of_error hfail, by simp⟩

end Command

namespace Pool

/-- The fee is within the bound of the configuration for its curve. -/
theorem totalFee_bounds {p : Pool} (hp : p.Admissible)
    (hproduct : p.config.constantProductMaxFee ≤ 9999) (hstable : p.config.stableMaxFee ≤ 10000) :
    (p.curve = .constantProduct → p.totalFee < feeDivisor) ∧ p.totalFee ≤ feeDivisor := by
  have hle := hp.fee_le
  have hdivisor : feeDivisor = 10000 := rfl
  unfold maxFee at hle
  cases hc : p.curve with
  | constantProduct =>
    simp only [hc] at hle
    exact ⟨fun _ => by omega, by omega⟩
  | stable c =>
    simp only [hc] at hle
    exact ⟨nofun, by omega⟩

/-- In every pool of a run from a new one, with fees bounded below the whole input on the
constant-product curve and by it on the others, a call off the imbalance path succeeds or is refused
for a cause that the pool states. -/
theorem answered_or_refused {p : Pool} (start : p.Created)
    (hproduct : p.config.constantProductMaxFee ≤ 9999) (hstable : p.config.stableMaxFee ≤ 10000)
    (calls : List Call) (limits : Limits) {c : Command} (hc : c.offImbalancePath (p.after calls)) :
    let q := p.after calls
    (∃ reply q', c.run limits q = .ok reply q') ∨
      ∃ e, c.run limits q = .error e q ∧ e.kind.isPoolFault = true := by
  intro q
  have hp := start.admissible
  have hb := start.balanced
  have hconfig : q.config = p.config := after_keeps (I := (·.config = p.config))
    (fun _ _ _ _ _ hp _ h hr => (Command.run_config hp hr).trans h) hp hb rfl
  have hbacked : q.Backed :=
    after_keeps (fun _ _ _ _ _ hp hb h hr => backed_of_run hp hb h hr) hp hb start.backed
  have hq : q.Admissible := hp.after calls
  have hl : q.shares.Balanced := balanced_after hp hb calls
  obtain ⟨hbelow, hfee⟩ := totalFee_bounds hq (hconfig ▸ hproduct) (hconfig ▸ hstable)
  obtain ⟨plan, hplan, hstated⟩ := Command.stated_plan? hq hl hbacked hbelow hfee hc
  exact Command.run_answers hq hl hplan hstated limits

/-- Once all shares are redeemed there is nothing left to swap against, and the pool says so. -/
theorem answered_or_refused_emptied_pool :
    let c : StableCurve := ⟨[6, 18], 100, .rated [2 * ratePrecision, ratePrecision]⟩
    let p : Pool := ⟨["x", "y"], [0, 0], 30, .empty, [.zero, .zero], .standard, .stable c⟩
    let funded : List Call :=
      [⟨∅, .register "lp"⟩, ⟨∅, .addStableLiquidity "lp" [5000, 9000] 0 .none false none⟩]
    let redeemed : Call :=
      ⟨∅, .removeLiquidity "lp" ((p.after funded).shares.totalSupply) [0, 0] false⟩
    let q := p.after (funded ++ [redeemed])
    let call := Command.swap "x" 1000 "y" 0 .none false none
    0 < (p.after funded).shares.totalSupply ∧ q.amounts = [0, 0] ∧
      ∃ e, call.run ∅ q = .error e q ∧ e.kind.isPoolFault = true := by
  intro c p funded redeemed q call
  have start : p.Created := ⟨["x", "y"], 30, .stable c, .standard, by rfl⟩
  have hfail : (call.run ∅).succeeds q = false := by decide +kernel
  refine ⟨by decide +kernel, by decide +kernel, ?_⟩
  obtain ⟨reply, q', hok⟩ | ⟨e, herr, he⟩ := answered_or_refused start (by decide) (by decide)
    (funded ++ [redeemed]) ∅ (c := call) (.inr rfl)
  · simp [Action.succeeds, q, hok] at hfail
  · exact ⟨e, herr, he⟩

/-- What it costs to buy all but one of 10²²⁰⁰ units has more digits than a standard host writes: the
cause is a cost above the maximum, but the message that says so cannot be written, and the host
reports its own limit in place of the pool's fault. -/
theorem refusal_beyond_digit_limit :
    let p : Pool := ⟨["x", "y"], [0, 0], 30, .empty, [.zero, .zero], .standard, .constantProduct⟩
    let big : Int := Nat.pow 10 2200
    let q := p.after [⟨∅, .register "lp"⟩, ⟨∅, .addLiquidity "lp" [big, big] false⟩]
    let call := Command.swapByOutput "x" (big - 1) "y" (some 0) .none false
    (p.Created ∧ p.config.constantProductMaxFee ≤ 9999 ∧ p.config.stableMaxFee ≤ 10000 ∧
      call.offImbalancePath q) ∧
      ∃ e, call.run ∅ q = .error e q ∧ e.kind = .slippageExceeded ∧
        (e.reported .standard).kind = .invalidValue := by
  intro p big q call
  have start : p.Created := ⟨["x", "y"], 30, .constantProduct, .standard, by rfl⟩
  refine ⟨⟨start, by decide, by decide, trivial⟩, ?_⟩
  have hfault : ∃ e ∈ (call.run ∅).fault? q, e.kind = .slippageExceeded ∧
      (e.reported .standard).kind = .invalidValue := by
    decide +kernel
  have hsame : (call.run ∅).after q = q := by decide +kernel
  obtain ⟨e, he, hkind, hreported⟩ := hfault
  have hrun := Action.eq_error_of_fault? he
  rw [hsame] at hrun
  exact ⟨e, hrun, hkind, hreported⟩

end Pool

end SwapPool
