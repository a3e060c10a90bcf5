import SwapPool.Pool.Command
import SwapPool.Proofs.ConstantProduct.Price
import SwapPool.Proofs.Pool.Quotes
import SwapPool.Proofs.Pool.Settlement

/-! Commands that move tokens, in two halves: a plan, computed from the pool and
without effect, and the settlement that it ends in. A simulated call stops after
the plan, and a guarded one is undone where the cap is exceeded. -/

namespace SwapPool

/-- What a call would answer, and what it would write if that can be put together. -/
structure Plan where
  reply : Reply
  settlement : Except Fault Settlement

namespace Plan

/-- Answer, and write unless the call is simulated. -/
def perform (plan : Except Fault Plan) (simulate : Bool) : Action Pool Reply := do
  let plan ← plan
  unless simulate do
    (← plan.settlement).write
  return plan.reply

variable {plan : Except Fault Plan} {simulate : Bool} {p p' : Pool} {reply : Reply}

theorem perform_eq_ok (h : perform plan simulate p = .ok reply p') :
    ∃ pl, plan = .ok pl ∧ reply = pl.reply ∧
      (simulate = true ∧ p' = p ∨
        simulate = false ∧ ∃ s, pl.settlement = .ok s ∧ s.write p = .ok () p') := by
  cases simulate
  · obtain ⟨pl, hpl, s, hs, hw, hr⟩ : ∃ pl, plan = .ok pl ∧ ∃ s, pl.settlement = .ok s ∧
        s.write p = .ok () p' ∧ pl.reply = reply := by
      simpa [perform] using h
    exact ⟨pl, hpl, hr.symm, .inr ⟨rfl, s, hs, hw⟩⟩
  · obtain ⟨pl, ⟨hpl, hp⟩, hr⟩ : ∃ pl, (plan = .ok pl ∧ p' = p) ∧ pl.reply = reply := by
      simpa [perform] using h
    exact ⟨pl, hpl, hr.symm, .inl ⟨rfl, hp⟩⟩

theorem perform_failsInPlace
    (h : ∀ pl s, plan = .ok pl → pl.settlement = .ok s → s.write.FailsInPlace p) :
    (perform plan simulate).FailsInPlace p := by
  simp only [perform, Action.failsInPlace_lift_bind]
  intro pl hpl
  cases simulate
  · simpa using fun s hs => h pl s hpl hs
  · simp

end Plan

namespace Pool

variable {p p' : Pool} {pl : Plan} {sender tokenIn tokenOut : String} {amounts : List Int}
  {fees : AdminFees} {simulate : Bool}

/-! ### Plans -/

def depositPlan (p : Pool) (sender : String) (amounts : List Int) : Except Fault Plan :=
  match p.curve with
  | .constantProduct => do
    let kept ← p.deposit amounts
    return ⟨.deposit kept, .ok ⟨List.zipWith (· + ·) p.amounts kept.amounts,
      [(sender, kept.shares)], [], none⟩⟩
  | .stable _ => throw (p.unsupported "add_liquidity")

def stableDepositPlan (p : Pool) (sender : String) (amounts : List Int) (minShares : Int)
    (fees : AdminFees) : Except Fault Plan := do
  let c ← p.stableCurve "add_stable_liquidity"
  let q ← p.quoteDeposit c amounts fees none
  if q.value < minShares then throw (.mintBelow q.value minShares)
  return ⟨.integer q.value, .ok ⟨q.newAmounts, (sender, q.value) :: q.adminMints, [], none⟩⟩

def withdrawalPlan (p : Pool) (sender : String) (shares : Int) (minimums : List Int) :
    Except Fault Plan := do
  let paid ← p.withdrawal sender shares minimums
  return ⟨.integers paid, do
    let left ← (p.amounts.zip paid).mapM fun (r, a) => Checked.sub r a
    return ⟨left, [], [(sender, shares)], none⟩⟩

def stableWithdrawalPlan (p : Pool) (sender : String) (amounts : List Int) (maxBurn : Int)
    (fees : AdminFees) : Except Fault Plan := do
  let c ← p.stableCurve "remove_liquidity_by_tokens"
  let q ← p.quoteWithdrawal c amounts fees none
  if maxBurn < q.value then throw (.burnAbove q.value maxBurn)
  let balance := p.shares.balanceOf sender
  if balance < q.value then throw (.sharesShort sender balance q.value)
  return ⟨.integer q.value, .ok ⟨q.newAmounts, q.adminMints, [(sender, q.value)], none⟩⟩

/-- The quote of an exact-input swap on the curve of the pool. -/
def curveSwap (p : Pool) (tokenIn : String) (amountIn : Int) (tokenOut : String) (minimum : Int)
    (fees : AdminFees) : Except Fault (Nat × Nat × Quote) :=
  match p.curve with
  | .constantProduct => p.quoteProductSwap tokenIn amountIn tokenOut minimum fees
  | .stable c => p.quoteStableSwap c tokenIn amountIn tokenOut minimum fees

def swapPlan (p : Pool) (tokenIn : String) (amountIn : Int) (tokenOut : String) (minimum : Int)
    (fees : AdminFees) : Except Fault Plan := do
  let (i, j, q) ← p.curveSwap tokenIn amountIn tokenOut minimum fees
  return ⟨.integer q.value, .ok ⟨q.newAmounts, q.adminMints, [],
    some ⟨i, amountIn, j, q.value⟩⟩⟩

def swapByOutputPlan (p : Pool) (tokenIn : String) (amountOut : Int) (tokenOut : String)
    (maximum : Option Int) (fees : AdminFees) : Except Fault Plan :=
  match p.curve with
  | .constantProduct => do
    let (i, j, q) ← p.quoteProductSwapByOutput tokenIn amountOut tokenOut maximum fees
    return ⟨.integer q.value, .ok ⟨q.newAmounts, q.adminMints, [],
      some ⟨i, q.value, j, amountOut⟩⟩⟩
  | .stable _ => throw (p.unsupported "swap_by_output")

theorem depositPlan_eq_ok (h : p.depositPlan sender amounts = .ok pl) :
    p.curve = .constantProduct ∧ ∃ kept, p.deposit amounts = .ok kept ∧
      pl = ⟨.deposit kept, .ok ⟨List.zipWith (· + ·) p.amounts kept.amounts,
        [(sender, kept.shares)], [], none⟩⟩ := by
  unfold depositPlan at h
  cases hc : p.curve with
  | stable c => simp [hc] at h
  | constantProduct =>
    simp only [hc, bind_eq_ok_iff, pure_eq_ok, Except.ok.injEq] at h
    obtain ⟨kept, hk, rfl⟩ := h
    exact ⟨rfl, kept, hk, rfl⟩

theorem stableCurve_eq_ok {c : StableCurve} {operation : String}
    (h : p.stableCurve operation = .ok c) : p.curve = .stable c := by
  unfold stableCurve at h
  cases hc : p.curve with
  | constantProduct => simp [hc] at h
  | stable c' =>
    simp only [hc, Except.ok.injEq] at h
    rw [h]

theorem stableDepositPlan_eq_ok {minShares : Int}
    (h : p.stableDepositPlan sender amounts minShares fees = .ok pl) :
    ∃ c q, p.curve = .stable c ∧ p.quoteDeposit c amounts fees none = .ok q ∧
      minShares ≤ q.value ∧
      pl = ⟨.integer q.value, .ok ⟨q.newAmounts, (sender, q.value) :: q.adminMints, [], none⟩⟩ := by
  simp only [stableDepositPlan, bind_eq_ok_iff, throw_eq_error, error_bind, unless_eq_ok_iff,
    pure_eq_ok, Except.ok.injEq, not_lt] at h
  obtain ⟨c, hc, q, hq, hm, rfl⟩ := h
  exact ⟨c, q, stableCurve_eq_ok hc, hq, hm, rfl⟩

theorem withdrawalPlan_eq_ok {shares : Int} {minimums : List Int} {s : Settlement}
    (h : p.withdrawalPlan sender shares minimums = .ok pl) (hs : pl.settlement = .ok s) :
    ∃ paid left, p.withdrawal sender shares minimums = .ok paid ∧
      ((p.amounts.zip paid).mapM fun (r, a) => Checked.sub r a) = .ok left ∧
      pl.reply = .integers paid ∧ s = ⟨left, [], [(sender, shares)], none⟩ := by
  simp only [withdrawalPlan, bind_eq_ok_iff, pure_eq_ok, Except.ok.injEq] at h
  obtain ⟨paid, hw, rfl⟩ := h
  simp only [bind_eq_ok_iff, Except.ok.injEq] at hs
  obtain ⟨left, hl, rfl⟩ := hs
  exact ⟨paid, left, hw, hl, rfl, rfl⟩

theorem stableWithdrawalPlan_eq_ok {maxBurn : Int}
    (h : p.stableWithdrawalPlan sender amounts maxBurn fees = .ok pl) :
    ∃ c q, p.curve = .stable c ∧ p.quoteWithdrawal c amounts fees none = .ok q ∧
      q.value ≤ maxBurn ∧ q.value ≤ p.shares.balanceOf sender ∧
      pl = ⟨.integer q.value, .ok ⟨q.newAmounts, q.adminMints, [(sender, q.value)], none⟩⟩ := by
  simp only [stableWithdrawalPlan, bind_eq_ok_iff, throw_eq_error, error_bind, unless_eq_ok_iff,
    pure_eq_ok, Except.ok.injEq, not_lt] at h
  obtain ⟨c, hc, q, hq, hm, hb, rfl⟩ := h
  exact ⟨c, q, stableCurve_eq_ok hc, hq, hm, hb, rfl⟩

theorem curveSwap_of_product {x minimum : Int} (hc : p.curve = .constantProduct) :
    p.curveSwap tokenIn x tokenOut minimum fees =
      p.quoteProductSwap tokenIn x tokenOut minimum fees := by
  rw [curveSwap, hc]

theorem curveSwap_of_stable {c : StableCurve} {x minimum : Int} (hc : p.curve = .stable c) :
    p.curveSwap tokenIn x tokenOut minimum fees =
      p.quoteStableSwap c tokenIn x tokenOut minimum fees := by
  rw [curveSwap, hc]

theorem curveSwap_cases {x minimum : Int} {r : Nat × Nat × Quote}
    (h : p.curveSwap tokenIn x tokenOut minimum fees = .ok r) :
    p.curve = .constantProduct ∧ p.quoteProductSwap tokenIn x tokenOut minimum fees = .ok r ∨
      ∃ c, p.curve = .stable c ∧
        p.quoteStableSwap c tokenIn x tokenOut minimum fees = .ok r := by
  cases hc : p.curve with
  | constantProduct => exact .inl ⟨rfl, curveSwap_of_product hc ▸ h⟩
  | stable c => exact .inr ⟨c, rfl, curveSwap_of_stable hc ▸ h⟩

/-- On either curve a swap of a positive input moves its pair, and mints a split of the shares that
it owes to the admin recipients. -/
theorem curveSwap_eq_ok {x minimum : Int} {i j : Nat} {q : Quote}
    (h : p.curveSwap tokenIn x tokenOut minimum fees = .ok (i, j, q)) :
    p.swapIndices tokenIn tokenOut = .ok (i, j) ∧ 0 < x ∧
      movedAmounts p.amounts i x j q.value = .ok q.newAmounts ∧
      ∃ shares, q.adminMints = fees.splitShares shares := by
  obtain ⟨-, h⟩ | ⟨c, -, h⟩ := curveSwap_cases h
  · obtain ⟨hij, hx, -, -, hm, hg⟩ := quoteProductSwap_eq_ok h
    exact ⟨hij, hx, hm, split_of_growthMints hg⟩
  · obtain ⟨hij, hx, -, _, _, _, hs⟩ := quoteStableSwap_eq_ok h
    exact ⟨hij, hx, hs.moved, split_of_swapMints hs.minted⟩

theorem swapPlan_eq_ok {amountIn minimum : Int}
    (h : p.swapPlan tokenIn amountIn tokenOut minimum fees = .ok pl) :
    ∃ i j q, p.curveSwap tokenIn amountIn tokenOut minimum fees = .ok (i, j, q) ∧
      pl = ⟨.integer q.value, .ok ⟨q.newAmounts, q.adminMints, [],
        some ⟨i, amountIn, j, q.value⟩⟩⟩ := by
  simp only [swapPlan, bind_eq_ok_iff, Prod.exists, pure_eq_ok, Except.ok.injEq] at h
  obtain ⟨i, j, q, hq, rfl⟩ := h
  exact ⟨i, j, q, hq, rfl⟩

theorem swapByOutputPlan_eq_ok {amountOut : Int} {maximum : Option Int}
    (h : p.swapByOutputPlan tokenIn amountOut tokenOut maximum fees = .ok pl) :
    p.curve = .constantProduct ∧ ∃ i j q,
      p.quoteProductSwapByOutput tokenIn amountOut tokenOut maximum fees = .ok (i, j, q) ∧
      pl = ⟨.integer q.value, .ok ⟨q.newAmounts, q.adminMints, [],
        some ⟨i, q.value, j, amountOut⟩⟩⟩ := by
  unfold swapByOutputPlan at h
  cases hc : p.curve with
  | stable c => simp [hc] at h
  | constantProduct =>
    simp only [hc, bind_eq_ok_iff, Prod.exists, pure_eq_ok, Except.ok.injEq] at h
    obtain ⟨i, j, q, hq, rfl⟩ := h
    exact ⟨rfl, i, j, q, hq, rfl⟩

/-! ### Guarded calls -/

variable {α β : Type} {act act' : Action Pool α} {limits : Limits} {poolId : Option Int}

@[simp] theorem guarded_none : guarded limits none simulate act = act := by
  cases simulate <;> rfl

theorem guarded_congr (h : act p = act' p) :
    guarded limits poolId simulate act p = guarded limits poolId simulate act' p := by
  unfold guarded
  split
  · simp only [Action.atomically, Action.restoring, Action.bind_apply, h]
  · exact h

theorem guarded_of_error {e : Fault} (h : act p = .error e p) :
    guarded limits poolId simulate act p = .error e p := by
  unfold guarded
  split
  · simp [Action.atomically, Action.restoring, Action.bind_apply, h]
  · exact h

/-- A guarded call that succeeds did what the call itself does. -/
theorem guarded_eq_ok {a : α} (h : guarded limits poolId simulate act p = .ok a p') :
    act p = .ok a p' := by
  unfold guarded at h
  split at h
  · simp only [Action.atomically, Action.restoring_eq_ok_iff, Action.bind_eq_ok_iff,
      Action.pure_apply, EStateM.Result.ok.injEq] at h
    obtain ⟨_, t, ha, _, _, ⟨⟩, _, _, hl, rfl, rfl⟩ := h
    obtain ⟨-, rfl⟩ := Action.ofExcept_eq_ok_iff.1 hl
    exact ha
  · exact h

theorem guarded_failsInPlace (h : act.FailsInPlace p) :
    (guarded limits poolId simulate act).FailsInPlace p := by
  unfold guarded
  split
  · exact Action.failsInPlace_atomically _
  · exact h

theorem map_guarded (f : α → β) : (f <$> guarded limits poolId simulate act) p =
    guarded limits poolId simulate (f <$> act) p := by
  unfold guarded
  split
  · simp only [Action.atomically, Action.restoring, Action.map_apply, Action.bind_apply]
    cases act p with
    | error e p' => rfl
    | ok a p' =>
      simp only [Action.get_apply, Action.lift_apply]
      cases p'.assertWithinCap limits _ <;> rfl
  · rfl

/-! ### Calls perform their plans -/

theorem addProductLiquidity_eq_perform :
    (Reply.deposit <$> addProductLiquidity sender amounts simulate) p =
      Plan.perform (p.depositPlan sender amounts) simulate p := by
  simp only [addProductLiquidity, depositPlan, map_bind, Action.get_bind_apply]
  cases p.curve with
  | stable c => rfl
  | constantProduct =>
    simp only [addLiquidity, map_bind, Action.get_bind_apply]
    cases p.deposit amounts with
    | error e => simp [Plan.perform]
    | ok kept => cases simulate <;> simp [Plan.perform, Settlement.write]

theorem addStableLiquidity_eq_perform {minShares : Int} :
    (Reply.integer <$> addStableLiquidity limits sender amounts minShares fees simulate poolId) p =
      guarded limits poolId simulate
        (Plan.perform (p.stableDepositPlan sender amounts minShares fees) simulate) p := by
  simp only [addStableLiquidity, map_bind, Action.get_bind_apply]
  unfold stableDepositPlan
  cases p.stableCurve "add_stable_liquidity" with
  | error e => exact (guarded_of_error rfl).symm
  | ok c =>
    simp only [Action.lift_ok, pure_bind, map_guarded]
    refine guarded_congr ?_
    simp only [addStable, map_bind, Action.get_bind_apply]
    cases hq : p.quoteDeposit c amounts fees none with
    | error e => simp [Plan.perform, hq]
    | ok q =>
      by_cases hm : q.value < minShares
      · simp [Plan.perform, hq, hm]
      · cases simulate <;> simp [Plan.perform, Settlement.write, hq, hm]

theorem removeLiquidity_eq_perform {shares : Int} {minimums : List Int} :
    (Reply.integers <$> removeLiquidity sender shares minimums simulate) p =
      Plan.perform (p.withdrawalPlan sender shares minimums) simulate p := by
  simp only [removeLiquidity, withdrawalPlan, map_bind, Action.get_bind_apply]
  cases p.withdrawal sender shares minimums with
  | error e => simp [Plan.perform]
  | ok paid =>
    cases hl : (p.amounts.zip paid).mapM fun (r, a) => Checked.sub r a <;> cases simulate <;>
      simp [Plan.perform, Settlement.write, Action.mapM_lift, hl]

theorem removeLiquidityByTokens_eq_perform {maxBurn : Int} :
    (Reply.integer <$> removeLiquidityByTokens sender amounts maxBurn fees simulate) p =
      Plan.perform (p.stableWithdrawalPlan sender amounts maxBurn fees) simulate p := by
  simp only [removeLiquidityByTokens, map_bind, Action.get_bind_apply]
  unfold stableWithdrawalPlan
  cases p.stableCurve "remove_liquidity_by_tokens" with
  | error e => rfl
  | ok c =>
    simp only [Action.lift_ok, pure_bind, removeStable, map_bind, Action.get_bind_apply]
    cases hq : p.quoteWithdrawal c amounts fees none with
    | error e => simp [Plan.perform, hq]
    | ok q =>
      by_cases hm : maxBurn < q.value
      · simp [Plan.perform, hq, hm]
      · by_cases hb : p.shares.balanceOf sender < q.value
        · simp [Plan.perform, hq, hm, hb]
        · cases simulate <;> simp [Plan.perform, Settlement.write, hq, hm, hb]

theorem swap_eq_perform {amountIn minimum : Int} :
    (Reply.integer <$> swap limits tokenIn amountIn tokenOut minimum fees simulate poolId) p =
      guarded limits poolId simulate
        (Plan.perform (p.swapPlan tokenIn amountIn tokenOut minimum fees) simulate) p := by
  simp only [swap, map_bind, Action.get_bind_apply, map_guarded]
  refine guarded_congr ?_
  unfold swapPlan curveSwap
  cases p.curve with
  | constantProduct =>
    simp only [productSwap, map_bind, Action.get_bind_apply]
    cases p.quoteProductSwap tokenIn amountIn tokenOut minimum fees with
    | error e => simp [Plan.perform]
    | ok q => cases simulate <;> simp [Plan.perform, Settlement.write, commitSwap]
  | stable c =>
    simp only [stableSwap, map_bind, Action.get_bind_apply]
    cases p.quoteStableSwap c tokenIn amountIn tokenOut minimum fees with
    | error e => simp [Plan.perform]
    | ok q => cases simulate <;> simp [Plan.perform, Settlement.write, commitSwap]

theorem swapByOutput_eq_perform {amountOut : Int} {maximum : Option Int} :
    (Reply.integer <$> swapByOutput tokenIn amountOut tokenOut maximum fees simulate) p =
      Plan.perform (p.swapByOutputPlan tokenIn amountOut tokenOut maximum fees) simulate p := by
  simp only [swapByOutput, swapByOutputPlan, map_bind, Action.get_bind_apply]
  cases p.curve with
  | stable c => rfl
  | constantProduct =>
    simp only [productSwapByOutput, map_bind, Action.get_bind_apply]
    cases p.quoteProductSwapByOutput tokenIn amountOut tokenOut maximum fees with
    | error e => simp [Plan.perform]
    | ok q => cases simulate <;> simp [Plan.perform, Settlement.write, commitSwap]

/-! ### Settlements fit -/

theorem fits_of_deposit (hp : p.Admissible) {kept : Deposit}
    (h : p.deposit amounts = .ok kept) :
    Settlement.Fits ⟨List.zipWith (· + ·) p.amounts kept.amounts, [(sender, kept.shares)], [],
      none⟩ p := by
  obtain ⟨ha, hk⟩ := deposit_eq_ok_iff.1 h
  obtain ⟨hl, hn⟩ := checkAmounts_eq_ok_iff.1 ha
  have hkept : kept.amounts.length = p.tokens.length ∧ ∀ a ∈ kept.amounts, 0 ≤ a := by
    obtain ⟨-, -, rfl⟩ | ⟨hs, hr, -, rfl⟩ := hk
    · exact ⟨hl, hn⟩
    · refine ⟨by simpa using hp.amounts_length, ?_⟩
      intro a ha
      obtain ⟨r, hr', rfl⟩ := List.mem_map.1 ha
      refine Checked.ceiling_nonneg ?_
      rw [mul_assoc]
      exact mul_nonneg (hr r hr').le (coveredShares_mul_nonneg hn hr)
  exact ⟨hp.length_zipWith hkept.1 _, nonneg_zipWith_add hp.amounts_nonneg hkept.2,
    .inl ⟨rfl, by simp⟩, by simp⟩

theorem fits_of_quoteDeposit (hp : p.Admissible) {c : StableCurve} {q : Quote}
    (h : p.quoteDeposit c amounts fees none = .ok q) :
    Settlement.Fits ⟨q.newAmounts, (sender, q.value) :: q.adminMints, [], none⟩ p := by
  obtain ⟨ha, hq, hm⟩ := quoteDeposit_eq_ok h
  obtain ⟨hl, hn⟩ := checkAmounts_eq_ok_iff.1 ha
  refine ⟨?_, ?_, .inl ⟨rfl, fun m hm' => (hm m hm').le⟩, by simp⟩
  · rw [hq]
    exact hp.length_zipWith hl _
  · rw [hq]
    exact nonneg_zipWith_add hp.amounts_nonneg hn

theorem fits_of_withdrawal (hp : p.Admissible) {shares : Int} {minimums paid left : List Int}
    (h : p.withdrawal sender shares minimums = .ok paid)
    (hl : ((p.amounts.zip paid).mapM fun (r, a) => Checked.sub r a) = .ok left) :
    Settlement.Fits ⟨left, [], [(sender, shares)], none⟩ p := by
  obtain ⟨-, -, rfl⟩ := withdrawal_eq_ok h
  obtain ⟨rfl, hn⟩ := subs_eq_ok hl
  exact ⟨hp.length_zipWith (by simpa using hp.amounts_length) _, hn, .inr ⟨⟨_, rfl⟩, by simp⟩,
    by simp⟩

theorem fits_of_quoteWithdrawal (hp : p.Admissible) {c : StableCurve} {q : Quote}
    (h : p.quoteWithdrawal c amounts fees none = .ok q) :
    Settlement.Fits ⟨q.newAmounts, q.adminMints, [(sender, q.value)], none⟩ p := by
  obtain ⟨ha, hq, hm⟩ := quoteWithdrawal_eq_ok h
  obtain ⟨hl, -⟩ := checkAmounts_eq_ok_iff.1 ha
  obtain ⟨hq, hn⟩ := subs_eq_ok hq
  refine ⟨?_, hn, .inr ⟨⟨_, rfl⟩, fun m hm' => (hm m hm').le⟩, by simp⟩
  rw [hq]
  exact hp.length_zipWith hl _

theorem fits_of_moved (hp : p.Admissible) {i j : Nat} {x y : Int}
    {newAmounts : List Int} {mints : List (String × Int)}
    (hij : p.swapIndices tokenIn tokenOut = .ok (i, j)) (hx : 0 ≤ x)
    (hm : movedAmounts p.amounts i x j y = .ok newAmounts) (hpos : ∀ m ∈ mints, 0 < m.2) :
    Settlement.Fits ⟨newAmounts, mints, [], some ⟨i, x, j, y⟩⟩ p := by
  obtain ⟨hi, hj, hne⟩ := swapIndices_eq_ok hij
  have hi' : i < p.amounts.length := hp.amounts_length ▸ hi
  have hj' : j < p.amounts.length := hp.amounts_length ▸ hj
  obtain ⟨hle, rfl⟩ := (movedAmounts_eq_ok_iff hi' hj' hne).1 hm
  refine ⟨?_, ?_, .inl ⟨rfl, fun m h => (hpos m (List.mem_of_mem_tail h)).le⟩, ?_⟩
  · rw [List.length_set, List.length_set, hp.amounts_length]
  · have := getD_nonneg hp.amounts_nonneg i
    exact forall_mem_set (forall_mem_set hp.amounts_nonneg (by omega) i) (by omega) j
  · rintro _ ⟨⟩
    exact ⟨hi, hj⟩

theorem fits_of_curveSwap (hp : p.Admissible) {x minimum : Int} {i j : Nat} {q : Quote}
    (h : p.curveSwap tokenIn x tokenOut minimum fees = .ok (i, j, q)) :
    Settlement.Fits ⟨q.newAmounts, q.adminMints, [], some ⟨i, x, j, q.value⟩⟩ p := by
  obtain ⟨hij, hx, hm, shares, hs⟩ := curveSwap_eq_ok h
  exact fits_of_moved hp hij hx.le hm fun m hmem => AdminFees.splitShares_pos (hs ▸ hmem)

theorem fits_of_quoteProductSwapByOutput (hp : p.Admissible) {y : Int} {maximum : Option Int}
    {i j : Nat} {q : Quote}
    (h : p.quoteProductSwapByOutput tokenIn y tokenOut maximum fees = .ok (i, j, q)) :
    Settlement.Fits ⟨q.newAmounts, q.adminMints, [], some ⟨i, q.value, j, y⟩⟩ p := by
  obtain ⟨hij, hy, -, hin, hm, hg⟩ := quoteProductSwapByOutput_eq_ok h
  obtain ⟨-, hx, -⟩ := ConstantProduct.amountIn_keeps hy hp.fee_nonneg hin
  exact fits_of_moved hp hij hx.le hm (growthMints_eq_ok hg).1

end Pool

namespace Command

variable {p p' : Pool} {c : Command} {plan : Except Fault Plan} {limits : Limits}

def simulated : Command → Bool
  | addLiquidity _ _ simulate | addStableLiquidity _ _ _ _ simulate _
  | removeLiquidity _ _ _ simulate | removeLiquidityByTokens _ _ _ _ simulate
  | swap _ _ _ _ _ simulate _ | swapByOutput _ _ _ _ _ simulate => simulate
  | _ => false

/-- The number under which a call is guarded. -/
def poolId? : Command → Option Int
  | addStableLiquidity _ _ _ _ _ poolId | swap _ _ _ _ _ _ poolId => poolId
  | _ => none

/-- The plan of a command that moves tokens. -/
def plan? (p : Pool) : Command → Option (Except Fault Plan)
  | addLiquidity sender amounts _ => some (p.depositPlan sender amounts)
  | addStableLiquidity sender amounts minShares fees _ _ =>
    some (p.stableDepositPlan sender amounts minShares fees)
  | removeLiquidity sender shares minimums _ => some (p.withdrawalPlan sender shares minimums)
  | removeLiquidityByTokens sender amounts maxBurn fees _ =>
    some (p.stableWithdrawalPlan sender amounts maxBurn fees)
  | swap tokenIn amountIn tokenOut minimum fees _ _ =>
    some (p.swapPlan tokenIn amountIn tokenOut minimum fees)
  | swapByOutput tokenIn amountOut tokenOut maximum fees _ =>
    some (p.swapByOutputPlan tokenIn amountOut tokenOut maximum fees)
  | modifyTotalFee _ | updateRates _ | register _ | unregister _ | transfer _ _ _ => none

theorem run_eq_perform (h : c.plan? p = some plan) :
    c.run limits p =
      Pool.guarded limits c.poolId? c.simulated (Plan.perform plan c.simulated) p := by
  cases c with
  | addLiquidity =>
    obtain rfl := Option.some.inj h
    simp only [poolId?, Pool.guarded_none]
    exact Pool.addProductLiquidity_eq_perform
  | addStableLiquidity =>
    obtain rfl := Option.some.inj h
    exact Pool.addStableLiquidity_eq_perform
  | removeLiquidity =>
    obtain rfl := Option.some.inj h
    simp only [poolId?, Pool.guarded_none]
    exact Pool.removeLiquidity_eq_perform
  | removeLiquidityByTokens =>
    obtain rfl := Option.some.inj h
    simp only [poolId?, Pool.guarded_none]
    exact Pool.removeLiquidityByTokens_eq_perform
  | swap =>
    obtain rfl := Option.some.inj h
    exact Pool.swap_eq_perform
  | swapByOutput =>
    obtain rfl := Option.some.inj h
    simp only [poolId?, Pool.guarded_none]
    exact Pool.swapByOutput_eq_perform
  | modifyTotalFee | updateRates | register | unregister | transfer => cases h

/-- What a command that moves tokens writes, with the quote that it was computed by. -/
inductive Settles (p : Pool) : Command → Settlement → Prop
  | deposit {sender amounts simulate kept} (curve : p.curve = .constantProduct)
      (quoted : p.deposit amounts = .ok kept) :
      Settles p (addLiquidity sender amounts simulate)
        ⟨List.zipWith (· + ·) p.amounts kept.amounts, [(sender, kept.shares)], [], none⟩
  | stableDeposit {sender amounts minShares fees simulate poolId c q} (curve : p.curve = .stable c)
      (quoted : p.quoteDeposit c amounts fees none = .ok q) (enough : minShares ≤ q.value) :
      Settles p (addStableLiquidity sender amounts minShares fees simulate poolId)
        ⟨q.newAmounts, (sender, q.value) :: q.adminMints, [], none⟩
  | withdrawal {sender shares minimums simulate paid left}
      (quoted : p.withdrawal sender shares minimums = .ok paid)
      (moved : ((p.amounts.zip paid).mapM fun (r, a) => Checked.sub r a) = .ok left) :
      Settles p (removeLiquidity sender shares minimums simulate)
        ⟨left, [], [(sender, shares)], none⟩
  | stableWithdrawal {sender amounts maxBurn fees simulate c q} (curve : p.curve = .stable c)
      (quoted : p.quoteWithdrawal c amounts fees none = .ok q) (within : q.value ≤ maxBurn)
      (held : q.value ≤ p.shares.balanceOf sender) :
      Settles p (removeLiquidityByTokens sender amounts maxBurn fees simulate)
        ⟨q.newAmounts, q.adminMints, [(sender, q.value)], none⟩
  | swap {tokenIn x tokenOut minimum fees simulate poolId i j q}
      (quoted : p.curveSwap tokenIn x tokenOut minimum fees = .ok (i, j, q)) :
      Settles p (swap tokenIn x tokenOut minimum fees simulate poolId)
        ⟨q.newAmounts, q.adminMints, [], some ⟨i, x, j, q.value⟩⟩
  | swapByOutput {tokenIn y tokenOut maximum fees simulate i j q}
      (curve : p.curve = .constantProduct)
      (quoted : p.quoteProductSwapByOutput tokenIn y tokenOut maximum fees = .ok (i, j, q)) :
      Settles p (swapByOutput tokenIn y tokenOut maximum fees simulate)
        ⟨q.newAmounts, q.adminMints, [], some ⟨i, q.value, j, y⟩⟩

theorem settles_of_plan? (h : c.plan? p = some plan) {pl : Plan} {s : Settlement}
    (hpl : plan = .ok pl) (hs : pl.settlement = .ok s) : Settles p c s := by
  cases c with
  | addLiquidity sender amounts simulate =>
    obtain rfl := Option.some.inj h
    obtain ⟨hc, kept, hk, rfl⟩ := Pool.depositPlan_eq_ok hpl
    obtain rfl := Except.ok.inj hs
    exact .deposit hc hk
  | addStableLiquidity sender amounts minShares fees simulate poolId =>
    obtain rfl := Option.some.inj h
    obtain ⟨c, q, hc, hq, hm, rfl⟩ := Pool.stableDepositPlan_eq_ok hpl
    obtain rfl := Except.ok.inj hs
    exact .stableDeposit hc hq hm
  | removeLiquidity sender shares minimums simulate =>
    obtain rfl := Option.some.inj h
    obtain ⟨paid, left, hw, hl, -, rfl⟩ := Pool.withdrawalPlan_eq_ok hpl hs
    exact .withdrawal hw hl
  | removeLiquidityByTokens sender amounts maxBurn fees simulate =>
    obtain rfl := Option.some.inj h
    obtain ⟨c, q, hc, hq, hm, hle, rfl⟩ := Pool.stableWithdrawalPlan_eq_ok hpl
    obtain rfl := Except.ok.inj hs
    exact .stableWithdrawal hc hq hm hle
  | swap tokenIn amountIn tokenOut minimum fees simulate poolId =>
    obtain rfl := Option.some.inj h
    obtain ⟨i, j, q, hq, rfl⟩ := Pool.swapPlan_eq_ok hpl
    obtain rfl := Except.ok.inj hs
    exact .swap hq
  | swapByOutput tokenIn amountOut tokenOut maximum fees simulate =>
    obtain rfl := Option.some.inj h
    obtain ⟨hc, i, j, q, hq, rfl⟩ := Pool.swapByOutputPlan_eq_ok hpl
    obtain rfl := Except.ok.inj hs
    exact .swapByOutput hc hq
  | modifyTotalFee | updateRates | register | unregister | transfer => cases h

theorem Settles.fits (hp : p.Admissible) {s : Settlement} (h : Settles p c s) : s.Fits p := by
  cases h with
  | deposit _ hk => exact Pool.fits_of_deposit hp hk
  | stableDeposit _ hq => exact Pool.fits_of_quoteDeposit hp hq
  | withdrawal hw hl => exact Pool.fits_of_withdrawal hp hw hl
  | stableWithdrawal _ hq => exact Pool.fits_of_quoteWithdrawal hp hq
  | swap hq => exact Pool.fits_of_curveSwap hp hq
  | swapByOutput _ hq => exact Pool.fits_of_quoteProductSwapByOutput hp hq

/-- A command that moves tokens answers with its plan. Unless it is simulated, it leaves the
outcome of a settlement that fits the pool. -/
theorem planned_eq_ok (hp : p.Admissible) (h : c.plan? p = some plan) {reply : Reply}
    (hr : c.run limits p = .ok reply p') : ∃ pl, plan = .ok pl ∧ reply = pl.reply ∧
      (c.simulated = true ∧ p' = p ∨ c.simulated = false ∧ ∃ s l, pl.settlement = .ok s ∧
        s.Fits p ∧ Ledger.settle s.mints s.burns p.shares = .ok () l ∧ p' = s.outcome l p) := by
  rw [run_eq_perform h] at hr
  obtain ⟨pl, hpl, hv, hsim | ⟨hsim, s, hs, hw⟩⟩ := Plan.perform_eq_ok (Pool.guarded_eq_ok hr)
  · exact ⟨pl, hpl, hv, .inl hsim⟩
  · have hf := (settles_of_plan? h hpl hs).fits hp
    obtain ⟨l, hl, hp'⟩ := (Settlement.write_eq_ok_iff hp hf).1 hw
    exact ⟨pl, hpl, hv, .inr ⟨hsim, s, l, hs, hf, hl, hp'⟩⟩

end Command

end SwapPool
