import SwapPool.Proofs.Pool.Plan

/-! What every command keeps. A command that fails leaves the pool exactly as it
was. One that succeeds keeps the pool admissible and its ledger balanced:
commands that move tokens by way of their settlement, the others directly. -/

namespace SwapPool

namespace Pool

variable {p p' : Pool} {c : StableCurve}

theorem failsInPlace_onShares {act : Action Ledger Unit} (h : act.FailsInPlace p.shares) :
    (onShares act).FailsInPlace p :=
  Action.FailsInPlace.on rfl h

theorem modifyTotalFee_eq_ok_iff {fee : Int} : modifyTotalFee fee p = .ok () p' ↔
    p.checkFee fee = .ok () ∧ p' = { p with totalFee := fee } := by
  simp [modifyTotalFee, eq_comm (a := p')]

theorem modifyTotalFee_failsInPlace {fee : Int} : (modifyTotalFee fee).FailsInPlace p := by
  simp only [modifyTotalFee, Action.failsInPlace_get_bind, Action.failsInPlace_lift_bind]
  exact fun _ _ => Action.failsInPlace_modify _

/-- Fresher rates take the place of rates, and fresher risk factors that of risk factors. -/
theorem updateRates_eq_ok {rates : Option (List Int)} (h : updateRates rates p = .ok () p') :
    p' = p ∨ ∃ c v rs, p.curve = .stable c ∧ validateRates rs p.tokens.length = .ok () ∧
      p' = setRates c v p ∧ ((∃ old, c.valuation = .rated old) ∧ v = .rated rs ∨
        (∃ old, c.valuation = .riskCapped old) ∧ v = .riskCapped rs) := by
  simp only [updateRates, Action.get_bind_apply] at h
  cases hc : p.curve with
  | constantProduct => simp [hc] at h
  | stable c =>
    cases hv : c.valuation <;> cases rates <;> simp [hc, hv] at h
    · exact .inl h.symm
    · exact .inr ⟨c, _, _, rfl, h.1, h.2.symm, .inl ⟨⟨_, hv⟩, rfl⟩⟩
    · exact .inl h.symm
    · exact .inr ⟨c, _, _, rfl, h.1, h.2.symm, .inr ⟨⟨_, hv⟩, rfl⟩⟩

theorem updateRates_failsInPlace {rates : Option (List Int)} :
    (updateRates rates).FailsInPlace p := by
  simp only [updateRates, Action.failsInPlace_get_bind]
  cases p.curve with
  | constantProduct => exact Action.failsInPlace_throw _
  | stable c => cases hv : c.valuation <;> cases rates <;> simp [hv]

theorem admissible_setRates (hp : p.Admissible) (hc : p.curve = .stable c) {v : Valuation}
    (ht : v.targetDecimals = c.valuation.targetDecimals) {rs : List Int}
    (hr : validateRates rs p.tokens.length = .ok ())
    (hv : ({ c with valuation := v } : StableCurve).cachedRates p.tokens.length = rs) :
    (setRates c v p).Admissible := by
  subst hv
  have h := hp.curve c hc
  obtain ⟨hl, hpos⟩ := validateRates_eq_ok_iff.1 hr
  have hm : (setRates c v p).maxFee = p.maxFee := by simp [maxFee, setRates, hc]
  refine { hp with fee_le := hm ▸ hp.fee_le, curve := ?_ }
  rintro _ ⟨⟩
  exact
    { h with
      decimals_le := fun d hd => ht ▸ h.decimals_le d hd
      rates_length := Int.natCast_inj.1 hl
      rates_pos := hpos }

theorem admissible_of_updateRates (hp : p.Admissible) {rates : Option (List Int)}
    (h : updateRates rates p = .ok () p') : p'.Admissible := by
  obtain rfl | ⟨c, v, rs, hc, hr, rfl, ⟨⟨_, hv⟩, rfl⟩ | ⟨⟨_, hv⟩, rfl⟩⟩ := updateRates_eq_ok h
  · exact hp
  · exact admissible_setRates hp hc (by rw [hv]; rfl) hr rfl
  · exact admissible_setRates hp hc (by rw [hv]; rfl) hr rfl

end Pool

namespace Command

variable {p p' : Pool} {c : Command} {limits : Limits} {reply : Reply}

/-- A command that fails leaves the pool as it was. -/
theorem run_failsInPlace (hp : p.Admissible) (limits : Limits) (c : Command) :
    (c.run limits).FailsInPlace p := by
  cases hc : c.plan? p with
  | some plan =>
    intro e p' h
    rw [run_eq_perform hc] at h
    refine Pool.guarded_failsInPlace (Plan.perform_failsInPlace fun pl s hpl hs => ?_) e p' h
    exact Settlement.write_failsInPlace hp ((settles_of_plan? hc hpl hs).fits hp)
  | none =>
    cases c with
    | modifyTotalFee fee => exact Pool.modifyTotalFee_failsInPlace.bind fun _ _ _ => by simp
    | updateRates rates => exact Pool.updateRates_failsInPlace.bind fun _ _ _ => by simp
    | register account =>
      exact (Pool.failsInPlace_onShares Ledger.register_failsInPlace).bind fun _ _ _ => by simp
    | unregister account =>
      exact (Pool.failsInPlace_onShares Ledger.unregister_failsInPlace).bind fun _ _ _ => by simp
    | transfer sender receiver shares =>
      exact (Pool.failsInPlace_onShares Ledger.transfer_failsInPlace).bind fun _ _ _ => by simp
    | addLiquidity | addStableLiquidity | removeLiquidity | removeLiquidityByTokens | swap
    | swapByOutput => cases hc

/-- A swap that succeeds settles its quote. -/
theorem swap_eq_ok (hp : p.Admissible) {tokenIn tokenOut : String} {x minimum out : Int}
    {fees : AdminFees} {poolId : Option Int}
    (h : Pool.swap limits tokenIn x tokenOut minimum fees false poolId p = .ok out p') :
    ∃ i j q l, p.curveSwap tokenIn x tokenOut minimum fees = .ok (i, j, q) ∧ out = q.value ∧
      Ledger.settle q.adminMints [] p.shares = .ok () l ∧
      p' = Settlement.outcome ⟨q.newAmounts, q.adminMints, [], some ⟨i, x, j, q.value⟩⟩ l p := by
  have hr : (swap tokenIn x tokenOut minimum fees false poolId).run limits p =
      .ok (.integer out) p' := by
    simp only [run, Action.map_apply, h]
  have hc : plan? p (swap tokenIn x tokenOut minimum fees false poolId) = some _ := rfl
  obtain ⟨pl, hpl, hv, ⟨⟨⟩, -⟩ | ⟨-, s, l, hs, -, hl, rfl⟩⟩ := planned_eq_ok hp hc hr
  obtain ⟨i, j, q, hq, rfl⟩ := Pool.swapPlan_eq_ok hpl
  obtain rfl := Except.ok.inj hs
  exact ⟨i, j, q, l, hq, Reply.integer.inj hv, hl, rfl⟩

/-- A deposit on a stable curve that succeeds settles its quote. -/
theorem stableDeposit_eq_ok (hp : p.Admissible) {sender : String} {amounts : List Int}
    {minShares minted : Int} {fees : AdminFees} {poolId : Option Int}
    (h : Pool.addStableLiquidity limits sender amounts minShares fees false poolId p =
      .ok minted p') :
    ∃ c q l, p.curve = .stable c ∧ p.quoteDeposit c amounts fees none = .ok q ∧ minted = q.value ∧
      Ledger.settle ((sender, q.value) :: q.adminMints) [] p.shares = .ok () l ∧
      p' = Settlement.outcome ⟨q.newAmounts, (sender, q.value) :: q.adminMints, [], none⟩ l p := by
  have hr : (addStableLiquidity sender amounts minShares fees false poolId).run limits p =
      .ok (.integer minted) p' := by
    simp only [run, Action.map_apply, h]
  obtain ⟨pl, hpl, hv, ⟨⟨⟩, -⟩ | ⟨-, s, l, hs, -, hl, rfl⟩⟩ := planned_eq_ok hp rfl hr
  obtain ⟨c, q, hc, hq, -, rfl⟩ := Pool.stableDepositPlan_eq_ok hpl
  obtain rfl := Except.ok.inj hs
  exact ⟨c, q, l, hc, hq, Reply.integer.inj hv, hl, rfl⟩

/-- A withdrawal by tokens that succeeds, or is rehearsed, answers its quote. -/
theorem stableWithdrawal_eq_ok (hp : p.Admissible) {sender : String} {amounts : List Int}
    {maxBurn burned : Int} {fees : AdminFees} {simulate : Bool}
    (h : Pool.removeLiquidityByTokens sender amounts maxBurn fees simulate p = .ok burned p') :
    ∃ c q, p.curve = .stable c ∧ p.quoteWithdrawal c amounts fees none = .ok q ∧
      burned = q.value := by
  have hr : (removeLiquidityByTokens sender amounts maxBurn fees simulate).run ∅ p =
      .ok (.integer burned) p' := by
    simp only [run, Action.map_apply, h]
  obtain ⟨pl, hpl, hv, -⟩ := planned_eq_ok hp rfl hr
  obtain ⟨c, q, hc, hq, -, -, rfl⟩ := Pool.stableWithdrawalPlan_eq_ok hpl
  exact ⟨c, q, hc, hq, Reply.integer.inj hv⟩

/-- An exact-output swap that succeeds settles its quote. -/
theorem swapByOutput_eq_ok (hp : p.Admissible) {tokenIn tokenOut : String} {y cost : Int}
    {maximum : Option Int} {fees : AdminFees}
    (h : Pool.swapByOutput tokenIn y tokenOut maximum fees false p = .ok cost p') :
    p.curve = .constantProduct ∧ ∃ i j q l,
      p.quoteProductSwapByOutput tokenIn y tokenOut maximum fees = .ok (i, j, q) ∧
      cost = q.value ∧ Ledger.settle q.adminMints [] p.shares = .ok () l ∧
      p' = Settlement.outcome ⟨q.newAmounts, q.adminMints, [], some ⟨i, q.value, j, y⟩⟩ l p := by
  have hr : (swapByOutput tokenIn y tokenOut maximum fees false).run ∅ p =
      .ok (.integer cost) p' := by
    simp only [run, Action.map_apply, h]
  obtain ⟨pl, hpl, hv, ⟨⟨⟩, -⟩ | ⟨-, s, l, hs, -, hl, rfl⟩⟩ := planned_eq_ok hp rfl hr
  obtain ⟨hc, i, j, q, hq, rfl⟩ := Pool.swapByOutputPlan_eq_ok hpl
  obtain rfl := Except.ok.inj hs
  exact ⟨hc, i, j, q, l, hq, Reply.integer.inj hv, hl, rfl⟩

/-- A withdrawal by tokens that succeeds settles its quote. -/
theorem stableWithdrawal_settled (hp : p.Admissible) {sender : String} {amounts : List Int}
    {maxBurn burned : Int} {fees : AdminFees}
    (h : Pool.removeLiquidityByTokens sender amounts maxBurn fees false p = .ok burned p') :
    ∃ c q l, p.curve = .stable c ∧ p.quoteWithdrawal c amounts fees none = .ok q ∧
      burned = q.value ∧ burned ≤ p.shares.balanceOf sender ∧
      Ledger.settle q.adminMints [(sender, q.value)] p.shares = .ok () l ∧
      p' = Settlement.outcome ⟨q.newAmounts, q.adminMints, [(sender, q.value)], none⟩ l p := by
  have hr : (removeLiquidityByTokens sender amounts maxBurn fees false).run ∅ p =
      .ok (.integer burned) p' := by
    simp only [run, Action.map_apply, h]
  obtain ⟨pl, hpl, hv, ⟨⟨⟩, -⟩ | ⟨-, s, l, hs, -, hl, rfl⟩⟩ := planned_eq_ok hp rfl hr
  obtain ⟨c, q, hc, hq, -, hle, rfl⟩ := Pool.stableWithdrawalPlan_eq_ok hpl
  obtain rfl := Except.ok.inj hs
  obtain rfl : burned = q.value := Reply.integer.inj hv
  exact ⟨c, q, l, hc, hq, rfl, hle, hl, rfl⟩

/-- A command without a plan sets a fee within bounds, refreshes the rates, or changes accounts
without minting or burning. -/
theorem unplanned_eq_ok (hc : c.plan? p = none) (h : c.run limits p = .ok reply p') :
    (∃ fee, p.checkFee fee = .ok () ∧ p' = { p with totalFee := fee }) ∨
      (∃ rates, Pool.updateRates rates p = .ok () p') ∨
      ∃ l, p' = { p with shares := l } ∧ l.totalSupply = p.shares.totalSupply ∧
        (p.shares.Balanced → l.Balanced) := by
  cases c with
  | modifyTotalFee fee =>
    obtain ⟨_, _, hf, ⟨⟩⟩ := Action.bind_eq_ok_iff.1 h
    exact .inl ⟨fee, Pool.modifyTotalFee_eq_ok_iff.1 hf⟩
  | updateRates rates =>
    obtain ⟨_, _, hf, ⟨⟩⟩ := Action.bind_eq_ok_iff.1 h
    exact .inr (.inl ⟨rates, hf⟩)
  | register account =>
    obtain ⟨_, _, hf, ⟨⟩⟩ := Action.bind_eq_ok_iff.1 h
    obtain ⟨l, hl, rfl⟩ := Pool.onShares_eq_ok_iff.1 hf
    obtain ⟨-, hs⟩ := Ledger.register_eq_ok_iff.1 hl
    exact .inr (.inr ⟨l, rfl, by subst hs; rfl, fun hb => hb.register hl⟩)
  | unregister account =>
    obtain ⟨_, _, hf, ⟨⟩⟩ := Action.bind_eq_ok_iff.1 h
    obtain ⟨l, hl, rfl⟩ := Pool.onShares_eq_ok_iff.1 hf
    obtain ⟨-, -, hs⟩ := Ledger.unregister_eq_ok_iff.1 hl
    exact .inr (.inr ⟨l, rfl, by subst hs; rfl, fun hb => hb.unregister hl⟩)
  | transfer sender receiver shares =>
    obtain ⟨_, _, hf, ⟨⟩⟩ := Action.bind_eq_ok_iff.1 h
    obtain ⟨l, hl, rfl⟩ := Pool.onShares_eq_ok_iff.1 hf
    obtain ⟨-, -, -, -, hs⟩ := Ledger.transfer_eq_ok_iff.1 hl
    exact .inr (.inr ⟨l, rfl, by subst hs; rfl, fun hb => hb.transfer hl⟩)
  | addLiquidity | addStableLiquidity | removeLiquidity | removeLiquidityByTokens | swap
  | swapByOutput => cases hc

/-- A command without a plan moves no token, counts nothing and mints nothing. -/
theorem unplanned_keeps (hc : c.plan? p = none) (h : c.run limits p = .ok reply p') :
    p'.amounts = p.amounts ∧ p'.volumes = p.volumes ∧
      p'.shares.totalSupply = p.shares.totalSupply := by
  obtain ⟨_, -, rfl⟩ | ⟨_, hf⟩ | ⟨l, rfl, hs, -⟩ := unplanned_eq_ok hc h
  · exact ⟨rfl, rfl, rfl⟩
  · obtain rfl | ⟨_, _, _, _, _, rfl, _⟩ := Pool.updateRates_eq_ok hf <;> exact ⟨rfl, rfl, rfl⟩
  · exact ⟨rfl, rfl, hs⟩

/-- The tokens of a pool never change, and a constant-product pool stays one. -/
theorem run_frame (hp : p.Admissible) (h : c.run limits p = .ok reply p') :
    p'.tokens = p.tokens ∧ (p.curve = .constantProduct → p'.curve = .constantProduct) := by
  cases hc : c.plan? p with
  | none =>
    obtain ⟨_, -, rfl⟩ | ⟨_, hf⟩ | ⟨l, rfl, -, -⟩ := unplanned_eq_ok hc h
    · exact ⟨rfl, id⟩
    · obtain rfl | ⟨_, _, _, hcurve, -, rfl, -⟩ := Pool.updateRates_eq_ok hf
      · exact ⟨rfl, id⟩
      · exact ⟨rfl, fun hc => by cases hcurve.symm.trans hc⟩
    · exact ⟨rfl, id⟩
  | some plan =>
    obtain ⟨_, -, -, ⟨-, rfl⟩ | ⟨-, s, l, -, -, -, rfl⟩⟩ := planned_eq_ok hp hc h <;>
      exact ⟨rfl, id⟩

/-- No command touches the configuration. -/
theorem run_config (hp : p.Admissible) (h : c.run limits p = .ok reply p') :
    p'.config = p.config := by
  cases hc : c.plan? p with
  | none =>
    obtain ⟨_, -, rfl⟩ | ⟨_, hf⟩ | ⟨l, rfl, -, -⟩ := unplanned_eq_ok hc h
    · rfl
    · obtain rfl | ⟨_, _, _, -, -, rfl, -⟩ := Pool.updateRates_eq_ok hf <;> rfl
    · rfl
  | some plan =>
    obtain ⟨_, -, -, ⟨-, rfl⟩ | ⟨-, s, l, -, -, -, rfl⟩⟩ := planned_eq_ok hp hc h <;> rfl

theorem run_admissible (hp : p.Admissible) (h : c.run limits p = .ok reply p') :
    p'.Admissible := by
  cases hc : c.plan? p with
  | none =>
    obtain ⟨fee, hf, rfl⟩ | ⟨_, hf⟩ | ⟨l, rfl, -, -⟩ := unplanned_eq_ok hc h
    · obtain ⟨h0, hm⟩ := Pool.checkFee_eq_ok_iff.1 hf
      exact { hp with fee_nonneg := h0, fee_le := hm }
    · exact Pool.admissible_of_updateRates hp hf
    · exact { hp with }
  | some plan =>
    obtain ⟨_, -, -, ⟨-, rfl⟩ | ⟨-, s, l, -, hf, -, rfl⟩⟩ := planned_eq_ok hp hc h
    · exact hp
    · exact Settlement.outcome_admissible hp hf l

theorem run_balanced (hp : p.Admissible) (hb : p.shares.Balanced)
    (h : c.run limits p = .ok reply p') : p'.shares.Balanced := by
  cases hc : c.plan? p with
  | none =>
    obtain ⟨_, -, rfl⟩ | ⟨_, hf⟩ | ⟨l, rfl, -, hl⟩ := unplanned_eq_ok hc h
    · exact hb
    · obtain rfl | ⟨_, _, _, _, _, rfl, _⟩ := Pool.updateRates_eq_ok hf <;> exact hb
    · exact hl hb
  | some plan =>
    obtain ⟨_, -, -, ⟨-, rfl⟩ | ⟨-, s, l, -, -, hl, rfl⟩⟩ := planned_eq_ok hp hc h
    · exact hb
    · exact hb.settle hl

end Command

end SwapPool
