import SwapPool.Proofs.Ledger.Credit
import SwapPool.Proofs.Pool.Refusals

/-! Two policies for one trade. What a swap moves is settled before its policy is
looked at: the price, the reserves and the counters are the same under any two,
and so are the balances of all whom neither pays. On the constant-product curve
the part of a policy is always found, since reserves that back shares have a
positive root, so a swap that succeeds under one policy succeeds under another
whose recipients are registered. -/

namespace SwapPool

namespace Command

/-- A swap under another policy. -/
def withPolicy (fees : AdminFees) : Command → Command
  | swap tokenIn amountIn tokenOut minimum _ simulate poolId =>
    swap tokenIn amountIn tokenOut minimum fees simulate poolId
  | swapByOutput tokenIn amountOut tokenOut maximum _ simulate =>
    swapByOutput tokenIn amountOut tokenOut maximum fees simulate
  | c => c

@[simp] theorem simulated_withPolicy (fees : AdminFees) (c : Command) :
    (c.withPolicy fees).simulated = c.simulated := by
  cases c <;> rfl

theorem plan?_withPolicy {c : Command} (hc : c.isSwap = true) (fees : AdminFees) (p : Pool) :
    ∃ plan, (c.withPolicy fees).plan? p = some plan := by
  cases c with
  | swap | swapByOutput => exact ⟨_, rfl⟩
  | _ => cases hc

end Command

namespace Pool

variable {p : Pool} {tokenIn tokenOut : String} {x y minimum : Int} {maximum : Option Int}
  {fees fees' : AdminFees} {i j i' j' : Nat} {q q' : Quote}

/-! ### Quotes under two policies -/

theorem quoteProductSwap_agrees
    (h : p.quoteProductSwap tokenIn x tokenOut minimum fees = .ok (i, j, q))
    (h' : p.quoteProductSwap tokenIn x tokenOut minimum fees' = .ok (i', j', q')) :
    i' = i ∧ j' = j ∧ q'.value = q.value ∧ q'.newAmounts = q.newAmounts := by
  obtain ⟨hij, -, -, hout, hm, -⟩ := quoteProductSwap_eq_ok h
  obtain ⟨hij', -, -, hout', hm', -⟩ := quoteProductSwap_eq_ok h'
  obtain ⟨rfl, rfl⟩ : i' = i ∧ j' = j := by simpa using hij'.symm.trans hij
  have hv : q'.value = q.value := Except.ok.inj (hout'.symm.trans hout)
  rw [hv] at hm'
  exact ⟨rfl, rfl, hv, Except.ok.inj (hm'.symm.trans hm)⟩

theorem quoteProductSwapByOutput_agrees
    (h : p.quoteProductSwapByOutput tokenIn y tokenOut maximum fees = .ok (i, j, q))
    (h' : p.quoteProductSwapByOutput tokenIn y tokenOut maximum fees' = .ok (i', j', q')) :
    i' = i ∧ j' = j ∧ q'.value = q.value ∧ q'.newAmounts = q.newAmounts := by
  obtain ⟨hij, -, -, hin, hm, -⟩ := quoteProductSwapByOutput_eq_ok h
  obtain ⟨hij', -, -, hin', hm', -⟩ := quoteProductSwapByOutput_eq_ok h'
  obtain ⟨rfl, rfl⟩ : i' = i ∧ j' = j := by simpa using hij'.symm.trans hij
  have hv : q'.value = q.value := Except.ok.inj (hin'.symm.trans hin)
  rw [hv] at hm'
  exact ⟨rfl, rfl, hv, Except.ok.inj (hm'.symm.trans hm)⟩

theorem quoteStableSwap_agrees {c : StableCurve}
    (h : p.quoteStableSwap c tokenIn x tokenOut minimum fees = .ok (i, j, q))
    (h' : p.quoteStableSwap c tokenIn x tokenOut minimum fees' = .ok (i', j', q')) :
    i' = i ∧ j' = j ∧ q'.value = q.value ∧ q'.newAmounts = q.newAmounts := by
  obtain ⟨hij, -, -, fee, d, y, hs⟩ := quoteStableSwap_eq_ok h
  obtain ⟨hij', -, -, fee', d', y', hs'⟩ := quoteStableSwap_eq_ok h'
  obtain ⟨rfl, rfl⟩ : i' = i ∧ j' = j := by simpa using hij'.symm.trans hij
  obtain rfl : fee' = fee := hs'.fee_eq.trans hs.fee_eq.symm
  obtain rfl : d' = d := Except.ok.inj (hs'.invariant.symm.trans hs.invariant)
  obtain rfl : y' = y := Except.ok.inj (hs'.solved.symm.trans hs.solved)
  have hv : q'.value = q.value := hs'.value_eq.trans hs.value_eq.symm
  have hm' := hs'.moved
  rw [hv] at hm'
  exact ⟨rfl, rfl, hv, Except.ok.inj (hm'.symm.trans hs.moved)⟩

theorem curveSwap_agrees (h : p.curveSwap tokenIn x tokenOut minimum fees = .ok (i, j, q))
    (h' : p.curveSwap tokenIn x tokenOut minimum fees' = .ok (i', j', q')) :
    i' = i ∧ j' = j ∧ q'.value = q.value ∧ q'.newAmounts = q.newAmounts := by
  obtain ⟨hc, h⟩ | ⟨c, hc, h⟩ := curveSwap_cases h
  · rw [curveSwap_of_product hc] at h'
    exact quoteProductSwap_agrees h h'
  · rw [curveSwap_of_stable hc] at h'
    exact quoteStableSwap_agrees h h'

/-! ### Quotes that any policy gets -/

section Backed

variable (hp : p.Admissible) (hb : p.Backed) (hs : 0 ≤ p.shares.totalSupply)
  (hv : fees'.validate p.totalFee = .ok ())

include hp hb hs hv in
/-- A swap that is quoted under one policy is quoted under every valid one. -/
theorem quoteProductSwap_of_policy
    (h : p.quoteProductSwap tokenIn x tokenOut minimum fees = .ok (i, j, q)) :
    ∃ q', p.quoteProductSwap tokenIn x tokenOut minimum fees' = .ok (i, j, q') := by
  simp only [quoteProductSwap, bind_eq_ok_iff, Prod.exists, throw_eq_error, error_bind,
    unless_eq_ok_iff, exists_unit_iff, pure_eq_ok, Except.ok.injEq, Prod.mk.injEq, not_le] at h ⊢
  obtain ⟨_, _, hij, hx, -, out, hout, hmin, hne, _, -, rfl, rfl, -⟩ := h
  obtain ⟨-, -, hlt, -⟩ := ConstantProduct.amountOut_keeps hx hp.fee_nonneg hout
  obtain ⟨q', hq'⟩ :=
    (failsWithin_settleProduct hp hb hs hv hij hx.le hlt.le out).exists_ok
  exact ⟨q', _, _, hij, hx, hv, out, hout, hmin, hne, q', hq', rfl, rfl, rfl⟩

include hp hb hs hv in
theorem quoteProductSwapByOutput_of_policy
    (h : p.quoteProductSwapByOutput tokenIn y tokenOut maximum fees = .ok (i, j, q)) :
    ∃ q', p.quoteProductSwapByOutput tokenIn y tokenOut maximum fees' = .ok (i, j, q') := by
  have hsettled {i j : Nat} {cost : Int} (hij : p.swapIndices tokenIn tokenOut = .ok (i, j))
      (hy : 0 < y) (hcost : ConstantProduct.amountIn y (p.amounts.getD i 0) (p.amounts.getD j 0)
        p.totalFee = .ok cost) : ∃ q', p.settleProduct i cost j y cost fees' = .ok q' := by
    obtain ⟨-, hpos, hlt, -⟩ := ConstantProduct.amountIn_keeps hy hp.fee_nonneg hcost
    exact (failsWithin_settleProduct hp hb hs hv hij hpos.le hlt.le cost).exists_ok
  cases maximum <;> simp only [quoteProductSwapByOutput, bind_eq_ok_iff, Prod.exists,
    throw_eq_error, error_bind, unless_eq_ok_iff, exists_unit_iff, pure_eq_ok, Except.ok.injEq,
    Prod.mk.injEq, not_le] at h ⊢
  · obtain ⟨_, _, hij, hy, -, cost, hcost, _, -, rfl, rfl, -⟩ := h
    obtain ⟨q', hq'⟩ := hsettled hij hy hcost
    exact ⟨q', _, _, hij, hy, hv, cost, hcost, q', hq', rfl, rfl, rfl⟩
  · obtain ⟨_, _, hij, hy, -, cost, hcost, hmax, _, -, rfl, rfl, -⟩ := h
    obtain ⟨q', hq'⟩ := hsettled hij hy hcost
    exact ⟨q', _, _, hij, hy, hv, cost, hcost, hmax, q', hq', rfl, rfl, rfl⟩

end Backed

end Pool

namespace Command

variable {p p' : Pool} {c : Command} {fees fees' : AdminFees} {limits : Limits} {pl pl' : Plan}

/-! ### Plans under two policies -/

/-- Two plans for one trade differ in the shares that they split. -/
theorem plans_agree (hc : c.isSwap = true) (h : (c.withPolicy fees).plan? p = some (.ok pl))
    (h' : (c.withPolicy fees').plan? p = some (.ok pl')) :
    ∃ value newAmounts shares shares' trade,
      pl = ⟨.integer value, .ok ⟨newAmounts, fees.splitShares shares, [], some trade⟩⟩ ∧
      pl' = ⟨.integer value, .ok ⟨newAmounts, fees'.splitShares shares', [], some trade⟩⟩ := by
  cases c with
  | swap tokenIn x tokenOut minimum _ simulate poolId =>
    obtain ⟨i, j, q, hq, rfl⟩ := Pool.swapPlan_eq_ok (Option.some.inj h)
    obtain ⟨i', j', q', hq', rfl⟩ := Pool.swapPlan_eq_ok (Option.some.inj h')
    obtain ⟨rfl, rfl, hv, hn⟩ := Pool.curveSwap_agrees hq hq'
    obtain ⟨-, -, -, shares, hm⟩ := Pool.curveSwap_eq_ok hq
    obtain ⟨-, -, -, shares', hm'⟩ := Pool.curveSwap_eq_ok hq'
    exact ⟨q.value, q.newAmounts, shares, shares', ⟨_, x, _, q.value⟩, by rw [hm],
      by rw [hm', hv, hn]⟩
  | swapByOutput tokenIn y tokenOut maximum _ simulate =>
    obtain ⟨-, i, j, q, hq, rfl⟩ := Pool.swapByOutputPlan_eq_ok (Option.some.inj h)
    obtain ⟨-, i', j', q', hq', rfl⟩ := Pool.swapByOutputPlan_eq_ok (Option.some.inj h')
    obtain ⟨rfl, rfl, hv, hn⟩ := Pool.quoteProductSwapByOutput_agrees hq hq'
    obtain ⟨-, -, -, -, -, hg⟩ := Pool.quoteProductSwapByOutput_eq_ok hq
    obtain ⟨-, -, -, -, -, hg'⟩ := Pool.quoteProductSwapByOutput_eq_ok hq'
    obtain ⟨shares, hm⟩ := Pool.split_of_growthMints hg
    obtain ⟨shares', hm'⟩ := Pool.split_of_growthMints hg'
    exact ⟨q.value, q.newAmounts, shares, shares', ⟨_, q.value, _, y⟩, by rw [hm],
      by rw [hm', hv, hn]⟩
  | _ => cases hc

/-- On the constant-product curve a trade that is planned under one policy is planned under every
valid one. -/
theorem plan_of_policy (hc : c.isSwap = true) (hp : p.Admissible) (hb : p.Backed)
    (hs : 0 ≤ p.shares.totalSupply) (hcurve : p.curve = .constantProduct)
    (hv : fees'.validate p.totalFee = .ok ())
    (h : (c.withPolicy fees).plan? p = some (.ok pl)) :
    ∃ pl', (c.withPolicy fees').plan? p = some (.ok pl') := by
  cases c with
  | swap tokenIn x tokenOut minimum _ simulate poolId =>
    obtain ⟨i, j, q, hq, -⟩ := Pool.swapPlan_eq_ok (Option.some.inj h)
    rw [Pool.curveSwap_of_product hcurve] at hq
    obtain ⟨q', hq'⟩ := Pool.quoteProductSwap_of_policy hp hb hs hv hq
    have hplan : p.swapPlan tokenIn x tokenOut minimum fees' = .ok ⟨.integer q'.value,
        .ok ⟨q'.newAmounts, q'.adminMints, [], some ⟨i, x, j, q'.value⟩⟩⟩ := by
      simp only [Pool.swapPlan, Pool.curveSwap_of_product hcurve, hq', ok_bind, pure_eq_ok]
    exact ⟨_, congrArg some hplan⟩
  | swapByOutput tokenIn y tokenOut maximum _ simulate =>
    obtain ⟨-, i, j, q, hq, -⟩ := Pool.swapByOutputPlan_eq_ok (Option.some.inj h)
    obtain ⟨q', hq'⟩ := Pool.quoteProductSwapByOutput_of_policy hp hb hs hv hq
    have hplan : p.swapByOutputPlan tokenIn y tokenOut maximum fees' = .ok ⟨.integer q'.value,
        .ok ⟨q'.newAmounts, q'.adminMints, [], some ⟨i, q'.value, j, y⟩⟩⟩ := by
      simp only [Pool.swapByOutputPlan, hcurve, hq', ok_bind, pure_eq_ok]
    exact ⟨_, congrArg some hplan⟩
  | _ => cases hc

/-- Swaps that succeed under two policies answer the same, leave the same reserves and counters, and
the same balance of everyone whom neither policy pays. -/
theorem trades_agree (hc : c.isSwap = true) (hp : p.Admissible) {q q' : Pool}
    {reply reply' : Reply} (h : (c.withPolicy fees).run limits p = .ok reply q)
    (h' : (c.withPolicy fees').run limits p = .ok reply' q') :
    reply' = reply ∧ q'.amounts = q.amounts ∧ q'.volumes = q.volumes ∧
      ∀ account, ¬ fees.Pays account → ¬ fees'.Pays account →
        q'.shares.balanceOf account = q.shares.balanceOf account := by
  obtain ⟨plan, hplan⟩ := plan?_withPolicy hc fees p
  obtain ⟨plan', hplan'⟩ := plan?_withPolicy hc fees' p
  obtain ⟨pl, rfl, rfl, hout⟩ := planned_eq_ok hp hplan h
  obtain ⟨pl', rfl, rfl, hout'⟩ := planned_eq_ok hp hplan' h'
  obtain ⟨value, new, shares, shares', trade, rfl, rfl⟩ := plans_agree hc hplan hplan'
  rw [simulated_withPolicy] at hout hout'
  obtain ⟨hsim, rfl⟩ | ⟨hreal, s, l, hs, -, hl, rfl⟩ := hout
  · obtain ⟨-, rfl⟩ | ⟨hreal', -⟩ := hout'
    · exact ⟨rfl, rfl, rfl, fun _ _ _ => rfl⟩
    · cases hsim.symm.trans hreal'
  · obtain ⟨hsim', -⟩ | ⟨-, s', l', hs', -, hl', rfl⟩ := hout'
    · cases hreal.symm.trans hsim'
    · obtain rfl := Except.ok.inj hs
      obtain rfl := Except.ok.inj hs'
      refine ⟨rfl, rfl, rfl, fun account hpaid hpaid' => ?_⟩
      have hkept := Ledger.balanceOf_of_unpaid hpaid hl
      have hkept' := Ledger.balanceOf_of_unpaid hpaid' hl'
      exact hkept'.trans hkept.symm

/-- On the constant-product curve a trade that is planned succeeds, if its policy pays registered
accounts only. -/
theorem succeeds_of_plan (hp : p.Admissible) (hcurve : p.curve = .constantProduct)
    (hreg : ∀ account, fees.Pays account → p.shares.isRegistered account = true)
    {value shares : Int} {newAmounts : List Int} {trade : Trade}
    (h : c.plan? p = some (.ok ⟨.integer value,
      .ok ⟨newAmounts, fees.splitShares shares, [], some trade⟩⟩)) :
    ∃ q, c.run limits p = .ok (.integer value) q := by
  have hfits := (settles_of_plan? h rfl rfl).fits hp
  obtain ⟨l, hl⟩ : ∃ l, Ledger.settle (fees.splitShares shares) [] p.shares = .ok () l :=
    Ledger.settle_of_registered fun m hm =>
      ⟨(AdminFees.splitShares_pos hm).le, fun _ => hreg _ (AdminFees.pays_of_mem_splitShares hm)⟩
  have hwritten := (Settlement.write_eq_ok_iff hp hfits).2 ⟨l, hl, rfl⟩
  rw [run_eq_perform h]
  refine ⟨_, Pool.guarded_of_uncapped (Plan.perform_of_write rfl hwritten _) (fun id => ?_) _ _⟩
  refine Pool.cap?_of_constantProduct ?_ limits id
  split <;> exact hcurve

/-- A swap that succeeds under one policy on the constant-product curve succeeds under another that
is valid and whose recipients are registered. -/
theorem succeeds_of_policy (hc : c.isSwap = true) (hp : p.Admissible) (hb : p.Backed)
    (hs : 0 ≤ p.shares.totalSupply) (hcurve : p.curve = .constantProduct)
    (hv : fees'.validate p.totalFee = .ok ())
    (hreg : ∀ account, fees'.Pays account → p.shares.isRegistered account = true)
    {q : Pool} {reply : Reply} (h : (c.withPolicy fees).run limits p = .ok reply q) :
    ∃ q', (c.withPolicy fees').run limits p = .ok reply q' := by
  obtain ⟨plan, hplan⟩ := plan?_withPolicy hc fees p
  obtain ⟨pl, rfl, rfl, -⟩ := planned_eq_ok hp hplan h
  obtain ⟨pl', hplan'⟩ := plan_of_policy hc hp hb hs hcurve hv hplan
  obtain ⟨value, new, shares, shares', trade, rfl, rfl⟩ := plans_agree hc hplan hplan'
  exact succeeds_of_plan hp hcurve hreg hplan'

end Command

namespace Pool

/-- Two policies under which the same swap succeeds get the same answer and leave the same reserves,
counters and balances of all whom neither pays. And in every pool of a run from a new one, a swap
on the constant-product curve that succeeds without admin fees succeeds, with the same answer, under
every policy that fits the total fee and pays registered accounts only. -/
theorem policy_leaves_trade {c : Command} (hc : c.isSwap = true) (limits : Limits) :
    (∀ {p q q' : Pool} {fees fees' : AdminFees} {reply reply' : Reply}, p.check = .ok () →
      (c.withPolicy fees).run limits p = .ok reply q →
      (c.withPolicy fees').run limits p = .ok reply' q' →
        reply' = reply ∧ q'.amounts = q.amounts ∧ q'.volumes = q.volumes ∧
          ∀ account, ¬ fees.Pays account → ¬ fees'.Pays account →
            q'.shares.balanceOf account = q.shares.balanceOf account) ∧
    ∀ {p : Pool} {calls : List Call} {q : Pool} {fees : AdminFees} {reply : Reply}, p.Created →
      let s := p.after calls
      s.curve = .constantProduct → (c.withPolicy .none).run limits s = .ok reply q →
        fees.validate s.totalFee = .ok () →
        (∀ account, fees.Pays account → s.shares.isRegistered account = true) →
          ∃ q', (c.withPolicy fees).run limits s = .ok reply q' := by
  refine ⟨fun hp h h' => Command.trades_agree hc (check_eq_ok_iff.1 hp) h h', ?_⟩
  intro p calls q fees reply start s hcurve h hv hreg
  have hsupply := (balanced_after start.admissible start.balanced calls).totalSupply_nonneg
  exact Command.succeeds_of_policy hc (start.admissible.after calls) (start.backed_after calls)
    hsupply hcurve hv hreg h

/-- On a stable curve three shares are minted for the fee or none, and the trade is one; and an
exact-output swap that pays nobody may as well pay an exchange and a referrer. -/
theorem policy_leaves_trade_both_curves :
    let fees : AdminFees := ⟨10, "dao", 5, some "ref", by decide, by decide, by decide⟩
    let c : StableCurve := ⟨[18, 18], 100, .pegged⟩
    let shares : Ledger := ⟨10000, ⟨[("lp", 10000), ("dao", 0), ("ref", 0)], by decide⟩⟩
    let p : Pool := ⟨["x", "y"], [5000, 5000], 30, shares, [.zero, .zero], .standard, .stable c⟩
    let byInput (fees : AdminFees) := (Command.swap "x" 4000 "y" 0 fees false none).run ∅
    let p₂ : Pool := ⟨["x", "y"], [0, 0], 30, .empty, [.zero, .zero], .standard, .constantProduct⟩
    let calls : List Call := [⟨∅, .register "lp"⟩, ⟨∅, .register "dao"⟩, ⟨∅, .register "ref"⟩,
      ⟨∅, .addLiquidity "lp" [5000, 5000] false⟩]
    let byOutput (fees : AdminFees) :=
      (Command.swapByOutput "x" 2000 "y" none fees false).run ∅
    ((byInput fees).after p).shares.totalSupply ≠ ((byInput .none).after p).shares.totalSupply ∧
      (∃ reply q q', byInput .none p = .ok reply q ∧ byInput fees p = .ok reply q' ∧
        q'.amounts = q.amounts ∧ q'.shares.balanceOf "lp" = q.shares.balanceOf "lp") ∧
      ∃ reply q q', byOutput .none (p₂.after calls) = .ok reply q ∧
        byOutput fees (p₂.after calls) = .ok reply q' := by
  intro fees c shares p byInput p₂ calls byOutput
  have start : p₂.Created := ⟨["x", "y"], 30, .constantProduct, .standard, by rfl⟩
  have hfree : (byInput .none).succeeds p = true := by decide +kernel
  have hpaid : (byInput fees).succeeds p = true := by decide +kernel
  have houtput : (byOutput .none).succeeds (p₂.after calls) = true := by decide +kernel
  have hregistered : ∀ account, fees.Pays account →
      (p₂.after calls).shares.isRegistered account = true := by
    rintro account (⟨-, rfl⟩ | ⟨-, ⟨⟩⟩)
    · decide +kernel
    · decide +kernel
  obtain ⟨reply, hok⟩ := Action.eq_ok_of_succeeds hfree
  obtain ⟨reply', hok'⟩ := Action.eq_ok_of_succeeds hpaid
  obtain ⟨cost, hcost⟩ := Action.eq_ok_of_succeeds houtput
  obtain ⟨rfl, hamounts, -, hbalance⟩ :=
    (policy_leaves_trade (c := .swap "x" 4000 "y" 0 .none false none) rfl ∅).1
      (by decide +kernel) hok hok'
  obtain ⟨q', hq'⟩ :=
    (policy_leaves_trade (c := .swapByOutput "x" 2000 "y" none .none false) rfl ∅).2 start
      (by decide +kernel) hcost (by decide +kernel) hregistered
  refine ⟨by decide +kernel, ⟨_, _, _, hok, hok', hamounts, hbalance "lp" ?_ ?_⟩,
    cost, _, q', hcost, hq'⟩
  · simp [AdminFees.Pays, AdminFees.none]
  · simp [AdminFees.Pays, fees]

end Pool

end SwapPool
