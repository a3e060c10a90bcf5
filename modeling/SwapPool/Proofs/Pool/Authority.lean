import SwapPool.Proofs.ConstantProduct.FeeShares
import SwapPool.Proofs.Ledger.Credit
import SwapPool.Proofs.Pool.Solvency

/-! Authority over shares. No balance falls but that of the sender who redeems or
sends shares. What an operation mints beside the sender's shares goes to the
admin recipients: on a swap the shares that its growth or its fee owes them, and
on a deposit or withdrawal by tokens no more than its fee in shares. -/

namespace SwapPool

namespace Pool

variable {p : Pool} {newAmounts : List Int} {fees : AdminFees} {tokenIn tokenOut : String}

/-! ### The admin shares of a swap -/

/-- The shares that the growth of the reserves to `newAmounts` owes to the admin recipients. -/
def growthShares (p : Pool) (newAmounts : List Int) (fees : AdminFees) : Except Fault Int := do
  if fees.adminRate = 0 ∨ p.shares.totalSupply = 0 then return 0
  ConstantProduct.protocolFeeShares p.shares.totalSupply (← ConstantProduct.invariant p.amounts)
    (← ConstantProduct.invariant newAmounts) fees.adminRate p.totalFee

/-- The shares that a swap of `x` at place `i` owes to the admin recipients. -/
def adminShares (p : Pool) (i : Nat) (x : Int) (newAmounts : List Int) (fees : AdminFees) :
    Except Fault Int :=
  match p.curve with
  | .constantProduct => p.growthShares newAmounts fees
  | .stable c => p.swapShares c i x newAmounts fees

theorem growthMints_eq_split {mints : List (String × Int)} (hs : 0 ≤ p.shares.totalSupply)
    (h : p.growthMints newAmounts fees = .ok mints) :
    ∃ shares, p.growthShares newAmounts fees = .ok shares ∧ 0 ≤ shares ∧
      (fees.adminRate = 0 → shares = 0) ∧ mints = fees.splitShares shares := by
  unfold growthMints at h
  unfold growthShares
  by_cases h0 : fees.adminRate = 0 ∨ p.shares.totalSupply = 0
  · rw [if_pos h0] at h
    exact ⟨0, if_pos h0, le_rfl, fun _ => rfl, (Except.ok.inj h).symm⟩
  · rw [if_neg h0] at h
    simp only [bind_eq_ok_iff, pure_eq_ok, Except.ok.injEq] at h
    obtain ⟨previous, hprev, current, hcur, shares, hshares, rfl⟩ := h
    refine ⟨shares, ?_, ?_, fun hr => absurd (.inl hr) h0, rfl⟩
    · simp only [if_neg h0, hprev, hcur, ok_bind, hshares]
    · exact ConstantProduct.protocolFeeShares_nonneg hs (ConstantProduct.invariant_nonneg hprev)
        fees.adminRate_nonneg hshares

theorem curveSwap_adminShares (hp : p.Admissible) (hs : 0 ≤ p.shares.totalSupply)
    {x minimum : Int} {i j : Nat} {q : Quote}
    (h : p.curveSwap tokenIn x tokenOut minimum fees = .ok (i, j, q)) :
    p.tokenIndex tokenIn = .ok i ∧ ∃ shares, p.adminShares i x q.newAmounts fees = .ok shares ∧
      0 ≤ shares ∧ (fees.adminRate = 0 → shares = 0) ∧ q.adminMints = fees.splitShares shares := by
  obtain ⟨hij, hx, -⟩ := curveSwap_eq_ok h
  refine ⟨(tokenIndex_of_swapIndices hij).2.1, ?_⟩
  unfold adminShares
  obtain ⟨hc, h⟩ | ⟨c, hc, h⟩ := curveSwap_cases h <;> rw [hc]
  · obtain ⟨-, -, -, -, -, hg⟩ := quoteProductSwap_eq_ok h
    exact growthMints_eq_split hs hg
  · obtain ⟨-, -, hv, _, _, _, hq⟩ := quoteStableSwap_eq_ok h
    obtain ⟨hi, hj, hne⟩ := swapIndices_eq_ok hij
    obtain ⟨shares, hshares, h0, hr, hm, -⟩ := hq.adminShares hp hc hi hj hne hx hv hs
    exact ⟨shares, hshares, h0, hr, hm⟩

end Pool

namespace Command

variable {p p' : Pool} {c : Command} {limits : Limits} {reply : Reply}

/-! ### Who may spend -/

/-- The account of which a command takes shares. -/
def spender? : Command → Option String
  | removeLiquidity sender .. | removeLiquidityByTokens sender .. | transfer sender .. => some sender
  | _ => none

theorem Settles.burns_spender {s : Settlement} (h : Settles p c s) :
    ∀ b ∈ s.burns, c.spender? = some b.1 := by
  cases h <;> simp [spender?]

theorem balanceOf_le_of_unplanned (hc : c.plan? p = none) (h : c.run limits p = .ok reply p')
    {account : String} (ha : c.spender? ≠ some account) :
    p.shares.balanceOf account ≤ p'.shares.balanceOf account := by
  cases c with
  | modifyTotalFee fee =>
    obtain ⟨_, _, hf, ⟨⟩⟩ := Action.bind_eq_ok_iff.1 h
    obtain ⟨-, rfl⟩ := Pool.modifyTotalFee_eq_ok_iff.1 hf
    exact le_rfl
  | updateRates rates =>
    obtain ⟨_, _, hf, ⟨⟩⟩ := Action.bind_eq_ok_iff.1 h
    obtain rfl | ⟨_, _, _, -, -, rfl, -⟩ := Pool.updateRates_eq_ok hf <;> exact le_rfl
  | register added =>
    obtain ⟨_, _, hf, ⟨⟩⟩ := Action.bind_eq_ok_iff.1 h
    obtain ⟨l, hl, rfl⟩ := Pool.onShares_eq_ok_iff.1 hf
    exact (Ledger.balanceOf_of_register hl account).ge
  | unregister removed =>
    obtain ⟨_, _, hf, ⟨⟩⟩ := Action.bind_eq_ok_iff.1 h
    obtain ⟨l, hl, rfl⟩ := Pool.onShares_eq_ok_iff.1 hf
    exact (Ledger.balanceOf_of_unregister hl account).ge
  | transfer sender receiver shares =>
    obtain ⟨_, _, hf, ⟨⟩⟩ := Action.bind_eq_ok_iff.1 h
    obtain ⟨l, hl, rfl⟩ := Pool.onShares_eq_ok_iff.1 hf
    exact Ledger.balanceOf_le_of_transfer hl fun he => ha (congrArg some he)
  | addLiquidity | addStableLiquidity | removeLiquidity | removeLiquidityByTokens | swap
  | swapByOutput => cases hc

/-- A command takes shares of its spender only. -/
theorem balanceOf_le_of_run (hp : p.Admissible) (hs : p.Solvent)
    (h : c.run limits p = .ok reply p') {account : String} (ha : c.spender? ≠ some account) :
    p.shares.balanceOf account ≤ p'.shares.balanceOf account := by
  cases hc : c.plan? p with
  | none => exact balanceOf_le_of_unplanned hc h ha
  | some plan =>
    obtain ⟨pl, hpl, -, ⟨-, rfl⟩ | ⟨-, s, l, hset, -, hl, rfl⟩⟩ := planned_eq_ok hp hc h
    · exact le_rfl
    · have hsettles := settles_of_plan? hc hpl hset
      refine Ledger.balanceOf_le_of_settle hl (hs.mints_nonneg hp hsettles) ?_
      intro b hmem he
      exact ha (he ▸ hsettles.burns_spender b hmem)

theorem run_simulated (hp : p.Admissible) (h : c.run limits p = .ok reply p')
    (hsim : c.simulated = true) : p' = p := by
  cases hc : c.plan? p with
  | none => cases c <;> cases hc <;> cases hsim
  | some plan =>
    obtain ⟨_, -, -, ⟨-, rfl⟩ | ⟨hreal, -⟩⟩ := planned_eq_ok hp hc h
    · rfl
    · cases hsim.symm.trans hreal

end Command

namespace Pool

open Ledger (Credited)

section Minting

variable {p p' : Pool} {limits : Limits} {sender tokenIn tokenOut : String} {amounts : List Int}
  {x y minimum maxBurn out : Int} {maximum : Option Int} {fees : AdminFees} {poolId : Option Int}

/-! ### What an operation mints -/

theorem credited_of_swap (hp : p.Admissible) (hs : p.Solvent)
    (h : swap limits tokenIn x tokenOut minimum fees false poolId p = .ok out p') :
    ∃ i shares, p.tokenIndex tokenIn = .ok i ∧ p.adminShares i x p'.amounts fees = .ok shares ∧
      0 ≤ shares ∧ Credited [] fees shares p.shares p'.shares := by
  obtain ⟨i, j, q, l, hq, -, hl, rfl⟩ := Command.swap_eq_ok hp h
  obtain ⟨hi, shares, hshares, h0, hr, hm⟩ :=
    curveSwap_adminShares hp (hs.supply_nonneg (reserve_of_curveSwap hp hq)) hq
  exact ⟨i, shares, hi, hshares, h0, Ledger.credited_of_mints [] h0 hr (hm ▸ hl)⟩

theorem credited_of_swapByOutput (hp : p.Admissible) (hs : p.Solvent)
    (h : swapByOutput tokenIn y tokenOut maximum fees false p = .ok x p') :
    ∃ i shares, p.tokenIndex tokenIn = .ok i ∧ p.adminShares i x p'.amounts fees = .ok shares ∧
      0 ≤ shares ∧ Credited [] fees shares p.shares p'.shares := by
  obtain ⟨hc, i, j, q, l, hq, rfl, hl, rfl⟩ := Command.swapByOutput_eq_ok hp h
  obtain ⟨hij, -, -, -, -, hg⟩ := quoteProductSwapByOutput_eq_ok hq
  obtain ⟨shares, hshares, h0, hr, hm⟩ :=
    growthMints_eq_split (hs.supply_nonneg (reserve_of_quoteProductSwapByOutput hq)) hg
  refine ⟨i, shares, (tokenIndex_of_swapIndices hij).2.1, ?_, h0,
    Ledger.credited_of_mints [] h0 hr (hm ▸ hl)⟩
  rw [adminShares, hc]
  exact hshares

theorem adminMints_of_first {c : StableCurve} {rates : Option (List Int)} {q : Quote}
    (h0 : p.shares.totalSupply = 0) (h : p.quoteDeposit c amounts fees rates = .ok q) :
    q.adminMints = [] := by
  simp only [quoteDeposit, if_pos h0, bind_eq_ok_iff, exists_unit_iff, throw_eq_error, error_bind,
    unless_eq_ok_iff, pure_eq_ok, Except.ok.injEq] at h
  obtain ⟨-, -, _, -, -, _, -, _, rfl, -, rfl⟩ := h
  rfl

theorem credited_of_deposit (hp : p.Admissible) {minted : Int}
    (h : addStableLiquidity limits sender amounts minimum fees false poolId p = .ok minted p') :
    ∃ shares, 0 ≤ shares ∧ Credited [(sender, minted)] fees shares p.shares p'.shares ∧
      (p.shares.totalSupply = 0 → shares = 0) ∧
      (p.shares.totalSupply ≠ 0 → ∃ c d₀ d₁, p.curve = .stable c ∧ p.invariant c = .ok d₀ ∧
        p'.invariant c = .ok d₁ ∧
          shares ≤ (p.shares.totalSupply * (d₁ - d₀)).fdiv d₀ - minted) := by
  obtain ⟨c, q, l, hc, hq, rfl, hl, rfl⟩ := Command.stableDeposit_eq_ok hp h
  by_cases h0 : p.shares.totalSupply = 0
  · refine ⟨0, le_rfl, ?_, fun _ => rfl, fun hne => absurd h0 hne⟩
    rw [adminMints_of_first h0 hq] at hl
    exact Ledger.credited_of_mints [(sender, q.value)] le_rfl (fun _ => rfl) hl
  · obtain ⟨applied, hr, d₀, d₁, d₂, hsteps⟩ := quoteDeposit_steps hq h0
    obtain rfl : c.cachedRates p.tokens.length = applied := Except.ok.inj hr
    have hfee := sub_nonneg.2 hsteps.value_le
    have hpart := AdminFees.adminPart_nonneg (f := fees) hfee hp.fee_nonneg
    refine ⟨_, hpart, ?_, fun hz => absurd hz h0, fun _ => ⟨c, d₀, d₁, hc, hsteps.before,
      hsteps.after, AdminFees.adminPart_le hfee hp.fee_nonneg hsteps.validated⟩⟩
    rw [hsteps.minted] at hl
    exact Ledger.credited_of_mints [(sender, q.value)] hpart
      (fun hrate => AdminFees.adminPart_of_adminFree hrate _ _) hl

theorem credited_of_withdrawal (hp : p.Admissible) {burned : Int}
    (h : removeLiquidityByTokens sender amounts maxBurn fees false p = .ok burned p') :
    ∃ shares, 0 ≤ shares ∧ Credited [(sender, -burned)] fees shares p.shares p'.shares ∧
      ∃ c d₀ d₁, p.curve = .stable c ∧ p.invariant c = .ok d₀ ∧ p'.invariant c = .ok d₁ ∧
        shares ≤ burned - (p.shares.totalSupply * (d₀ - d₁)).fdiv d₀ := by
  obtain ⟨c, q, l, hc, hq, rfl, -, hl, rfl⟩ := Command.stableWithdrawal_settled hp h
  obtain ⟨applied, hr, d₀, d₁, d₂, hsteps⟩ := quoteWithdrawal_steps hq
  obtain rfl : c.cachedRates p.tokens.length = applied := Except.ok.inj hr
  have hfee := sub_nonneg.2 hsteps.le_value
  have hpart := AdminFees.adminPart_nonneg (f := fees) hfee hp.fee_nonneg
  rw [hsteps.minted] at hl
  exact ⟨_, hpart, Ledger.credited_of_burn hpart
    (fun hrate => AdminFees.adminPart_of_adminFree hrate _ _) hl, c, d₀, d₁, hc, hsteps.before,
    hsteps.after, AdminFees.adminPart_le hfee hp.fee_nonneg hsteps.validated⟩

end Minting

/-- How the commands that succeed in a pool change its shares. -/
structure ShareRules (p : Pool) : Prop where
  /-- No balance falls but that of the sender who redeems or sends shares. -/
  spent {limits} {c : Command} {reply p'} : c.run limits p = .ok reply p' →
    ∀ account, c.spender? ≠ some account →
      p.shares.balanceOf account ≤ p'.shares.balanceOf account
  rehearsed {limits} {c : Command} {reply p'} : c.run limits p = .ok reply p' →
    c.simulated = true → p'.shares = p.shares
  transferred {limits sender receiver shares reply p'} :
    (Command.transfer sender receiver shares).run limits p = .ok reply p' →
      p'.shares.totalSupply = p.shares.totalSupply
  /-- A swap credits the shares that it owes to the admin recipients, and nothing else. -/
  swapped {limits tokenIn x tokenOut minimum fees poolId out p'} :
    swap limits tokenIn x tokenOut minimum fees false poolId p = .ok out p' →
      ∃ i shares, p.tokenIndex tokenIn = .ok i ∧
        p.adminShares i x p'.amounts fees = .ok shares ∧ 0 ≤ shares ∧
        Credited [] fees shares p.shares p'.shares
  swappedByOutput {tokenIn y tokenOut maximum fees cost p'} :
    swapByOutput tokenIn y tokenOut maximum fees false p = .ok cost p' →
      ∃ i shares, p.tokenIndex tokenIn = .ok i ∧
        p.adminShares i cost p'.amounts fees = .ok shares ∧ 0 ≤ shares ∧
        Credited [] fees shares p.shares p'.shares
  /-- The first deposit pays no fee. A later one pays what its growth is worth above the shares that
  its sender gets. -/
  deposited {limits sender amounts minShares fees poolId minted p'} :
    addStableLiquidity limits sender amounts minShares fees false poolId p = .ok minted p' →
      ∃ shares, 0 ≤ shares ∧ Credited [(sender, minted)] fees shares p.shares p'.shares ∧
        (p.shares.totalSupply = 0 → shares = 0) ∧
        (p.shares.totalSupply ≠ 0 → ∃ c d₀ d₁, p.curve = .stable c ∧ p.invariant c = .ok d₀ ∧
          p'.invariant c = .ok d₁ ∧
            shares ≤ (p.shares.totalSupply * (d₁ - d₀)).fdiv d₀ - minted)
  /-- A withdrawal by tokens pays what its sender gives above what the fall is worth. -/
  withdrawn {sender amounts maxBurn fees burned p'} :
    removeLiquidityByTokens sender amounts maxBurn fees false p = .ok burned p' →
      ∃ shares, 0 ≤ shares ∧ Credited [(sender, -burned)] fees shares p.shares p'.shares ∧
        ∃ c d₀ d₁, p.curve = .stable c ∧ p.invariant c = .ok d₀ ∧ p'.invariant c = .ok d₁ ∧
          shares ≤ burned - (p.shares.totalSupply * (d₀ - d₁)).fdiv d₀

/-- In every pool of a run shares change by these rules, whoever the sender and the admin recipients
are and whether or not they are one account. -/
theorem shares_change_by_rule {p : Pool} (start : p.Created ∨ p.Loaded) (calls : List Call) :
    (p.after calls).ShareRules := by
  have hstart : p.Admissible := start.elim Created.admissible Loaded.admissible
  have hp := hstart.after calls
  have hs := solvent_after hstart (start.elim Created.solvent Loaded.solvent) calls
  exact
    { spent := fun h _ ha => Command.balanceOf_le_of_run hp hs h ha
      rehearsed := fun h hsim => by rw [Command.run_simulated hp h hsim]
      transferred := fun h => (Command.unplanned_keeps rfl h).2.2
      swapped := credited_of_swap hp hs
      swappedByOutput := credited_of_swapByOutput hp hs
      deposited := credited_of_deposit hp
      withdrawn := credited_of_withdrawal hp }

/-- Exchange and referrer are one account, which gets both parts of what a swap owes; and a provider
who redeems all that he holds takes nothing of it. -/
theorem shares_change_by_rule_one_recipient :
    let p : Pool := ⟨["x", "y"], [0, 0], 30, .empty, [.zero, .zero], .standard, .constantProduct⟩
    let fees : AdminFees := ⟨10, "dao", 5, some "dao", by decide, by decide, by decide⟩
    let calls : List Call :=
      [⟨∅, .register "lp"⟩, ⟨∅, .register "dao"⟩, ⟨∅, .addLiquidity "lp" [5000, 5000] false⟩,
        ⟨∅, .swap "x" 4000 "y" 0 fees false none⟩]
    let q := p.after calls
    let swapped := (swap ∅ "y" 1000 "x" 0 fees false none).after q
    let redeemed := (Command.removeLiquidity "lp" initSharesSupply [0, 0] false).run ∅
    (∃ shares, 0 < shares ∧ swapped.shares.totalSupply = q.shares.totalSupply + shares ∧
      swapped.shares.balanceOf "dao" = q.shares.balanceOf "dao" + shares) ∧
      0 < q.shares.balanceOf "dao" ∧ redeemed.succeeds q = true ∧
      q.shares.balanceOf "dao" ≤ (redeemed.after q).shares.balanceOf "dao" := by
  intro p fees calls q swapped redeemed
  have start : p.Created := ⟨["x", "y"], 30, .constantProduct, .standard, by rfl⟩
  have rules : q.ShareRules := shares_change_by_rule (.inl start) calls
  have hswap : (swap ∅ "y" 1000 "x" 0 fees false none).succeeds q = true := by decide +kernel
  have hredeem : redeemed.succeeds q = true := by decide +kernel
  have hgrown : q.shares.totalSupply < swapped.shares.totalSupply := by decide +kernel
  obtain ⟨_, hok⟩ := Action.eq_ok_of_succeeds hswap
  obtain ⟨_, hredeemed⟩ := Action.eq_ok_of_succeeds hredeem
  obtain ⟨_, shares, -, -, -, hcredited⟩ := rules.swapped hok
  have hsupply : swapped.shares.totalSupply = q.shares.totalSupply + shares := by
    simpa using hcredited.totalSupply_eq
  have hdao : swapped.shares.balanceOf "dao" = q.shares.balanceOf "dao" + shares := by
    simpa [AdminFees.credit, fees] using hcredited.balanceOf_eq "dao"
  exact ⟨⟨shares, by omega, hsupply, hdao⟩, by decide +kernel, hredeem,
    rules.spent hredeemed "dao" (by decide)⟩

end Pool

end SwapPool
