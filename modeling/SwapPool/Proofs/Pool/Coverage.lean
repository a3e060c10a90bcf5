import SwapPool.Proofs.Pool.Plan
import SwapPool.Proofs.Stable.Solvers
import SwapPool.Proofs.Stable.Units

/-! A plan that was made can be carried out. In an admissible pool with a balanced
ledger its settlement can be put together, and balances and counters can take it:
shares and volumes are never negative, and nobody burns more than he holds. What
remains to go wrong is an account to be credited that is not registered. -/

namespace SwapPool

namespace Pool

open StableInvariant (nonneg_of_calcD)

variable {p : Pool} {sender tokenIn tokenOut : String} {amounts : List Int} {fees : AdminFees}

/-! ### Nothing negative is answered -/

theorem sharesWorth_nonneg {supply change d n : Int} (hs : 0 ≤ supply) (hc : 0 ≤ change)
    (hd : 0 ≤ d) (h : sharesWorth supply change d = .ok n) : 0 ≤ n := by
  obtain ⟨-, rfl⟩ := Checked.quot_eq_ok_iff.1 h
  exact Int.fdiv_nonneg (mul_nonneg hs hc) hd

theorem depositShares_nonneg {old new : List Int} {amp minted : Int} {mints : List (String × Int)}
    (ha : 1 ≤ amp) (hs : 0 ≤ p.shares.totalSupply)
    (h : p.depositShares amounts old new amp fees = .ok (minted, mints)) : 0 ≤ minted := by
  simp only [depositShares, bind_eq_ok_iff, throw_eq_error, error_bind, unless_eq_ok_iff,
    Checked.sub_eq_ok_iff, pure_eq_ok, Except.ok.injEq, Prod.mk.injEq] at h
  obtain ⟨d₀, hd₀, _, -, -, _, -, d₂, -, _, ⟨hle, rfl⟩, _, hm, _, -, _, -, _, -, rfl, -⟩ := h
  exact sharesWorth_nonneg hs (by omega) (nonneg_of_calcD ha hd₀) hm

/-- A deposit that is accepted mints something. -/
theorem quoteDeposit_value_pos {c : StableCurve} {rates : Option (List Int)} {q : Quote}
    (ha : 1 ≤ c.amp) (hs : 0 ≤ p.shares.totalSupply)
    (h : p.quoteDeposit c amounts fees rates = .ok q) : 0 < q.value := by
  by_cases h0 : p.shares.totalSupply = 0
  · simp only [quoteDeposit, if_pos h0, bind_eq_ok_iff, exists_unit_iff, throw_eq_error, error_bind,
      unless_eq_ok_iff, pure_eq_ok, Except.ok.injEq] at h
    obtain ⟨-, -, _, -, -, d, hd, _, rfl, hne, rfl⟩ := h
    exact lt_of_le_of_ne (nonneg_of_calcD ha hd) (Ne.symm hne)
  · simp only [quoteDeposit, if_neg h0, bind_eq_ok_iff, exists_unit_iff, throw_eq_error, error_bind,
      unless_eq_ok_iff, pure_eq_ok, Except.ok.injEq] at h
    obtain ⟨-, -, _, -, ⟨minted, mints⟩, hm, hne, rfl⟩ := h
    exact lt_of_le_of_ne (depositShares_nonneg ha hs hm) (Ne.symm hne)

theorem DepositSteps.before_pos {c : StableCurve} {units : List Int} {q : Quote} {d₀ d₁ d₂ : Int}
    (h : p.DepositSteps c units amounts fees q d₀ d₁ d₂) (ha : 1 ≤ c.amp) : 0 < d₀ :=
  lt_of_le_of_ne (nonneg_of_calcD ha h.before) h.before_ne.symm

theorem WithdrawalSteps.before_pos {c : StableCurve} {units : List Int} {q : Quote}
    {d₀ d₁ d₂ : Int} (h : p.WithdrawalSteps c units amounts fees q d₀ d₁ d₂) (ha : 1 ≤ c.amp) :
    0 < d₀ :=
  lt_of_le_of_ne (nonneg_of_calcD ha h.before) h.before_ne.symm

theorem quoteWithdrawal_value_nonneg {c : StableCurve} {rates : Option (List Int)} {q : Quote}
    (ha : 1 ≤ c.amp) (hs : 0 ≤ p.shares.totalSupply)
    (h : p.quoteWithdrawal c amounts fees rates = .ok q) : 0 ≤ q.value := by
  obtain ⟨_, -, d₀, _, _, hq⟩ := quoteWithdrawal_steps h
  have hd₀ := nonneg_of_calcD ha hq.before
  have hle := hq.charged_le
  rw [hq.value_eq]
  exact Checked.ceiling_nonneg (mul_nonneg (mul_nonneg hs (by omega)) hd₀)

theorem SwapSteps.value_nonneg (hp : p.Admissible) {c : StableCurve} {units : List Int}
    {i j : Nat} {x : Int} {q : Quote} {fee d y : Int} (hu : ∀ u ∈ units, 0 < u)
    (h : p.SwapSteps c units i x j fees q fee d y) : 0 ≤ q.value := by
  have hunit : 0 ≤ units.getD j 0 := getD_nonneg (fun u hm => (hu u hm).le) j
  have hreserve : 0 ≤ p.amounts.getD j 0 := getD_nonneg hp.amounts_nonneg j
  rw [h.value_eq]
  refine le_min (Int.fdiv_nonneg (mul_nonneg (le_max_right _ _) ?_) hunit) hreserve
  exact StableCurve.ratePrecision_pos.le

/-- The shares of a deposit are positive in a pool with a supply that is not negative. -/
theorem deposit_shares_pos (hs : 0 ≤ p.shares.totalSupply) {kept : Deposit}
    (h : p.deposit amounts = .ok kept) : 0 < kept.shares := by
  obtain ⟨ha, ⟨-, -, rfl⟩ | ⟨h0, hr, hne, rfl⟩⟩ := deposit_eq_ok_iff.1 h
  · exact (by decide : 0 < initSharesSupply)
  · have hn := coveredShares_mul_nonneg (checkAmounts_eq_ok_iff.1 ha).2 hr
    have := nonneg_of_mul_nonneg_left hn (lt_of_le_of_ne hs (Ne.symm h0))
    exact lt_of_le_of_ne this (Ne.symm hne)

/-- What a withdrawal pays is there to be paid. -/
theorem withdrawal_le (hp : p.Admissible) (hb : p.shares.Balanced) {shares : Int}
    {minimums paid : List Int} (h : p.withdrawal sender shares minimums = .ok paid) :
    List.Forall₂ (· ≤ ·) paid p.amounts := by
  obtain ⟨hs, hle, rfl⟩ := withdrawal_eq_ok h
  have hsupply := hb.balanceOf_le sender
  rw [List.forall₂_map_left_iff, List.forall₂_same]
  intro r hr
  refine fdiv_le_of_le_mul (by omega) ?_
  exact mul_le_mul_of_nonneg_left (by omega) (hp.amounts_nonneg r hr)

/-! ### Settlements are covered -/

theorem covered_of_trade {s : Settlement} {i j : Nat} {x y : Int} (hm : ∀ m ∈ s.mints, 0 < m.2)
    (hb : s.burns = []) (ht : s.trade = some ⟨i, x, j, y⟩) (hx : 0 ≤ x) (hy : 0 ≤ y) :
    s.Covered p where
  mints_nonneg m hmem := (hm m hmem).le
  burns_le b hmem := by simp [hb] at hmem
  trade_nonneg t h := by
    obtain rfl := Option.some.inj (ht.symm.trans h)
    exact ⟨hx, hy⟩

theorem covered_of_curveSwap (hp : p.Admissible) {x minimum : Int} {i j : Nat} {q : Quote}
    (h : p.curveSwap tokenIn x tokenOut minimum fees = .ok (i, j, q)) :
    Settlement.Covered ⟨q.newAmounts, q.adminMints, [], some ⟨i, x, j, q.value⟩⟩ p := by
  obtain ⟨-, hx, -, shares, hs⟩ := curveSwap_eq_ok h
  refine covered_of_trade (fun m hm => AdminFees.splitShares_pos (hs ▸ hm)) rfl rfl hx.le ?_
  obtain ⟨-, h⟩ | ⟨c, hc, h⟩ := curveSwap_cases h
  · obtain ⟨-, -, -, hout, -⟩ := quoteProductSwap_eq_ok h
    exact ConstantProduct.amountOut_nonneg hx hout
  · obtain ⟨-, -, -, _, _, _, hq⟩ := quoteStableSwap_eq_ok h
    exact hq.value_nonneg hp (StableCurve.units_pos (hp.curve c hc).rates_pos)

end Pool

namespace Command

variable {p : Pool} {c : Command} {plan : Except Fault Plan}

/-- Balances and counters can take what a command writes. -/
theorem Settles.covered (hp : p.Admissible) (hb : p.shares.Balanced) {s : Settlement}
    (h : Settles p c s) : s.Covered p := by
  have hs := hb.totalSupply_nonneg
  cases h with
  | deposit _ hk =>
    refine ⟨?_, by simp, by simp⟩
    simpa using (Pool.deposit_shares_pos hs hk).le
  | stableDeposit hc hq =>
    have hv := Pool.quoteDeposit_value_pos (hp.curve _ hc).minAmp_le hs hq
    obtain ⟨-, -, hm⟩ := Pool.quoteDeposit_eq_ok hq
    refine ⟨?_, by simp, by simp⟩
    rw [List.forall_mem_cons]
    exact ⟨hv.le, fun m hmem => (hm m hmem).le⟩
  | withdrawal hw =>
    obtain ⟨hpos, hle, -⟩ := Pool.withdrawal_eq_ok hw
    refine ⟨by simp, ?_, by simp⟩
    simpa using ⟨hpos.le, hle⟩
  | stableWithdrawal hc hq _ hle =>
    have hv := Pool.quoteWithdrawal_value_nonneg (hp.curve _ hc).minAmp_le hs hq
    obtain ⟨-, -, hm⟩ := Pool.quoteWithdrawal_eq_ok hq
    refine ⟨fun m hmem => (hm m hmem).le, ?_, by simp⟩
    simpa using ⟨hv, hle⟩
  | swap hq => exact Pool.covered_of_curveSwap hp hq
  | swapByOutput _ hq =>
    obtain ⟨-, hy, -, hin, -, hg⟩ := Pool.quoteProductSwapByOutput_eq_ok hq
    obtain ⟨-, hx, -⟩ := ConstantProduct.amountIn_keeps hy hp.fee_nonneg hin
    exact Pool.covered_of_trade (Pool.growthMints_eq_ok hg).1 rfl rfl hx.le hy.le

/-- The settlement of a plan can be put together. -/
theorem settlement_of_plan? (hp : p.Admissible) (hb : p.shares.Balanced)
    (h : c.plan? p = some plan) {pl : Plan} (hpl : plan = .ok pl) :
    ∃ s, pl.settlement = .ok s := by
  cases c with
  | removeLiquidity sender shares minimums simulate =>
    obtain rfl := Option.some.inj h
    simp only [Pool.withdrawalPlan, bind_eq_ok_iff, pure_eq_ok, Except.ok.injEq] at hpl
    obtain ⟨paid, hw, rfl⟩ := hpl
    exact ⟨_, by rw [Pool.subs_succeed (Pool.withdrawal_le hp hb hw)]; rfl⟩
  -- Every other plan holds its settlement ready.
  | addLiquidity sender amounts simulate =>
    obtain rfl := Option.some.inj h
    obtain ⟨-, kept, -, rfl⟩ := Pool.depositPlan_eq_ok hpl
    exact ⟨_, rfl⟩
  | addStableLiquidity sender amounts minShares fees simulate poolId =>
    obtain rfl := Option.some.inj h
    obtain ⟨c, q, -, -, -, rfl⟩ := Pool.stableDepositPlan_eq_ok hpl
    exact ⟨_, rfl⟩
  | removeLiquidityByTokens sender amounts maxBurn fees simulate =>
    obtain rfl := Option.some.inj h
    obtain ⟨c, q, -, -, -, -, rfl⟩ := Pool.stableWithdrawalPlan_eq_ok hpl
    exact ⟨_, rfl⟩
  | swap tokenIn amountIn tokenOut minimum fees simulate poolId =>
    obtain rfl := Option.some.inj h
    obtain ⟨i, j, q, -, rfl⟩ := Pool.swapPlan_eq_ok hpl
    exact ⟨_, rfl⟩
  | swapByOutput tokenIn amountOut tokenOut maximum fees simulate =>
    obtain rfl := Option.some.inj h
    obtain ⟨-, i, j, q, -, rfl⟩ := Pool.swapByOutputPlan_eq_ok hpl
    exact ⟨_, rfl⟩
  | modifyTotalFee | updateRates | register | unregister | transfer => cases h

end Command

end SwapPool
