import SwapPool.Proofs.Pool.Plan
import SwapPool.Proofs.Stable.Solvers

/-! What a quote of a stable pool does not fail for. It knows nothing of caps, and
an answer of zero is an answer: none of its steps, down to the solvers, fails for
either. So a call that fails for a cap was refused by its guard, and a swap that
fails because it yields nothing was quoted at zero. -/

namespace SwapPool

theorem Fault.kind_eq_tvlLimitExceeded_iff {e : Fault} : e.kind = .tvlLimitExceeded ↔
    ∃ poolId value limit, e = .limitExceeded poolId value limit := by
  cases e <;> simp [kind]

/-- A fault that a quote of a stable pool may answer with. What to make of an answer of zero, and of
a cap, is left to the caller. -/
@[simp] def Fault.OfQuote : Fault → Prop
  | limitExceeded .. | swapYieldsNothing .. => False
  | _ => True

/-- A fault that is not of a cap. -/
def Fault.NotOfCap (e : Fault) : Prop := e.kind ≠ .tvlLimitExceeded

@[simp] theorem Fault.notOfCap_iff {e : Fault} :
    e.NotOfCap ↔ ∀ poolId value limit, e ≠ .limitExceeded poolId value limit := by
  simp [NotOfCap, kind_eq_tvlLimitExceeded_iff]

/-- If the request fails, then not for a cap. -/
abbrev CapFree {α : Type} (x : Except Fault α) : Prop := FailsWithin Fault.NotOfCap x

theorem FailsWithin.capFree {α : Type} {x : Except Fault α} (h : FailsWithin Fault.OfQuote x) :
    CapFree x := by
  refine h.mono fun e he => Fault.notOfCap_iff.2 ?_
  rintro _ _ _ rfl
  exact he

namespace Checked

@[simp] theorem ofQuote_sub (a b : Int) : FailsWithin Fault.OfQuote (sub a b) := by simp [sub]

@[simp] theorem ofQuote_quot (a b : Int) : FailsWithin Fault.OfQuote (quot a b) := by simp [quot]

@[simp] theorem ofQuote_ceilQuot (a b : Int) : FailsWithin Fault.OfQuote (ceilQuot a b) := by
  simp [ceilQuot]

end Checked

@[simp] theorem Position.ofQuote_item {α : Type} (xs : List α) (index : Int) :
    FailsWithin Fault.OfQuote (item xs index) := by
  have hr : FailsWithin Fault.OfQuote (resolve xs.length index) := by
    unfold resolve
    split
    · simp
    · split <;> simp
  simp only [item, failsWithin_bind, hr, true_and]
  intro k _
  split <;> simp

@[simp] theorem AdminFees.ofQuote_validate (fees : AdminFees) (totalFee : Int) :
    FailsWithin Fault.OfQuote (fees.validate totalFee) := by
  simp [validate]

namespace StableInvariant

@[simp] theorem ofQuote_calcD (amp : Int) (balances : List Int) (config : Config) :
    FailsWithin Fault.OfQuote (calcD amp balances config) := by
  have hstep (ann sum product : Int) (n : Nat) (d : Int) :
      FailsWithin Fault.OfQuote (stepD ann sum product n d) := by
    simp [stepD]
  simp only [calcD, failsWithin_ite, failsWithin_ok, failsWithin_error]
  refine ⟨fun _ => trivial, fun _ => ⟨fun _ => trivial, fun _ => ?_⟩⟩
  exact failsWithin_iterate (I := fun _ => True) (fun _ _ _ _ => trivial)
    (fun _ _ => hstep _ _ _ _ _) (by simp) trivial

@[simp] theorem ofQuote_calcY (amp x : Int) (balances : List Int) (moved solved d : Int)
    (config : Config) : FailsWithin Fault.OfQuote (calcY amp x balances moved solved d config) := by
  have hstep (b c d y : Int) : FailsWithin Fault.OfQuote (stepY b c d y) := by simp [stepY]
  have hplace (i : Int) (n : Nat) : FailsWithin Fault.OfQuote (checkPosition i n) := by
    simp [checkPosition]
  simp only [calcY, failsWithin_bind, hplace, true_and]
  intro _ _ _ _
  split
  · simp
  · simp only [failsWithin_bind, Checked.ofQuote_quot, true_and]
    intro _ _ _ _
    exact failsWithin_iterate (I := fun _ => True) (fun _ _ _ _ => trivial)
      (fun _ _ => hstep _ _ _ _) (by simp) trivial

@[simp] theorem ofQuote_adjustForImbalance (old new : List Int) (d0 d1 totalFee : Int) :
    FailsWithin Fault.OfQuote (adjustForImbalance old new d0 d1 totalFee) := by
  have hcharge (fee d0 d1 old new : Int) :
      FailsWithin Fault.OfQuote (charge fee d0 d1 old new) := by
    simp [charge]
  simp only [adjustForImbalance, tradeFee, failsWithin_bind, failsWithin_ite, failsWithin_ok,
    failsWithin_error]
  refine ⟨⟨fun _ => trivial, fun _ => trivial⟩, fun fee _ => ?_⟩
  refine failsWithin_mapM ?_
  rintro ⟨o, w⟩ _
  exact hcharge fee d0 d1 o w

end StableInvariant

namespace Pool

variable {p : Pool} {sender tokenIn tokenOut : String} {amounts : List Int} {fees : AdminFees}

@[simp] theorem ofQuote_stableCurve (p : Pool) (operation : String) :
    FailsWithin Fault.OfQuote (p.stableCurve operation) := by
  unfold stableCurve
  split <;> simp [unsupported]

@[simp] theorem ofQuote_checkAmounts (p : Pool) (amounts : List Int) :
    FailsWithin Fault.OfQuote (p.checkAmounts amounts) := by
  simp [checkAmounts]

@[simp] theorem ofQuote_swapIndices (p : Pool) (tokenIn tokenOut : String) :
    FailsWithin Fault.OfQuote (p.swapIndices tokenIn tokenOut) := by
  have hindex (token : String) : FailsWithin Fault.OfQuote (p.tokenIndex token) := by
    unfold tokenIndex
    split <;> simp
  simp [swapIndices, hindex]

@[simp] theorem ofQuote_sharesWorth (supply change d : Int) :
    FailsWithin Fault.OfQuote (sharesWorth supply change d) := by
  simp [sharesWorth]

@[simp] theorem ofQuote_depositShares (p : Pool) (amounts old new : List Int) (amp : Int)
    (fees : AdminFees) : FailsWithin Fault.OfQuote (p.depositShares amounts old new amp fees) := by
  simp [depositShares]

theorem ofQuote_quoteDeposit (p : Pool) (c : StableCurve) (amounts : List Int)
    (fees : AdminFees) : FailsWithin Fault.OfQuote (p.quoteDeposit c amounts fees none) := by
  simp [quoteDeposit, StableCurve.effectiveRates]

@[simp] theorem ofQuote_movedAmounts (amounts : List Int) (i : Nat) (x : Int) (j : Nat) (y : Int) :
    FailsWithin Fault.OfQuote (movedAmounts amounts i x j y) := by
  simp [movedAmounts]

@[simp] theorem ofQuote_swapMints (p : Pool) (c : StableCurve) (units newAmounts : List Int)
    (i : Nat) (amountOut adminAmount : Int) (fees : AdminFees) :
    FailsWithin Fault.OfQuote (p.swapMints c units newAmounts i amountOut adminAmount fees) := by
  simp [swapMints]

theorem ofQuote_quoteSwap (p : Pool) (c : StableCurve) (i x j : Int) (fees : AdminFees) :
    FailsWithin Fault.OfQuote (p.quoteSwap c i x j fees none) := by
  simp [quoteSwap, quoteSwapPaying, StableCurve.effectiveRates]

/-! ### Plans -/

theorem capFree_stableDepositPlan (p : Pool) (sender : String) (amounts : List Int)
    (minShares : Int) (fees : AdminFees) :
    CapFree (p.stableDepositPlan sender amounts minShares fees) := by
  refine FailsWithin.capFree ?_
  simp [stableDepositPlan, ofQuote_quoteDeposit]

theorem capFree_swapPlan {c : StableCurve} (hc : p.curve = .stable c) (tokenIn : String) (x : Int)
    (tokenOut : String) (minimum : Int) (fees : AdminFees) :
    CapFree (p.swapPlan tokenIn x tokenOut minimum fees) := by
  have hquote (i j : Nat) : CapFree (p.quoteSwap c i x j fees none) :=
    (p.ofQuote_quoteSwap c i x j fees).capFree
  have hplaces : CapFree (p.swapIndices tokenIn tokenOut) :=
    (p.ofQuote_swapIndices tokenIn tokenOut).capFree
  simp [swapPlan, curveSwap, hc, quoteStableSwap, hquote, hplaces, checkOutput]

end Pool

end SwapPool
