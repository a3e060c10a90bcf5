import SwapPool.Pool.ConstantProduct
import SwapPool.Pool.Stable

/-! The calls of a pool. Each goes to the curve that has it and is refused as
unsupported by the others. A guarded call is undone when the value locked in
the pool comes out above the cap that the host has set for it, by the number of the
pool and in whole reference units. A pool without an entry is not capped. -/

namespace SwapPool

abbrev Limits := OrderedMap Int Int

namespace Limits

def set (poolId limit : Int) : Action Limits Unit := do
  if limit < 0 then throw (.negativeLimit limit)
  else modify (·.put poolId limit)

def remove (poolId : Int) : Action Limits Unit := modify (·.erase poolId)

def limit? (l : Limits) (poolId : Int) : Option Int := l.find? poolId

/-- The caps by pool number. -/
def listing (l : Limits) : List (Int × Int) := l.ascending fun a b => decide (a ≤ b)

end Limits

namespace Pool

def unsupported (p : Pool) (operation : String) : Fault := .unsupported operation p.kind

/-- The stable curve of a pool, for a call that only the stable family has. -/
def stableCurve (p : Pool) (operation : String) : Except Fault StableCurve :=
  match p.curve with
  | .stable c => .ok c
  | .constantProduct => .error (p.unsupported operation)

/-- The curve of a pool of one kind, for a call that only this kind has. -/
def curveOfKind (p : Pool) (k : Kind) (operation : String) : Except Fault StableCurve :=
  match p.curve with
  | .stable c => if p.kind = k then .ok c else .error (p.unsupported operation)
  | .constantProduct => .error (p.unsupported operation)

/-! ### Value locked -/

def tvl (p : Pool) : Except Fault Int :=
  return p.lockedValue (← p.curveOfKind .degen "get_tvl")

def tvlWithin (p : Pool) (limit : Int) : Except Fault Bool :=
  return decide ((← p.tvl) ≤ limit)

/-- The cap that binds a pool, which only a risk-capped one has. -/
def cap? (p : Pool) (limits : Limits) (poolId : Int) : Option Int :=
  if p.kind = .degen then limits.limit? poolId else none

def assertWithinCap (p : Pool) (limits : Limits) (poolId : Int) : Except Fault Unit := do
  match p.cap? limits poolId with
  | some limit =>
    let value ← p.tvl
    if limit < value then throw (.limitExceeded poolId value limit)
  | none => pure ()

/-- Check the cap after an operation and undo the operation if it is exceeded. A simulated
call, or one without a pool number, is not guarded. -/
def guarded {α : Type} (limits : Limits) (poolId : Option Int) (simulate : Bool)
    (act : Action Pool α) : Action Pool α :=
  match simulate, poolId with
  | false, some id =>
    Action.atomically do
      let a ← act
      (← get).assertWithinCap limits id
      return a
  | _, _ => act

/-! ### Liquidity and swaps -/

def addProductLiquidity (sender : String) (amounts : List Int) (simulate : Bool) :
    Action Pool Deposit := do
  let p ← get
  match p.curve with
  | .constantProduct => addLiquidity sender amounts simulate
  | .stable _ => throw (p.unsupported "add_liquidity")

def addStableLiquidity (limits : Limits) (sender : String) (amounts : List Int)
    (minShares : Int) (fees : AdminFees) (simulate : Bool) (poolId : Option Int) :
    Action Pool Int := do
  let c ← (← get).stableCurve "add_stable_liquidity"
  guarded limits poolId simulate (addStable c sender amounts minShares fees simulate)

def removeLiquidityByTokens (sender : String) (amounts : List Int) (maxBurn : Int)
    (fees : AdminFees) (simulate : Bool) : Action Pool Int := do
  let c ← (← get).stableCurve "remove_liquidity_by_tokens"
  removeStable c sender amounts maxBurn fees simulate

def swap (limits : Limits) (tokenIn : String) (amountIn : Int) (tokenOut : String)
    (minimum : Int) (fees : AdminFees) (simulate : Bool) (poolId : Option Int) :
    Action Pool Int := do
  let p ← get
  guarded limits poolId simulate <|
    match p.curve with
    | .constantProduct => productSwap tokenIn amountIn tokenOut minimum fees simulate
    | .stable c => stableSwap c tokenIn amountIn tokenOut minimum fees simulate

def swapByOutput (tokenIn : String) (amountOut : Int) (tokenOut : String)
    (maximum : Option Int) (fees : AdminFees) (simulate : Bool) : Action Pool Int := do
  let p ← get
  match p.curve with
  | .constantProduct => productSwapByOutput tokenIn amountOut tokenOut maximum fees simulate
  | .stable _ => throw (p.unsupported "swap_by_output")

/-! ### Rates -/

def setRates (c : StableCurve) (valuation : Valuation) (p : Pool) : Pool :=
  { p with curve := .stable { c with valuation } }

/-- Cache fresher rates or risk factors; without any the cached ones stay. -/
def updateRates (rates : Option (List Int)) : Action Pool Unit := do
  let p ← get
  let write (c : StableCurve) (valuation : List Int → Valuation) : Action Pool Unit := do
    match rates with
    | none => pure ()
    | some rates =>
      validateRates rates p.tokens.length
      modify (setRates c (valuation rates))
  match p.curve with
  | .constantProduct => throw (p.unsupported "update_rates")
  | .stable c =>
    match c.valuation with
    | .pegged => throw (p.unsupported "update_rates")
    | .rated _ => write c .rated
    | .riskCapped _ => write c .riskCapped

/-! ### Quotes -/

def sharePrice (p : Pool) : Except Fault Int := do
  p.stableSharePrice (← p.stableCurve "get_share_price")

def predictAdd (p : Pool) (c : StableCurve) (amounts : List Int)
    (rates : Option (List Int)) (fees : AdminFees) : Except Fault Int :=
  return (← p.quoteDeposit c amounts fees rates).value

def predictRemove (p : Pool) (c : StableCurve) (amounts : List Int)
    (rates : Option (List Int)) (fees : AdminFees) : Except Fault Int :=
  return (← p.quoteWithdrawal c amounts fees rates).value

def predictAddRated (p : Pool) (amounts : List Int) (rates : Option (List Int))
    (fees : AdminFees) : Except Fault Int := do
  p.predictAdd (← p.curveOfKind .rated "predict_add_rated_liquidity") amounts rates fees

def predictAddDegen (p : Pool) (amounts : List Int) (factors : Option (List Int))
    (fees : AdminFees) : Except Fault Int := do
  p.predictAdd (← p.curveOfKind .degen "predict_add_degen_liquidity") amounts factors fees

def predictRemoveRated (p : Pool) (amounts : List Int) (rates : Option (List Int))
    (fees : AdminFees) : Except Fault Int := do
  p.predictRemove (← p.curveOfKind .rated "predict_remove_rated_liquidity_by_tokens") amounts
    rates fees

def predictRemoveDegen (p : Pool) (amounts : List Int) (factors : Option (List Int))
    (fees : AdminFees) : Except Fault Int := do
  p.predictRemove (← p.curveOfKind .degen "predict_remove_degen_liquidity_by_tokens") amounts
    factors fees

def ratedReturn (p : Pool) (tokenIn : String) (amountIn : Int) (tokenOut : String)
    (rates : Option (List Int)) (fees : AdminFees) : Except Fault Int := do
  p.swapReturn (← p.curveOfKind .rated "get_rated_return") tokenIn amountIn tokenOut rates fees

def degenReturn (p : Pool) (tokenIn : String) (amountIn : Int) (tokenOut : String)
    (factors : Option (List Int)) (fees : AdminFees) : Except Fault Int := do
  p.swapReturn (← p.curveOfKind .degen "get_degen_return") tokenIn amountIn tokenOut factors fees

end Pool

end SwapPool
