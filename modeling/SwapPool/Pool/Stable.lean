import SwapPool.Pool.Quote

/-! Operations of the stable family, which write the quotes, and the read-only
answers drawn from the same quotes. -/

namespace SwapPool.Pool

open StableInvariant (calcD)

def addStable (c : StableCurve) (sender : String) (amounts : List Int) (minShares : Int)
    (fees : AdminFees) (simulate : Bool) : Action Pool Int := do
  let q ← (← get).quoteDeposit c amounts fees none
  if q.value < minShares then throw (.mintBelow q.value minShares)
  unless simulate do commit q.newAmounts ((sender, q.value) :: q.adminMints) []
  return q.value

def removeStable (c : StableCurve) (sender : String) (amounts : List Int) (maxBurn : Int)
    (fees : AdminFees) (simulate : Bool) : Action Pool Int := do
  let p ← get
  let q ← p.quoteWithdrawal c amounts fees none
  if maxBurn < q.value then throw (.burnAbove q.value maxBurn)
  let balance := p.shares.balanceOf sender
  if balance < q.value then throw (.sharesShort sender balance q.value)
  unless simulate do commit q.newAmounts q.adminMints [(sender, q.value)]
  return q.value

/-- The quote of a swap between named tokens that meets its minimum and pays something. -/
def quoteStableSwap (p : Pool) (c : StableCurve) (tokenIn : String) (amountIn : Int)
    (tokenOut : String) (minimum : Int) (fees : AdminFees) :
    Except Fault (Nat × Nat × Quote) := do
  let (i, j) ← p.swapIndices tokenIn tokenOut
  if amountIn ≤ 0 then throw (.inputNotPositive amountIn)
  let q ← p.quoteSwap c i amountIn j fees none
  checkOutput q.value minimum
  if q.value = 0 then throw (.swapYieldsNothing amountIn tokenIn)
  return (i, j, q)

def stableSwap (c : StableCurve) (tokenIn : String) (amountIn : Int) (tokenOut : String)
    (minimum : Int) (fees : AdminFees) (simulate : Bool) : Action Pool Int := do
  let (i, j, q) ← (← get).quoteStableSwap c tokenIn amountIn tokenOut minimum fees
  unless simulate do commitSwap i amountIn j q.value q.newAmounts q.adminMints
  return q.value

/-- What a swap would pay, at supplied rates if there are any. -/
def swapReturn (p : Pool) (c : StableCurve) (tokenIn : String) (amountIn : Int)
    (tokenOut : String) (rates : Option (List Int)) (fees : AdminFees) : Except Fault Int := do
  let (i, j) ← p.swapIndices tokenIn tokenOut
  if amountIn ≤ 0 then return 0
  return (← p.quoteSwap c i amountIn j fees rates).value

/-- The invariant per share, in units of `sharePricePrecision`. -/
def stableSharePrice (p : Pool) (c : StableCurve) : Except Fault Int := do
  if p.shares.totalSupply = 0 then return sharePricePrecision
  let d ← calcD c.amp (p.comparableReserves c (c.cachedRates p.tokens.length)) p.config
  Checked.quot (d * sharePricePrecision) p.shares.totalSupply

/-- The value of all reserves in whole reference units, rounded down. -/
def lockedValue (p : Pool) (c : StableCurve) : Int :=
  (total (p.comparableReserves c (c.cachedRates p.tokens.length))).fdiv ratePrecision

end SwapPool.Pool
