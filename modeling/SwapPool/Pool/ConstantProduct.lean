import SwapPool.AdminFees
import SwapPool.ConstantProduct
import SwapPool.Pool.Commit

/-! Operations of the constant-product curve. A deposit keeps the ratio of the
reserves and returns what does not fit. The fee of a swap stays in the reserves;
its admin part is minted as shares, sized by the growth of the geometric mean. -/

namespace SwapPool

/-- The shares of a deposit and the amounts that the pool keeps. -/
structure Deposit where
  shares : Int
  amounts : List Int
  deriving DecidableEq, Repr

namespace Pool

/-- The most shares that every supplied amount covers at the ratio of the reserves. -/
def coveredShares (p : Pool) (amounts : List Int) : Int :=
  ((amounts.zip p.amounts).map fun (a, r) => (a * p.shares.totalSupply).fdiv r).min?.getD 0

/-- The first deposit sets the ratio; a later one keeps the rounded-up cost of its shares. -/
def deposit (p : Pool) (amounts : List Int) : Except Fault Deposit := do
  p.checkAmounts amounts
  if p.shares.totalSupply = 0 then
    if amounts.any (· ≤ 0) then throw (.initialDeposit amounts)
    return { shares := initSharesSupply, amounts }
  else
    if p.amounts.any (· ≤ 0) then throw (.emptyReserve p.amounts)
    let minted := p.coveredShares amounts
    if minted = 0 then throw (.depositTooSmall amounts)
    let amounts := p.amounts.map fun r => Checked.ceiling (r * minted) p.shares.totalSupply
    return { shares := minted, amounts }

def addLiquidity (sender : String) (amounts : List Int) (simulate : Bool) :
    Action Pool Deposit := do
  let p ← get
  let kept ← p.deposit amounts
  unless simulate do
    commit (List.zipWith (· + ·) p.amounts kept.amounts) [(sender, kept.shares)] []
  return kept

/-- Shares for the admin recipients when the reserves become `newAmounts`. -/
def growthMints (p : Pool) (newAmounts : List Int) (fees : AdminFees) :
    Except Fault (List (String × Int)) := do
  if fees.adminRate = 0 ∨ p.shares.totalSupply = 0 then return []
  let previous ← ConstantProduct.invariant p.amounts
  let current ← ConstantProduct.invariant newAmounts
  let shares ← ConstantProduct.protocolFeeShares p.shares.totalSupply previous current
    fees.adminRate p.totalFee
  return fees.splitShares shares

/-- The reserves and admin mints of a swap at a price already found. -/
def settleProduct (p : Pool) (i : Nat) (amountIn : Int) (j : Nat) (amountOut value : Int)
    (fees : AdminFees) : Except Fault Quote := do
  let newAmounts ← movedAmounts p.amounts i amountIn j amountOut
  return { value, newAmounts, adminMints := ← p.growthMints newAmounts fees }

def quoteProductSwap (p : Pool) (tokenIn : String) (amountIn : Int) (tokenOut : String)
    (minimum : Int) (fees : AdminFees) : Except Fault (Nat × Nat × Quote) := do
  let (i, j) ← p.swapIndices tokenIn tokenOut
  if amountIn ≤ 0 then throw (.inputNotPositive amountIn)
  fees.validate p.totalFee
  let out ← ConstantProduct.amountOut amountIn (p.amounts.getD i 0) (p.amounts.getD j 0) p.totalFee
  checkOutput out minimum
  if out = 0 then throw (.swapYieldsNothing amountIn tokenIn)
  return (i, j, ← p.settleProduct i amountIn j out out fees)

def productSwap (tokenIn : String) (amountIn : Int) (tokenOut : String) (minimum : Int)
    (fees : AdminFees) (simulate : Bool) : Action Pool Int := do
  let (i, j, q) ← (← get).quoteProductSwap tokenIn amountIn tokenOut minimum fees
  unless simulate do commitSwap i amountIn j q.value q.newAmounts q.adminMints
  return q.value

def quoteProductSwapByOutput (p : Pool) (tokenIn : String) (amountOut : Int)
    (tokenOut : String) (maximum : Option Int) (fees : AdminFees) :
    Except Fault (Nat × Nat × Quote) := do
  let (i, j) ← p.swapIndices tokenIn tokenOut
  if amountOut ≤ 0 then throw (.outputNotPositive amountOut)
  fees.validate p.totalFee
  let cost ← ConstantProduct.amountIn amountOut (p.amounts.getD i 0) (p.amounts.getD j 0) p.totalFee
  match maximum with
  | some bound => if bound < cost then throw (.inputAbove cost bound)
  | none => pure ()
  return (i, j, ← p.settleProduct i cost j amountOut cost fees)

/-- An exact-output swap; the answer is what it costs. -/
def productSwapByOutput (tokenIn : String) (amountOut : Int) (tokenOut : String)
    (maximum : Option Int) (fees : AdminFees) (simulate : Bool) : Action Pool Int := do
  let (i, j, q) ← (← get).quoteProductSwapByOutput tokenIn amountOut tokenOut maximum fees
  unless simulate do commitSwap i q.value j amountOut q.newAmounts q.adminMints
  return q.value

end Pool

end SwapPool
