import SwapPool.Number.Checked
import SwapPool.Number.Root

/-! Prices and shares of a constant-product pool. The product of the reserves is
kept by a swap without a fee; a swap moves two reserves only, so its price needs
no other. What the pool pays is rounded down and what it takes is rounded up. -/

namespace SwapPool.ConstantProduct

/-- What an exact input buys, the fee taken from the input. -/
def amountOut (amountIn reserveIn reserveOut totalFee : Int) : Except Fault Int :=
  if reserveIn ≤ 0 ∨ reserveOut ≤ 0 then .error (.emptyPair reserveIn reserveOut)
  else if amountIn ≤ 0 then .ok 0
  else do
    let net := amountIn * (← Checked.sub feeDivisor totalFee)
    Checked.quot (net * reserveOut) (reserveIn * feeDivisor + net)

/-- What an exact output costs, fee included: one unit above the quotient rounded down. -/
def amountIn (amountOut reserveIn reserveOut totalFee : Int) : Except Fault Int :=
  if reserveIn ≤ 0 ∨ reserveOut ≤ 0 then .error (.emptyPair reserveIn reserveOut)
  else if reserveOut ≤ amountOut then .error (.outputExceedsReserve amountOut reserveOut)
  else if amountOut ≤ 0 then .ok 0
  else do
    let left ← Checked.sub reserveOut amountOut
    let kept ← Checked.sub feeDivisor totalFee
    return (← Checked.quot (reserveIn * amountOut * feeDivisor) (left * kept)) + 1

/-- The geometric mean of the reserves, rounded down. -/
def invariant (reserves : List Int) : Except Fault Int :=
  integerRoot (product reserves) reserves.length

/-- The shares that hand admin recipients their part of a growth of the invariant: with
`a / t` the admin part of the fee, `s` solves `s / (supply + s) = (a / t) * (I₁ - I₀) / I₁`. -/
def protocolFeeShares (totalSupply previous current adminRate totalFee : Int) :
    Except Fault Int :=
  if totalSupply = 0 ∨ adminRate = 0 ∨ totalFee = 0 then .ok 0
  else if current ≤ previous then .ok 0
  else do
    let growth ← Checked.sub current previous
    let rest ← Checked.sub totalFee adminRate
    Checked.quot (totalSupply * growth * adminRate) (current * rest + previous * adminRate)

end SwapPool.ConstantProduct
