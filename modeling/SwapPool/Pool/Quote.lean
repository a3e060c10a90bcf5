import SwapPool.AdminFees
import SwapPool.Pool.Commit
import SwapPool.Pool.Comparable
import SwapPool.StableInvariant

/-! Quotes of the stable family. A deposit or withdrawal is valued by the growth
of the invariant, less the imbalance fee; a swap takes its fee from the input,
solves for the balance of the output and pays one comparable unit less. Admin
recipients get their part of the fee as shares. Nothing here writes. -/

namespace SwapPool

open StableInvariant (calcD calcY adjustForImbalance)

namespace Pool

/-- The shares worth a change of the invariant, the quotient rounded down. -/
def sharesWorth (totalSupply change d0 : Int) : Except Fault Int :=
  Checked.quot (totalSupply * change) d0

/-- Shares of a later deposit and of its admin recipients. -/
def depositShares (p : Pool) (amounts : List Int) (old new : List Int) (amp : Int)
    (fees : AdminFees) : Except Fault (Int × List (String × Int)) := do
  let d0 ← calcD amp old p.config
  let d1 ← calcD amp new p.config
  if d1 ≤ d0 then throw (.depositNoGrowth amounts)
  let adjusted ← adjustForImbalance old new d0 d1 p.totalFee
  let d2 ← calcD amp adjusted p.config
  let minted ← sharesWorth p.shares.totalSupply (← Checked.sub d2 d0) d0
  let fair ← sharesWorth p.shares.totalSupply (← Checked.sub d1 d0) d0
  let feeShares ← Checked.sub fair minted
  return (minted, fees.splitShares (fees.adminPart feeShares p.totalFee))

/-- The shares minted for a deposit. -/
def quoteDeposit (p : Pool) (c : StableCurve) (amounts : List Int) (fees : AdminFees)
    (rates : Option (List Int)) : Except Fault Quote := do
  p.checkAmounts amounts
  fees.validate p.totalFee
  let units := c.units (← c.effectiveRates p.tokens.length rates)
  let newAmounts := List.zipWith (· + ·) p.amounts amounts
  let new := comparables units newAmounts
  let (minted, adminMints) ←
    if p.shares.totalSupply = 0 then
      if amounts.any (· ≤ 0) then throw (.initialDeposit amounts)
      else pure (← calcD c.amp new p.config, [])
    else p.depositShares amounts (comparables units p.amounts) new c.amp fees
  if minted = 0 then throw (.depositTooSmall amounts)
  return { value := minted, newAmounts, adminMints }

/-- The first token of which a withdrawal would leave nothing. -/
def drained? (p : Pool) (amounts : List Int) : Option (String × Int × Int) :=
  (p.tokens.zip (p.amounts.zip amounts)).find? fun (_, reserve, amount) => reserve ≤ amount

/-- The shares burned to withdraw exactly `amounts`. -/
def quoteWithdrawal (p : Pool) (c : StableCurve) (amounts : List Int) (fees : AdminFees)
    (rates : Option (List Int)) : Except Fault Quote := do
  p.checkAmounts amounts
  fees.validate p.totalFee
  let units := c.units (← c.effectiveRates p.tokens.length rates)
  let supply := p.shares.totalSupply
  if supply = 0 then throw .noLiquidity
  if amounts.all (· == 0) then throw .nothingToWithdraw
  match p.drained? amounts with
  | some (token, reserve, amount) => throw (.wouldDrain amount token reserve)
  | none => pure ()
  let newAmounts ← (p.amounts.zip amounts).mapM fun (r, a) => Checked.sub r a
  let old := comparables units p.amounts
  let new := comparables units newAmounts
  let d0 ← calcD c.amp old p.config
  let d1 ← calcD c.amp new p.config
  let adjusted ← adjustForImbalance old new d0 d1 p.totalFee
  let d2 ← calcD c.amp adjusted p.config
  let burned ← Checked.ceilQuot (supply * (← Checked.sub d0 d2)) d0
  let fair ← sharesWorth supply (← Checked.sub d0 d1) d0
  let feeShares ← Checked.sub burned fair
  let adminMints := fees.splitShares (fees.adminPart feeShares p.totalFee)
  return { value := burned, newAmounts, adminMints }

/-- Shares for the admin part of a swap's fee: what depositing it without a fee would mint. -/
def swapMints (p : Pool) (c : StableCurve) (units newAmounts : List Int) (i : Nat)
    (amountOut adminAmount : Int) (fees : AdminFees) : Except Fault (List (String × Int)) := do
  if 0 < adminAmount ∧ 0 < p.shares.totalSupply ∧ 0 < amountOut then
    let left ← Checked.sub (← Position.item newAmounts i) adminAmount
    let dAfter ← calcD c.amp (comparables units newAmounts) p.config
    let dWithout ← calcD c.amp (comparables units (newAmounts.set i left)) p.config
    let growth ← Checked.sub dAfter dWithout
    return fees.splitShares (← sharesWorth p.shares.totalSupply growth dWithout)
  else return []

/-- What an exact input buys, with `pay amount reserve` paid where the output is worth `amount` and
there is `reserve` of it. The places are checked as the balances are solved for; until then a
negative one counts from the end. -/
def quoteSwapPaying (pay : Int → Int → Int) (p : Pool) (c : StableCurve) (i amountIn j : Int)
    (fees : AdminFees) (rates : Option (List Int)) : Except Fault Quote := do
  fees.validate p.totalFee
  let units := c.units (← c.effectiveRates p.tokens.length rates)
  let old := comparables units p.amounts
  if old.any (· ≤ 0) then throw (.emptyReserve p.amounts)
  let fee ← Checked.ceilQuot (amountIn * p.totalFee) feeDivisor
  let net ← Checked.sub amountIn fee
  let d ← calcD c.amp old p.config
  let x := toComparable (← Position.item units i) ((← Position.item p.amounts i) + net)
  let y ← calcY c.amp x old i j d p.config
  let dy := max ((← Position.item old j) - y - 1) 0
  let amountOut := pay (fromComparable (← Position.item units j) dy) (← Position.item p.amounts j)
  let newAmounts ← movedAmounts p.amounts i.toNat amountIn j.toNat amountOut
  let adminMints ← p.swapMints c units newAmounts i.toNat amountOut
    (fees.adminPart fee p.totalFee) fees
  return { value := amountOut, newAmounts, adminMints }

/-- A swap pays no more than the reserve. -/
def quoteSwap (p : Pool) (c : StableCurve) (i amountIn j : Int) (fees : AdminFees)
    (rates : Option (List Int)) : Except Fault Quote :=
  p.quoteSwapPaying min c i amountIn j fees rates

end Pool

end SwapPool
