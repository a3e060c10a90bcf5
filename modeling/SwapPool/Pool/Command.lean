import SwapPool.Pool.Dispatch

/-! Requests to a pool as values. A command may change the pool; a query only
reads it. Both answer with a reply, and a history of commands is a list. -/

namespace SwapPool

inductive Reply
  | nothing
  | integer (n : Int)
  | integers (xs : List Int)
  | flag (b : Bool)
  | text (s : String)
  | texts (xs : List String)
  | places (i j : Nat)
  | volumes (vs : List Volume)
  | deposit (d : Deposit)
  | quote (q : Quote)
  | reloaded (poolId : Int) (equal : Bool)
  | several (replies : List Reply)

inductive Command
  | modifyTotalFee (fee : Int)
  | addLiquidity (sender : String) (amounts : List Int) (simulate : Bool)
  | addStableLiquidity (sender : String) (amounts : List Int) (minShares : Int)
      (fees : AdminFees) (simulate : Bool) (poolId : Option Int)
  | removeLiquidity (sender : String) (shares : Int) (minimums : List Int) (simulate : Bool)
  | removeLiquidityByTokens (sender : String) (amounts : List Int) (maxBurn : Int)
      (fees : AdminFees) (simulate : Bool)
  | swap (tokenIn : String) (amountIn : Int) (tokenOut : String) (minimum : Int)
      (fees : AdminFees) (simulate : Bool) (poolId : Option Int)
  | swapByOutput (tokenIn : String) (amountOut : Int) (tokenOut : String)
      (maximum : Option Int) (fees : AdminFees) (simulate : Bool)
  | updateRates (rates : Option (List Int))
  | register (account : String)
  | unregister (account : String)
  | transfer (sender receiver : String) (shares : Int)

namespace Command

/-- Perform a command. A pool number makes the command guarded by the cap that `limits`
holds for that number. -/
def run (limits : Limits) : Command → Action Pool Reply
  | modifyTotalFee fee => do
    Pool.modifyTotalFee fee
    return .nothing
  | addLiquidity sender amounts simulate =>
    Reply.deposit <$> Pool.addProductLiquidity sender amounts simulate
  | addStableLiquidity sender amounts minShares fees simulate poolId =>
    Reply.integer <$> Pool.addStableLiquidity limits sender amounts minShares fees simulate poolId
  | removeLiquidity sender shares minimums simulate =>
    Reply.integers <$> Pool.removeLiquidity sender shares minimums simulate
  | removeLiquidityByTokens sender amounts maxBurn fees simulate =>
    Reply.integer <$> Pool.removeLiquidityByTokens sender amounts maxBurn fees simulate
  | swap tokenIn amountIn tokenOut minimum fees simulate poolId =>
    Reply.integer <$> Pool.swap limits tokenIn amountIn tokenOut minimum fees simulate poolId
  | swapByOutput tokenIn amountOut tokenOut maximum fees simulate =>
    Reply.integer <$> Pool.swapByOutput tokenIn amountOut tokenOut maximum fees simulate
  | updateRates rates => do
    Pool.updateRates rates
    return .nothing
  | register account => do
    Pool.onShares (Ledger.register account)
    return .nothing
  | unregister account => do
    Pool.onShares (Ledger.unregister account)
    return .nothing
  | transfer sender receiver shares => do
    Pool.onShares (Ledger.transfer sender receiver shares)
    return .nothing

end Command

inductive Query
  | kind
  | tokens
  | reserves
  | shareDecimals
  | fee
  | maxFee
  | volumes
  | sharePrice
  | tvl
  | tvlWithin (limit : Int)
  | assertWithinCap (poolId : Int)
  | predictAddRated (amounts : List Int) (rates : Option (List Int)) (fees : AdminFees)
  | predictAddDegen (amounts : List Int) (factors : Option (List Int)) (fees : AdminFees)
  | predictRemoveRated (amounts : List Int) (rates : Option (List Int)) (fees : AdminFees)
  | predictRemoveDegen (amounts : List Int) (factors : Option (List Int)) (fees : AdminFees)
  | ratedReturn (tokenIn : String) (amountIn : Int) (tokenOut : String)
      (rates : Option (List Int)) (fees : AdminFees)
  | degenReturn (tokenIn : String) (amountIn : Int) (tokenOut : String)
      (factors : Option (List Int)) (fees : AdminFees)
  | shareTotal
  | shareBalance (account : String)
  | isRegistered (account : String)
  | tokenIndex (token : String)
  | swapIndices (tokenIn tokenOut : String)
  | curveTag
  | effectiveRates (rates : Option (List Int))
  | toComparables (amounts : List Int) (rates : Option (List Int))
  | fromComparable (index amount : Int) (rates : Option (List Int))
  | quoteDeposit (amounts : List Int) (fees : AdminFees) (rates : Option (List Int))
  | quoteWithdrawal (amounts : List Int) (fees : AdminFees) (rates : Option (List Int))
  | quoteSwap (i amountIn j : Int) (fees : AdminFees) (rates : Option (List Int))

namespace Query

/-- The units of a stable curve at the rates that apply. -/
def unitsAt (p : Pool) (operation : String) (rates : Option (List Int)) :
    Except Fault (List Int) := do
  let c ← p.stableCurve operation
  return c.units (← c.effectiveRates p.tokens.length rates)

def answer (limits : Limits) (p : Pool) : Query → Except Fault Reply
  | kind => return .text p.kind.tag
  | tokens => return .texts p.tokens
  | reserves => return .integers p.amounts
  | shareDecimals => return .integer p.shareDecimals
  | fee => return .integer p.totalFee
  | maxFee => return .integer p.maxFee
  | volumes => return .volumes p.volumes
  | sharePrice => return .integer (← p.sharePrice)
  | tvl => return .integer (← p.tvl)
  | tvlWithin limit => return .flag (← p.tvlWithin limit)
  | assertWithinCap poolId => do
    p.assertWithinCap limits poolId
    return .nothing
  | predictAddRated amounts rates fees => return .integer (← p.predictAddRated amounts rates fees)
  | predictAddDegen amounts factors fees =>
    return .integer (← p.predictAddDegen amounts factors fees)
  | predictRemoveRated amounts rates fees =>
    return .integer (← p.predictRemoveRated amounts rates fees)
  | predictRemoveDegen amounts factors fees =>
    return .integer (← p.predictRemoveDegen amounts factors fees)
  | ratedReturn tokenIn amountIn tokenOut rates fees =>
    return .integer (← p.ratedReturn tokenIn amountIn tokenOut rates fees)
  | degenReturn tokenIn amountIn tokenOut factors fees =>
    return .integer (← p.degenReturn tokenIn amountIn tokenOut factors fees)
  | shareTotal => return .integer p.shares.totalSupply
  | shareBalance account => return .integer (p.shares.balanceOf account)
  | isRegistered account => return .flag (p.shares.isRegistered account)
  | tokenIndex token => return .integer (← p.tokenIndex token)
  | swapIndices tokenIn tokenOut => do
    let (i, j) ← p.swapIndices tokenIn tokenOut
    return .places i j
  | curveTag => do
    discard <| p.stableCurve "kind_tag"
    return .text p.kind.tag
  | effectiveRates rates => do
    let c ← p.stableCurve "effective_rates"
    return .integers (← c.effectiveRates p.tokens.length rates)
  | toComparables amounts rates => do
    return .integers (← comparables? (← unitsAt p "to_c_amounts" rates) amounts)
  | fromComparable index amount rates => do
    let unit ← Position.item (← unitsAt p "from_c_amount" rates) index
    return .integer (SwapPool.fromComparable unit amount)
  | quoteDeposit amounts fees rates => do
    let c ← p.stableCurve "compute_add_liquidity"
    return .quote (← p.quoteDeposit c amounts fees rates)
  | quoteWithdrawal amounts fees rates => do
    let c ← p.stableCurve "compute_remove_by_tokens"
    return .quote (← p.quoteWithdrawal c amounts fees rates)
  | quoteSwap i amountIn j fees rates => do
    let c ← p.stableCurve "compute_swap"
    return .quote (← p.quoteSwap c i amountIn j fees rates)

end Query

end SwapPool
