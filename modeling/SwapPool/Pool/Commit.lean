import SwapPool.Number.Checked
import SwapPool.Pool.Basic

/-! Writing an outcome into a pool. Operations compute a quote from the state
and write only when it is complete; recipients of shares are looked up before
the first write. A proportional withdrawal is the same on every curve. -/

namespace SwapPool

/-- The outcome of a computation before it is written: the value it answers, the reserves
after it, and the shares credited to admin recipients. -/
structure Quote where
  value : Int
  newAmounts : List Int
  adminMints : List (String × Int)
  deriving DecidableEq, Repr

namespace Pool

def onShares {α : Type} (act : Action Ledger α) : Action Pool α :=
  .on (·.shares) (fun l p => { p with shares := l }) act

def onVolumes {α : Type} (act : Action (List Volume) α) : Action Pool α :=
  .on (·.volumes) (fun vs p => { p with volumes := vs }) act

/-- Burn, then mint, then replace the reserves. -/
def commit (newAmounts : List Int) (mints burns : List (String × Int)) : Action Pool Unit := do
  (← get).shares.requireRegistered ((mints.filter fun m => 0 < m.2).map Prod.fst)
  burns.forM fun b => onShares (Ledger.burn b.1 b.2)
  mints.forM fun m => onShares (Ledger.mint m.1 m.2)
  modify ({ · with amounts := newAmounts })

/-- Write a swap and count it. -/
def commitSwap (i : Nat) (amountIn : Int) (j : Nat) (amountOut : Int)
    (newAmounts : List Int) (mints : List (String × Int)) : Action Pool Unit := do
  commit newAmounts mints []
  onVolumes (Volume.record i amountIn j amountOut)

/-- The reserves after `amountIn` came in at `i` and `amountOut` went out at `j`. -/
def movedAmounts (amounts : List Int) (i : Nat) (amountIn : Int) (j : Nat) (amountOut : Int) :
    Except Fault (List Int) := do
  let amounts := amounts.modify i (· + amountIn)
  let left ← Checked.sub (← Position.item amounts j) amountOut
  return amounts.set j left

def checkOutput (amount minimum : Int) : Except Fault Unit :=
  if amount < minimum then .error (.outputBelow amount minimum) else .ok ()

/-- The first token whose amount is below its minimum. -/
def shortfall? (tokens : List String) (amounts minimums : List Int) :
    Option (String × Int × Int) :=
  (tokens.zip (amounts.zip minimums)).find? fun (_, amount, minimum) => amount < minimum

/-- What a number of shares is worth in every token, rounded down. -/
def withdrawal (p : Pool) (sender : String) (shares : Int) (minimums : List Int) :
    Except Fault (List Int) := do
  p.checkAmounts minimums
  if shares ≤ 0 then throw .zeroShares
  let balance := p.shares.balanceOf sender
  if balance < shares then throw (.sharesShort sender balance shares)
  let amounts ← p.amounts.mapM fun r => Checked.quot (r * shares) p.shares.totalSupply
  match shortfall? p.tokens amounts minimums with
  | some (token, amount, minimum) => throw (.withdrawalBelow token amount minimum)
  | none => return amounts

/-- A withdrawal in proportion to the shares that are burned for it. -/
def removeLiquidity (sender : String) (shares : Int) (minimums : List Int) (simulate : Bool) :
    Action Pool (List Int) := do
  let p ← get
  let paid ← p.withdrawal sender shares minimums
  unless simulate do
    let left ← (p.amounts.zip paid).mapM fun (r, a) => Checked.sub r a
    commit left [] [(sender, shares)]
  return paid

end Pool

end SwapPool
