import SwapPool.Action
import SwapPool.Number.Checked
import SwapPool.OrderedMap

/-! Ownership of a pool: the total supply of shares and the balance of every
registered account, in order of registration. An account without a balance
entry holds nothing and cannot receive. Every operation checks all its
conditions before it writes. Beside it, for each token, the running totals of what
swaps brought in and paid out. -/

namespace SwapPool

structure Ledger where
  totalSupply : Int
  balances : OrderedMap String Int
  deriving DecidableEq

namespace Ledger

def empty : Ledger := ⟨0, ∅⟩

instance : Inhabited Ledger := ⟨empty⟩

def balanceOf (l : Ledger) (account : String) : Int := (l.balances.find? account).getD 0

def isRegistered (l : Ledger) (account : String) : Bool := l.balances.contains account

/-- What all accounts hold together. -/
def held (l : Ledger) : Int := total l.balances.values

/-- The balances by account name. -/
def listing (l : Ledger) : List (String × Int) :=
  l.balances.ascending fun a b => decide (a ≤ b)

def setBalance (l : Ledger) (account : String) (balance : Int) : Ledger :=
  { l with balances := l.balances.put account balance }

@[simp] theorem balanceOf_setBalance (l : Ledger) (a b : String) (n : Int) :
    (l.setBalance a n).balanceOf b = if a = b then n else l.balanceOf b := by
  unfold setBalance balanceOf
  rw [OrderedMap.find?_put]
  split <;> rfl

def requireRegistered (accounts : List String) (l : Ledger) : Except Fault Unit :=
  match accounts.find? fun a => !l.isRegistered a with
  | some account => .error (.unregistered account)
  | none => .ok ()

def register (account : String) : Action Ledger Unit := do
  if (← get).isRegistered account then throw (.registeredAlready account)
  else modify (·.setBalance account 0)

def unregister (account : String) : Action Ledger Unit := do
  let l ← get
  if !l.isRegistered account then throw (.unregistered account)
  else if l.balanceOf account ≠ 0 then throw (.sharesHeld account (l.balanceOf account))
  else set { l with balances := l.balances.erase account }

/-- Credit new shares to a registered account. -/
def mint (account : String) (shares : Int) : Action Ledger Unit := do
  let l ← get
  if shares < 0 then throw (.negativeMint shares)
  else if shares = 0 then pure ()
  else
    l.requireRegistered [account]
    set { l.setBalance account (l.balanceOf account + shares) with
      totalSupply := l.totalSupply + shares }

def burn (account : String) (shares : Int) : Action Ledger Unit := do
  let l ← get
  if shares < 0 then throw (.negativeBurn shares)
  else if l.balanceOf account < shares then
    throw (.sharesShort account (l.balanceOf account) shares)
  else if shares = 0 then pure ()
  else
    set { l.setBalance account (l.balanceOf account - shares) with
      totalSupply := l.totalSupply - shares }

/-- Move shares between two registered accounts, which may be one. -/
def transfer (sender receiver : String) (shares : Int) : Action Ledger Unit := do
  let l ← get
  if shares < 0 then throw (.negativeTransfer shares)
  else if !l.isRegistered sender then throw (.senderUnregistered sender)
  else if l.balanceOf sender < shares then
    throw (.sharesShort sender (l.balanceOf sender) shares)
  else if !l.isRegistered receiver then throw (.receiverUnregistered receiver)
  else
    modify (·.setBalance sender (l.balanceOf sender - shares))
    modify fun m => m.setBalance receiver (m.balanceOf receiver + shares)

end Ledger

/-! ### Volumes -/

structure Volume where
  input : Int
  output : Int
  deriving DecidableEq, Repr

namespace Volume

def zero : Volume := ⟨0, 0⟩

instance : Inhabited Volume := ⟨zero⟩

def addInput (amount : Int) (v : Volume) : Volume := { v with input := v.input + amount }

def addOutput (amount : Int) (v : Volume) : Volume := { v with output := v.output + amount }

/-- Count a swap. The input is written before the output's place is looked up. -/
def record (inIndex amountIn outIndex amountOut : Int) : Action (List Volume) Unit := do
  let i ← Position.resolve (← get).length inIndex
  modify fun vs => vs.modify i (addInput amountIn)
  let j ← Position.resolve (← get).length outIndex
  modify fun vs => vs.modify j (addOutput amountOut)

end Volume

end SwapPool
