import SwapPool.Config
import SwapPool.Ledger

/-! Pools: an ordered set of tokens with a reserve and a volume counter each, a
total fee, a share ledger, and the curve that prices trades. The stable curves
are one family; they differ in how a token is valued. A pool value is put
together freely and `build` admits it, so that a new pool and a loaded one meet
the same conditions in the same order. -/

namespace SwapPool

/-- How the tokens of a stable curve are valued against each other: one to one, by external
exchange rates, or by risk factors in a reference unit. -/
inductive Valuation
  | pegged
  | rated (rates : List Int)
  | riskCapped (factors : List Int)
  deriving DecidableEq, Repr

/-- The decimals of comparable amounts. -/
def Valuation.targetDecimals : Valuation → Nat
  | pegged => stableTargetDecimals
  | _ => ratedTargetDecimals

/-- A stable curve: the decimals of each token, the amplification, and the valuation. -/
structure StableCurve where
  decimals : List Int
  amp : Int
  valuation : Valuation
  deriving DecidableEq, Repr

inductive Curve
  | constantProduct
  | stable (c : StableCurve)
  deriving DecidableEq, Repr

structure Pool where
  tokens : List String
  amounts : List Int
  totalFee : Int
  shares : Ledger
  volumes : List Volume
  config : Config
  curve : Curve
  deriving DecidableEq

/-- One positive rate per token. -/
def validateRates (rates : List Int) (count : Int) : Except Fault Unit :=
  if (rates.length : Int) ≠ count then .error (.ratesCount count rates.length)
  else if rates.any (· ≤ 0) then .error (.ratesNotPositive rates)
  else .ok ()

namespace StableCurve

def checkDecimals (target : Nat) (decimals : List Int) : Except Fault Unit :=
  match decimals.find? fun d => decide (d < 0 ∨ (target : Int) < d) with
  | some d => .error (.decimalsOutside d target)
  | none => .ok ()

def check (c : StableCurve) (count : Nat) : Except Fault Unit := do
  if c.decimals.length ≠ count then throw (.decimalsCount count c.decimals.length)
  checkDecimals c.valuation.targetDecimals c.decimals
  if c.amp < minAmp ∨ maxAmp < c.amp then throw (.amplificationOutside c.amp)
  match c.valuation with
  | .pegged => pure ()
  | .rated rates => validateRates rates count
  | .riskCapped factors => validateRates factors count

end StableCurve

namespace Pool

def kind (p : Pool) : Kind :=
  match p.curve with
  | .constantProduct => .simple
  | .stable c =>
    match c.valuation with
    | .pegged => .stable
    | .rated _ => .rated
    | .riskCapped _ => .degen

/-- The largest total fee that the curve accepts. -/
def maxFee (p : Pool) : Int :=
  match p.curve with
  | .constantProduct => p.config.constantProductMaxFee
  | .stable _ => p.config.stableMaxFee

def shareDecimals (p : Pool) : Nat :=
  match p.kind with
  | .simple => simpleShareDecimals
  | .stable => stableShareDecimals
  | .rated => ratedShareDecimals
  | .degen => degenShareDecimals

def checkFee (p : Pool) (fee : Int) : Except Fault Unit :=
  if fee < 0 ∨ p.maxFee < fee then .error (.feeOutside fee p.maxFee) else .ok ()

/-- Reserves and counters left out are zero. -/
def withDefaults (p : Pool) : Pool :=
  { p with
    amounts := if p.amounts.isEmpty then List.replicate p.tokens.length 0 else p.amounts
    volumes := if p.volumes.isEmpty then List.replicate p.tokens.length .zero else p.volumes }

def check (p : Pool) : Except Fault Unit := do
  let count := p.tokens.length
  if count < minTokens then throw (.tokenCount count)
  if ¬ p.tokens.Nodup then throw (.duplicateTokens p.tokens)
  if p.amounts.length ≠ count ∨ p.amounts.any (· < 0) then
    throw (.reservesMismatch p.amounts count)
  if p.volumes.length ≠ count then throw (.volumesMismatch count)
  p.checkFee p.totalFee
  match p.curve with
  | .constantProduct => pure ()
  | .stable c => c.check count

/-- A pool with what was left out filled in, if it meets every condition. -/
def build (p : Pool) : Except Fault Pool := do
  p.withDefaults.check
  return p.withDefaults

/-- A pool without reserves, shares and volumes. -/
def create (tokens : List String) (totalFee : Int) (curve : Curve) (config : Config) :
    Except Fault Pool :=
  build
    { tokens, totalFee, curve, config
      amounts := []
      shares := .empty
      volumes := [] }

/-- All that a record keeps is equal, the balances in whatever order. -/
def agrees (p q : Pool) : Bool :=
  p.tokens == q.tokens && p.amounts == q.amounts && p.totalFee == q.totalFee
    && p.shares.totalSupply == q.shares.totalSupply
    && p.shares.balances.sameEntries q.shares.balances
    && decide (p.volumes = q.volumes) && decide (p.curve = q.curve)

def tokenIndex (p : Pool) (token : String) : Except Fault Nat :=
  match p.tokens.idxOf? token with
  | some i => .ok i
  | none => .error (.unknownToken token)

/-- The places of two different tokens. -/
def swapIndices (p : Pool) (tokenIn tokenOut : String) : Except Fault (Nat × Nat) := do
  if tokenIn = tokenOut then throw (.swapWithItself tokenIn)
  return (← p.tokenIndex tokenIn, ← p.tokenIndex tokenOut)

/-- One amount per token, none of them negative. -/
def checkAmounts (p : Pool) (amounts : List Int) : Except Fault Unit :=
  if amounts.length ≠ p.tokens.length then
    .error (.amountsCount p.tokens.length amounts.length)
  else if amounts.any (· < 0) then .error (.negativeAmounts amounts)
  else .ok ()

def modifyTotalFee (fee : Int) : Action Pool Unit := do
  (← get).checkFee fee
  modify ({ · with totalFee := fee })

end Pool

end SwapPool
