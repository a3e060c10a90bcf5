import SwapPool.Pool.Basic

/-! Comparable amounts. A stable curve measures every token in one unit: an
amount is scaled to the target decimals and by the token's rate. Both ways
round down, so going there and back never gains. -/

namespace SwapPool

/-- A raw amount in comparable units; `unit` is the worth of one raw unit at rate precision. -/
def toComparable (unit amount : Int) : Int := (unit * amount).fdiv ratePrecision

/-- The raw amount for a comparable one. -/
def fromComparable (unit amount : Int) : Int := (amount * ratePrecision).fdiv unit

namespace StableCurve

/-- The rates that apply when none are supplied. -/
def cachedRates (c : StableCurve) (count : Nat) : List Int :=
  match c.valuation with
  | .pegged => List.replicate count ratePrecision
  | .rated rates => rates
  | .riskCapped factors => factors

/-- Supplied rates, if they are valid, before the cached ones. -/
def effectiveRates (c : StableCurve) (count : Nat) (rates : Option (List Int)) :
    Except Fault (List Int) :=
  match rates with
  | none => .ok (c.cachedRates count)
  | some rates => do
    validateRates rates count
    return rates

/-- The worth of one raw unit of a token with the given decimals. -/
def unit (c : StableCurve) (decimals rate : Int) : Int :=
  Int.pow 10 (c.valuation.targetDecimals - decimals).toNat * rate

def units (c : StableCurve) (rates : List Int) : List Int :=
  List.zipWith c.unit c.decimals rates

end StableCurve

/-- Raw amounts of all tokens in comparable units. -/
def comparables (units amounts : List Int) : List Int :=
  List.zipWith toComparable units amounts

/-- Comparable amounts of a list that may be longer than the tokens, which is a fault. -/
def comparables? (units amounts : List Int) : Except Fault (List Int) :=
  if units.length < amounts.length then .error .listIndexOutOfRange
  else .ok (comparables units amounts)

namespace Pool

/-- The reserves in comparable units at given rates. -/
def comparableReserves (p : Pool) (c : StableCurve) (rates : List Int) : List Int :=
  comparables (c.units rates) p.amounts

end Pool

end SwapPool
