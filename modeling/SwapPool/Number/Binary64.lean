/-! Decimal numbers and binary64 values. Every finite binary64 value is a whole
number of units of `2 ^ -1074`, so a value is a sign and a count, and rounding
is one division with ties to the even neighbour. A power of an integer is beyond
the finite values when the exponent times the base's binary logarithm reaches
1024, so the logarithm is computed in fixed point, one bit per squaring. -/

namespace SwapPool

/-- A number as written: a sign, a coefficient and a power of ten, or one of the marks. -/
inductive Decimal
  | finite (negative : Bool) (coefficient : Nat) (exponent : Int)
  | infinite (negative : Bool)
  | notANumber
  deriving DecidableEq, Repr

/-- A sign and a count of units, or one of the marks. -/
inductive Binary64
  | finite (negative : Bool) (units : Nat)
  | infinite (negative : Bool)
  | notANumber
  deriving DecidableEq, Repr

namespace Binary64

/-- How many units make one. -/
def one : Nat := Nat.pow 2 1074

/-- The first power of two beyond the finite values, in units. -/
def bound : Nat := Nat.pow 2 2098

/-- The nearest whole number to `a / b`; a tie goes to the even one. -/
def roundHalfEven (a b : Nat) : Nat :=
  let q := a / b
  let r := 2 * (a % b)
  if r < b || (r == b && q % 2 == 0) then q else q + 1

/-- The distance in units between neighbours at a magnitude: 53 significant bits, or whole units
below. -/
def step (units : Nat) : Nat := Nat.pow 2 (units.log2 - 52)

/-- The count of units nearest to `a / b` units that is representable, if it were unbounded. -/
def nearestUnits (a b : Nat) : Nat := roundHalfEven a (b * step (a / b)) * step (a / b)

/-- A count of units as a value; beyond the finite ones it is infinite. -/
def ofUnits (negative : Bool) (units : Nat) : Binary64 :=
  if units < bound then finite negative units else infinite negative

/-- The value nearest to `c * 10 ^ e`. The two guards answer for magnitudes far outside the
range, whose powers of ten are never formed. -/
def ofScientific (negative : Bool) (c : Nat) (e : Int) : Binary64 :=
  let digits : Int := (Nat.toDigits 10 c).length
  if c = 0 || digits + e < -400 then finite negative 0
  else if digits + e > 400 then infinite negative
  else if 0 ≤ e then ofUnits negative (nearestUnits (c * Nat.pow 10 e.toNat * one) 1)
  else ofUnits negative (nearestUnits (c * one) (Nat.pow 10 (-e).toNat))

def ofDecimal : Decimal → Binary64
  | .finite negative c e => ofScientific negative c e
  | .infinite negative => infinite negative
  | .notANumber => notANumber

/-- The value nearest to an integer, unless that is infinite. -/
def ofInteger? (n : Int) : Option Binary64 :=
  match ofUnits (n < 0) (nearestUnits (n.natAbs * one) 1) with
  | finite negative units => some (finite negative units)
  | _ => none

/-- The signed count of a finite value's units; the two zeros have the same. -/
def signedUnits? : Binary64 → Option Int
  | finite negative units => some (if negative then -(units : Int) else units)
  | _ => none

/-- The integer that a value is, if it is one. -/
def whole? (x : Binary64) : Option Int :=
  x.signedUnits?.bind fun units => if units % one = 0 then some (units / one) else none

def isZero (x : Binary64) : Bool := x.signedUnits? == some 0

def isNegative : Binary64 → Bool
  | finite negative units => negative && units != 0
  | infinite negative => negative
  | notANumber => false

/-- How a value compares to an integer, exactly; what is not a number does not compare. -/
def compareInteger? (x : Binary64) (n : Int) : Option Ordering :=
  match x with
  | finite .. => x.signedUnits?.map fun units => compareOfLessAndEq units (n * one)
  | infinite negative => some (if negative then .lt else .gt)
  | notANumber => none

/-- The difference, rounded. -/
def sub : Binary64 → Binary64 → Binary64
  | notANumber, _ | _, notANumber => notANumber
  | infinite p, infinite q => if p = q then notANumber else infinite p
  | infinite p, finite .. => infinite p
  | finite .., infinite q => infinite !q
  | finite p a, finite q b =>
    let x : Int := if p then -(a : Int) else a
    let y : Int := if q then -(b : Int) else b
    ofUnits (x - y < 0) (nearestUnits (x - y).natAbs 1)

/-! ### Powers beyond the finite values -/

/-- How many bits of the logarithm's fraction are computed, and the precision of the squarings. -/
def logBits : Nat := 128

def logPrecision : Nat := 256

/-- The first `k` fraction bits, after the bits in `bits`, of the binary logarithm of a number
from 1 to below 2 that is given in fixed point. -/
def logFraction (bits m : Nat) : Nat → Nat
  | 0 => bits
  | k + 1 =>
    let square := m * m / Nat.pow 2 logPrecision
    if square < Nat.pow 2 (logPrecision + 1) then logFraction (2 * bits) square k
    else logFraction (2 * bits + 1) (square / 2) k

/-- The binary logarithm of a positive integer, rounded down to `logBits` places. -/
def fixedLog (n : Nat) : Nat :=
  n.log2 * Nat.pow 2 logBits
    + logFraction 0 (n * Nat.pow 2 logPrecision / Nat.pow 2 n.log2) logBits

/-- Whether `base ^ x` is too large, for an exponent of `units`. -/
def powerOverflows (base units : Nat) : Bool :=
  if base < 2 then false else 1024 * Nat.pow 2 logBits * one ≤ fixedLog base * units

end Binary64

end SwapPool
