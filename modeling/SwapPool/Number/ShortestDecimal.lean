import SwapPool.Text.DecimalNotation

/-! The fewest decimal digits that read back as a binary64 value. The reals that
round to a value form an interval around it, ends included when its significand
is even. On the grids of one, two and more significant digits the neighbours of
the value are tried in turn; seventeen digits always suffice. -/

namespace SwapPool

/-- Decimal digits with a scale: `digits * 10 ^ exponent`. -/
structure ScaledDigits where
  digits : Nat
  exponent : Int
  deriving DecidableEq, Repr

namespace Binary64

/-- The interval of reals that round to a count of units, in quarters of a unit. Below a power of
two the neighbours are twice as close as above it. -/
def roundingInterval (units : Nat) : Nat × Nat :=
  let gap := step units
  let below := if units = Nat.pow 2 units.log2 && 1 < gap then gap else 2 * gap
  (4 * units - below, 4 * units + 2 * gap)

/-- How many digits a value has before the point; zeros after the point count downwards. -/
def integerDigits (units : Nat) : Int :=
  (Nat.toDigits 10 (units * Nat.pow 10 400 / one)).length - 400

/-- `10 ^ e` on a scale on which it and a quarter of a unit are both whole. -/
def ofTens (e : Int) : Nat := 4 * one * Nat.pow 10 e.toNat

/-- A quarter of a unit on that scale. -/
def ofQuarters (e : Int) : Nat := Nat.pow 10 (-e).toNat

/-- Whether `c * 10 ^ e` reads back as a count of units. -/
def readsBack (units : Nat) (e : Int) (c : Nat) : Bool :=
  let (low, high) := roundingInterval units
  let x := c * ofTens e
  if units / step units % 2 = 0 then low * ofQuarters e ≤ x && x ≤ high * ofQuarters e
  else low * ofQuarters e < x && x < high * ofQuarters e

/-- The nearest point of the grid of `10 ^ e` that reads back, if one does; a tie goes to the
even one. -/
def onGrid? (units : Nat) (e : Int) : Option Nat :=
  let value := 4 * units * ofQuarters e
  let c := value / ofTens e
  let nearest := roundHalfEven value (ofTens e)
  let other := if nearest = c then c + 1 else c
  [nearest, other].find? (readsBack units e)

/-- Digits without the zeros at their end. -/
def trimZeros : Nat → ScaledDigits → ScaledDigits
  | 0, d => d
  | n + 1, d =>
    if d.digits % 10 = 0 then trimZeros n ⟨d.digits / 10, d.exponent + 1⟩ else d

/-- The shortest digits of a count of units that is not zero. -/
def shortest (units : Nat) : ScaledDigits :=
  let grids := (List.range 17).map fun k => integerDigits units - (k + 1 : Nat)
  match grids.findSome? fun e => (onGrid? units e).map fun c => (⟨c, e⟩ : ScaledDigits) with
  | some d => trimZeros 17 d
  | none => ⟨0, 0⟩

/-! ### As text -/

open Text (zeros exponentMark)

/-- Digits with the point after the first `n` of the number that `0.` and the digits make. -/
def positional (digits : List Char) (point : Int) : List Char :=
  if point ≤ 0 then '0' :: '.' :: zeros (-point).toNat ++ digits
  else if digits.length ≤ point.toNat then
    digits ++ zeros (point.toNat - digits.length) ++ ['.', '0']
  else digits.take point.toNat ++ '.' :: digits.drop point.toNat

def scientific (digits : List Char) (point : Int) : List Char :=
  digits.take 1 ++ (if digits.length ≤ 1 then [] else '.' :: digits.drop 1)
    ++ exponentMark (point - 1)

/-- The text of a count of units: positional from `0.0001` up to below `10 ^ 16`. -/
def magnitudeText (units : Nat) : List Char :=
  if units = 0 then "0.0".toList
  else
    let d := shortest units
    let digits := Nat.toDigits 10 d.digits
    let point := d.exponent + digits.length
    if -4 < point && point ≤ 16 then positional digits point else scientific digits point

def text : Binary64 → String
  | finite negative units =>
    String.ofList ((if negative then ['-'] else []) ++ magnitudeText units)
  | infinite negative => if negative then "-inf" else "inf"
  | notANumber => "nan"

end Binary64

end SwapPool
