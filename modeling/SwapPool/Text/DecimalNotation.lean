import SwapPool.Number.Binary64

/-! A natural number in decimal notation with a chosen count of digits: places
after the point, or significant digits, with an exponent where that is shorter.
Significant digits are rounded, a tie to the even neighbour. -/

namespace SwapPool.Text

def zeros (n : Nat) : List Char := List.replicate n '0'

/-- An exponent has a sign and at least two digits. -/
def exponentMark (e : Int) : List Char :=
  let digits := Nat.toDigits 10 e.natAbs
  'e' :: (if e < 0 then '-' else '+') :: zeros (2 - digits.length) ++ digits

/-- The point and what follows it. A point that nothing follows is written only if `bare` holds. -/
def fractionPart (bare : Bool) (digits : List Char) : List Char :=
  if digits.isEmpty && !bare then [] else '.' :: digits

/-- The first `count` significant digits and the power of ten of the first one. -/
def significant (count n : Nat) : List Char × Nat :=
  let digits := Nat.toDigits 10 n
  if digits.length ≤ count then (digits ++ zeros (count - digits.length), digits.length - 1)
  else
    let rounded := Nat.toDigits 10
      (Binary64.roundHalfEven n (Nat.pow 10 (digits.length - count)))
    (rounded.take count, digits.length - 1 + (rounded.length - count))

def fixedPoint (bare : Bool) (places n : Nat) : List Char :=
  Nat.toDigits 10 n ++ fractionPart bare (zeros places)

def withExponent (bare : Bool) (places n : Nat) : List Char :=
  let (digits, e) := significant (places + 1) n
  digits.take 1 ++ fractionPart bare (digits.drop 1) ++ exponentMark e

def withoutTrailingZeros (digits : List Char) : List Char :=
  (digits.reverse.dropWhile (· = '0')).reverse

/-- The shorter of the two notations for `count` significant digits. Zeros at the end of a
fraction, and a point that is then bare, are kept only if `bare` holds. -/
def general (bare : Bool) (count n : Nat) : List Char :=
  let (digits, e) := significant (max count 1) n
  let whole := if e < max count 1 then e + 1 else 1
  let fraction := digits.drop whole
  digits.take whole ++ fractionPart bare (if bare then fraction else withoutTrailingZeros fraction)
    ++ (if e < max count 1 then [] else exponentMark e)

end SwapPool.Text
