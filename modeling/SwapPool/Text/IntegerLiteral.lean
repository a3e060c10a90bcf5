import SwapPool.Text.DigitLimit

/-! Integers written as text: blanks at either end, at most one sign, then digits,
where a single `_` may stand between two digits. Digits of any script count. A run
of digits that is too long is refused before what follows it is looked at. A record
holds plain integers, whose strict form is the one of the numbers around them: a
sign for the negative ones, and digits without leading zeros. A looser text is
first brought to that form; one that cannot be is read as it stands. -/

namespace SwapPool.Text

/-! ### Characters -/

/-- The characters with the Unicode property `White_Space`. -/
def isBlank (c : Char) : Bool :=
  let n := c.toNat
  (0x09 ≤ n && n ≤ 0x0D) || n == 0x20 || n == 0x85 || n == 0xA0 || n == 0x1680
    || (0x2000 ≤ n && n ≤ 0x200A) || n == 0x2028 || n == 0x2029 || n == 0x202F
    || n == 0x205F || n == 0x3000

/-- A text without the blanks at its two ends. -/
def trimmed (s : List Char) : List Char :=
  ((s.dropWhile isBlank).reverse.dropWhile isBlank).reverse

-- Every script writes its ten digits as a run of consecutive characters, so a digit's value is its
-- distance from the zero of its run.
/-- The zeros of the runs of general category `Nd`; the mathematical digits are five runs. -/
def digitZeros : List Nat :=
  [0x0030, 0x0660, 0x06F0, 0x07C0, 0x0966, 0x09E6, 0x0A66, 0x0AE6, 0x0B66, 0x0BE6, 0x0C66,
   0x0CE6, 0x0D66, 0x0DE6, 0x0E50, 0x0ED0, 0x0F20, 0x1040, 0x1090, 0x17E0, 0x1810, 0x1946,
   0x19D0, 0x1A80, 0x1A90, 0x1B50, 0x1BB0, 0x1C40, 0x1C50, 0xA620, 0xA8D0, 0xA900, 0xA9D0,
   0xA9F0, 0xAA50, 0xABF0, 0xFF10, 0x104A0, 0x10D30, 0x11066, 0x110F0, 0x11136, 0x111D0,
   0x112F0, 0x11450, 0x114D0, 0x11650, 0x116C0, 0x11730, 0x118E0, 0x11950, 0x11C50, 0x11D50,
   0x11DA0, 0x16A60, 0x16AC0, 0x16B50, 0x1D7CE, 0x1D7D8, 0x1D7E2, 0x1D7EC, 0x1D7F6, 0x1E140,
   0x1E2F0, 0x1E950, 0x1FBF0]

/-- The value of a decimal digit of any script. -/
def digitValue? (c : Char) : Option Nat :=
  (digitZeros.find? fun z => z ≤ c.toNat && c.toNat < z + 10).map (c.toNat - ·)

/-- The value of one of the ten ASCII digits. -/
def asciiDigit? (c : Char) : Option Nat :=
  if c.isDigit then some (c.toNat - '0'.toNat) else none

/-! ### Literals -/

/-- Why a text is no integer. -/
inductive Flaw
  | unreadable
  | tooLong (digits : Nat)
  deriving DecidableEq, Repr

/-- The number whose decimal digits these are, the highest first. -/
def ofDigits (digits : List Nat) : Nat := digits.foldl (fun n d => 10 * n + d) 0

def hasDoubled (c : Char) : List Char → Bool
  | a :: b :: rest => (a = c && b = c) || hasDoubled c (b :: rest)
  | _ => false

/-- Every `_` stands between two other characters, and no two stand together. -/
def wellSeparated (s : List Char) : Bool :=
  s.head? != some '_' && s.getLast? != some '_' && !hasDoubled '_' s

def continuesNumeral (c : Char) : Bool := c = '_' || (digitValue? c).isSome

def natural (limit : DigitLimit) (s : List Char) : Except Flaw Nat :=
  let run := s.takeWhile continuesNumeral
  let digits := run.filterMap digitValue?
  if !wellSeparated run then .error .unreadable
  else if !limit.admits digits.length then .error (.tooLong digits.length)
  else if run.isEmpty || run.length < s.length then .error .unreadable
  else .ok (ofDigits digits)

def signed (limit : DigitLimit) : List Char → Except Flaw Int
  | '+' :: rest => (natural limit rest).map Int.ofNat
  | '-' :: rest => (natural limit rest).map fun n => -Int.ofNat n
  | s => (natural limit s).map Int.ofNat

/-- The integer that a text states. -/
def integer (limit : DigitLimit) (s : String) : Except Flaw Int :=
  signed limit (trimmed s.toList)

/-! ### Plain integers -/

def isLeadingDigit (c : Char) : Bool := '1' ≤ c && c ≤ '9'

/-- What remains after a zero when the zeros and the `_` that follow it go as well. The last
character that went, `last`, stays where nothing or a point comes next. -/
def afterZeros (last : Char) : List Char → Option (List Char)
  | [] => some [last]
  | c :: rest =>
    if c = '0' || c = '_' then afterZeros c rest
    else if c = '.' then some (last :: c :: rest)
    else if isLeadingDigit c || c = '-' then some (c :: rest)
    else none

def withoutLeadingZeros : List Char → Option (List Char)
  | [] => none
  | c :: rest =>
    if c = '0' then afterZeros c rest
    else if isLeadingDigit c || c = '-' then some (c :: rest)
    else none

/-- A text up to its first point, which nothing but zeros, and at least one, may follow. -/
def withoutZeroFraction (s : List Char) : Option (List Char) :=
  match s.span (· ≠ '.') with
  | (whole, []) => some whole
  | (whole, _ :: fraction) =>
    if !fraction.isEmpty && fraction.all (· = '0') then some whole else none

def withoutSeparators (s : List Char) : List Char :=
  if wellSeparated s then s.filter (· ≠ '_') else s

def magnitude? (s : List Char) : Option (List Char) :=
  ((withoutLeadingZeros s).bind withoutZeroFraction).map withoutSeparators

/-- The strict form of a text, blanks at its ends and a leading `+` left out. -/
def strictForm? (s : List Char) : Option (List Char) :=
  match trimmed s with
  | '+' :: '-' :: _ => none
  | '+' :: rest => magnitude? rest
  | '-' :: rest => (magnitude? rest).map ('-' :: ·)
  | s => magnitude? s

/-- A number in strict form after its sign, which counts as a character of the numeral. -/
def strictNatural (limit : DigitLimit) (signs : Nat) (s : List Char) : Except Flaw Nat :=
  let run := s.takeWhile Char.isDigit
  if s = ['0'] then .ok 0
  else if run.isEmpty || run.head? = some '0' then .error .unreadable
  else if !limit.admits (signs + run.length) then .error (.tooLong run.length)
  else if run.length < s.length then .error .unreadable
  else .ok (ofDigits (run.filterMap asciiDigit?))

def strictInteger (limit : DigitLimit) : List Char → Except Flaw Int
  | '-' :: rest => (strictNatural limit 1 rest).map fun n => -Int.ofNat n
  | s => (strictNatural limit 0 s).map Int.ofNat

/-- The plain integer that a text states. -/
def plainInteger (limit : DigitLimit) (s : String) : Except Flaw Int :=
  strictInteger limit ((strictForm? s.toList).getD s.toList)

end SwapPool.Text
