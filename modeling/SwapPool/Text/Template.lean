import SwapPool.Text.DigitLimit
import SwapPool.Text.DecimalNotation

/-! Templates for one integer. A `%` begins a directive: flags, a least width, a
precision, a length mark that means nothing, and the letter of a form. The
integer fills the first directive; there has to be exactly one, and `%%` stands
for the sign itself. A template is read once from left to right, so that the
first thing wrong with it decides. -/

namespace SwapPool.Text

/-- Why a template cannot be filled. -/
inductive TemplateFlaw
  | noNames
  | variableWidth
  | wideField
  | finePrecision
  | incomplete
  | unknownLetter (letter : Char) (place : Nat)
  | tooFewValues
  | unusedValue
  | beyondCharacters
  | integerTooLarge
  | fieldBeyondMemory
  deriving DecidableEq, Repr

/-- How a letter that is shown in a message appears there. -/
def shownLetter (c : Char) : Char := if 31 ≤ c.toNat ∧ c.toNat < 127 then c else '?'

def TemplateFlaw.message : TemplateFlaw → String
  | noNames => "format requires a mapping"
  | variableWidth => "* wants int"
  | wideField => "width too big"
  | finePrecision => "precision too big"
  | incomplete => "incomplete format"
  | unknownLetter c place =>
    let code := String.ofList (Nat.toDigits 16 c.toNat)
    s!"unsupported format character '{shownLetter c}' (0x{code}) at index {place}"
  | tooFewValues => "not enough arguments for format string"
  | unusedValue => "not all arguments converted during string formatting"
  | beyondCharacters => "%c arg not in range(0x110000)"
  | integerTooLarge => "int too large to convert to float"
  | fieldBeyondMemory => ""

/-- No text longer than this can be made. -/
def longest : Nat := Nat.pow 2 36

structure Directive where
  leftAligned : Bool := false
  signed : Bool := false
  spaced : Bool := false
  alternate : Bool := false
  zeroFilled : Bool := false
  width : Nat := 0
  precision : Option Nat := none

namespace Directive

/-- A text in a field of the directive's width. -/
def place (d : Directive) (s : List Char) : List Char :=
  let gap := List.replicate (d.width - s.length) ' '
  if d.leftAligned then s ++ gap else gap ++ s

/-- A number in the field: zeros that fill it stand between the sign, with the mark of the base,
and the digits. -/
def placeNumber (d : Directive) (negative : Bool) (mark digits : List Char) : List Char :=
  let sign := if negative then ['-'] else if d.signed then ['+']
    else if d.spaced then [' '] else []
  let front := sign ++ mark
  if d.zeroFilled && !d.leftAligned then
    front ++ zeros (d.width - (front.length + digits.length)) ++ digits
  else d.place (front ++ digits)

def clip (d : Directive) (s : List Char) : List Char :=
  match d.precision with
  | none => s
  | some n => s.take n

/-- An integer in a base, with at least as many digits as the precision says. -/
def inBase (d : Directive) (base : Nat) (mark : List Char) (n : Int) : List Char :=
  let digits := Nat.toDigits base n.natAbs
  d.placeNumber (n < 0) (if d.alternate then mark else [])
    (zeros (d.precision.getD 0 - digits.length) ++ digits)

/-- An integer as the nearest binary64 value, in a notation that takes the precision. -/
def asReal (d : Directive) (layout : Bool → Nat → Nat → List Char) (n : Int) :
    Except TemplateFlaw (List Char) :=
  match Binary64.ofInteger? n with
  | some (.finite negative units) =>
    .ok (d.placeNumber negative []
      (layout d.alternate (d.precision.getD 6) (units / Binary64.one)))
  | _ => .error .integerTooLarge

def asCharacter (d : Directive) (n : Int) : Except TemplateFlaw (List Char) :=
  if n < 0 ∨ 0x110000 ≤ n then .error .beyondCharacters
  else .ok (d.place [Char.ofNat n.toNat])

/-- The integer as a letter says; `name` is its text where the value's own name is asked for. -/
def fill (d : Directive) (letter : Char) (index : Nat) (n : Int) (name : String) :
    Except TemplateFlaw (List Char) :=
  let upper := List.map Char.toUpper
  match letter with
  | 's' => .ok (d.place (d.clip (toString n).toList))
  | 'r' | 'a' => .ok (d.place (d.clip name.toList))
  | 'd' | 'i' | 'u' => .ok (d.inBase 10 [] n)
  | 'o' => .ok (d.inBase 8 ['0', 'o'] n)
  | 'x' => .ok (d.inBase 16 ['0', 'x'] n)
  | 'X' => .ok (upper (d.inBase 16 ['0', 'x'] n))
  | 'c' => d.asCharacter n
  | 'f' | 'F' => d.asReal fixedPoint n
  | 'e' => d.asReal withExponent n
  | 'E' => (d.asReal withExponent n).map upper
  | 'g' => d.asReal general n
  | 'G' => (d.asReal general n).map upper
  | _ => .error (.unknownLetter letter index)

end Directive

/-- What the next character of a template belongs to. -/
inductive TemplatePart
  | plain
  | opened
  | flags (d : Directive)
  | width (d : Directive)
  | precision (d : Directive) (started : Bool)
  | letter (d : Directive)

/-- How far a template is read: what it has come to so far, whether the integer is used, and the
place of the next character. -/
structure TemplateState where
  output : List Char := []
  used : Bool := false
  index : Nat := 0
  part : TemplatePart := .plain

namespace TemplateState

/-- The largest width and precision that a directive can state. -/
def widest : Nat := Nat.pow 2 63 - 1

def finest : Nat := Nat.pow 2 31 - 1

def digitOf (c : Char) : Nat := c.toNat - '0'.toNat

/-- The letter that ends a directive. -/
def finish (n : Int) (name : String) (s : TemplateState) (d : Directive) (c : Char) :
    Except TemplateFlaw TemplateState :=
  if s.used then .error .tooFewValues
  else if longest < d.width then .error .fieldBeyondMemory
  else (d.fill c s.index n name).map fun text =>
    { s with output := s.output ++ text, used := true, part := .plain }

/-- A character after the precision, or where there could have been one. -/
def afterPrecision (n : Int) (name : String) (s : TemplateState) (d : Directive) (c : Char) :
    Except TemplateFlaw TemplateState :=
  if c = 'h' ∨ c = 'l' ∨ c = 'L' then .ok { s with part := .letter d }
  else finish n name s d c

def afterWidth (n : Int) (name : String) (s : TemplateState) (d : Directive) (c : Char) :
    Except TemplateFlaw TemplateState :=
  if c = '.' then .ok { s with part := .precision { d with precision := some 0 } false }
  else afterPrecision n name s d c

/-- A width or precision that a value is to give; the one value there is gives none. -/
def fromValue (s : TemplateState) : Except TemplateFlaw TemplateState :=
  .error (if s.used then .tooFewValues else .variableWidth)

def stepFlags (n : Int) (name : String) (s : TemplateState) (d : Directive) (c : Char) :
    Except TemplateFlaw TemplateState :=
  match c with
  | '-' => .ok { s with part := .flags { d with leftAligned := true } }
  | '+' => .ok { s with part := .flags { d with signed := true } }
  | ' ' => .ok { s with part := .flags { d with spaced := true } }
  | '#' => .ok { s with part := .flags { d with alternate := true } }
  | '0' => .ok { s with part := .flags { d with zeroFilled := true } }
  | '*' => s.fromValue
  | _ =>
    if c.isDigit then .ok { s with part := .width { d with width := digitOf c } }
    else afterWidth n name s d c

def stepWidth (n : Int) (name : String) (s : TemplateState) (d : Directive) (c : Char) :
    Except TemplateFlaw TemplateState :=
  if !c.isDigit then afterWidth n name s d c
  else if (widest - digitOf c) / 10 < d.width then .error .wideField
  else .ok { s with part := .width { d with width := 10 * d.width + digitOf c } }

def stepPrecision (n : Int) (name : String) (s : TemplateState) (d : Directive)
    (started : Bool) (c : Char) : Except TemplateFlaw TemplateState :=
  let places := d.precision.getD 0
  if c = '*' && !started then s.fromValue
  else if !c.isDigit then afterPrecision n name s d c
  else if (finest - digitOf c) / 10 < places then .error .finePrecision
  else .ok { s with part := .precision { d with precision := some (10 * places + digitOf c) } true }

def stepPart (n : Int) (name : String) (s : TemplateState) (c : Char) :
    Except TemplateFlaw TemplateState :=
  match s.part with
  | .plain =>
    if c = '%' then .ok { s with part := .opened }
    else .ok { s with output := s.output ++ [c] }
  | .opened =>
    if c = '%' then .ok { s with output := s.output ++ ['%'], part := .plain }
    else if c = '(' then .error .noNames
    else stepFlags n name s {} c
  | .flags d => stepFlags n name s d c
  | .width d => stepWidth n name s d c
  | .precision d started => stepPrecision n name s d started c
  | .letter d => finish n name s d c

def step (n : Int) (name : String) (s : TemplateState) (c : Char) :
    Except TemplateFlaw TemplateState :=
  (stepPart n name s c).map fun t => { t with index := s.index + 1 }

end TemplateState

/-- The template with the integer in its place. -/
def fillTemplate (n : Int) (name : String) (template : String) : Except TemplateFlaw String := do
  let s ← template.toList.foldlM (TemplateState.step n name) {}
  match s.part with
  | .plain => if s.used then return String.ofList s.output else throw .unusedValue
  | _ => throw .incomplete

end SwapPool.Text
