import SwapPool.Number.Checked
import SwapPool.Operand.Refusal

/-! Arithmetic on operands of which at least one is a checked integer. A plain
operand may stand on either side, except that remainders and powers need the
checked integer on the left. Only an integer can be checked again, so whatever
else an operator makes is refused by the name of its type. -/

namespace SwapPool.Operand

inductive Arithmetic
  | add
  | sub
  | mul
  | floorDiv
  | modulo
  | power
  deriving DecidableEq, Repr

/-- What an operator makes of plain operands: an integer, or something of another type. -/
inductive Outcome
  | integer (n : Int)
  | other (typeName : String)

namespace Arithmetic

def symbol : Arithmetic → String
  | add => "+"
  | sub => "-"
  | mul => "*"
  | floorDiv => "//"
  | modulo => "%"
  | power => "** or pow()"

def real : Except Refusal Outcome := .ok (.other "float")

/-- Powers of binary64 values. A negative base has a real power only for a whole exponent. -/
def powerOfReals : Binary64 → Binary64 → Except Refusal Outcome
  | .finite p a, .finite q b =>
    if b = 0 then real
    else if a = 0 then if q then .error .zeroToNegativePower else real
    else
      let tooLarge := !q && Binary64.powerOverflows (a / Binary64.one) b
      if p && (Binary64.finite q b).whole?.isNone then
        if tooLarge then .error .complexPowerTooLarge else .ok (.other "complex")
      else if tooLarge then .error .powerTooLarge
      else real
  | _, _ => real

def onReals (o : Arithmetic) (a b : Operand) (x y : Binary64) : Except Refusal Outcome :=
  match o with
  | sub => if (x.sub y).isNegative then .error (.underflow a b (.real (x.sub y))) else real
  | power => powerOfReals x y
  | _ => real

/-- A divisor is known not to be zero here. -/
def onIntegers (o : Arithmetic) (a b : Operand) (x y : Int) : Except Refusal Outcome :=
  match o with
  | add => .ok (.integer (x + y))
  | mul => .ok (.integer (x * y))
  | sub => if x - y < 0 then .error (.underflow a b (.plain (x - y))) else .ok (.integer (x - y))
  | floorDiv => .ok (.integer (x.fdiv y))
  | modulo => .ok (.integer (x.fmod y))
  | power =>
    if 0 ≤ y then .ok (.integer (x.pow y.toNat))
    else
      match Binary64.ofInteger? x, Binary64.ofInteger? y with
      | some x, some y => powerOfReals x y
      | _, _ => .error .integerTooLarge

/-- A text repeated; the count and the length of the result are bounded. -/
def repeated (s : String) (count : Int) : Except Refusal Outcome :=
  let length := s.length * count.toNat
  if isWide count then .error .countTooWide
  else if isWide length then .error .repeatedTooLong
  else if Text.longest < length then .error .beyondMemory
  else .ok (.other "str")

/-- Operands of which one is no number. -/
def onOthers (o : Arithmetic) (a b : Operand) : Except Refusal Outcome :=
  let refused := Except.error (.unsupported o.symbol a.bareTypeName b.bareTypeName)
  match o, a, b with
  | add, .text _, b => .error (.unjoined b.bareTypeName)
  | mul, .text s, b => b.integer?.elim refused (repeated s)
  | mul, a, .text s => a.integer?.elim refused (repeated s)
  | _, _, _ => refused

/-- The refusal of a division by zero, which comes before all others. -/
def zeroDivisor? (o : Arithmetic) (a b : Operand) : Option Refusal :=
  match o with
  | floorDiv => if b.isZero then some (.divisionByZero a) else none
  | modulo => if b.isZero then some (.moduloByZero a) else none
  | _ => none

def onValues (o : Arithmetic) (a b : Operand) : Except Refusal Outcome :=
  match o.zeroDivisor? a b with
  | some r => .error r
  | none =>
    match meet a b with
    | .integers x y => o.onIntegers a b x y
    | .reals x y => o.onReals a b x y
    | .integerTooLarge => .error .integerTooLarge
    | .none => o.onOthers a b

def needsCheckedLeft : Arithmetic → Bool
  | modulo | power => true
  | _ => false

/-- A checked integer on the right of an operator that needs it on the left. A text takes it into
a template. -/
def onCheckedRight (o : Arithmetic) (a b : Operand) : Except Refusal Answer :=
  match o, a, b with
  | modulo, .text s, .checked n =>
    ((Text.fillTemplate n (named n) s).mapError .template).map .text
  | _, _, _ => .error (.unsupported o.symbol a.typeName b.typeName)

end Arithmetic

def Outcome.toChecked : Outcome → Except Refusal Answer
  | integer n => .ok (.checked n)
  | other t => .error (.notInteger t)

def arithmetic (o : Arithmetic) (a b : Operand) : Except Refusal Answer :=
  if o.needsCheckedLeft && !a.isChecked then o.onCheckedRight a b
  else if o == .power && b.isChecked then
    .error (.unsupported o.symbol a.bareTypeName b.typeName)
  else (o.onValues a b).bind Outcome.toChecked

end SwapPool.Operand
