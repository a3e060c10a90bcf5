import SwapPool.Operand.Basic
import SwapPool.Text.Template

/-! Why an operator refuses its operands. A refusal is a cause with the operands
that show it; its kind and its message are derived from it. -/

namespace SwapPool.Operand

inductive RefusalKind
  | underflow
  | divisionByZero
  | zeroDivision
  | wrongType
  | invalidValue
  | outOfRange
  | overflow
  | memory
  deriving DecidableEq, Repr

inductive Refusal
  | underflow (minuend subtrahend difference : Operand)
  | divisionByZero (dividend : Operand)
  | moduloByZero (dividend : Operand)
  | ceilingDivisionByZero (dividend : Operand)
  | zeroToNegativePower
  | notInteger (typeName : String)
  | unsupported (symbol left right : String)
  | unordered (symbol left right : String)
  | unjoined (typeName : String)
  | integerTooLarge
  | powerTooLarge
  | complexPowerTooLarge
  | countTooWide
  | repeatedTooLong
  | beyondMemory
  | template (why : Text.TemplateFlaw)
  | notAnIndex (typeName : String)
  | indexTooWide (typeName : String)
  | outOfRange
  | numeralTooLong (limit : DigitLimit)
  deriving DecidableEq, Repr

namespace Refusal

def templateKind : Text.TemplateFlaw → RefusalKind
  | .noNames | .variableWidth | .tooFewValues | .unusedValue => .wrongType
  | .wideField | .finePrecision | .incomplete | .unknownLetter .. => .invalidValue
  | .beyondCharacters | .integerTooLarge => .overflow
  | .fieldBeyondMemory => .memory

def kind : Refusal → RefusalKind
  | underflow .. => .underflow
  | divisionByZero .. | moduloByZero .. | ceilingDivisionByZero .. => .divisionByZero
  | zeroToNegativePower => .zeroDivision
  | notInteger .. | unsupported .. | unordered .. | unjoined .. | notAnIndex .. => .wrongType
  | integerTooLarge | powerTooLarge | complexPowerTooLarge | countTooWide | repeatedTooLong =>
    .overflow
  | beyondMemory => .memory
  | template why => templateKind why
  | indexTooWide .. | outOfRange => .outOfRange
  | numeralTooLong .. => .invalidValue

def message : Refusal → String
  | underflow a b d => s!"Underflow: {a.shown} - {b.shown} = {d.shown}"
  | divisionByZero a => s!"Division by zero: {a.shown} // 0"
  | moduloByZero a => s!"Modulo by zero: {a.shown} % 0"
  | ceilingDivisionByZero a => s!"Ceiling division by zero: {a.shown}"
  | zeroToNegativePower => "0.0 cannot be raised to a negative power"
  | notInteger t => s!"SafeInt requires int, got {t}"
  | unsupported o l r => s!"unsupported operand type(s) for {o}: '{l}' and '{r}'"
  | unordered o l r => s!"'{o}' not supported between instances of '{l}' and '{r}'"
  | unjoined t => s!"can only concatenate str (not \"{t}\") to str"
  | integerTooLarge => "int too large to convert to float"
  | powerTooLarge => "(34, 'Numerical result out of range')"
  | complexPowerTooLarge => "complex exponentiation"
  | countTooWide => "cannot fit 'int' into an index-sized integer"
  | repeatedTooLong => "repeated string is too long"
  | beyondMemory => ""
  | template why => why.message
  | notAnIndex t => s!"list indices must be integers or slices, not {t}"
  | indexTooWide t => s!"cannot fit '{t}' into an index-sized integer"
  | outOfRange => "list index out of range"
  | numeralTooLong limit => limit.writingRefusal

/-- The operands that the message shows. -/
def operands : Refusal → List Operand
  | underflow a b d => [a, b, d]
  | divisionByZero a | moduloByZero a | ceilingDivisionByZero a => [a]
  | _ => []

def covered (limit : DigitLimit) : Operand → Bool
  | .plain n | .checked n => limit.covers n
  | _ => true

/-- What a host with a digit limit reports: a message that would need a longer numeral gives way
to that limit. -/
def reported (limit : DigitLimit) (r : Refusal) : Refusal :=
  if r.operands.all (covered limit) then r else .numeralTooLong limit

@[simp] theorem reported_unbounded (r : Refusal) : r.reported .unbounded = r := by
  have h : r.operands.all (covered .unbounded) = true :=
    List.all_eq_true.2 fun a _ => by cases a <;> rfl
  simp [reported, h]

end Refusal

end SwapPool.Operand
