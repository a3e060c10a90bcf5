import SwapPool.Number.Checked
import SwapPool.Operand.Comparison

/-! The named operations of a checked integer, which is the first operand, and the
uses of an operand as an integer. -/

namespace SwapPool.Operand

/-- An operand made a checked integer: only integers qualify. -/
def toChecked : Operand → Except Refusal Answer
  | plain n | checked n => .ok (.checked n)
  | x => .error (.notInteger x.typeName)

inductive Method
  | ceilingDiv
  | absDiff
  | min
  | max
  deriving DecidableEq, Repr

/-- An operation on two integers. Binary64 values would give another, and what is no number is
refused as the operator `symbol` refuses it. -/
def onIntegers (symbol : String) (f : Int → Int → Int) (a b : Operand) :
    Except Refusal Answer :=
  match meet a b with
  | .integers x y => .ok (.checked (f x y))
  | .reals .. => .error (.notInteger "float")
  | .integerTooLarge => .error .integerTooLarge
  | .none => .error (.unsupported symbol a.bareTypeName b.bareTypeName)

/-- The second operand if it compares to the first as asked, and otherwise the first. -/
def pick (o : Comparison) (a b : Operand) : Except Refusal Answer :=
  match ordered? o b a with
  | some true => b.toChecked
  | some false => a.toChecked
  | none => .error (.unordered o.symbol b.bareTypeName a.bareTypeName)

def call (m : Method) (a b : Operand) : Except Refusal Answer :=
  match m with
  | .ceilingDiv =>
    if b.isZero then .error (.ceilingDivisionByZero a)
    else onIntegers "//" Checked.ceiling a b
  | .absDiff => onIntegers "-" (fun x y => (x - y).natAbs) a b
  | .min => pick .lt a b
  | .max => pick .gt a b

/-- The item of a list at the place that an operand names. -/
def itemAt (items : List Int) (place : Operand) : Except Refusal Answer :=
  match place.integer? with
  | none => .error (.notAnIndex place.typeName)
  | some index =>
    match (Position.resolve? items.length index).bind (items[·]?) with
    | some n => .ok (.plain n)
    | none =>
      .error (if isWide index then .indexTooWide place.typeName else .outOfRange)

end SwapPool.Operand
