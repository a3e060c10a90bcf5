import SwapPool.Operand.Refusal

/-! Equality and order of operands. Integers and binary64 values are ordered by
their exact values, never by a rounded one. When the checked integer stands on
the right, the question is turned around before it is asked. -/

namespace SwapPool.Operand

/-- Equal in value. A checked integer equals integers and truth values and nothing else; what is
not a number is at least itself. -/
def equals (a b : Operand) : Bool :=
  match a.integer?, b.integer? with
  | some x, some y => x == y
  | _, _ =>
    match a, b with
    | text s, text t => s == t
    | nothing, nothing => true
    | real x, real y => x == y || (x.isZero && y.isZero)
    | real x, plain n | plain n, real x => x.compareInteger? n == some .eq
    | real x, truth p | truth p, real x =>
      x.compareInteger? (if p then 1 else 0) == some .eq
    | _, _ => false

inductive Comparison
  | eq
  | ne
  | lt
  | le
  | gt
  | ge
  deriving DecidableEq, Repr

namespace Comparison

def symbol : Comparison → String
  | eq => "=="
  | ne => "!="
  | lt => "<"
  | le => "<="
  | gt => ">"
  | ge => ">="

def holds : Comparison → Ordering → Bool
  | eq => (·.isEq)
  | ne => (·.isNe)
  | lt => (·.isLT)
  | le => (·.isLE)
  | gt => (·.isGT)
  | ge => (·.isGE)

/-- The same question with the operands exchanged. -/
def mirrored : Comparison → Comparison
  | eq => eq
  | ne => ne
  | lt => gt
  | le => ge
  | gt => lt
  | ge => le

end Comparison

/-- Whether a comparison holds of two numbers; against what is not a number it does not. Without
two numbers there is no order. -/
def ordered? (o : Comparison) (a b : Operand) : Option Bool :=
  match a, b with
  | real x, b => b.integer?.map fun n => (x.compareInteger? n).any o.holds
  | a, real y => a.integer?.map fun n => (y.compareInteger? n).any o.mirrored.holds
  | a, b =>
    match a.integer?, b.integer? with
    | some x, some y => some (o.holds (compareOfLessAndEq x y))
    | _, _ => none

def compareInOrder (o : Comparison) (a b : Operand) : Except Refusal Answer :=
  match ordered? o a b with
  | some holds => .ok (.truth holds)
  | none => .error (.unordered o.symbol a.bareTypeName b.bareTypeName)

def compare (o : Comparison) (a b : Operand) : Except Refusal Answer :=
  match o with
  | .eq => .ok (.truth (equals a b))
  | .ne => .ok (.truth (!equals a b))
  | _ => if a.isChecked then compareInOrder o a b else compareInOrder o.mirrored b a

/-- How many values a list holds when equal ones count once. -/
def distinct (xs : List Operand) : Nat :=
  (xs.foldl (fun seen x => if seen.any (equals · x) then seen else x :: seen) []).length

end SwapPool.Operand
