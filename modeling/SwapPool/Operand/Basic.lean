import SwapPool.Number.Binary64
import SwapPool.Number.ShortestDecimal

/-! Operands of mixed kinds. A checked integer meets plain ones, truth values,
which count as zero or one, binary64 values, which an integer joins as the
nearest such value, and things that are no numbers. Names of types are those
that callers see. -/

namespace SwapPool

inductive Operand
  | plain (n : Int)
  | checked (n : Int)
  | truth (b : Bool)
  | text (s : String)
  | real (x : Binary64)
  | nothing
  deriving DecidableEq, Repr

namespace Operand

def typeName : Operand → String
  | plain _ => "int"
  | checked _ => "SafeInt"
  | truth _ => "bool"
  | text _ => "str"
  | real _ => "float"
  | nothing => "NoneType"

/-- The type that an operator meets once a checked integer has given up its value. -/
def bareTypeName : Operand → String
  | checked _ => "int"
  | x => x.typeName

def integer? : Operand → Option Int
  | plain n | checked n => some n
  | truth b => some (if b then 1 else 0)
  | _ => none

def isChecked : Operand → Bool
  | checked _ => true
  | _ => false

def isZero : Operand → Bool
  | real x => x.isZero
  | x => x.integer? == some 0

/-- How an operand appears inside a message. -/
def shown : Operand → String
  | plain n | checked n => toString n
  | truth b => if b then "True" else "False"
  | text s => s
  | real x => x.text
  | nothing => "None"

/-- How a checked integer names itself. -/
def named (n : Int) : String := s!"SafeInt({n})"

/-- The numbers that two operands have in common. -/
inductive Meeting
  | integers (x y : Int)
  | reals (x y : Binary64)
  | integerTooLarge
  | none

def realsOf : Option Binary64 → Option Binary64 → Meeting
  | some x, some y => .reals x y
  | _, _ => .integerTooLarge

/-- Integers meet as they are, and next to a binary64 value as such values. -/
def meet (a b : Operand) : Meeting :=
  match a, b with
  | real x, real y => .reals x y
  | real x, b =>
    match b.integer? with
    | some n => realsOf (some x) (Binary64.ofInteger? n)
    | none => .none
  | a, real y =>
    match a.integer? with
    | some n => realsOf (Binary64.ofInteger? n) (some y)
    | none => .none
  | a, b =>
    match a.integer?, b.integer? with
    | some x, some y => .integers x y
    | _, _ => .none

/-- What an operator answers. -/
inductive Answer
  | checked (n : Int)
  | plain (n : Int)
  | truth (b : Bool)
  | text (s : String)
  deriving DecidableEq, Repr

end Operand

end SwapPool
