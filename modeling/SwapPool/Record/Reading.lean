import SwapPool.Json.Basic
import SwapPool.Record.Problem
import SwapPool.Text.IntegerLiteral

/-! Reading the fields of a record. A reading yields a value or all that is wrong,
in the order of the fields: the problems of one part do not hide those of the
next. Paths grow outward as the parts are put together. -/

namespace SwapPool

/-- The amount that a value states: an integer, or its text, that is not negative. -/
def amountOf (digits : DigitLimit) (j : Json) : Except AmountFault Int :=
  match j with
  | .truth _ => .error .truthValue
  | .integer n => if n < 0 then .error (.negative (toString n)) else .ok n
  | .text s =>
    match Text.integer digits s with
    | .error _ => .error (.unreadable s)
    | .ok n => if n < 0 then .error (.negative s) else .ok n
  | j => .error (.wrongType j.typeName)

namespace Record

def Reading (α : Type) : Type := Except (List Problem) α

namespace Reading

variable {α β : Type}

def ok (a : α) : Reading α := Except.ok a

def fail (complaint : Complaint) : Reading α := Except.error [⟨complaint, []⟩]

def map (f : α → β) : Reading α → Reading β
  | .ok a => .ok (f a)
  | .error ps => .error ps

/-- Both readings, with the problems of both. -/
def and (a : Reading α) (b : Reading β) : Reading (α × β) :=
  match a, b with
  | .ok a, .ok b => .ok (a, b)
  | .ok _, .error qs => .error qs
  | .error ps, .ok _ => .error ps
  | .error ps, .error qs => .error (ps ++ qs)

instance : Functor Reading := { map := map }

instance : Applicative Reading where
  pure := ok
  seq f x := map (fun (f, a) => f a) (and f (x ()))

/-- A reading seen from one level further out. -/
def under (outer : Segment) : Reading α → Reading α
  | .ok a => .ok a
  | .error ps => .error (ps.map (Problem.under outer))

/-- A further reading of a value that has been read. -/
def bind (a : Reading α) (f : α → Reading β) : Reading β :=
  match a with
  | .ok a => f a
  | .error ps => .error ps

/-- The readings of a list's items, each under its position from `i` on. -/
def items (read : α → Reading β) (i : Nat) : List α → Reading (List β)
  | [] => ok []
  | x :: xs => map (fun (y, ys) => y :: ys) (and (under (.position i) (read x)) (items read (i + 1) xs))

/-- The readings of an object's values, each under its key. -/
def entries (read : α → Reading β) : List (String × α) → Reading (List (String × β))
  | [] => ok []
  | (k, x) :: es =>
    map (fun (y, ys) => (k, y) :: ys) (and (under (.key k) (read x)) (entries read es))

end Reading

open Reading (ok fail)

def amount (digits : DigitLimit) (j : Json) : Reading Int :=
  match amountOf digits j with
  | .ok n => ok n
  | .error why => fail (.badAmount why)

def text : Json → Reading String
  | .text s => ok s
  | _ => fail .notString

/-- Whole numbers from floating point stay within 64 bits. -/
def wholeReal (x : Binary64) : Reading Int :=
  match x.signedUnits? with
  | none => fail .infiniteInteger
  | some _ =>
    match x.whole? with
    | none => fail .fractionalInteger
    | some n => if n.natAbs < Nat.pow 2 63 then ok n else fail .oversizedInteger

/-- An integer, or what plainly stands for one. -/
def integer (digits : DigitLimit) : Json → Reading Int
  | .integer n => ok n
  | .truth b => ok (if b then 1 else 0)
  | .real x => wholeReal (.ofDecimal x)
  | .text s =>
    match Text.plainInteger digits s with
    | .ok n => ok n
    | .error .unreadable => fail .unreadableInteger
    | .error (.tooLong _) => fail .oversizedInteger
  | _ => fail .notInteger

def natural (digits : DigitLimit) (j : Json) : Reading Int :=
  (integer digits j).bind fun n => if n < 0 then fail .negativeInteger else ok n

def list {α : Type} (read : Json → Reading α) : Json → Reading (List α)
  | .list xs => Reading.items read 0 xs
  | _ => fail .notList

def required {α : Type} (name : String) (read : Json → Reading α)
    (fs : List (String × Json)) : Reading α :=
  Reading.under (.key name) <|
    match Json.lastField? name fs with
    | some j => read j
    | none => fail .missing

def optional {α : Type} (name : String) (default : α) (read : Json → Reading α)
    (fs : List (String × Json)) : Reading α :=
  match Json.lastField? name fs with
  | some j => Reading.under (.key name) (read j)
  | none => ok default

/-- A part that must be an object. -/
def object {α : Type} (read : List (String × Json) → Reading α) : Json → Reading α
  | .object fs => read fs
  | _ => fail .notObject

end Record

end SwapPool
