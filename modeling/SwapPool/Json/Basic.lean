import SwapPool.Number.Binary64

/-! JSON values. Numbers without a point or exponent are integers of any size;
other numbers keep what was written. Fields stay in the order of the text, and
of several with one name the last counts. -/

namespace SwapPool

inductive Scalar
  | null
  | truth (b : Bool)
  | integer (n : Int)
  | real (x : Decimal)
  | text (s : String)
  deriving DecidableEq, Repr

inductive Json
  | scalar (v : Scalar)
  | list (items : List Json)
  | object (fields : List (String × Json))

namespace Json

@[match_pattern] abbrev null : Json := .scalar .null
@[match_pattern] abbrev truth (b : Bool) : Json := .scalar (.truth b)
@[match_pattern] abbrev integer (n : Int) : Json := .scalar (.integer n)
@[match_pattern] abbrev real (x : Decimal) : Json := .scalar (.real x)
@[match_pattern] abbrev text (s : String) : Json := .scalar (.text s)

instance : Inhabited Json := ⟨null⟩

/-- The name by which a message calls the type of a value. -/
def typeName : Json → String
  | null => "NoneType"
  | truth _ => "bool"
  | integer _ => "int"
  | real _ => "float"
  | text _ => "str"
  | list _ => "list"
  | object _ => "dict"

/-- The last field with a name. -/
def lastField? (name : String) (fields : List (String × Json)) : Option Json :=
  (fields.reverse.find? (·.1 == name)).map Prod.snd

end Json

end SwapPool
