/-! What can be wrong with a persisted record: a place in the record and what
was found there. Places are paths of keys and list positions from the top. -/

namespace SwapPool

/-- Why a value is no amount. -/
inductive AmountFault
  | truthValue
  | unreadable (text : String)
  | wrongType (typeName : String)
  | negative (written : String)
  deriving DecidableEq, Repr

def AmountFault.message : AmountFault → String
  | truthValue => "Amount must not be a bool"
  | unreadable text => s!"Amount must be a decimal integer string: '{text}'"
  | wrongType typeName => s!"Amount must be string or int, got {typeName}"
  | negative written => s!"Amount cannot be negative: {written}"

namespace Record

inductive Segment
  | key (name : String)
  | position (index : Nat)
  deriving DecidableEq, Repr

inductive Complaint
  | invalidText
  | missing
  | notObject
  | notMap
  | notList
  | notString
  | notInteger
  | unreadableInteger
  | fractionalInteger
  | infiniteInteger
  | oversizedInteger
  | negativeInteger
  | wrongVersion
  | noTag
  | unknownTag
  | badAmount (why : AmountFault)
  deriving DecidableEq, Repr

structure Problem where
  complaint : Complaint
  path : List Segment
  deriving DecidableEq, Repr

/-- The same problem seen from one level further out. -/
def Problem.under (outer : Segment) (p : Problem) : Problem :=
  { p with path := outer :: p.path }

end Record

end SwapPool
