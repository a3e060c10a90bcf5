import SwapPool.Json.Scan

/-! Reading values. The tokens of a text drive a machine whose state is what may
come next and the containers still open, innermost first. Lists and objects that
hold something nest no deeper than a bound; an empty one may stand one deeper. -/

namespace SwapPool.Json

/-- What a reader puts up with: how deep containers nest and how long numerals are. -/
structure Bounds where
  depth : Nat
  digits : DigitLimit

/-- An open container and what it holds so far, the latest first; an open object is
waiting for the value of a key. -/
inductive Frame
  | list (items : List Json)
  | object (fields : List (String × Json)) (key : String)

/-- What may come next. -/
inductive Expecting
  | value (frames : List Frame)
  | firstItem (frames : List Frame)
  | firstKey (frames : List Frame)
  | nextKey (fields : List (String × Json)) (frames : List Frame)
  | keyColon (key : String) (fields : List (String × Json)) (frames : List Frame)
  | afterItem (items : List Json) (frames : List Frame)
  | afterField (fields : List (String × Json)) (frames : List Frame)
  | nothing (whole : Json)

namespace Expecting

/-- A value is complete; it goes into the innermost open container. -/
def complete (j : Json) : List Frame → Expecting
  | [] => nothing j
  | .list items :: rest => afterItem (j :: items) rest
  | .object fields key :: rest => afterField ((key, j) :: fields) rest

/-- The first token of a value. -/
def begin? (frames : List Frame) : Token → Option Expecting
  | .scalar v => some (complete (.scalar v) frames)
  | .listOpen => some (firstItem frames)
  | .objectOpen => some (firstKey frames)
  | _ => none

def step? (depth : Nat) : Expecting → Token → Option Expecting
  | value frames, t => begin? frames t
  | firstItem frames, .listClose => some (complete (.list []) frames)
  | firstItem frames, t =>
    if frames.length < depth then begin? (.list [] :: frames) t else none
  | firstKey frames, .objectClose => some (complete (.object []) frames)
  | firstKey frames, .scalar (.text k) =>
    if frames.length < depth then some (keyColon k [] frames) else none
  | nextKey fields frames, .scalar (.text k) => some (keyColon k fields frames)
  | keyColon k fields frames, .colon => some (value (.object fields k :: frames))
  | afterItem items frames, .comma => some (value (.list items :: frames))
  | afterItem items frames, .listClose => some (complete (.list items.reverse) frames)
  | afterField fields frames, .comma => some (nextKey fields frames)
  | afterField fields frames, .objectClose => some (complete (.object fields.reverse) frames)
  | _, _ => none

end Expecting

/-- The value that tokens make, if they make exactly one. -/
def ofTokens? (depth : Nat) (ts : List Token) : Option Json :=
  match ts.foldlM (Expecting.step? depth) (.value []) with
  | some (.nothing j) => some j
  | _ => none

/-- The value of a text. -/
def parse? (bounds : Bounds) (s : String) : Option Json :=
  (Token.scan? bounds.digits s.toList).bind (ofTokens? bounds.depth)

end SwapPool.Json
