import SwapPool.Json.Basic

/-! Tokens of JSON text and their spelling. A value is written as its tokens one
after another with nothing between them. Quotes, backslashes and the control
characters below the space are escaped in a text, and nothing else. -/

namespace SwapPool

inductive Token
  | scalar (v : Scalar)
  | listOpen
  | listClose
  | objectOpen
  | objectClose
  | comma
  | colon
  deriving DecidableEq, Repr

namespace Token

def hexDigit (n : Nat) : Char := Nat.digitChar (n % 16)

def escape (c : Char) : List Char :=
  if c = '"' then ['\\', '"']
  else if c = '\\' then ['\\', '\\']
  else if c = '\x08' then ['\\', 'b']
  else if c = '\x0c' then ['\\', 'f']
  else if c = '\n' then ['\\', 'n']
  else if c = '\r' then ['\\', 'r']
  else if c = '\t' then ['\\', 't']
  else if c.toNat < 0x20 then
    ['\\', 'u', '0', '0', hexDigit (c.toNat / 16), hexDigit c.toNat]
  else [c]

def spellText (s : String) : List Char := '"' :: s.toList.flatMap escape ++ ['"']

def spellReal : Decimal → List Char
  | .finite negative c e =>
    (if negative then ['-'] else []) ++ (toString c).toList ++ 'e' :: (toString e).toList
  | .infinite false => "Infinity".toList
  | .infinite true => "-Infinity".toList
  | .notANumber => "NaN".toList

def spellScalar : Scalar → List Char
  | .null => "null".toList
  | .truth b => if b then "true".toList else "false".toList
  | .integer n => (toString n).toList
  | .real x => spellReal x
  | .text s => spellText s

def spell : Token → List Char
  | scalar v => spellScalar v
  | listOpen => ['[']
  | listClose => [']']
  | objectOpen => ['{']
  | objectClose => ['}']
  | comma => [',']
  | colon => [':']

end Token

namespace Json

mutual

/-- The tokens of a value. -/
def tokens : Json → List Token
  | scalar v => [.scalar v]
  | list [] => [.listOpen, .listClose]
  | list (x :: xs) => .listOpen :: tokens x ++ laterItems xs
  | object [] => [.objectOpen, .objectClose]
  | object ((k, x) :: fs) => .objectOpen :: .scalar (.text k) :: .colon :: tokens x ++ laterFields fs

def laterItems : List Json → List Token
  | [] => [.listClose]
  | x :: xs => .comma :: tokens x ++ laterItems xs

def laterFields : List (String × Json) → List Token
  | [] => [.objectClose]
  | (k, x) :: fs => .comma :: .scalar (.text k) :: .colon :: tokens x ++ laterFields fs

end

/-- The compact text of a value. -/
def render (j : Json) : String := String.ofList (j.tokens.flatMap Token.spell)

end Json

end SwapPool
