/-! How long a numeral may be. Turning digits into a number and back takes time
that grows with the square of their count, so a host may bound the count; a
host without a bound converts integers of any size. -/

namespace SwapPool

inductive DigitLimit
  | unbounded
  | atMost (digits : Nat)
  deriving DecidableEq, Repr

namespace DigitLimit

/-- The bound that a host has unless it chooses another. -/
def standard : DigitLimit := atMost 4300

def admits : DigitLimit → Nat → Bool
  | unbounded, _ => true
  | atMost digits, count => decide (count ≤ digits)

/-- Whether the numeral of an integer, its sign aside, is short enough. -/
def covers : DigitLimit → Int → Bool
  | unbounded, _ => true
  | atMost digits, n => decide (n.natAbs < Nat.pow 10 digits)

def shown : DigitLimit → String
  | unbounded => "unbounded"
  | atMost digits => toString digits

/-- The message when a numeral of so many digits is not read. -/
def readingRefusal (limit : DigitLimit) (count : Nat) : String :=
  s!"Exceeds the limit ({limit.shown} digits) for integer string conversion: "
    ++ s!"value has {count} digits; use sys.set_int_max_str_digits() to increase the limit"

/-- The message when an integer is not written. -/
def writingRefusal (limit : DigitLimit) : String :=
  s!"Exceeds the limit ({limit.shown} digits) for integer string conversion; "
    ++ "use sys.set_int_max_str_digits() to increase the limit"

@[simp] theorem unbounded_admits (count : Nat) : unbounded.admits count = true := rfl

@[simp] theorem unbounded_covers (n : Int) : unbounded.covers n = true := rfl

end DigitLimit

end SwapPool
