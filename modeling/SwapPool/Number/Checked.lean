import SwapPool.Fault

/-! Arithmetic on balances and places in a list. Integers are unbounded, so nothing
overflows; a difference below zero and a quotient by zero are faults. Quotients
round toward minus infinity, ceilings toward plus infinity. A place is named by an
integer, where a negative one counts from the end; it has at most 64 bits, whatever
the length of the list. -/

namespace SwapPool

/-! ### Sums and products -/

def total (xs : List Int) : Int := xs.foldr (· + ·) 0

def product (xs : List Int) : Int := xs.foldr (· * ·) 1

@[simp] theorem total_nil : total [] = 0 := rfl

@[simp] theorem total_cons (x : Int) (xs : List Int) : total (x :: xs) = x + total xs := rfl

@[simp] theorem product_nil : product [] = 1 := rfl

@[simp] theorem product_cons (x : Int) (xs : List Int) :
    product (x :: xs) = x * product xs := rfl

theorem total_append (xs ys : List Int) : total (xs ++ ys) = total xs + total ys := by
  induction xs with
  | nil => simp
  | cons x xs ih => simp [ih, Int.add_assoc]

/-! ### Differences and quotients -/

namespace Checked

def sub (a b : Int) : Except Fault Int :=
  if a - b < 0 then .error (.underflow a b) else .ok (a - b)

/-- The quotient rounded down. -/
def quot (a b : Int) : Except Fault Int :=
  if b = 0 then .error (.divisionByZero a) else .ok (a.fdiv b)

/-- The quotient rounded up, for a divisor that is not zero. -/
def ceiling (a b : Int) : Int := -((-a).fdiv b)

def ceilQuot (a b : Int) : Except Fault Int :=
  if b = 0 then .error (.ceilingDivisionByZero a) else .ok (ceiling a b)

theorem sub_eq_ok_iff {a b r : Int} : sub a b = .ok r ↔ b ≤ a ∧ r = a - b := by
  unfold sub
  split
  · simp; omega
  · simp; omega

theorem quot_eq_ok_iff {a b r : Int} : quot a b = .ok r ↔ b ≠ 0 ∧ r = a.fdiv b := by
  unfold quot
  split <;> simp_all [eq_comm]

theorem ceilQuot_eq_ok_iff {a b r : Int} : ceilQuot a b = .ok r ↔ b ≠ 0 ∧ r = ceiling a b := by
  unfold ceilQuot
  split <;> simp_all [eq_comm]

end Checked

/-! ### Places -/

/-- Too wide for a place, a count or a version number, which have 64 bits with the sign. -/
def isWide (n : Int) : Bool := decide (n < -Int.pow 2 63 ∨ Int.pow 2 63 ≤ n)

namespace Position

/-- The place from the front, if the list reaches it. -/
def resolve? (length : Nat) (index : Int) : Option Nat :=
  let i := if index < 0 then index + length else index
  if 0 ≤ i ∧ i < length then some i.toNat else none

def resolve (length : Nat) (index : Int) : Except Fault Nat :=
  match resolve? length index with
  | some i => .ok i
  | none => .error (if isWide index then .listIndexTooWide else .listIndexOutOfRange)

def item {α : Type} (xs : List α) (index : Int) : Except Fault α := do
  match xs[← resolve xs.length index]? with
  | some x => .ok x
  | none => .error .listIndexOutOfRange

theorem resolve?_natCast {length i : Nat} (h : i < length) : resolve? length i = some i := by
  have hi : ¬ (i : Int) < 0 := by omega
  have hl : (0 : Int) ≤ i ∧ (i : Int) < length := by omega
  simp [resolve?, hi, hl]

theorem resolve_natCast {length i : Nat} (h : i < length) : resolve length i = .ok i := by
  simp [resolve, resolve?_natCast h]

theorem item_natCast {α : Type} {xs : List α} {i : Nat} (h : i < xs.length) :
    item xs i = .ok xs[i] := by
  simp [item, resolve_natCast h, bind, Except.bind, h]

end Position

end SwapPool
