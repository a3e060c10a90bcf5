import SwapPool.Fault

/-! Integer roots: the greatest integer whose `n`-th power does not exceed `x`.
Newton's step on the integers, started above the root, falls until it would rise
again. Two searches by units follow, down while the power is above `x` and up
while the next power is not. -/

namespace SwapPool

namespace Root

def step (n x r : Nat) : Nat := ((n - 1) * r + x / r.pow (n - 1)) / n

def descend (n x r : Nat) : Nat :=
  if step n x r < r then descend n x (step n x r) else r
termination_by r

def lower (n x : Nat) : Nat → Nat
  | 0 => 0
  | r + 1 => if x < (r + 1).pow n then lower n x r else r + 1

-- Every power of degree zero is one, so that the search has an end only in a positive degree.
def raise (n x r : Nat) : Nat :=
  if 0 < n ∧ (r + 1).pow n ≤ x then raise n x (r + 1) else r
termination_by x - r
decreasing_by
  have hnext : r + 1 ≤ (r + 1).pow n := Nat.le_pow (by omega)
  omega

/-- A power of two above the `n`-th root of `x`, from the bit length of `x`. -/
def start (n x : Nat) : Nat := Nat.pow 2 ((x.log2 + n) / n)

def floorRoot (n x : Nat) : Nat :=
  if x < 2 || n = 1 then x else raise n x (lower n x (descend n x (start n x)))

end Root

/-- The greatest integer whose `n`-th power is at most `x`. -/
def integerRoot (x n : Int) : Except Fault Int :=
  if x < 0 then .error (.negativeRadicand x)
  else if n ≤ 0 then .error (.rootDegree n)
  else .ok (Root.floorRoot n.toNat x.toNat)

end SwapPool
