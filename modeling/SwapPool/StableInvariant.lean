import SwapPool.Config
import SwapPool.Number.Checked

/-! The stable-swap invariant. For `n` comparable balances `x` and amplification
`A` the invariant `D` solves

  `A nⁿ ∑ x + D = A nⁿ D + Dⁿ⁺¹ / (nⁿ ∏ x)`.

`calcD` finds `D` and `calcY` finds one balance from `D` and the others, both by
Newton's iteration on integers: every quotient is rounded down, and an iteration
ends once two successive estimates differ by at most the tolerance. A deposit or
withdrawal that shifts the balances against each other pays the imbalance fee. -/

namespace SwapPool.StableInvariant

/-- The first estimate that is within the tolerance of its predecessor, among the `cap`
estimates that `step` makes after `x`. -/
def iterate (step : Int → Except Fault Int) (tolerance : Nat) (stalled : Fault) :
    Nat → Int → Except Fault Int
  | 0, _ => .error stalled
  | cap + 1, x =>
    match step x with
    | .error e => .error e
    | .ok next =>
      if (next - x).natAbs ≤ tolerance then .ok next else iterate step tolerance stalled cap next

/-- `A nⁿ`. -/
def ann (amp : Int) (n : Nat) : Int := amp * (n : Int).pow n

/-- One Newton step for `D`, with `product` standing for `nⁿ ∏ x` and `sum` for `∑ x`. -/
def stepD (ann sum product : Int) (n : Nat) (d : Int) : Except Fault Int := do
  let dp ← Checked.quot (d.pow (n + 1)) product
  let slope ← Checked.sub ann 1
  Checked.quot ((ann * sum + dp * n) * d) (slope * d + dp * (n + 1))

/-- The invariant of comparable balances; zero if they sum to zero. -/
def calcD (amp : Int) (balances : List Int) (config : Config) : Except Fault Int :=
  let n := balances.length
  let sum := total balances
  if sum = 0 then .ok 0
  else if balances.any (· ≤ 0) then .error (.invariantUndefined balances)
  else
    iterate (stepD (ann amp n) sum ((n : Int).pow n * product balances) n) config.tolerance
      (.invariantStalled config.maxIterations) config.maxIterations sum

/-- One Newton step for a balance `y`. -/
def stepY (b c d y : Int) : Except Fault Int :=
  let denominator := 2 * y + b - d
  if denominator ≤ 0 then .error .balanceDenominator
  else Checked.quot (y * y + c) denominator

def checkPosition (index : Int) (n : Nat) : Except Fault Unit :=
  if index < 0 ∨ (n : Int) ≤ index then .error (.tokenPosition index n) else .ok ()

/-- The balances other than the one at `solved`, once `moved` holds `x`. -/
def others (balances : List Int) (x : Int) (moved solved : Nat) : List Int :=
  (balances.set moved x).eraseIdx solved

/-- The balance at `solved` that keeps the invariant `d` once `moved` holds `x`. -/
def calcY (amp x : Int) (balances : List Int) (moved solved d : Int) (config : Config) :
    Except Fault Int := do
  let n := balances.length
  checkPosition moved n
  checkPosition solved n
  if moved = solved then throw .tokenAgainstItself
  let rest := others balances x moved.toNat solved.toNat
  let c ← Checked.quot (d.pow (n + 1)) (product rest * (n : Int).pow n * ann amp n)
  let b := total rest + (← Checked.quot d (ann amp n))
  iterate (stepY b c d) config.tolerance (.balanceStalled config.maxIterations)
    config.maxIterations d

/-- The fee rate of an imbalance: the total fee times `n / (4 (n - 1))`. -/
def tradeFee (totalFee n : Int) : Except Fault Int :=
  if 4 * (n - 1) = 0 then .error .zeroTradeFeeDivisor
  else .ok ((totalFee * n).fdiv (4 * (n - 1)))

/-- What is left of a balance after it pays the fee on its distance from its ideal. -/
def charge (fee d0 d1 old new : Int) : Except Fault Int := do
  let ideal ← Checked.quot (old * d1) d0
  let due ← Checked.ceilQuot ((ideal - new).natAbs * fee) feeDivisor
  Checked.sub new due

/-- Balances after the imbalance fee; the ideal is the old balance scaled by `d1 / d0`. -/
def adjustForImbalance (old new : List Int) (d0 d1 totalFee : Int) :
    Except Fault (List Int) := do
  let fee ← tradeFee totalFee old.length
  (old.zip new).mapM fun (o, w) => charge fee d0 d1 o w

end SwapPool.StableInvariant
