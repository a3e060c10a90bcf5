import SwapPool.Fault
import SwapPool.Text.IntegerLiteral

/-! Limits of the solvers and bounds on fees. They belong to the host and not to
a pool's record. A configuration has at least one iteration. -/

namespace SwapPool

structure Config where
  maxIterations : Nat
  tolerance : Nat
  constantProductMaxFee : Int
  stableMaxFee : Int
  one_le_maxIterations : 1 ≤ maxIterations
  deriving DecidableEq

namespace Config

/-- The settings as a caller writes them, before they are checked. -/
structure Settings where
  maxIterations : Int := maxNewtonIterations
  tolerance : Int := newtonTolerance
  constantProductMaxFee : Int := SwapPool.constantProductMaxFee
  stableMaxFee : Int := SwapPool.stableMaxFee
  deriving DecidableEq, Repr

def ofSettings (s : Settings) : Except Fault Config :=
  if h : s.maxIterations ≤ 0 then .error (.iterationCap s.maxIterations)
  else if s.tolerance < 0 then .error (.tolerance s.tolerance)
  else .ok
    { maxIterations := s.maxIterations.toNat
      tolerance := s.tolerance.toNat
      constantProductMaxFee := s.constantProductMaxFee
      stableMaxFee := s.stableMaxFee
      one_le_maxIterations := by omega }

def standard : Config where
  maxIterations := maxNewtonIterations
  tolerance := newtonTolerance
  constantProductMaxFee := SwapPool.constantProductMaxFee
  stableMaxFee := SwapPool.stableMaxFee
  one_le_maxIterations := by decide

instance : Inhabited Config := ⟨standard⟩

/-- An integer setting from the environment, or what stands in for it. -/
def setting (digits : DigitLimit) (env : String → Option String) (name : String)
    (default : Int) : Except Fault Int :=
  match env name with
  | none => .ok default
  | some text =>
    match Text.integer digits text with
    | .ok n => .ok n
    | .error .unreadable => .error (.integerText text)
    | .error (.tooLong count) => .error (.integerTextTooLong count digits)

/-- The configuration that environment variables give, each variable optional. -/
def ofEnvironment (digits : DigitLimit) (env : String → Option String) :
    Except Fault Config := do
  let maxIterations ← setting digits env "AMM_MAX_NEWTON_ITERATIONS" maxNewtonIterations
  let tolerance ← setting digits env "AMM_NEWTON_TOLERANCE" newtonTolerance
  let constantProductMaxFee ←
    setting digits env "AMM_CP_MAX_FEE" SwapPool.constantProductMaxFee
  let stableMaxFee ← setting digits env "AMM_STABLE_MAX_FEE" SwapPool.stableMaxFee
  ofSettings { maxIterations, tolerance, constantProductMaxFee, stableMaxFee }

end Config

end SwapPool
