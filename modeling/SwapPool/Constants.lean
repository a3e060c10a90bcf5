/-! Fixed parameters: the fee unit and its bounds, the precisions of comparable
amounts, rates and share prices, the decimals of shares, the range of the
amplification, and the defaults of the solvers. And the four kinds of pool, with
the tags that name them. -/

namespace SwapPool

/-- Fees are written in units of one part in ten thousand. -/
def feeDivisor : Int := 10_000

/-- A constant-product fee stays strictly below the whole input. -/
def constantProductMaxFee : Int := feeDivisor - 1

def stableMaxFee : Int := 1_000

/-- The shares of the first constant-product deposit: one share. -/
def initSharesSupply : Int := 1_000_000_000_000_000_000_000_000

def simpleShareDecimals : Nat := 24
def stableShareDecimals : Nat := 18
def ratedShareDecimals : Nat := 24
def degenShareDecimals : Nat := 24

/-- The decimals of comparable amounts when every token is pegged one to one. -/
def stableTargetDecimals : Nat := 18

/-- The decimals of comparable amounts under external rates or risk factors. -/
def ratedTargetDecimals : Nat := 24

/-- The rate that stands for one. -/
def ratePrecision : Int := 1_000_000_000_000_000_000_000_000

/-- The share price that stands for one. -/
def sharePricePrecision : Int := 100_000_000

def minAmp : Int := 1
def maxAmp : Int := 1_000_000

def maxNewtonIterations : Nat := 256
def newtonTolerance : Nat := 1

def minTokens : Nat := 2

inductive Kind
  | simple
  | stable
  | rated
  | degen
  deriving DecidableEq, Repr

namespace Kind

def tag : Kind → String
  | simple => "SIMPLE_POOL"
  | stable => "STABLE_SWAP"
  | rated => "RATED_SWAP"
  | degen => "DEGEN_SWAP"

def all : List Kind := [simple, stable, rated, degen]

def ofTag? (s : String) : Option Kind := all.find? (·.tag == s)

theorem ofTag?_tag (k : Kind) : ofTag? k.tag = some k := by
  cases k <;> decide

end Kind

end SwapPool
