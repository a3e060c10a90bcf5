import SwapPool.Constants
import SwapPool.Record.Problem
import SwapPool.Text.DigitLimit
import SwapPool.Text.Quoted

/-! Why a request fails. A fault is a cause with the values that show it; its
kind says what a caller may do about it, and its message is derived from it. -/

namespace SwapPool

inductive FaultKind
  | unsupportedOperation
  | slippageExceeded
  | invalidToken
  | invalidAmount
  | insufficientShares
  | notRegistered
  | alreadyRegistered
  | nonZeroShareBalance
  | feeTooHigh
  | tvlLimitExceeded
  | insufficientReserve
  | invalidRates
  | invalidAmplification
  | invariantDidNotConverge
  | underflow
  | divisionByZero
  | zeroDivision
  | invalidValue
  | outOfRange
  | aborted
  | malformed
  | unwritable
  deriving DecidableEq, Repr

/-- The kinds that a pool states itself; the rest are arithmetic, misuse or an abort. -/
def FaultKind.isPoolFault : FaultKind → Bool
  | underflow | divisionByZero | zeroDivision | invalidValue | outOfRange | aborted
  | malformed | unwritable => false
  | _ => true

inductive Fault
  -- checked arithmetic
  | underflow (minuend subtrahend : Int)
  | divisionByZero (dividend : Int)
  | ceilingDivisionByZero (dividend : Int)
  | zeroTradeFeeDivisor
  | listIndexOutOfRange
  | listIndexTooWide
  -- invariants and solvers
  | negativeRadicand (x : Int)
  | rootDegree (n : Int)
  | emptyPair (reserveIn reserveOut : Int)
  | outputExceedsReserve (amountOut reserveOut : Int)
  | invariantUndefined (balances : List Int)
  | invariantStalled (iterations : Nat)
  | balanceStalled (iterations : Nat)
  | balanceDenominator
  | tokenPosition (index : Int) (count : Nat)
  | tokenAgainstItself
  -- configuration and fees
  | iterationCap (value : Int)
  | tolerance (value : Int)
  | integerText (text : String)
  | integerTextTooLong (digits : Nat) (limit : DigitLimit)
  | negativeAdminRates (exchange referral : Int)
  | exchangeWithoutAccount (rate : Int)
  | adminRatesExceed (exchange referral total : Int)
  | feeOutside (fee max : Int)
  -- shares
  | registeredAlready (account : String)
  | unregistered (account : String)
  | senderUnregistered (account : String)
  | receiverUnregistered (account : String)
  | sharesHeld (account : String) (balance : Int)
  | negativeMint (shares : Int)
  | negativeBurn (shares : Int)
  | negativeTransfer (shares : Int)
  | sharesShort (account : String) (balance needed : Int)
  -- building a pool
  | tokenCount (count : Nat)
  | duplicateTokens (tokens : List String)
  | reservesMismatch (amounts : List Int) (count : Nat)
  | volumesMismatch (count : Nat)
  | decimalsCount (expected got : Nat)
  | decimalsOutside (decimals : Int) (max : Nat)
  | amplificationOutside (amp : Int)
  | ratesCount (expected : Int) (got : Nat)
  | ratesNotPositive (rates : List Int)
  -- arguments of an operation
  | unknownToken (token : String)
  | swapWithItself (token : String)
  | amountsCount (expected got : Nat)
  | negativeAmounts (amounts : List Int)
  | zeroShares
  | initialDeposit (amounts : List Int)
  | depositTooSmall (amounts : List Int)
  | depositNoGrowth (amounts : List Int)
  | nothingToWithdraw
  | inputNotPositive (amount : Int)
  | outputNotPositive (amount : Int)
  -- reserves
  | emptyReserve (amounts : List Int)
  | noLiquidity
  | wouldDrain (amount : Int) (token : String) (reserve : Int)
  | swapYieldsNothing (amount : Int) (token : String)
  -- bounds set by the caller
  | withdrawalBelow (token : String) (amount minimum : Int)
  | outputBelow (amount minimum : Int)
  | inputAbove (amount maximum : Int)
  | mintBelow (shares minimum : Int)
  | burnAbove (shares maximum : Int)
  -- limits, capabilities and the rest
  | negativeLimit (limit : Int)
  | limitExceeded (poolId tvl limit : Int)
  | unsupported (operation : String) (kind : Kind)
  | amount (why : AmountFault)
  | aborted
  | malformed (problems : List Record.Problem)
  | unwritableRecord (limit : DigitLimit)
  | numeralTooLong (limit : DigitLimit)
  deriving DecidableEq, Repr

namespace Fault

def kind : Fault → FaultKind
  | underflow .. => .underflow
  | divisionByZero .. | ceilingDivisionByZero .. => .divisionByZero
  | zeroTradeFeeDivisor => .zeroDivision
  | listIndexOutOfRange | listIndexTooWide | tokenPosition .. => .outOfRange
  | negativeRadicand .. | rootDegree .. | tokenAgainstItself | iterationCap ..
  | tolerance .. | integerText .. | integerTextTooLong .. | exchangeWithoutAccount ..
  | negativeLimit .. | amount .. | numeralTooLong .. => .invalidValue
  | emptyPair .. | outputExceedsReserve .. | invariantUndefined .. | emptyReserve ..
  | noLiquidity | wouldDrain .. | swapYieldsNothing .. => .insufficientReserve
  | invariantStalled .. | balanceStalled .. | balanceDenominator => .invariantDidNotConverge
  | negativeAdminRates .. | adminRatesExceed .. | feeOutside .. => .feeTooHigh
  | registeredAlready .. => .alreadyRegistered
  | unregistered .. | senderUnregistered .. | receiverUnregistered .. => .notRegistered
  | sharesHeld .. => .nonZeroShareBalance
  | sharesShort .. => .insufficientShares
  | tokenCount .. | duplicateTokens .. | unknownToken .. | swapWithItself .. => .invalidToken
  | negativeMint .. | negativeBurn .. | negativeTransfer .. | reservesMismatch ..
  | volumesMismatch .. | decimalsCount .. | decimalsOutside .. | amountsCount ..
  | negativeAmounts .. | zeroShares | initialDeposit .. | depositTooSmall ..
  | depositNoGrowth .. | nothingToWithdraw | inputNotPositive .. | outputNotPositive .. =>
    .invalidAmount
  | amplificationOutside .. => .invalidAmplification
  | ratesCount .. | ratesNotPositive .. => .invalidRates
  | withdrawalBelow .. | outputBelow .. | inputAbove .. | mintBelow .. | burnAbove .. =>
    .slippageExceeded
  | limitExceeded .. => .tvlLimitExceeded
  | unsupported .. => .unsupportedOperation
  | aborted => .aborted
  | malformed .. => .malformed
  | unwritableRecord .. => .unwritable

/-- A text that should be an integer is shown quoted, cut after 200 characters. -/
def shownLiteral (text : String) : String :=
  String.ofList ((Text.quoted text).toList.take 200)

/-- The wording of a fault; a malformed record is described by its problems alone. -/
def message : Fault → String
  | underflow a b => s!"Underflow: {a} - {b} = {a - b}"
  | divisionByZero a => s!"Division by zero: {a} // 0"
  | ceilingDivisionByZero a => s!"Ceiling division by zero: {a}"
  | zeroTradeFeeDivisor => "integer division or modulo by zero"
  | listIndexOutOfRange => "list index out of range"
  | listIndexTooWide => "cannot fit 'int' into an index-sized integer"
  | negativeRadicand x => s!"Cannot take root of negative value {x}"
  | rootDegree n => s!"Root degree must be positive, got {n}"
  | emptyPair i o => s!"Empty reserves: in={i}, out={o}"
  | outputExceedsReserve a r => s!"Requested output {a} exceeds reserve {r}"
  | invariantUndefined cs =>
    "Invariant undefined with an empty reserve: " ++ Text.integers cs
  | invariantStalled n => s!"Stable invariant did not converge after {n} iterations"
  | balanceStalled n => s!"Stable get_y did not converge after {n} iterations"
  | balanceDenominator => "Denominator became non-positive"
  | tokenPosition i n => s!"token index {i} out of range for {n} tokens"
  | tokenAgainstItself => "Cannot solve a token against itself"
  | iterationCap n => s!"max_newton_iterations must be positive, got {n}"
  | tolerance n => s!"newton_tolerance cannot be negative, got {n}"
  | integerText s => "invalid literal for int() with base 10: " ++ shownLiteral s
  | integerTextTooLong digits limit => limit.readingRefusal digits
  | negativeAdminRates e r => s!"Admin fee rates cannot be negative: {e}, {r}"
  | exchangeWithoutAccount e => s!"exchange_fee {e} requires an exchange_id"
  | adminRatesExceed e r t =>
    s!"exchange_fee {e} + referral_fee {r} exceeds total_fee {t}"
  | feeOutside fee max => s!"Fee {fee} outside [0, {max}]"
  | registeredAlready a => s!"Account {a} is already registered"
  | unregistered a => s!"Account {a} is not registered"
  | senderUnregistered a => s!"Sender {a} is not registered"
  | receiverUnregistered a => s!"Receiver {a} is not registered"
  | sharesHeld a n => s!"Account {a} still holds {n} shares"
  | negativeMint n => s!"Cannot mint negative shares: {n}"
  | negativeBurn n => s!"Cannot burn negative shares: {n}"
  | negativeTransfer n => s!"Cannot transfer negative shares: {n}"
  | sharesShort a b n => s!"Account {a} has {b} shares, needs {n}"
  | tokenCount n => s!"Pool needs at least {minTokens} tokens, got {n}"
  | duplicateTokens ts => "Duplicate tokens in " ++ Text.names ts
  | reservesMismatch xs n => "Reserves " ++ Text.integers xs ++ s!" do not match {n} tokens"
  | volumesMismatch n => s!"Volumes do not match {n} tokens"
  | decimalsCount e g => s!"Expected {e} decimals, got {g}"
  | decimalsOutside d max => s!"Token decimals {d} outside [0, {max}]"
  | amplificationOutside a => s!"Amplification {a} outside [{minAmp}, {maxAmp}]"
  | ratesCount e g => s!"Expected {e} rates, got {g}"
  | ratesNotPositive rs => "Rates must be positive: " ++ Text.integers rs
  | unknownToken t => s!"Token {t} not in pool"
  | swapWithItself t => s!"Cannot swap {t} for itself"
  | amountsCount e g => s!"Expected {e} amounts, got {g}"
  | negativeAmounts xs => "Amounts cannot be negative: " ++ Text.integers xs
  | zeroShares => "Cannot remove zero shares"
  | initialDeposit xs => "Initial deposit needs every amount positive: " ++ Text.integers xs
  | depositTooSmall xs => "Deposit " ++ Text.integers xs ++ " is too small to mint shares"
  | depositNoGrowth xs => "Deposit " ++ Text.integers xs ++ " does not grow the invariant"
  | nothingToWithdraw => "Nothing to withdraw"
  | inputNotPositive n => s!"Swap amount must be positive, got {n}"
  | outputNotPositive n => s!"Swap output must be positive, got {n}"
  | emptyReserve xs => "Pool has an empty reserve: " ++ Text.integers xs
  | noLiquidity => "Pool holds no liquidity"
  | wouldDrain a t r => s!"Withdrawal of {a} {t} would drain reserve {r}"
  | swapYieldsNothing a t => s!"Swap of {a} {t} yields nothing"
  | withdrawalBelow t a m => s!"Withdrawal of {t}: {a} < minimum {m}"
  | outputBelow a m => s!"Swap output {a} < minimum {m}"
  | inputAbove a m => s!"Swap input {a} > maximum {m}"
  | mintBelow a m => s!"Minted shares {a} < minimum {m}"
  | burnAbove a m => s!"Burned shares {a} > maximum {m}"
  | negativeLimit n => s!"tvl_limit cannot be negative: {n}"
  | limitExceeded id tvl limit => s!"Pool {id} TVL {tvl} exceeds limit {limit}"
  | unsupported operation k => s!"{operation} is not supported by {k.tag}"
  | amount why => why.message
  | aborted => "abort"
  | malformed _ => "malformed record"
  | unwritableRecord limit =>
    "Error calling function `str`: ValueError: " ++ limit.writingRefusal
  | numeralTooLong limit => limit.writingRefusal

/-- The integers that the message shows and that a caller may make as long as he likes. -/
def numerals : Fault → List Int
  | underflow a b => [a, b, a - b]
  | divisionByZero n | ceilingDivisionByZero n | negativeRadicand n | rootDegree n
  | tokenPosition n _ | iterationCap n | tolerance n | exchangeWithoutAccount n
  | sharesHeld _ n | negativeMint n | negativeBurn n | negativeTransfer n | decimalsOutside n _
  | amplificationOutside n | ratesCount n _ | inputNotPositive n | outputNotPositive n
  | swapYieldsNothing n _ | negativeLimit n => [n]
  | emptyPair a b | outputExceedsReserve a b | negativeAdminRates a b | feeOutside a b
  | sharesShort _ a b | wouldDrain a _ b | withdrawalBelow _ a b | outputBelow a b
  | inputAbove a b | mintBelow a b | burnAbove a b => [a, b]
  | adminRatesExceed a b c | limitExceeded a b c => [a, b, c]
  | invariantUndefined ns | reservesMismatch ns _ | ratesNotPositive ns | negativeAmounts ns
  | initialDeposit ns | depositTooSmall ns | depositNoGrowth ns | emptyReserve ns => ns
  | invariantStalled n | balanceStalled n => [n]
  | _ => []

/-- What a host with a digit limit reports: a message that would need a longer numeral gives way
to that limit. -/
def reported (limit : DigitLimit) (f : Fault) : Fault :=
  if f.numerals.all limit.covers then f else .numeralTooLong limit

theorem reported_cases (limit : DigitLimit) (f : Fault) :
    f.reported limit = f ∨
      f.reported limit = .numeralTooLong limit ∧ ∃ n ∈ f.numerals, limit.covers n = false := by
  unfold reported
  split
  · exact .inl rfl
  · exact .inr ⟨rfl, by simp_all⟩

@[simp] theorem reported_unbounded (f : Fault) : f.reported .unbounded = f := by
  obtain hsame | ⟨-, n, -, hlong⟩ := f.reported_cases .unbounded
  · exact hsame
  · simp at hlong

end Fault

end SwapPool
