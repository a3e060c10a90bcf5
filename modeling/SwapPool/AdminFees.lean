import SwapPool.Number.Checked

/-! The admin policy of one call: which part of the total fee goes to the
exchange and which to a referrer. Rates are never negative, and a positive
exchange rate names the account to credit. Without a referrer the referral
part stays with the liquidity providers. -/

namespace SwapPool

structure AdminFees where
  exchangeFee : Int
  exchangeId : String
  referralFee : Int
  referralId : Option String
  exchangeFee_nonneg : 0 ≤ exchangeFee
  referralFee_nonneg : 0 ≤ referralFee
  exchangeId_of_pos : 0 < exchangeFee → exchangeId ≠ ""
  deriving DecidableEq

namespace AdminFees

/-- A policy as a caller writes it, before it is checked. -/
structure Terms where
  exchangeFee : Int := 0
  exchangeId : String := ""
  referralFee : Int := 0
  referralId : Option String := none
  deriving DecidableEq, Repr

def ofTerms (t : Terms) : Except Fault AdminFees :=
  if h : t.exchangeFee < 0 ∨ t.referralFee < 0 then
    .error (.negativeAdminRates t.exchangeFee t.referralFee)
  else if hx : 0 < t.exchangeFee ∧ t.exchangeId = "" then
    .error (.exchangeWithoutAccount t.exchangeFee)
  else .ok
    { exchangeFee := t.exchangeFee
      exchangeId := t.exchangeId
      referralFee := t.referralFee
      referralId := t.referralId
      exchangeFee_nonneg := by omega
      referralFee_nonneg := by omega
      exchangeId_of_pos := fun hp he => hx ⟨hp, he⟩ }

/-- The whole fee goes to the liquidity providers. -/
def none : AdminFees where
  exchangeFee := 0
  exchangeId := ""
  referralFee := 0
  referralId := .none
  exchangeFee_nonneg := by decide
  referralFee_nonneg := by decide
  exchangeId_of_pos := by decide

instance : Inhabited AdminFees := ⟨none⟩

def effectiveReferralFee (f : AdminFees) : Int :=
  if f.referralId.isSome then f.referralFee else 0

/-- What exchange and referrer are owed together, in parts of `feeDivisor`. -/
def adminRate (f : AdminFees) : Int := f.exchangeFee + f.effectiveReferralFee

/-- The admin parts fit inside a total fee. -/
def validate (f : AdminFees) (totalFee : Int) : Except Fault Unit :=
  if totalFee < f.exchangeFee + f.referralFee then
    .error (.adminRatesExceed f.exchangeFee f.referralFee totalFee)
  else .ok ()

/-- The part of a fee, in any unit, that is owed to the admin recipients. -/
def adminPart (f : AdminFees) (feeValue totalFee : Int) : Int :=
  if totalFee = 0 ∨ f.adminRate = 0 then 0 else (feeValue * f.adminRate).fdiv totalFee

/-- The referrer's proportional share, rounded down. -/
def referralShares (f : AdminFees) (shares : Int) : Int :=
  (shares * f.effectiveReferralFee).fdiv f.adminRate

/-- Admin shares by recipient: the exchange gets what the referrer does not. -/
def splitShares (f : AdminFees) (shares : Int) : List (String × Int) :=
  if shares ≤ 0 ∨ f.adminRate = 0 then []
  else
    let referral := f.referralShares shares
    let exchange := shares - referral
    let forExchange := if 0 < exchange then [(f.exchangeId, exchange)] else []
    let forReferral := match f.referralId with
      | some account => if 0 < referral then [(account, referral)] else []
      | .none => []
    forExchange ++ forReferral

end AdminFees

end SwapPool
