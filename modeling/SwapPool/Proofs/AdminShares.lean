import SwapPool.AdminFees
import SwapPool.Number.Checked
import SwapPool.Proofs.Number.Quotient
import SwapPool.Proofs.Outcome

/-! What the admin recipients are owed. Their part of a fee is never more than the
fee, and a split hands out exactly the shares that it is given, as positive
entries. -/

namespace SwapPool.AdminFees

variable {f : AdminFees} {shares : Int}

theorem effectiveReferralFee_nonneg (f : AdminFees) : 0 ≤ f.effectiveReferralFee := by
  unfold effectiveReferralFee
  split
  · exact f.referralFee_nonneg
  · exact le_rfl

theorem effectiveReferralFee_le (f : AdminFees) : f.effectiveReferralFee ≤ f.referralFee := by
  unfold effectiveReferralFee
  split
  · exact le_rfl
  · exact f.referralFee_nonneg

theorem adminRate_nonneg (f : AdminFees) : 0 ≤ f.adminRate :=
  add_nonneg f.exchangeFee_nonneg f.effectiveReferralFee_nonneg

theorem validate_eq_ok_iff {totalFee : Int} :
    f.validate totalFee = .ok () ↔ f.exchangeFee + f.referralFee ≤ totalFee := by
  simp [validate]

theorem adminRate_le {totalFee : Int} (h : f.validate totalFee = .ok ()) :
    f.adminRate ≤ totalFee := by
  have hv := validate_eq_ok_iff.1 h
  have he := f.effectiveReferralFee_le
  unfold adminRate
  omega

theorem adminPart_le {fee totalFee : Int} (hf : 0 ≤ fee) (ht : 0 ≤ totalFee)
    (h : f.validate totalFee = .ok ()) : f.adminPart fee totalFee ≤ fee := by
  unfold adminPart
  split
  · exact hf
  · exact fdiv_le_of_le_mul (by omega) (mul_le_mul_of_nonneg_left (adminRate_le h) hf)

/-- At a rate below the whole fee the liquidity providers keep something of every fee. -/
theorem adminPart_lt {fee totalFee : Int} (hf : 0 < fee) (h : f.adminRate < totalFee) :
    f.adminPart fee totalFee < fee := by
  have ht : 0 < totalFee := f.adminRate_nonneg.trans_lt h
  unfold adminPart
  split
  · exact hf
  · refine lt_of_mul_lt_mul_right ?_ ht.le
    exact (fdiv_mul_le _ ht).trans_lt (mul_lt_mul_of_pos_left h hf)

theorem adminPart_of_adminFree (h : f.adminRate = 0) (fee totalFee : Int) :
    f.adminPart fee totalFee = 0 := by
  rw [adminPart, if_pos (.inr h)]

theorem adminPart_nonneg {fee totalFee : Int} (hf : 0 ≤ fee) (ht : 0 ≤ totalFee) :
    0 ≤ f.adminPart fee totalFee := by
  unfold adminPart
  split
  · exact le_rfl
  · exact Int.fdiv_nonneg (mul_nonneg hf f.adminRate_nonneg) ht

theorem referralShares_nonneg (hs : 0 ≤ shares) (hr : 0 < f.adminRate) :
    0 ≤ f.referralShares shares :=
  (le_fdiv_iff hr).2 (by simpa using mul_nonneg hs f.effectiveReferralFee_nonneg)

theorem referralShares_le (hs : 0 ≤ shares) (hr : 0 < f.adminRate) :
    f.referralShares shares ≤ shares := by
  refine fdiv_le_of_le_mul hr (mul_le_mul_of_nonneg_left ?_ hs)
  have := f.exchangeFee_nonneg
  unfold adminRate
  omega

/-- Without a referrer the exchange gets everything. -/
theorem referralShares_of_none (h : f.referralId = Option.none) (shares : Int) :
    f.referralShares shares = 0 := by
  simp [referralShares, effectiveReferralFee, h]

theorem splitShares_pos {m : String × Int} (h : m ∈ f.splitShares shares) : 0 < m.2 := by
  unfold splitShares at h
  split at h
  · exact absurd h List.not_mem_nil
  · rw [List.mem_append] at h
    rcases h with h | h
    · split at h <;> simp_all
    · cases hr : f.referralId with
      | none => simp [hr] at h
      | some account =>
        simp only [hr] at h
        split at h <;> simp_all

theorem total_splitShares (f : AdminFees) (shares : Int) :
    total ((f.splitShares shares).map Prod.snd) =
      if shares ≤ 0 ∨ f.adminRate = 0 then 0 else shares := by
  unfold splitShares
  split
  · rfl
  · have hr : 0 < f.adminRate := by
      have := f.adminRate_nonneg
      omega
    have hn : 0 ≤ f.referralShares shares := referralShares_nonneg (by omega) hr
    have hl : f.referralShares shares ≤ shares := referralShares_le (by omega) hr
    have hx : total ((if 0 < shares - f.referralShares shares
        then [(f.exchangeId, shares - f.referralShares shares)] else []).map Prod.snd) =
        shares - f.referralShares shares := by
      split
      · simp
      · simp only [List.map_nil, total_nil]
        omega
    rw [List.map_append, total_append, hx]
    cases h : f.referralId with
    | none =>
      rw [referralShares_of_none h]
      simp
    | some account =>
      dsimp only
      split
      · simp
      · simp only [List.map_nil, total_nil]
        omega

theorem total_splitShares_le (f : AdminFees) (hs : 0 ≤ shares) :
    total ((f.splitShares shares).map Prod.snd) ≤ shares := by
  rw [total_splitShares]
  split <;> omega

/-- Without a rate nothing is split. -/
theorem splitShares_of_adminFree (h : f.adminRate = 0) (shares : Int) : f.splitShares shares = [] :=
  if_pos (.inr h)

/-- Of no fee nothing is split. -/
theorem splitShares_of_no_fee (f : AdminFees) (totalFee : Int) :
    f.splitShares (f.adminPart 0 totalFee) = [] := by
  have hpart : f.adminPart 0 totalFee = 0 := by simp [adminPart]
  rw [hpart]
  exact if_pos (.inl le_rfl)

/-- An account that gets a part of a fee. -/
def Pays (f : AdminFees) (account : String) : Prop :=
  0 < f.exchangeFee ∧ f.exchangeId = account ∨ 0 < f.referralFee ∧ f.referralId = some account

/-- A split credits nobody at a rate of zero. -/
theorem pays_of_mem_splitShares {m : String × Int} (h : m ∈ f.splitShares shares) :
    f.Pays m.1 := by
  have he := f.exchangeFee_nonneg
  have hr := f.referralFee_nonneg
  unfold splitShares at h
  split at h
  · exact absurd h List.not_mem_nil
  rename_i h0
  rcases List.mem_append.1 h with h | h
  · split at h
    · rename_i hpos
      obtain rfl := List.mem_singleton.1 h
      refine .inl ⟨lt_of_le_of_ne he fun hz => ?_, rfl⟩
      -- At this rate the referrer gets everything.
      have hrate : f.adminRate = f.effectiveReferralFee := by rw [adminRate, ← hz, zero_add]
      have hall : f.referralShares shares = shares := by
        rw [referralShares, ← hrate, Int.mul_fdiv_cancel _ fun hz => h0 (.inr hz)]
      omega
    · exact absurd h List.not_mem_nil
  · cases hid : f.referralId with
    | none => simp [hid] at h
    | some account =>
      simp only [hid] at h
      split at h
      · rename_i hpos
        obtain rfl := List.mem_singleton.1 h
        refine .inr ⟨lt_of_le_of_ne hr fun hz => ?_, hid⟩
        have hnone : f.effectiveReferralFee = 0 := by simp [effectiveReferralFee, ← hz]
        rw [referralShares, hnone, mul_zero, Int.zero_fdiv] at hpos
        exact lt_irrefl 0 hpos
      · exact absurd h List.not_mem_nil

/-- Shares that are owed at a rate are handed out completely. -/
theorem total_splitShares_of_owed (hs : 0 ≤ shares) (hr : f.adminRate = 0 → shares = 0) :
    total ((f.splitShares shares).map Prod.snd) = shares := by
  rw [total_splitShares]
  split
  · rename_i h
    exact (h.elim (fun hle => le_antisymm hle hs) hr).symm
  · rfl

end SwapPool.AdminFees
