import SwapPool.Proofs.AdminShares
import SwapPool.Proofs.Pool.Settlement

/-! Who gains by a settlement. An account ends with what it had, less what was
burned of it, plus what was minted to it, however often it is named and in
whatever order. A split of admin shares gives the referrer the rounded-down part
and the exchange the rest, and the whole to one account where they are one. -/

namespace SwapPool

namespace Ledger

variable {l l' : Ledger} {mints burns entries : List (String × Int)} {account : String}

/-- What entries bring to an account. -/
def received (entries : List (String × Int)) (account : String) : Int :=
  total ((entries.filter fun m => m.1 = account).map Prod.snd)

@[simp] theorem received_nil (account : String) : received [] account = 0 := rfl

@[simp] theorem received_cons (m : String × Int) (entries : List (String × Int))
    (account : String) : received (m :: entries) account =
      (if m.1 = account then m.2 else 0) + received entries account := by
  unfold received
  rw [List.filter_cons]
  by_cases h : m.1 = account <;> simp [h]

theorem received_append (xs ys : List (String × Int)) (account : String) :
    received (xs ++ ys) account = received xs account + received ys account := by
  unfold received
  rw [List.filter_append, List.map_append, total_append]

theorem received_nonneg (h : ∀ m ∈ entries, 0 ≤ m.2) (account : String) :
    0 ≤ received entries account := by
  refine total_map_nonneg fun m hm => h m ?_
  exact (List.mem_filter.1 hm).1

/-- An account that no entry names receives nothing. -/
theorem received_eq_zero (h : ∀ m ∈ entries, m.1 ≠ account) : received entries account = 0 := by
  have hnone : (entries.filter fun m => m.1 = account) = [] :=
    List.filter_eq_nil_iff.2 fun m hm => by simpa using h m hm
  unfold received
  rw [hnone, List.map_nil, total_nil]

/-! ### Balances after a settlement -/

theorem balanceOf_of_burn {sender : String} {shares : Int}
    (h : burn sender shares l = .ok () l') (account : String) :
    l'.balanceOf account + (if sender = account then shares else 0) = l.balanceOf account := by
  obtain ⟨-, -, ⟨rfl, rfl⟩ | ⟨-, rfl⟩⟩ := burn_eq_ok_iff.1 h
  · rw [ite_self, Int.add_zero]
  · change (l.setBalance sender _).balanceOf account + _ = _
    rw [balanceOf_setBalance]
    by_cases ha : sender = account
    · rw [if_pos ha, if_pos ha, ha, Int.sub_add_cancel]
    · rw [if_neg ha, if_neg ha, Int.add_zero]

theorem balanceOf_of_mint {receiver : String} {shares : Int}
    (h : mint receiver shares l = .ok () l') (account : String) :
    l'.balanceOf account = l.balanceOf account + if receiver = account then shares else 0 := by
  obtain ⟨rfl, rfl⟩ | ⟨-, -, rfl⟩ := mint_eq_ok_iff.1 h
  · rw [ite_self, Int.add_zero]
  · change (l.setBalance receiver _).balanceOf account = _
    rw [balanceOf_setBalance]
    by_cases ha : receiver = account
    · rw [if_pos ha, if_pos ha, ha]
    · rw [if_neg ha, if_neg ha, Int.add_zero]

theorem balanceOf_of_burns (h : burns.forM (fun b => burn b.1 b.2) l = .ok () l')
    (account : String) :
    l'.balanceOf account + received burns account = l.balanceOf account := by
  induction burns generalizing l with
  | nil =>
    simp only [Action.forM_nil_apply, EStateM.Result.ok.injEq, true_and] at h
    rw [h, received_nil, Int.add_zero]
  | cons b burns ih =>
    obtain ⟨t, hb, h⟩ := Action.forM_cons_eq_ok_iff.1 h
    have h1 := balanceOf_of_burn hb account
    have h2 := ih h
    rw [received_cons]
    omega

theorem balanceOf_of_mints (h : mints.forM (fun m => mint m.1 m.2) l = .ok () l')
    (account : String) :
    l'.balanceOf account = l.balanceOf account + received mints account := by
  induction mints generalizing l with
  | nil =>
    simp only [Action.forM_nil_apply, EStateM.Result.ok.injEq, true_and] at h
    rw [h, received_nil, Int.add_zero]
  | cons m mints ih =>
    obtain ⟨t, hm, h⟩ := Action.forM_cons_eq_ok_iff.1 h
    have h1 := balanceOf_of_mint hm account
    have h2 := ih h
    rw [received_cons]
    omega

theorem balanceOf_of_settle (h : settle mints burns l = .ok () l') (account : String) :
    l'.balanceOf account + received burns account =
      l.balanceOf account + received mints account := by
  obtain ⟨-, t, hb, hm⟩ := settle_eq_ok_iff.1 h
  have h1 := balanceOf_of_burns hb account
  have h2 := balanceOf_of_mints hm account
  omega

/-- Burning and minting neither register an account nor take a registration away. -/
theorem isRegistered_of_settle (h : settle mints burns l = .ok () l') (account : String) :
    l'.isRegistered account = l.isRegistered account := by
  obtain ⟨-, t, hb, hm⟩ := settle_eq_ok_iff.1 h
  have h1 : t.isRegistered account = l.isRegistered account :=
    Action.forM_keeps (I := fun s => s.isRegistered account = l.isRegistered account)
      (fun _ _ _ hs hx => (isRegistered_of_burn hx account).trans hs) rfl hb
  exact Action.forM_keeps (I := fun s => s.isRegistered account = l.isRegistered account)
    (fun _ _ _ hs hx => (isRegistered_of_mint hx account).trans hs) h1 hm

/-- Nobody loses by a settlement but those whose shares it burns. -/
theorem balanceOf_le_of_settle (h : settle mints burns l = .ok () l') (hm : ∀ m ∈ mints, 0 ≤ m.2)
    (hb : ∀ b ∈ burns, b.1 ≠ account) : l.balanceOf account ≤ l'.balanceOf account := by
  have hbal := balanceOf_of_settle h account
  have hgain := received_nonneg hm account
  rw [received_eq_zero hb] at hbal
  omega

/-- An account is registered with nothing. -/
theorem balanceOf_of_register {added : String} (h : register added l = .ok () l')
    (account : String) : l'.balanceOf account = l.balanceOf account := by
  obtain ⟨hn, rfl⟩ := register_eq_ok_iff.1 h
  rw [balanceOf_setBalance]
  split
  · rename_i ha
    rw [← ha, balanceOf_eq_zero_of_not_registered hn]
  · rfl

/-- An account that is taken off the register holds nothing. -/
theorem balanceOf_of_unregister {removed : String} (h : unregister removed l = .ok () l')
    (account : String) : l'.balanceOf account = l.balanceOf account := by
  obtain ⟨-, h0, rfl⟩ := unregister_eq_ok_iff.1 h
  by_cases ha : removed = account
  · rw [← ha, h0]
    simp [balanceOf]
  · simp [balanceOf, ha]

/-- A transfer lowers the balance of its sender only. -/
theorem balanceOf_le_of_transfer {sender receiver : String} {shares : Int}
    (h : transfer sender receiver shares l = .ok () l') (ha : sender ≠ account) :
    l.balanceOf account ≤ l'.balanceOf account := by
  obtain ⟨hs, -, -, -, rfl⟩ := transfer_eq_ok_iff.1 h
  simp only [balanceOf_setBalance, if_neg ha]
  by_cases hr : receiver = account
  · rw [if_pos hr, if_neg fun he => ha (he.trans hr), hr]
    omega
  · rw [if_neg hr]

end Ledger

/-! ### Shares of the admin recipients -/

namespace AdminFees

variable {f : AdminFees} {shares : Int}

/-- What an account is credited when the admin recipients divide `shares`. -/
def credit (f : AdminFees) (shares : Int) (account : String) : Int :=
  (if f.exchangeId = account then shares - f.referralShares shares else 0) +
    if f.referralId = some account then f.referralShares shares else 0

/-- An entry that is left out where it would be zero. -/
theorem received_nonzero {n : Int} (hn : 0 ≤ n) (receiver account : String) :
    Ledger.received (if 0 < n then [(receiver, n)] else []) account =
      if receiver = account then n else 0 := by
  split
  · simp
  · have : n = 0 := by omega
    simp [this]

theorem received_splitShares (hs : 0 ≤ shares) (hr : f.adminRate = 0 → shares = 0)
    (account : String) : Ledger.received (f.splitShares shares) account = f.credit shares account := by
  unfold splitShares credit
  split
  · obtain rfl : shares = 0 := by omega
    simp [referralShares]
  · have hrate : 0 < f.adminRate := by
      have := f.adminRate_nonneg
      omega
    have hn : 0 ≤ f.referralShares shares := referralShares_nonneg hs hrate
    have hl : f.referralShares shares ≤ shares := referralShares_le hs hrate
    rw [Ledger.received_append, received_nonzero (sub_nonneg.2 hl)]
    cases h : f.referralId with
    | none => simp
    | some receiver => simp only [received_nonzero hn, Option.some.injEq]

end AdminFees

namespace Ledger

variable {l l' : Ledger} {fees : AdminFees} {shares : Int}

/-- Between two ledgers the admin recipients divided `shares`, and beside that only what the sender
of the operation gained or lost was moved. -/
structure Credited (own : List (String × Int)) (fees : AdminFees) (shares : Int)
    (l l' : Ledger) : Prop where
  totalSupply_eq : l'.totalSupply = l.totalSupply + total (own.map Prod.snd) + shares
  balanceOf_eq account : l'.balanceOf account =
    l.balanceOf account + received own account + fees.credit shares account
  isRegistered_eq account : l'.isRegistered account = l.isRegistered account

/-- A split leaves the balance of an account that the policy does not pay. -/
theorem balanceOf_of_unpaid {account : String} (hpaid : ¬ fees.Pays account)
    (h : settle (fees.splitShares shares) [] l = .ok () l') :
    l'.balanceOf account = l.balanceOf account := by
  have hbal := balanceOf_of_settle h account
  have hnone : received (fees.splitShares shares) account = 0 :=
    received_eq_zero fun m hm he => hpaid (he ▸ AdminFees.pays_of_mem_splitShares hm)
  rw [hnone, received_nil] at hbal
  omega

/-- A settlement that mints to its sender and splits shares among the admin recipients. -/
theorem credited_of_mints (own : List (String × Int)) (hs : 0 ≤ shares)
    (hr : fees.adminRate = 0 → shares = 0)
    (h : settle (own ++ fees.splitShares shares) [] l = .ok () l') :
    Credited own fees shares l l' where
  totalSupply_eq := by
    have hsupply := totalSupply_of_settle h
    rw [List.map_append, total_append, AdminFees.total_splitShares_of_owed hs hr, List.map_nil,
      total_nil] at hsupply
    omega
  balanceOf_eq account := by
    have hbal := balanceOf_of_settle h account
    rw [received_append, AdminFees.received_splitShares hs hr, received_nil] at hbal
    omega
  isRegistered_eq := isRegistered_of_settle h

/-- A settlement that burns of its sender and splits shares among the admin recipients. -/
theorem credited_of_burn (hs : 0 ≤ shares) (hr : fees.adminRate = 0 → shares = 0)
    {sender : String} {burned : Int}
    (h : settle (fees.splitShares shares) [(sender, burned)] l = .ok () l') :
    Credited [(sender, -burned)] fees shares l l' where
  totalSupply_eq := by
    have hsupply := totalSupply_of_settle h
    rw [AdminFees.total_splitShares_of_owed hs hr] at hsupply
    simp only [List.map_cons, List.map_nil, total_cons, total_nil] at hsupply ⊢
    omega
  balanceOf_eq account := by
    have hbal := balanceOf_of_settle h account
    rw [AdminFees.received_splitShares hs hr] at hbal
    simp only [received_cons, received_nil] at hbal ⊢
    by_cases ha : sender = account
    · rw [if_pos ha] at hbal ⊢
      omega
    · rw [if_neg ha] at hbal ⊢
      omega
  isRegistered_eq := isRegistered_of_settle h

end Ledger

end SwapPool
