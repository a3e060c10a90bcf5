import SwapPool.Proofs.Pool.Commands
import SwapPool.Proofs.Pool.Simulation

/-! Redeeming shares. On every curve a withdrawal pays the part of each reserve that
its shares are of the supply, rounded down, and it is refused only for its minimums
or for want of shares. -/

namespace SwapPool.Pool

variable {p p' : Pool} {sender : String} {shares : Int} {minimums paid : List Int}

/-- The part of every reserve that a number of shares is of the supply, rounded down. -/
def redeemed (p : Pool) (shares : Int) : List Int :=
  p.amounts.map fun r => (r * shares).fdiv p.shares.totalSupply

/-- The pool after an account has redeemed shares. -/
def redeem (p : Pool) (sender : String) (shares : Int) : Pool :=
  { p with
    amounts := List.zipWith (· - ·) p.amounts (p.redeemed shares)
    shares := { p.shares.setBalance sender (p.shares.balanceOf sender - shares) with
      totalSupply := p.shares.totalSupply - shares } }

theorem shortfall?_eq_none_iff {tokens : List String} {amounts : List Int}
    (ha : amounts.length = tokens.length) (hm : minimums.length = tokens.length) :
    shortfall? tokens amounts minimums = none ↔ List.Forall₂ (· ≤ ·) minimums amounts := by
  unfold shortfall?
  induction tokens generalizing amounts minimums with
  | nil =>
    obtain rfl := List.eq_nil_of_length_eq_zero ha
    obtain rfl := List.eq_nil_of_length_eq_zero hm
    simp
  | cons token tokens ih =>
    cases amounts with
    | nil => cases ha
    | cons amount amounts =>
      cases minimums with
      | nil => cases hm
      | cons minimum minimums =>
        have hrest := ih (Nat.succ.inj ha) (Nat.succ.inj hm)
        rw [List.find?_eq_none] at hrest ⊢
        rw [List.zip_cons_cons, List.zip_cons_cons, List.forall_mem_cons, hrest, List.forall₂_cons]
        simp

/-- A withdrawal is answered where its account holds the shares and every minimum is met. -/
theorem withdrawal_eq_ok_iff (hp : p.Admissible) (hs : p.shares.totalSupply ≠ 0) :
    p.withdrawal sender shares minimums = .ok paid ↔
      p.checkAmounts minimums = .ok () ∧ 0 < shares ∧ shares ≤ p.shares.balanceOf sender ∧
        List.Forall₂ (· ≤ ·) minimums paid ∧ paid = p.redeemed shares := by
  have hquots := quots_succeed hs (· * shares) p.amounts
  change _ = Except.ok (p.redeemed shares) at hquots
  have hlen : (p.redeemed shares).length = p.tokens.length := by
    rw [redeemed, List.length_map, hp.amounts_length]
  simp only [withdrawal, hquots, ok_bind, bind_eq_ok_iff, exists_unit_iff, throw_eq_error,
    error_bind, unless_eq_ok_iff, not_le, not_lt]
  constructor
  · rintro ⟨ha, h0, hle, hpaid⟩
    cases hshort : shortfall? p.tokens (p.redeemed shares) minimums with
    | some s => simp [hshort] at hpaid
    | none =>
      obtain rfl : p.redeemed shares = paid := by simpa [hshort] using hpaid
      have hm := (checkAmounts_eq_ok_iff.1 ha).1
      exact ⟨ha, h0, hle, (shortfall?_eq_none_iff hlen hm).1 hshort, rfl⟩
  · rintro ⟨ha, h0, hle, hmet, rfl⟩
    have hm := (checkAmounts_eq_ok_iff.1 ha).1
    refine ⟨ha, h0, hle, ?_⟩
    rw [(shortfall?_eq_none_iff hlen hm).2 hmet]
    rfl

theorem redeemed_supply (hs : p.shares.totalSupply ≠ 0) :
    p.redeemed p.shares.totalSupply = p.amounts := by
  unfold redeemed
  conv_rhs => rw [← List.map_id p.amounts]
  exact List.map_congr_left fun r _ => Int.mul_fdiv_cancel r hs

theorem empty_of_redeem (hs : p.shares.totalSupply ≠ 0) (sender : String) :
    (∀ r ∈ (p.redeem sender p.shares.totalSupply).amounts, r = 0) ∧
      (p.redeem sender p.shares.totalSupply).shares.totalSupply = 0 := by
  constructor
  · intro r hr
    change r ∈ List.zipWith (· - ·) p.amounts (p.redeemed p.shares.totalSupply) at hr
    rw [redeemed_supply hs, List.zipWith_self, List.mem_map] at hr
    obtain ⟨a, -, rfl⟩ := hr
    exact sub_self a
  · exact sub_self p.shares.totalSupply

theorem redeemed_le (hp : p.Admissible) (hs : 0 < p.shares.totalSupply)
    (hle : shares ≤ p.shares.totalSupply) : List.Forall₂ (· ≤ ·) (p.redeemed shares) p.amounts := by
  rw [redeemed, List.forall₂_map_left_iff, List.forall₂_same]
  exact fun r hr => fdiv_le_of_le_mul hs (mul_le_mul_of_nonneg_left hle (hp.amounts_nonneg r hr))

theorem redeem_of_removeLiquidity (hp : p.Admissible)
    (h : removeLiquidity sender shares minimums false p = .ok paid p') :
    p.withdrawal sender shares minimums = .ok paid ∧ p' = p.redeem sender shares := by
  have hrun : (Command.removeLiquidity sender shares minimums false).run ∅ p =
      .ok (.integers paid) p' := by
    simp only [Command.run, Action.map_apply, h]
  obtain ⟨pl, hpl, hreply, ⟨⟨⟩, -⟩ | ⟨-, s, l, hset, -, hl, rfl⟩⟩ :=
    Command.planned_eq_ok hp rfl hrun
  obtain ⟨paid', left, hpaid, hleft, hreply', rfl⟩ := withdrawalPlan_eq_ok hpl hset
  obtain rfl : paid = paid' := Reply.integers.inj (hreply.trans hreply')
  obtain ⟨h0, -, rfl⟩ := withdrawal_eq_ok hpaid
  obtain ⟨rfl, -⟩ := subs_eq_ok hleft
  obtain ⟨-, -, ⟨hzero, -⟩ | ⟨-, rfl⟩⟩ := Ledger.burn_eq_ok_iff.1 (Ledger.settle_burn_iff.1 hl)
  · omega
  · exact ⟨hpaid, rfl⟩

theorem removeLiquidity_of_withdrawal (hp : p.Admissible) (hs : 0 < p.shares.totalSupply)
    (hle : shares ≤ p.shares.totalSupply)
    (h : p.withdrawal sender shares minimums = .ok paid) :
    removeLiquidity sender shares minimums false p = .ok paid (p.redeem sender shares) := by
  obtain ⟨h0, hb, rfl⟩ := withdrawal_eq_ok h
  have hleft := subs_succeed (redeemed_le hp hs hle)
  have hburn := Ledger.settle_burn_iff.2
    (Ledger.burn_eq_ok_iff.2 ⟨h0.le, hb, .inr ⟨h0, rfl⟩⟩)
  have hcommit : commit (List.zipWith (· - ·) p.amounts (p.redeemed shares)) []
      [(sender, shares)] p = .ok () (p.redeem sender shares) := by
    rw [commit_apply, hburn]
    rfl
  unfold redeemed at hleft hcommit
  simp [removeLiquidity, h, Action.mapM_lift, hleft, Action.bind_apply, hcommit]

/-- Redeeming the shares pays `paid` and leaves `q` at every minimums that this meets, and is refused
at all others. -/
def Redeems (p : Pool) (sender : String) (shares : Int) (paid : List Int) (q : Pool) : Prop :=
  ∀ minimums out r, removeLiquidity sender shares minimums false p = .ok out r ↔
    (p.checkAmounts minimums = .ok () ∧ List.Forall₂ (· ≤ ·) minimums paid) ∧ out = paid ∧ r = q

/-- An account that holds shares of the supply redeems them for their part of the reserves. -/
theorem redeems (hp : p.Admissible) (h0 : 0 < shares) (hb : shares ≤ p.shares.balanceOf sender)
    (hle : shares ≤ p.shares.totalSupply) :
    p.Redeems sender shares (p.redeemed shares) (p.redeem sender shares) := by
  have hs : 0 < p.shares.totalSupply := h0.trans_le hle
  intro minimums out r
  constructor
  · intro h
    obtain ⟨hpaid, rfl⟩ := redeem_of_removeLiquidity hp h
    obtain ⟨ha, -, -, hmet, rfl⟩ := (withdrawal_eq_ok_iff hp hs.ne').1 hpaid
    exact ⟨⟨ha, hmet⟩, rfl, rfl⟩
  · rintro ⟨⟨ha, hmet⟩, rfl, rfl⟩
    exact removeLiquidity_of_withdrawal hp hs hle
      ((withdrawal_eq_ok_iff hp hs.ne').2 ⟨ha, h0, hb, hmet, rfl⟩)

end SwapPool.Pool
