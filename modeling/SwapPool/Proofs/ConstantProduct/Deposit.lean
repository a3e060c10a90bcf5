import Mathlib.Order.Bounds.Basic
import SwapPool.Proofs.Ledger.Credit
import SwapPool.Proofs.Pool.Redemption

/-! Deposits into a constant-product pool. A deposit mints as many shares as every
supplied amount covers, keeps their rounded-up cost and returns the rest. Redeemed
at once, the shares pay that cost, or one unit less of a token: what the ceiling
added to the cost is less than a unit, and the floor of the pay-out takes back no
more than one. -/

namespace SwapPool.Pool

variable {p p' : Pool} {sender : String} {amounts : List Int} {kept : Deposit}

/-! ### The shares of a deposit -/

/-- The numbers of shares that every supplied amount covers. -/
theorem le_coveredShares_iff (hne : p.amounts ≠ []) (hlen : p.amounts.length = amounts.length)
    (hpos : ∀ r ∈ p.amounts, 0 < r) (k : Int) : k ≤ p.coveredShares amounts ↔
      List.Forall₂ (fun r a => r * k ≤ a * p.shares.totalSupply) p.amounts amounts := by
  unfold coveredShares
  generalize hm : List.min? (_ : List Int) = least
  cases least with
  | none =>
    have hnil := List.map_eq_nil_iff.1 (List.min?_eq_none_iff.1 hm)
    have hzip : (amounts.zip p.amounts).length = p.amounts.length := by
      rw [List.length_zip, hlen, min_self]
    rw [hnil, List.length_nil] at hzip
    exact absurd (List.eq_nil_of_length_eq_zero hzip.symm) hne
  | some m =>
    have hcovers {r a : Int} (hz : (r, a) ∈ p.amounts.zip amounts) :
        k ≤ (a * p.shares.totalSupply).fdiv r ↔ r * k ≤ a * p.shares.totalSupply := by
      rw [le_fdiv_iff (hpos r (List.of_mem_zip hz).1), mul_comm]
    rw [Option.getD_some, List.le_min?_iff hm, List.forall_mem_map, ← List.zip_swap,
      List.forall_mem_map, List.forall₂_iff_zip]
    constructor
    · intro h
      exact ⟨hlen, fun hz => (hcovers hz).1 (h _ hz)⟩
    · rintro ⟨-, h⟩ ⟨r, a⟩ hz
      exact (hcovers hz).2 (h hz)

/-- The shares of a later deposit are the most whose rounded-up cost is within every supplied
amount. -/
theorem coveredShares_isGreatest (hs : 0 < p.shares.totalSupply) (hne : p.amounts ≠ [])
    (hlen : p.amounts.length = amounts.length) (hpos : ∀ r ∈ p.amounts, 0 < r) :
    IsGreatest {k | List.Forall₂ (fun r a => Checked.ceiling (r * k) p.shares.totalSupply ≤ a)
      p.amounts amounts} (p.coveredShares amounts) := by
  simp only [Checked.ceiling_le_iff hs, ← le_coveredShares_iff hne hlen hpos]
  exact isGreatest_Iic

/-- A deposit that succeeds adds what it keeps, and credits its shares to its sender. -/
theorem addProductLiquidity_eq_ok (hp : p.Admissible)
    (h : addProductLiquidity sender amounts false p = .ok kept p') :
    p.deposit amounts = .ok kept ∧ p'.Admissible ∧ p'.tokens = p.tokens ∧
      p'.amounts = List.zipWith (· + ·) p.amounts kept.amounts ∧
      p'.shares.totalSupply = p.shares.totalSupply + kept.shares ∧
      p'.shares.balanceOf sender = p.shares.balanceOf sender + kept.shares := by
  have hrun : (Command.addLiquidity sender amounts false).run ∅ p = .ok (.deposit kept) p' := by
    simp only [Command.run, Action.map_apply, h]
  obtain ⟨pl, hpl, hreply, ⟨⟨⟩, -⟩ | ⟨-, s, l, hset, hfits, hl, rfl⟩⟩ :=
    Command.planned_eq_ok hp rfl hrun
  obtain ⟨-, kept', hk, rfl⟩ := depositPlan_eq_ok hpl
  obtain rfl : kept = kept' := Reply.deposit.inj hreply
  obtain rfl := Except.ok.inj hset
  have hmint := Ledger.settle_mint_iff.1 hl
  have hbalance := Ledger.balanceOf_of_mint hmint sender
  rw [if_pos rfl] at hbalance
  exact ⟨hk, Settlement.outcome_admissible hp hfits l, rfl, rfl, Ledger.totalSupply_of_mint hmint,
    hbalance⟩

/-! ### What the shares of a later deposit are worth -/

/-- The rounded-up cost `e` of `m` shares is worth `e` or one unit less in them. -/
theorem worth_of_cost {r m s : Int} (hs : 0 < s) (hm : 0 < m) :
    let e := Checked.ceiling (r * m) s
    ((r + e) * m).fdiv (s + m) = e ∨ ((r + e) * m).fdiv (s + m) = e - 1 := by
  intro e
  have hcost : r * m ≤ e * s := Checked.le_ceiling_mul (r * m) hs
  have hover : e * s < r * m + s := Checked.ceiling_mul_lt (r * m) hs
  have hsupply : 0 < s + m := by omega
  -- Over the new supply the cost's own part, `e * m`, stands on both sides of either bound.
  have hle : ((r + e) * m).fdiv (s + m) ≤ e := fdiv_le_of_le_mul hsupply (by linarith)
  have hge : e - 1 ≤ ((r + e) * m).fdiv (s + m) := by
    rw [le_fdiv_iff hsupply]
    linarith
  omega

section Later

variable (hp : p.Admissible) (hs : 0 < p.shares.totalSupply) (h : p.deposit amounts = .ok kept)

include hp hs h

/-- A later deposit keeps the rounded-up cost of the shares that the supplied amounts cover. -/
theorem kept_eq : (∀ r ∈ p.amounts, 0 < r) ∧ p.amounts.length = amounts.length ∧
    kept.shares = p.coveredShares amounts ∧ 0 < kept.shares ∧
      kept.amounts = p.amounts.map fun r =>
        Checked.ceiling (r * kept.shares) p.shares.totalSupply := by
  obtain ⟨ha, ⟨h0, -⟩ | ⟨-, hpos, hne, rfl⟩⟩ := deposit_eq_ok_iff.1 h
  · omega
  · obtain ⟨hlen, hnonneg⟩ := checkAmounts_eq_ok_iff.1 ha
    have hshares := nonneg_of_mul_nonneg_left (coveredShares_mul_nonneg hnonneg hpos) hs
    exact ⟨hpos, hp.amounts_length.trans hlen.symm, rfl, lt_of_le_of_ne hshares hne.symm, rfl⟩

theorem kept_covers : List.Forall₂ (fun r e => r * kept.shares ≤ e * p.shares.totalSupply)
    p.amounts kept.amounts := by
  obtain ⟨-, -, -, -, hkept⟩ := kept_eq hp hs h
  rw [hkept, List.forall₂_map_right_iff, List.forall₂_same]
  exact fun r _ => Checked.le_ceiling_mul _ hs

theorem shares_isGreatest :
    IsGreatest {k | List.Forall₂ (fun r a => Checked.ceiling (r * k) p.shares.totalSupply ≤ a)
      p.amounts amounts} kept.shares := by
  obtain ⟨hpos, hlen, hshares, -⟩ := kept_eq hp hs h
  rw [hshares]
  exact coveredShares_isGreatest hs hp.amounts_ne_nil hlen hpos

theorem kept_le : List.Forall₂ (· ≤ ·) kept.amounts amounts := by
  obtain ⟨-, -, -, -, hkept⟩ := kept_eq hp hs h
  rw [hkept, List.forall₂_map_left_iff]
  exact (shares_isGreatest hp hs h).1

theorem redeemed_of_kept (hnew : p'.amounts = List.zipWith (· + ·) p.amounts kept.amounts)
    (hsupply : p'.shares.totalSupply = p.shares.totalSupply + kept.shares) :
    List.Forall₂ (fun e x => x = e ∨ x = e - 1) kept.amounts (p'.redeemed kept.shares) := by
  obtain ⟨-, -, -, hm, hkept⟩ := kept_eq hp hs h
  rw [redeemed, hnew, hsupply, hkept, List.zipWith_map_right, List.zipWith_self, List.map_map,
    List.forall₂_map_left_iff, List.forall₂_map_right_iff, List.forall₂_same]
  exact fun r _ => worth_of_cost hs hm

end Later

/-! ### The first deposit -/

theorem zipWith_add_of_zero {xs ys : List Int} (h : ∀ x ∈ xs, x = 0)
    (hlen : xs.length = ys.length) : List.zipWith (· + ·) xs ys = ys := by
  induction xs generalizing ys with
  | nil => exact (List.eq_nil_of_length_eq_zero hlen.symm).symm
  | cons x xs ih =>
    cases ys with
    | nil => cases hlen
    | cons y ys =>
      rw [List.forall_mem_cons] at h
      rw [List.zipWith_cons_cons, h.1, zero_add, ih h.2 (Nat.succ.inj hlen)]

/-- A later deposit keeps what covers its shares and no more than was supplied, mints the most shares
whose rounded-up cost is within that, and its shares redeem each kept amount or one unit less. The
first deposit is redeemed in full, and leaves nothing. -/
theorem deposit_maximal_and_undone {p p' : Pool} (hp : p.check = .ok ()) {sender : String}
    {amounts : List Int} {kept : Deposit} (hb : 0 ≤ p.shares.balanceOf sender)
    (h : addProductLiquidity sender amounts false p = .ok kept p') :
    (0 < p.shares.totalSupply →
      List.Forall₂ (fun r e => r * kept.shares ≤ e * p.shares.totalSupply) p.amounts kept.amounts ∧
      List.Forall₂ (· ≤ ·) kept.amounts amounts ∧
      IsGreatest {k | List.Forall₂ (fun r a => Checked.ceiling (r * k) p.shares.totalSupply ≤ a)
        p.amounts amounts} kept.shares ∧
      ∃ paid q, List.Forall₂ (fun e x => x = e ∨ x = e - 1) kept.amounts paid ∧
        p'.Redeems sender kept.shares paid q) ∧
    (p.shares.totalSupply = 0 → (∀ r ∈ p.amounts, r = 0) →
      ∃ q, p'.Redeems sender p'.shares.totalSupply kept.amounts q ∧
        (∀ r ∈ q.amounts, r = 0) ∧ q.shares.totalSupply = 0) := by
  replace hp := check_eq_ok_iff.1 hp
  obtain ⟨hk, hp', -, hnew, hsupply, hbalance⟩ := addProductLiquidity_eq_ok hp h
  constructor
  · intro hs
    obtain ⟨-, -, -, hm, -⟩ := kept_eq hp hs hk
    exact ⟨kept_covers hp hs hk, kept_le hp hs hk, shares_isGreatest hp hs hk, _, _,
      redeemed_of_kept hp hs hk hnew hsupply, redeems hp' hm (by omega) (by omega)⟩
  · intro h0 hzero
    obtain ⟨ha, ⟨-, -, rfl⟩ | ⟨hne, -⟩⟩ := deposit_eq_ok_iff.1 hk
    · obtain ⟨hlen, -⟩ := checkAmounts_eq_ok_iff.1 ha
      rw [zipWith_add_of_zero hzero (hp.amounts_length.trans hlen.symm)] at hnew
      have hinit : p'.shares.totalSupply = initSharesSupply := by
        rw [hsupply, h0, zero_add]
      have hpos : 0 < p'.shares.totalSupply := by
        rw [hinit]
        decide
      have hredeems : p'.Redeems sender p'.shares.totalSupply _ _ :=
        redeems hp' hpos (by omega) le_rfl
      rw [redeemed_supply hpos.ne', hnew] at hredeems
      exact ⟨_, hredeems, empty_of_redeem hpos.ne' sender⟩
    · exact absurd h0 hne

/-- The first deposit is redeemed in full. Of a second one, which supplies too much of a token, three
of each are kept, and a redemption loses a unit of one and none of the other. -/
theorem deposit_maximal_and_undone_uneven :
    let shares : Ledger := ⟨0, ⟨[("lp", 0), ("bob", 0)], by decide⟩⟩
    let p₀ : Pool := ⟨["x", "y"], [0, 0], 30, shares, [.zero, .zero], .standard, .constantProduct⟩
    let first := addProductLiquidity "lp" [7, 10] false
    let p := first.after p₀
    let second := addProductLiquidity "bob" [4, 3] false
    let p' := second.after p
    first.answer? p₀ = some ⟨10 ^ 24, [7, 10]⟩ ∧ second.answer? p = some ⟨3 * 10 ^ 23, [3, 3]⟩ ∧
      (removeLiquidity "bob" (3 * 10 ^ 23) [0, 0] false).answer? p' = some [2, 3] ∧
      (∃ q, p.Redeems "lp" p.shares.totalSupply [7, 10] q ∧ ∀ r ∈ q.amounts, r = 0) ∧
      (∀ k, List.Forall₂ (fun r a => Checked.ceiling (r * k) (10 ^ 24) ≤ a) [7, 10] [4, 3] →
        k ≤ 3 * 10 ^ 23) ∧
      ∃ paid q, List.Forall₂ (fun e x => x = e ∨ x = e - 1) [3, 3] paid ∧
        p'.Redeems "bob" (3 * 10 ^ 23) paid q := by
  intro shares p₀ first p second p'
  have hfirst : first.answer? p₀ = some ⟨10 ^ 24, [7, 10]⟩ := by decide +kernel
  have hsecond : second.answer? p = some ⟨3 * 10 ^ 23, [3, 3]⟩ := by decide +kernel
  obtain ⟨-, hempty⟩ := deposit_maximal_and_undone (by decide +kernel) (by decide +kernel)
    (Action.eq_ok_of_answer? hfirst)
  obtain ⟨q, hq, hzero, -⟩ := hempty rfl (by decide)
  obtain ⟨hlater, -⟩ := deposit_maximal_and_undone (by decide +kernel) (by decide +kernel)
    (Action.eq_ok_of_answer? hsecond)
  obtain ⟨-, -, ⟨-, hgreatest⟩, hpaid⟩ := hlater (by decide +kernel)
  exact ⟨hfirst, hsecond, by decide +kernel, ⟨q, hq, hzero⟩, fun k hk => hgreatest hk, hpaid⟩

end SwapPool.Pool
