import SwapPool.Proofs.Pool.Redemption

/-! Redemptions in instalments. Each redemption rounds its pay-out down, so what it
leaves behind is at least the part of the shares that remain: the backing per share
never falls. However an account divides the shares that it redeems, it therefore
leaves at least as much of every token as if it had redeemed them at once; and
whoever redeems the whole supply gets all that there is either way, since the last
shares of a pool are worth all of it. -/

namespace SwapPool.Pool

variable {p p' q : Pool} {sender : String} {shares spent : Int} {parts : List Int}

/-- Redemptions by one account one after another, each with the least that it asks for. -/
def redemptions (sender : String) (terms : List (Int × List Int)) :
    Action Pool (List (List Int)) :=
  terms.mapM fun (shares, minimums) => removeLiquidity sender shares minimums false

/-- The pool after an account has redeemed several numbers of shares, one after another. -/
def redeemEach (p : Pool) (sender : String) (parts : List Int) : Pool :=
  parts.foldl (fun q s => q.redeem sender s) p

/-- What each of these redemptions pays. -/
def redeemedEach (p : Pool) (sender : String) : List Int → List (List Int)
  | [] => []
  | s :: parts => p.redeemed s :: (p.redeem sender s).redeemedEach sender parts

/-- Redeeming the parts one after another pays `paid` and leaves `q` at all minimums that this meets,
and is refused at all others. -/
def RedeemsEach (p : Pool) (sender : String) (parts : List Int) (paid : List (List Int))
    (q : Pool) : Prop :=
  ∀ minimums, minimums.length = parts.length → ∀ out r,
    redemptions sender (parts.zip minimums) p = .ok out r ↔
      List.Forall₂ (fun m x => p.checkAmounts m = .ok () ∧ List.Forall₂ (· ≤ ·) m x) minimums paid ∧
        out = paid ∧ r = q

/-- No token backs a share with less in `p'` than in `p`. -/
def KeepsBacking (p p' : Pool) : Prop :=
  ∀ i, p.amounts.getD i 0 * p'.shares.totalSupply ≤ p'.amounts.getD i 0 * p.shares.totalSupply

/-! ### One redemption -/

theorem getD_redeemed (p : Pool) (shares : Int) (i : Nat) : (p.redeemed shares).getD i 0 =
    (p.amounts.getD i 0 * shares).fdiv p.shares.totalSupply := by
  have hzero : (0 * shares).fdiv p.shares.totalSupply = 0 := by
    rw [zero_mul, Int.zero_fdiv]
  unfold redeemed
  conv_lhs => rw [← hzero]
  exact List.getD_map ..

theorem getD_redeem (p : Pool) (sender : String) (shares : Int) (i : Nat) :
    (p.redeem sender shares).amounts.getD i 0 =
      p.amounts.getD i 0 - (p.redeemed shares).getD i 0 := by
  change (List.zipWith (· - ·) p.amounts (p.redeemed shares)).getD i 0 = _
  by_cases hi : i < p.amounts.length
  · exact getD_zipWith (by simpa [redeemed] using hi)
  · have hlen : p.amounts.length ≤ i := not_lt.1 hi
    simp [redeemed, hlen]

theorem redeemed_nonneg (hp : p.Admissible) (hs : 0 < p.shares.totalSupply) (h0 : 0 ≤ shares) :
    ∀ a ∈ p.redeemed shares, 0 ≤ a := by
  intro a ha
  obtain ⟨r, hr, rfl⟩ := List.mem_map.1 ha
  exact Int.fdiv_nonneg (mul_nonneg (hp.amounts_nonneg r hr) h0) hs.le

theorem balanceOf_redeem (p : Pool) (sender : String) (shares : Int) :
    (p.redeem sender shares).shares.balanceOf sender = p.shares.balanceOf sender - shares := by
  change (p.shares.setBalance sender _).balanceOf sender = _
  simp

theorem Admissible.redeem (hp : p.Admissible) (hs : 0 < p.shares.totalSupply)
    (hle : shares ≤ p.shares.totalSupply) (sender : String) :
    (p.redeem sender shares).Admissible :=
  { hp with
    amounts_length := hp.length_zipWith (by simpa [redeemed] using hp.amounts_length) _
    amounts_nonneg := (subs_eq_ok (subs_succeed (redeemed_le hp hs hle))).2 }

/-- A pay-out that is rounded down leaves at least the part of the shares that remain. -/
theorem keepsBacking_redeem (hs : 0 < p.shares.totalSupply) (sender : String) (shares : Int) :
    p.KeepsBacking (p.redeem sender shares) := by
  intro i
  have hpaid := fdiv_mul_le (p.amounts.getD i 0 * shares) hs
  rw [← getD_redeemed] at hpaid
  rw [getD_redeem]
  change _ * (p.shares.totalSupply - shares) ≤ _
  linarith

theorem KeepsBacking.trans (h : p.KeepsBacking p') (h' : p'.KeepsBacking q)
    (hp : 0 ≤ p.shares.totalSupply) (hp' : 0 < p'.shares.totalSupply)
    (hq : 0 ≤ q.shares.totalSupply) : p.KeepsBacking q := by
  intro i
  refine le_of_mul_le_mul_right ?_ hp'
  calc p.amounts.getD i 0 * q.shares.totalSupply * p'.shares.totalSupply
      = p.amounts.getD i 0 * p'.shares.totalSupply * q.shares.totalSupply := mul_right_comm ..
    _ ≤ p'.amounts.getD i 0 * p.shares.totalSupply * q.shares.totalSupply :=
        mul_le_mul_of_nonneg_right (h i) hq
    _ = p'.amounts.getD i 0 * q.shares.totalSupply * p.shares.totalSupply := mul_right_comm ..
    _ ≤ q.amounts.getD i 0 * p'.shares.totalSupply * p.shares.totalSupply :=
        mul_le_mul_of_nonneg_right (h' i) hp
    _ = q.amounts.getD i 0 * p.shares.totalSupply * p'.shares.totalSupply := mul_right_comm ..

/-! ### Several redemptions -/

/-- `p'` is left of `p` after the sender has redeemed `spent` shares. -/
structure SpentTo (p p' : Pool) (sender : String) (spent : Int) : Prop where
  admissible : p'.Admissible
  balance_eq : p'.shares.balanceOf sender = p.shares.balanceOf sender - spent
  supply_eq : p'.shares.totalSupply = p.shares.totalSupply - spent
  backing : p.KeepsBacking p'

theorem SpentTo.refl (hp : p.Admissible) (sender : String) : p.SpentTo p sender 0 where
  admissible := hp
  balance_eq := (sub_zero _).symm
  supply_eq := (sub_zero _).symm
  backing _ := le_rfl

theorem SpentTo.step (h : p.SpentTo p' sender spent) (hs : 0 < shares)
    (hp : 0 ≤ p.shares.totalSupply) (hle : shares ≤ p'.shares.totalSupply) :
    p.SpentTo (p'.redeem sender shares) sender (spent + shares) := by
  have hp' : 0 < p'.shares.totalSupply := hs.trans_le hle
  have hsupply : (p'.redeem sender shares).shares.totalSupply =
      p'.shares.totalSupply - shares := rfl
  exact
    { admissible := h.admissible.redeem hp' hle sender
      balance_eq := by rw [balanceOf_redeem, h.balance_eq, sub_sub]
      supply_eq := by rw [hsupply, h.supply_eq, sub_sub]
      backing := h.backing.trans (keepsBacking_redeem hp' sender shares) hp hp' (by omega) }

theorem redeemEach_append (p : Pool) (sender : String) (parts : List Int) (s : Int) :
    p.redeemEach sender (parts ++ [s]) = (p.redeemEach sender parts).redeem sender s :=
  List.foldl_append

section Run

variable (hpos : ∀ s ∈ parts, 0 < s)

include hpos

theorem spentTo_redeemEach (hp : p.Admissible) (hb : p.shares.balanceOf sender ≤ p.shares.totalSupply)
    (hle : total parts ≤ p.shares.balanceOf sender) (hs : 0 ≤ p.shares.totalSupply) :
    p.SpentTo (p.redeemEach sender parts) sender (total parts) := by
  induction parts using List.reverseRecOn with
  | nil => exact .refl hp sender
  | append_singleton parts s ih =>
    rw [List.forall_mem_append, List.forall_mem_singleton] at hpos
    obtain ⟨hparts, hshares⟩ := hpos
    rw [total_append, total_cons, total_nil, add_zero] at hle ⊢
    have hbefore := ih hparts (by omega)
    rw [redeemEach_append]
    apply hbefore.step hshares hs
    rw [hbefore.supply_eq]
    omega

/-- Redemptions within a balance are answered in turn, whatever they ask for within their pay-outs. -/
theorem redeemsEach (hp : p.Admissible) (hb : p.shares.balanceOf sender ≤ p.shares.totalSupply)
    (hle : total parts ≤ p.shares.balanceOf sender) :
    p.RedeemsEach sender parts (p.redeemedEach sender parts) (p.redeemEach sender parts) := by
  induction parts generalizing p with
  | nil =>
    intro minimums hlen out r
    obtain rfl := List.eq_nil_of_length_eq_zero hlen
    simp [redemptions, redeemedEach, redeemEach, eq_comm]
  | cons s parts ih =>
    rw [List.forall_mem_cons] at hpos
    rw [total_cons] at hle
    have hrest := total_nonneg fun t ht => (hpos.2 t ht).le
    have hs : 0 < p.shares.totalSupply := by omega
    have hfirst := redeems hp hpos.1 (by omega : s ≤ p.shares.balanceOf sender) (by omega)
    have hp' : (p.redeem sender s).Admissible := hp.redeem hs (by omega) sender
    have hsupply : (p.redeem sender s).shares.totalSupply = p.shares.totalSupply - s := rfl
    have hbalance := balanceOf_redeem p sender s
    have hlater := ih hpos.2 hp' (by omega) (by omega)
    intro minimums hlen out r
    cases minimums with
    | nil => cases hlen
    | cons m minimums =>
      have hlater := hlater minimums (Nat.succ.inj hlen)
      unfold redemptions at hlater ⊢
      rw [List.zip_cons_cons, Action.mapM_cons_eq_ok_iff]
      constructor
      · rintro ⟨paid, q, rest, hpaid, hq, rfl⟩
        obtain ⟨hmet, rfl, rfl⟩ := (hfirst m paid q).1 hpaid
        obtain ⟨hmets, rfl, rfl⟩ := (hlater rest r).1 hq
        exact ⟨.cons hmet hmets, rfl, rfl⟩
      · rintro ⟨hmets, rfl, rfl⟩
        obtain ⟨hmet, hmets⟩ := List.forall₂_cons.1 hmets
        exact ⟨_, _, _, (hfirst m _ _).2 ⟨hmet, rfl, rfl⟩, (hlater _ _).2 ⟨hmets, rfl, rfl⟩, rfl⟩

end Run

/-- What the redemptions pay of a token is what its reserve loses. -/
theorem total_redeemedEach (p : Pool) (sender : String) (parts : List Int) (i : Nat) :
    total ((p.redeemedEach sender parts).map (·.getD i 0)) =
      p.amounts.getD i 0 - (p.redeemEach sender parts).amounts.getD i 0 := by
  induction parts generalizing p with
  | nil => exact (sub_self _).symm
  | cons s parts ih =>
    have hlast : (p.redeem sender s).redeemEach sender parts = p.redeemEach sender (s :: parts) :=
      rfl
    rw [redeemedEach, List.map_cons, total_cons, ih, getD_redeem, hlast]
    ring

/-- What is gone of a reserve after the redemptions is within the part that their shares were. -/
theorem SpentTo.gone_le (h : p.SpentTo p' sender spent) (hs : 0 < p.shares.totalSupply) (i : Nat) :
    p.amounts.getD i 0 - p'.amounts.getD i 0 ≤ (p.redeemed spent).getD i 0 := by
  rw [getD_redeemed, le_fdiv_iff hs]
  have hbacking := h.backing i
  rw [h.supply_eq] at hbacking
  linarith

/-- The next redemption is answered, and keeps the backing since it and since the first. -/
theorem redeemEach_next (hp : p.Admissible) (hs : 0 < p.shares.totalSupply)
    (hb : p.shares.balanceOf sender ≤ p.shares.totalSupply)
    (hpos : ∀ s ∈ parts ++ [shares], 0 < s)
    (hle : total (parts ++ [shares]) ≤ p.shares.balanceOf sender) :
    let before := p.redeemEach sender parts
    let after := p.redeemEach sender (parts ++ [shares])
    before.Redeems sender shares (before.redeemed shares) after ∧
      (∀ a ∈ before.redeemed shares, 0 ≤ a) ∧ before.KeepsBacking after ∧ p.KeepsBacking after := by
  intro before after
  have hafter : p.SpentTo after sender _ := spentTo_redeemEach hpos hp hb hle hs.le
  rw [List.forall_mem_append, List.forall_mem_singleton] at hpos
  rw [total_append, total_cons, total_nil, add_zero] at hle
  have hbefore : p.SpentTo before sender _ := spentTo_redeemEach hpos.1 hp hb (by omega) hs.le
  have hbalance := hbefore.balance_eq
  have hsupply := hbefore.supply_eq
  have hs' : 0 < before.shares.totalSupply := by omega
  have hstep : after = before.redeem sender shares := redeemEach_append ..
  rw [hstep] at hafter ⊢
  exact ⟨redeems hbefore.admissible hpos.2 (by omega) (by omega),
    redeemed_nonneg hbefore.admissible hs' hpos.2.le, keepsBacking_redeem hs' sender shares,
    hafter.backing⟩

/-- The last shares take what is left of every token. -/
theorem getD_redeemEach_of_supply (hp : p.Admissible) (hs : 0 < p.shares.totalSupply)
    (hb : p.shares.balanceOf sender ≤ p.shares.totalSupply) (hpos : ∀ s ∈ parts, 0 < s)
    (hle : total parts ≤ p.shares.balanceOf sender) (hall : total parts = p.shares.totalSupply)
    (i : Nat) : (p.redeemEach sender parts).amounts.getD i 0 = 0 := by
  obtain rfl | ⟨pre, s, rfl⟩ := List.eq_nil_or_concat' parts
  · rw [total_nil] at hall
    omega
  · rw [List.forall_mem_append, List.forall_mem_singleton] at hpos
    rw [total_append, total_cons, total_nil, add_zero] at hle hall
    have hbefore := spentTo_redeemEach hpos.1 hp hb (by omega) hs.le
    have hlast : (p.redeemEach sender pre).shares.totalSupply = s := by
      rw [hbefore.supply_eq]
      omega
    rw [redeemEach_append, getD_redeem, getD_redeemed, hlast, Int.mul_fdiv_cancel _ hpos.2.ne',
      sub_self]

/-- However an account divides the shares that it redeems, all its redemptions are answered and
together pay no more of any token than one redemption of all the shares. Each leaves every token
behind at least what it was per share before it, and at the start. The whole supply redeems all
reserves either way. -/
theorem instalments_never_pay_more {p : Pool} (hp : p.check = .ok ()) (hl : p.shares.Balanced)
    (hs : 0 < p.shares.totalSupply) {sender : String} {parts : List Int}
    (hpos : ∀ s ∈ parts, 0 < s) (hle : total parts ≤ p.shares.balanceOf sender) :
    let whole := total parts
    let paid := p.redeemedEach sender parts
    p.RedeemsEach sender parts paid (p.redeemEach sender parts) ∧
    (parts ≠ [] → p.Redeems sender whole (p.redeemed whole) (p.redeem sender whole)) ∧
    (∀ i, total (paid.map (·.getD i 0)) ≤ (p.redeemed whole).getD i 0) ∧
    (∀ pre s, pre ++ [s] <+: parts →
      let before := p.redeemEach sender pre
      let after := p.redeemEach sender (pre ++ [s])
      before.Redeems sender s (before.redeemed s) after ∧ (∀ a ∈ before.redeemed s, 0 ≤ a) ∧
        before.KeepsBacking after ∧ p.KeepsBacking after) ∧
    (whole = p.shares.totalSupply → p.redeemed whole = p.amounts ∧
      ∀ i, total (paid.map (·.getD i 0)) = p.amounts.getD i 0) := by
  intro whole paid
  replace hp := check_eq_ok_iff.1 hp
  have hb := hl.balanceOf_le sender
  have hspent := spentTo_redeemEach hpos hp hb hle hs.le
  refine ⟨redeemsEach hpos hp hb hle, fun hne => ?_, fun i => ?_, fun pre s hprefix => ?_,
    fun hall => ⟨?_, fun i => ?_⟩⟩
  · exact redeems hp (total_pos hne hpos) hle (hle.trans hb)
  · rw [total_redeemedEach]
    exact hspent.gone_le hs i
  · obtain ⟨rest, rfl⟩ := hprefix
    rw [List.forall_mem_append] at hpos
    have hrest : 0 ≤ total rest := total_nonneg fun t ht => (hpos.2 t ht).le
    rw [total_append] at hle
    exact redeemEach_next hp hs hb hpos.1 (by omega)
  · rw [hall]
    exact redeemed_supply hs.ne'
  · rw [total_redeemedEach, getD_redeemEach_of_supply hp hs hb hpos hle hall, sub_zero]

/-- Three instalments of a rated pool, the last of which asks for all that it gets, lose a unit of one
token against the whole. The whole supply in three instalments takes every reserve. -/
theorem instalments_never_pay_more_three_parts :
    let c : StableCurve := ⟨[6, 24], 100, .rated [ratePrecision, 2 * ratePrecision]⟩
    let shares : Ledger := ⟨10, ⟨[("lp", 10)], by decide⟩⟩
    let p : Pool := ⟨["x", "y"], [7, 10], 30, shares, [.zero, .zero], .standard, .stable c⟩
    let outs : List (List Int) := [[1, 2], [0, 1], [2, 3]]
    (∃ q, redemptions "lp" [(2, [0, 0]), (1, [0, 0]), (3, [2, 3])] p = .ok outs q) ∧
      (∃ q, removeLiquidity "lp" 6 [0, 0] false p = .ok [4, 6] q) ∧
      (∀ i, total (outs.map (·.getD i 0)) ≤ [4, 6].getD i 0) ∧
      (∃ q paid, redemptions "lp" [(2, [0, 0]), (1, [0, 0]), (7, [0, 0])] p = .ok paid q ∧
        ∀ i, total (paid.map (·.getD i 0)) = [7, 10].getD i 0) := by
  intro c shares p outs
  have hp : p.check = .ok () := by decide +kernel
  have hl : p.shares.Balanced := ⟨by decide, by decide⟩
  have hs : 0 < p.shares.totalSupply := by decide
  have hpos : ∀ s ∈ [2, 1, 3], (0 : Int) < s := by decide
  have hle : total [2, 1, 3] ≤ p.shares.balanceOf "lp" := by decide
  have houts : p.redeemedEach "lp" [2, 1, 3] = outs := by decide +kernel
  have hwhole : p.redeemed (total [2, 1, 3]) = [4, 6] := by decide +kernel
  obtain ⟨hparts, honce, hbound, -, -⟩ := instalments_never_pay_more hp hl hs hpos hle
  have hpos' : ∀ s ∈ [2, 1, 7], (0 : Int) < s := by decide
  have hle' : total [2, 1, 7] ≤ p.shares.balanceOf "lp" := by decide
  obtain ⟨hall, -, -, -, hfull⟩ := instalments_never_pay_more hp hl hs hpos' hle'
  rw [houts, hwhole] at hbound
  rw [hwhole] at honce
  refine ⟨⟨_, (hparts [[0, 0], [0, 0], [2, 3]] rfl outs _).2 ⟨?_, houts.symm, rfl⟩⟩,
    ⟨_, (honce (by decide) _ _ _).2 ⟨?_, rfl, rfl⟩⟩, hbound,
    _, _, (hall [[0, 0], [0, 0], [0, 0]] rfl _ _).2 ⟨?_, rfl, rfl⟩, (hfull rfl).2⟩
  · decide +kernel
  · decide +kernel
  · decide +kernel

end SwapPool.Pool
