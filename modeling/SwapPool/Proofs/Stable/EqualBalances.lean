import SwapPool.Proofs.Stable.Bracket
import SwapPool.Proofs.Stable.ImbalanceFee

/-! Balances that are equal before an operation and equal after it. The invariant of
equal balances is found exactly, so each of the new ones is its own ideal and owes no
fee, and the shares of the operation are worth the change of one balance, rounded
once. -/

namespace SwapPool

namespace StableInvariant

variable {amp b b' d₀ d₁ totalFee : Int} {old new : List Int}

theorem feeDue_of_ideal {o w : Int} (h : (o * d₁).fdiv d₀ = w) (fee : Int) :
    feeDue fee d₀ d₁ o w = 0 := by
  rw [feeDue, h, sub_self, Int.natAbs_zero, Int.ofNat_zero, zero_mul]
  rfl

theorem adjustForImbalance_of_ideal (hn : 2 ≤ old.length) (hlen : old.length = new.length)
    (hd : d₀ ≠ 0) (hnew : ∀ w ∈ new, 0 ≤ w)
    (hideal : ∀ z ∈ old.zip new, (z.1 * d₁).fdiv d₀ = z.2) (totalFee : Int) :
    adjustForImbalance old new d₀ d₁ totalFee = .ok new := by
  have hsnd : (old.zip new).map Prod.snd = new := List.map_snd_zip hlen.ge
  rw [adjustForImbalance, tradeFee, if_neg (by omega), ok_bind, mapM_eq_ok_iff]
  suffices h : List.Forall₂ (fun z a => charge _ d₀ d₁ z.1 z.2 = .ok a) (old.zip new)
      ((old.zip new).map Prod.snd) by rwa [hsnd] at h
  rw [List.forall₂_map_right_iff, List.forall₂_same]
  intro z hz
  rw [charge_eq hd, feeDue_of_ideal (hideal z hz), Checked.sub_eq_ok_iff, sub_zero]
  exact ⟨hnew _ (List.of_mem_zip hz).2, rfl⟩

theorem adjustForImbalance_equal (hn : 2 ≤ old.length) (hlen : old.length = new.length)
    (hb : 0 < b) (hb' : 0 ≤ b') (hold : ∀ x ∈ old, x = b) (hnew : ∀ x ∈ new, x = b') (totalFee : Int) :
    adjustForImbalance old new (old.length * b) (old.length * b') totalFee = .ok new := by
  have hd : 0 < (old.length : Int) * b := mul_pos (by omega) hb
  refine adjustForImbalance_of_ideal hn hlen hd.ne' (fun w hw => by rwa [hnew w hw])
    (fun z hz => ?_) totalFee
  obtain ⟨ho, hw⟩ := List.of_mem_zip hz
  rw [hold _ ho, hnew _ hw, mul_left_comm, ← mul_assoc, Int.mul_fdiv_cancel_left _ hd.ne']

/-- What prices an operation on equal balances: both invariants are sums, and no fee is due. -/
theorem priced_equal (ha : 1 ≤ amp) {n : Nat} (hn : 2 ≤ n) (hl : old.length = n)
    (hl' : new.length = n) (hb : 0 < b) (hb' : 0 < b') (hold : ∀ x ∈ old, x = b)
    (hnew : ∀ x ∈ new, x = b') (config : Config) (totalFee : Int) :
    calcD amp old config = .ok (n * b) ∧ calcD amp new config = .ok (n * b') ∧
      adjustForImbalance old new (n * b) (n * b') totalFee = .ok new := by
  have hd₀ := calcD_equal ha (List.ne_nil_of_length_pos (by omega)) hb hold config
  have hd₁ := calcD_equal ha (List.ne_nil_of_length_pos (by omega)) hb' hnew config
  have hadjusted :=
    adjustForImbalance_equal (hl.symm ▸ hn) (hl.trans hl'.symm) hb hb'.le hold hnew totalFee
  rw [hl] at hd₀ hadjusted
  rw [hl'] at hd₁
  exact ⟨hd₀, hd₁, hadjusted⟩

end StableInvariant

namespace Pool

open StableInvariant

variable {p : Pool} {c : StableCurve} {amp b b' : Int} {old new amounts : List Int}
  {fees : AdminFees} {rates : Option (List Int)} {applied : List Int}

/-- A deposit that raises equal balances from `b` to `b'` mints for the growth of one. -/
theorem depositShares_equal (ha : 1 ≤ amp) {n : Nat} (hn : 2 ≤ n) (hl : old.length = n)
    (hl' : new.length = n) (hb : 0 < b) (hlt : b < b') (hold : ∀ x ∈ old, x = b)
    (hnew : ∀ x ∈ new, x = b') (p : Pool) (amounts : List Int) (fees : AdminFees) :
    p.depositShares amounts old new amp fees =
      .ok ((p.shares.totalSupply * (b' - b)).fdiv b, []) := by
  obtain ⟨hd₀, hd₁, hadjusted⟩ :=
    priced_equal ha hn hl hl' hb (hb.trans hlt) hold hnew p.config p.totalFee
  have hcount : 0 < (n : Int) := by omega
  have hd : (n : Int) * b ≠ 0 := (mul_pos hcount hb).ne'
  have hgrows : (n : Int) * b < n * b' := mul_lt_mul_of_pos_left hlt hcount
  have hgrowth := Checked.sub_eq_ok_iff.2 ⟨hgrows.le, rfl⟩
  simp only [depositShares, hd₀, hd₁, ok_bind, if_neg hgrows.not_ge, hadjusted, hgrowth,
    sharesWorth, Checked.quot_eq_ok_iff.2 ⟨hd, rfl⟩, Checked.sub_eq_ok_iff.2 ⟨le_rfl, rfl⟩,
    fdiv_scaled hcount, sub_self, AdminFees.splitShares_of_no_fee, pure_eq_ok]

theorem quoteDeposit_equal (hp : p.Admissible) (hc : p.curve = .stable c)
    (hs : 0 < p.shares.totalSupply) (hr : c.effectiveRates p.tokens.length rates = .ok applied)
    (hb : 0 < b) (hlt : b < b') (hold : ∀ x ∈ comparables (c.units applied) p.amounts, x = b)
    (hnew : ∀ x ∈ comparables (c.units applied) (List.zipWith (· + ·) p.amounts amounts), x = b')
    (fees : AdminFees) :
    p.quoteDeposit c amounts fees rates = (do
      p.checkAmounts amounts
      fees.validate p.totalFee
      let minted := (p.shares.totalSupply * (b' - b)).fdiv b
      if minted = 0 then throw (.depositTooSmall amounts)
      return ⟨minted, List.zipWith (· + ·) p.amounts amounts, []⟩) := by
  have hn := hp.two_le_tokens
  have hlen := length_comparables_applied hp hc hr hp.amounts_length
  unfold quoteDeposit
  refine bind_congr_of_ok fun _ hchecked => bind_congr fun _ => ?_
  obtain ⟨hl, -⟩ := checkAmounts_eq_ok_iff.1 hchecked
  have hlen' := length_comparables_applied hp hc hr (hp.length_zipWith hl (· + ·))
  rw [hr, ok_bind, if_neg hs.ne',
    depositShares_equal (one_le_amp hp hc) hn hlen hlen' hb hlt hold hnew]
  rfl

theorem kept_of_equal (hp : p.Admissible) (hc : p.curve = .stable c)
    (hr : c.effectiveRates p.tokens.length rates = .ok applied)
    (hl : amounts.length = p.tokens.length) (hb' : 0 < b')
    (hnew : ∀ x ∈ comparables (c.units applied) (List.zipWith (· - ·) p.amounts amounts), x = b') :
    p.drained? amounts = none := by
  obtain ⟨hlen, hunits⟩ := applied_units_facts hp hc hr
  have hlen' : (c.units applied).length = (List.zipWith (· - ·) p.amounts amounts).length := by
    rw [hlen, hp.amounts_length, hp.length_zipWith hl]
  refine kept_of_pos (pos_of_comparables hlen' hunits fun x hx => ?_)
  rwa [hnew x hx]

theorem some_of_equal (hp : p.Admissible) (hl : amounts.length = p.tokens.length) {units : List Int}
    (hne : comparables units p.amounts ≠ []) (hlt : b' < b)
    (hold : ∀ x ∈ comparables units p.amounts, x = b)
    (hnew : ∀ x ∈ comparables units (List.zipWith (· - ·) p.amounts amounts), x = b') :
    ¬ amounts.all (· == 0) = true := by
  intro hall
  have hzero : ∀ a ∈ amounts, a = 0 := by simpa using hall
  rw [zipWith_sub_of_zero (hp.amounts_length.trans hl.symm) hzero] at hnew
  obtain ⟨x, hx⟩ := List.exists_mem_of_ne_nil _ hne
  exact hlt.ne ((hnew x hx).symm.trans (hold x hx))

/-- A withdrawal that lowers equal balances from `b` to `b'` burns for the fall of one. -/
theorem quoteWithdrawal_equal (hp : p.Admissible) (hc : p.curve = .stable c)
    (hs : 0 < p.shares.totalSupply) (hr : c.effectiveRates p.tokens.length rates = .ok applied)
    (hb' : 0 < b') (hlt : b' < b) (hold : ∀ x ∈ comparables (c.units applied) p.amounts, x = b)
    (hnew : ∀ x ∈ comparables (c.units applied) (List.zipWith (· - ·) p.amounts amounts), x = b')
    (fees : AdminFees) :
    p.quoteWithdrawal c amounts fees rates = (do
      p.checkAmounts amounts
      fees.validate p.totalFee
      let burned := Checked.ceiling (p.shares.totalSupply * (b - b')) b
      let fair := (p.shares.totalSupply * (b - b')).fdiv b
      return ⟨burned, List.zipWith (· - ·) p.amounts amounts,
        fees.splitShares (fees.adminPart (burned - fair) p.totalFee)⟩) := by
  have hn := hp.two_le_tokens
  have hb : 0 < b := hb'.trans hlt
  unfold quoteWithdrawal
  refine bind_congr_of_ok fun _ hchecked => bind_congr fun _ => ?_
  obtain ⟨hl, -⟩ := checkAmounts_eq_ok_iff.1 hchecked
  have hlen := length_comparables_applied hp hc hr hp.amounts_length
  have hlen' := length_comparables_applied hp hc hr (hp.length_zipWith hl (· - ·))
  have hkept := kept_of_equal hp hc hr hl hb' hnew
  have hsome := some_of_equal hp hl (List.ne_nil_of_length_pos (by omega)) hlt hold hnew
  have hsubs := subs_succeed ((amounts_lt_of_kept hp hl hkept).imp fun _ _ => le_of_lt)
  obtain ⟨hd₀, hd₁, hadjusted⟩ := priced_equal (one_le_amp hp hc) hn hlen hlen' hb hb' hold hnew
    p.config p.totalFee
  have hcount : 0 < (p.tokens.length : Int) := by omega
  have hd : (p.tokens.length : Int) * b ≠ 0 := (mul_pos hcount hb).ne'
  have hfall := Checked.sub_eq_ok_iff.2 ⟨(mul_lt_mul_of_pos_left hlt hcount).le, rfl⟩
  have hfair : (p.shares.totalSupply * (b - b')).fdiv b ≤
      Checked.ceiling (p.shares.totalSupply * (b - b')) b :=
    fdiv_le_of_le_mul hb (Checked.le_ceiling_mul _ hb)
  simp only [hr, ok_bind, if_neg hs.ne', if_neg hsome, hkept, pure_eq_ok, hsubs, hd₀, hd₁,
    hadjusted, hfall, Checked.ceilQuot_eq_ok_iff.2 ⟨hd, rfl⟩, sharesWorth,
    Checked.quot_eq_ok_iff.2 ⟨hd, rfl⟩, fdiv_scaled hcount, Checked.ceiling_scaled hcount,
    Checked.sub_eq_ok_iff.2 ⟨hfair, rfl⟩]

/-- Where the comparable reserves are all equal, before an operation and after it, no fee is
charged, at any rates, total fee and admin policy and in however few iterations. A deposit that
passes the checks mints the growth of one balance in shares, rounded down, and nothing for admin
recipients, or is refused if that is no share. A withdrawal by tokens that passes them burns the fall
in shares, rounded up. -/
theorem equal_balances_fee_free {p : Pool} {c : StableCurve} (hp : p.check = .ok ())
    (hc : p.curve = .stable c) (hs : 0 < p.shares.totalSupply) {rates : Option (List Int)}
    {applied : List Int} (hr : c.effectiveRates p.tokens.length rates = .ok applied) {b b' : Int}
    (hb : 0 < b) (hb' : 0 < b') (hold : ∀ x ∈ comparables (c.units applied) p.amounts, x = b)
    (amounts : List Int) (fees : AdminFees) :
    let supply := p.shares.totalSupply
    let deposited := List.zipWith (· + ·) p.amounts amounts
    let left := List.zipWith (· - ·) p.amounts amounts
    (b < b' → (∀ x ∈ comparables (c.units applied) deposited, x = b') →
        p.quoteDeposit c amounts fees rates = do
          p.checkAmounts amounts
          fees.validate p.totalFee
          let minted := (supply * (b' - b)).fdiv b
          if minted = 0 then throw (.depositTooSmall amounts)
          return ⟨minted, deposited, []⟩) ∧
      (b' < b → (∀ x ∈ comparables (c.units applied) left, x = b') →
        p.quoteWithdrawal c amounts fees rates = do
          p.checkAmounts amounts
          fees.validate p.totalFee
          let burned := Checked.ceiling (supply * (b - b')) b
          let fair := (supply * (b - b')).fdiv b
          return ⟨burned, left,
            fees.splitShares (fees.adminPart (burned - fair) p.totalFee)⟩) := by
  intro supply deposited left
  replace hp := check_eq_ok_iff.1 hp
  exact ⟨fun hlt hnew => quoteDeposit_equal hp hc hs hr hb hlt hold hnew fees,
    fun hlt hnew => quoteWithdrawal_equal hp hc hs hr hb' hlt hold hnew fees⟩

/-- Balances of ten at supplied rates, in a pool with four shares, solved in one iteration. Two more
of each are no share and four more are one; four less burn two shares, and the part of a share that
was rounded up is minted for the exchange, to which the whole fee is owed. -/
theorem equal_balances_fee_free_supplied_rates :
    let c : StableCurve :=
      ⟨[24, 18, 24], 7, .rated [ratePrecision, ratePrecision, ratePrecision]⟩
    let shares : Ledger := ⟨4, ⟨[("lp", 4), ("dao", 0)], by decide⟩⟩
    let config : Config := ⟨1, 0, 10000, 1000, by decide⟩
    let p : Pool := ⟨["x", "y", "z"], [10000000, 10, 5000000], 30, shares,
      List.replicate 3 .zero, config, .stable c⟩
    let fees : AdminFees := ⟨30, "dao", 0, none, by decide, by decide, by decide⟩
    let rates := [ratePrecision, ratePrecision, 2 * ratePrecision]
    p.quoteDeposit c [2000000, 2, 1000000] fees (some rates) =
        .error (.depositTooSmall [2000000, 2, 1000000]) ∧
      (Fault.depositTooSmall [2000000, 2, 1000000]).kind = .invalidAmount ∧
      p.quoteDeposit c [4000000, 4, 2000000] fees (some rates) =
        .ok ⟨1, [14000000, 14, 7000000], []⟩ ∧
      p.quoteWithdrawal c [4000000, 4, 2000000] fees (some rates) =
        .ok ⟨2, [6000000, 6, 3000000], [("dao", 1)]⟩ := by
  intro c shares config p fees rates
  have hr : c.effectiveRates p.tokens.length (some rates) = .ok rates := by decide +kernel
  have hold : ∀ x ∈ comparables (c.units rates) p.amounts, x = 10000000 := by decide +kernel
  have hrule {b' : Int} (hb' : 0 < b') :=
    equal_balances_fee_free (by decide +kernel : p.check = .ok ()) rfl (by decide) hr
      (by decide : (0 : Int) < 10000000) hb' hold
  obtain ⟨hsmall, -⟩ := hrule (by decide : (0 : Int) < 12000000) [2000000, 2, 1000000] fees
  obtain ⟨hdeposit, -⟩ := hrule (by decide : (0 : Int) < 14000000) [4000000, 4, 2000000] fees
  obtain ⟨-, hwithdrawal⟩ := hrule (by decide : (0 : Int) < 6000000) [4000000, 4, 2000000] fees
  exact ⟨(hsmall (by decide) (by decide +kernel)).trans (by decide +kernel), rfl,
    (hdeposit (by decide) (by decide +kernel)).trans (by decide +kernel),
    (hwithdrawal (by decide) (by decide +kernel)).trans (by decide +kernel)⟩

end Pool

end SwapPool
