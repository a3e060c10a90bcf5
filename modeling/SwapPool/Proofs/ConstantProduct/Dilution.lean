import SwapPool.Proofs.ConstantProduct.FeeShares
import SwapPool.Proofs.ConstantProduct.Value
import SwapPool.Proofs.Pool.Authority

/-! What the admin part of a swap takes from the other shares of a constant-product
pool. Measured by its invariant, a share never loses; but the invariant is a root
rounded down, and its growth can overstate that of the reserves. A share loses less
than one unit of the invariant by it, and nothing where the part of the growth that
is kept covers what the root before the swap left out. -/

namespace SwapPool.Pool

open ConstantProduct (keptInvariant protocolFeeShares)

variable {p p' : Pool} {fees : AdminFees} {limits : Limits} {c : Command} {reply : Reply}
  {r r' shares : Int}

/-- The product of the reserves did not fall, the invariant went from `r` to `r'`, and the supply
grew by the shares that this growth owes under the policy. -/
structure Grown (p p' : Pool) (fees : AdminFees) (r r' shares : Int) : Prop where
  before : ConstantProduct.invariant p.amounts = .ok r
  after : ConstantProduct.invariant p'.amounts = .ok r'
  length_eq : p'.amounts.length = p.amounts.length
  product_le : product p.amounts ≤ product p'.amounts
  rate_le : fees.adminRate ≤ p.totalFee
  owed : protocolFeeShares p.shares.totalSupply r r' fees.adminRate p.totalFee = .ok shares
  supply_eq : p'.shares.totalSupply = p.shares.totalSupply + shares

/-! ### A swap grows its pool -/

theorem owed_of_growthMints (hs : 0 < p.shares.totalSupply) {newAmounts : List Int}
    (hr : ConstantProduct.invariant p.amounts = .ok r)
    (hr' : ConstantProduct.invariant newAmounts = .ok r') {mints : List (String × Int)}
    (h : p.growthMints newAmounts fees = .ok mints) :
    protocolFeeShares p.shares.totalSupply r r' fees.adminRate p.totalFee =
      .ok (total (mints.map Prod.snd)) := by
  obtain ⟨shares, hshares, h0, hfree, rfl⟩ := growthMints_eq_split hs.le h
  rw [AdminFees.total_splitShares_of_owed h0 hfree]
  by_cases hrate : fees.adminRate = 0
  · rw [hfree hrate, ConstantProduct.protocolFeeShares_of_free (.inl hrate)]
  · have hne : ¬ (fees.adminRate = 0 ∨ p.shares.totalSupply = 0) := by omega
    simpa only [growthShares, if_neg hne, hr, hr', ok_bind] using hshares

theorem grown_of_swap (hp : p.Admissible) (hcurve : p.curve = .constantProduct)
    (hs : 0 < p.shares.totalSupply) (hswap : c.isSwap = true)
    (h : c.run limits p = .ok reply p') : ∃ r r' shares, p.Grown p' c.policy r r' shares := by
  have hp' := Command.run_admissible hp h
  have hlen : p'.amounts.length = p.amounts.length := by
    rw [hp'.amounts_length, hp.amounts_length, (Command.run_frame hp h).1]
  have hr := ConstantProduct.invariant_of_nonneg hp.amounts_nonneg hp.amounts_ne_nil
  have hr' := ConstantProduct.invariant_of_nonneg hp'.amounts_nonneg hp'.amounts_ne_nil
  obtain ⟨hv, rfl | ⟨htraded, mints, hg, hl⟩⟩ := swap_settled hp hcurve hswap h
  · exact ⟨_, _, 0, hr, hr, rfl, le_rfl, AdminFees.adminRate_le hv,
      ConstantProduct.protocolFeeShares_of_le le_rfl, (add_zero _).symm⟩
  · have hsupply : p'.shares.totalSupply = p.shares.totalSupply + total (mints.map Prod.snd) := by
      simpa using Ledger.totalSupply_of_settle hl
    exact ⟨_, _, _, hr, hr', hlen, htraded.product_le hp, AdminFees.adminRate_le hv,
      owed_of_growthMints hs hr hr' hg, hsupply⟩

/-! ### What a share keeps -/

section Kept

variable (hp : p.Admissible) (hp' : p'.Admissible) (hpos : ∀ r ∈ p.amounts, 0 < r)
  (hs : 0 < p.shares.totalSupply) (h : p.Grown p' fees r r' shares)

include hp hpos h in
theorem Grown.pos : 0 < r :=
  ConstantProduct.invariant_pos hpos hp.amounts_ne_nil h.before

include hp hp' h in
theorem Grown.le : r ≤ r' := by
  rw [ConstantProduct.le_invariant_iff hp'.amounts_nonneg hp'.amounts_ne_nil h.after
    (ConstantProduct.invariant_nonneg h.before), h.length_eq]
  exact (ConstantProduct.pow_invariant_le hp.amounts_nonneg hp.amounts_ne_nil h.before).trans
    h.product_le

include hp' h in
theorem Grown.pow_le : r' ^ p.amounts.length ≤ product p'.amounts := by
  have hle := ConstantProduct.pow_invariant_le hp'.amounts_nonneg hp'.amounts_ne_nil h.after
  rwa [h.length_eq] at hle

include hp hpos hs h in
theorem Grown.supply_pos : 0 < p'.shares.totalSupply := by
  have hshares := ConstantProduct.protocolFeeShares_nonneg hs.le (h.pos hp hpos).le
    fees.adminRate_nonneg h.owed
  rw [h.supply_eq]
  omega

include hp hp' hpos hs h

/-- Measured by the invariant, a share never loses. -/
theorem Grown.invariant_mul_le : r * p'.shares.totalSupply ≤ r' * p.shares.totalSupply := by
  rw [h.supply_eq]
  exact ConstantProduct.previous_mul_supply_le hs.le (h.pos hp hpos) (h.le hp hp')
    fees.adminRate_nonneg h.rate_le h.owed

/-- Measured by the reserves, it loses less than one unit of the invariant. -/
theorem Grown.lt_of_unit :
    product p.amounts * (r * p'.shares.totalSupply) ^ p.amounts.length <
      product p'.amounts * ((r + 1) * p.shares.totalSupply) ^ p.amounts.length := by
  set n := p.amounts.length
  have hr := h.pos hp hpos
  have hs' := h.supply_pos hp hpos hs
  have hlt := ConstantProduct.lt_succ_invariant_pow hp.amounts_nonneg hp.amounts_ne_nil h.before
  calc product p.amounts * (r * p'.shares.totalSupply) ^ n
      < (r + 1) ^ n * (r * p'.shares.totalSupply) ^ n :=
        mul_lt_mul_of_pos_right hlt (pow_pos (mul_pos hr hs') n)
    _ ≤ (r + 1) ^ n * (r' * p.shares.totalSupply) ^ n :=
        mul_le_mul_of_nonneg_left
          (pow_le_pow_left₀ (mul_pos hr hs').le (h.invariant_mul_le hp hp' hpos hs) n)
          (pow_nonneg (by omega) n)
    _ = r' ^ n * ((r + 1) * p.shares.totalSupply) ^ n := by
        rw [mul_pow, mul_pow]
        ring
    _ ≤ product p'.amounts * ((r + 1) * p.shares.totalSupply) ^ n :=
        mul_le_mul_of_nonneg_right (h.pow_le hp') (pow_nonneg (mul_nonneg (by omega) hs.le) n)

theorem Grown.worthKept_of_ratio {u v : Int} (hu : 0 ≤ u) (hv : 0 < v)
    (hbefore : product p.amounts * v ^ p.amounts.length ≤ u ^ p.amounts.length)
    (hgrowth : p'.shares.totalSupply * u ≤ p.shares.totalSupply * r' * v) : p.WorthKept p' := by
  unfold WorthKept
  rw [← hp.amounts_length]
  set n := p.amounts.length
  have hs' := h.supply_pos hp hpos hs
  refine le_of_mul_le_mul_right ?_ (pow_pos hv n)
  calc product p.amounts * p'.shares.totalSupply ^ n * v ^ n
      = product p.amounts * v ^ n * p'.shares.totalSupply ^ n := by ring
    _ ≤ u ^ n * p'.shares.totalSupply ^ n :=
        mul_le_mul_of_nonneg_right hbefore (pow_nonneg hs'.le n)
    _ = (p'.shares.totalSupply * u) ^ n := by rw [mul_comm, mul_pow]
    _ ≤ (p.shares.totalSupply * r' * v) ^ n :=
        pow_le_pow_left₀ (mul_nonneg hs'.le hu) hgrowth n
    _ = r' ^ n * p.shares.totalSupply ^ n * v ^ n := by
        rw [mul_pow, mul_pow]
        ring
    _ ≤ product p'.amounts * p.shares.totalSupply ^ n * v ^ n :=
        mul_le_mul_of_nonneg_right
          (mul_le_mul_of_nonneg_right (h.pow_le hp') (pow_nonneg hs.le n)) (pow_nonneg hv.le n)

theorem Grown.worthKept_of_exact (hexact : product p.amounts = r ^ p.amounts.length) :
    p.WorthKept p' := by
  refine h.worthKept_of_ratio hp hp' hpos hs (h.pos hp hpos).le one_pos ?_ ?_
  · rw [one_pow, mul_one, hexact]
  · rw [mul_one, mul_comm, mul_comm p.shares.totalSupply]
    exact h.invariant_mul_le hp hp' hpos hs

/-- Where what is kept of the growth covers what the root before it left out, the worth of a share is
kept. -/
theorem Grown.worthKept_of_covered (ht : 0 < p.totalFee)
    (hcovered : product p.amounts * p.totalFee ^ p.amounts.length ≤
      keptInvariant r r' fees.adminRate p.totalFee ^ p.amounts.length) : p.WorthKept p' := by
  have hr := h.pos hp hpos
  have hle := h.le hp hp'
  have hkept := ConstantProduct.previous_mul_le_kept hle h.rate_le
  refine h.worthKept_of_ratio hp hp' hpos hs ((mul_pos hr ht).le.trans hkept) ht hcovered ?_
  rw [h.supply_eq]
  exact ConstantProduct.supply_mul_kept_le hs.le hr hle fees.adminRate_nonneg h.rate_le h.owed

end Kept

theorem Grown.worthKept_of_unowed (hs : 0 < p.shares.totalSupply)
    (h : p.Grown p' fees r r' shares) (h0 : protocolFeeShares p.shares.totalSupply r r'
      fees.adminRate p.totalFee = .ok 0) : p.WorthKept p' := by
  have hnone : shares = 0 := Except.ok.inj (h.owed.symm.trans h0)
  unfold WorthKept
  rw [h.supply_eq, hnone, add_zero]
  exact mul_le_mul_of_nonneg_right h.product_le (pow_nonneg hs.le _)

/-- Across a swap the supply grows at most as the invariant does, and the worth of a share falls by
less than one unit of the invariant. It does not fall where nothing is owed, where the root was
exact, where the invariant does not grow, and where what is kept of its growth covers what the root
left out. -/
theorem swap_dilutes_below_rounding {p p' : Pool} {c : Command} {limits : Limits} {reply : Reply}
    (hp : p.check = .ok ()) (hcurve : p.curve = .constantProduct)
    (hpos : ∀ r ∈ p.amounts, 0 < r) (hs : 0 < p.shares.totalSupply) (hswap : c.isSwap = true)
    (h : c.run limits p = .ok reply p') :
    ∃ r r', ConstantProduct.invariant p.amounts = .ok r ∧
      ConstantProduct.invariant p'.amounts = .ok r' ∧
      let n := p.tokens.length
      r * p'.shares.totalSupply ≤ r' * p.shares.totalSupply ∧
      product p.amounts * (r * p'.shares.totalSupply) ^ n <
        product p'.amounts * ((r + 1) * p.shares.totalSupply) ^ n ∧
      (c.policy.adminRate = 0 ∨ product p.amounts = r ^ n ∨ r' = r ∨
        product p.amounts * p.totalFee ^ n ≤
          keptInvariant r r' c.policy.adminRate p.totalFee ^ n →
        product p.amounts * p'.shares.totalSupply ^ n ≤
          product p'.amounts * p.shares.totalSupply ^ n) := by
  replace hp := check_eq_ok_iff.1 hp
  have hp' := Command.run_admissible hp h
  obtain ⟨r, r', shares, hgrown⟩ := grown_of_swap hp hcurve hs hswap h
  refine ⟨r, r', hgrown.before, hgrown.after, hgrown.invariant_mul_le hp hp' hpos hs, ?_, ?_⟩
  · rw [← hp.amounts_length]
    exact hgrown.lt_of_unit hp hp' hpos hs
  · rw [← hp.amounts_length]
    intro hcase
    have hkept : p.WorthKept p' := by
      rcases hcase with hfree | hexact | rfl | hcovered
      · exact hgrown.worthKept_of_unowed hs
          (ConstantProduct.protocolFeeShares_of_free (.inl hfree))
      · exact hgrown.worthKept_of_exact hp hp' hpos hs hexact
      · exact hgrown.worthKept_of_unowed hs (ConstantProduct.protocolFeeShares_of_le le_rfl)
      · rcases hp.fee_nonneg.lt_or_eq with ht | ht
        · exact hgrown.worthKept_of_covered hp hp' hpos hs ht hcovered
        · exact hgrown.worthKept_of_unowed hs
            (ConstantProduct.protocolFeeShares_of_free (.inr ht.symm))
    unfold WorthKept at hkept
    rwa [hp.amounts_length]

/-- Reserves whose root is not exact, and an exchange that is owed half of the fee. -/
theorem swap_dilutes_below_rounding_half_owed :
    let shares : Ledger := ⟨10 ^ 24, ⟨[("lp", 10 ^ 24), ("dao", 0)], by decide⟩⟩
    let p : Pool := ⟨["x", "y", "z"], [10 ^ 9, 2 * 10 ^ 9, 3 * 10 ^ 9], 300, shares,
      [.zero, .zero, .zero], .standard, .constantProduct⟩
    let fees : AdminFees := ⟨150, "dao", 0, none, by decide, by decide, by decide⟩
    let run := (Command.swap "x" (5 * 10 ^ 8) "y" 0 fees false none).run ∅
    let q := run.after p
    run.succeeds p = true ∧ p.shares.totalSupply < q.shares.totalSupply ∧
      product p.amounts * q.shares.totalSupply ^ 3 ≤
        product q.amounts * p.shares.totalSupply ^ 3 := by
  intro shares p fees run q
  have hok : run.succeeds p = true := by decide +kernel
  have hgrows : p.shares.totalSupply < q.shares.totalSupply := by decide +kernel
  have hbefore : ConstantProduct.invariant p.amounts = .ok 1817120592 := by decide +kernel
  have hafter : ConstantProduct.invariant q.amounts = .ok 1823218358 := by decide +kernel
  obtain ⟨reply, hrun⟩ := Action.eq_ok_of_succeeds hok
  obtain ⟨r, r', hr, hr', -, -, hkept⟩ :=
    swap_dilutes_below_rounding (by decide +kernel) rfl (by decide) (by decide) rfl hrun
  obtain rfl := Except.ok.inj (hr.symm.trans hbefore)
  obtain rfl := Except.ok.inj (hr'.symm.trans hafter)
  exact ⟨hok, hgrows, hkept (.inr (.inr (.inr (by decide))))⟩

/-- All of the fee is owed to the exchange. A swap of one unit raises the product from three to four,
and the invariant from one to two; the exchange gets as many shares as there were. -/
theorem swap_doubles_supply :
    let p₀ : Pool := ⟨["x", "y"], [0, 0], 30, .empty, [.zero, .zero], .standard, .constantProduct⟩
    let p := p₀.after [⟨∅, .register "lp"⟩, ⟨∅, .register "dao"⟩,
      ⟨∅, .addLiquidity "lp" [1, 3] false⟩]
    let fees : AdminFees := ⟨30, "dao", 0, none, by decide, by decide, by decide⟩
    let run := (Command.swap "x" 1 "y" 0 fees false none).run ∅
    let q := run.after p
    p₀.Created ∧ p.amounts = [1, 3] ∧ 0 < p.shares.totalSupply ∧
      fees.validate p.totalFee = .ok () ∧ run.succeeds p = true ∧ q.amounts = [2, 2] ∧
      q.shares.totalSupply = 2 * p.shares.totalSupply ∧
      ¬ product p.amounts * q.shares.totalSupply ^ 2 ≤
        product q.amounts * p.shares.totalSupply ^ 2 := by
  intro p₀ p fees run q
  have start : p₀.Created := ⟨["x", "y"], 30, .constantProduct, .standard, by rfl⟩
  exact ⟨start, by decide +kernel, by decide +kernel, by decide +kernel, by decide +kernel,
    by decide +kernel, by decide +kernel, by decide +kernel⟩

end SwapPool.Pool
