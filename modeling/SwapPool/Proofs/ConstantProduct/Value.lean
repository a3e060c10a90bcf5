import SwapPool.Proofs.ConstantProduct.Price
import SwapPool.Proofs.Number.Product
import SwapPool.Proofs.Pool.Runs

/-! What a share of a constant-product pool is worth. The product of the reserves
over the supply to the power of their number does not fall: a deposit pays the
rounded-up cost of its shares, a withdrawal takes the rounded-down part, and a
swap keeps the product of its pair. Only shares minted for admin recipients can
move it the other way, and those are excluded here. -/

namespace SwapPool

namespace Command

def isSwap : Command → Bool
  | swap .. | swapByOutput .. => true
  | _ => false

/-- The policy by which a swap divides its fee. -/
def policy : Command → AdminFees
  | swap _ _ _ _ fees _ _ | swapByOutput _ _ _ _ fees _ => fees
  | _ => .none

/-- A swap, if it is one, owes nothing to admin recipients. -/
def adminFree : Command → Prop
  | swap _ _ _ _ fees _ _ | swapByOutput _ _ _ _ fees _ => fees.adminRate = 0
  | _ => True

theorem adminRate_of_adminFree {c : Command} (h : c.adminFree) : c.policy.adminRate = 0 := by
  cases c with
  | swap | swapByOutput => exact h
  | _ => rfl

end Command

namespace Pool

variable {p p' q : Pool} {limits : Limits} {c : Command} {reply : Reply}

/-- Two positive reserves were exchanged for two positive ones with at least their product. -/
def Traded (p p' : Pool) : Prop :=
  ∃ i j u v, i < p.amounts.length ∧ j < p.amounts.length ∧ i ≠ j ∧
    0 < p.amounts.getD i 0 ∧ 0 < p.amounts.getD j 0 ∧ 0 < u ∧ 0 < v ∧
    p.amounts.getD i 0 * p.amounts.getD j 0 ≤ u * v ∧ p'.amounts = (p.amounts.set i u).set j v

/-- The worth of a share does not fall from `p` to `p'`. -/
def WorthKept (p p' : Pool) : Prop :=
  product p.amounts * p'.shares.totalSupply ^ p.tokens.length ≤
    product p'.amounts * p.shares.totalSupply ^ p.tokens.length

theorem WorthKept.trans (h : p.WorthKept p') (h' : p'.WorthKept q)
    (ht : p'.tokens.length = p.tokens.length) (hp : 0 < p.shares.totalSupply)
    (hp' : 0 < p'.shares.totalSupply) (hq : 0 < q.shares.totalSupply) : p.WorthKept q := by
  unfold WorthKept at h h' ⊢
  rw [ht] at h'
  set n := p.tokens.length
  have h0 : 0 ≤ p.shares.totalSupply ^ n := pow_nonneg hp.le n
  have h1 : 0 < p'.shares.totalSupply ^ n := pow_pos hp' n
  have h2 : 0 ≤ q.shares.totalSupply ^ n := pow_nonneg hq.le n
  refine le_of_mul_le_mul_right ?_ h1
  calc product p.amounts * q.shares.totalSupply ^ n * p'.shares.totalSupply ^ n
      = product p.amounts * p'.shares.totalSupply ^ n * q.shares.totalSupply ^ n := by ring
    _ ≤ product p'.amounts * p.shares.totalSupply ^ n * q.shares.totalSupply ^ n :=
        mul_le_mul_of_nonneg_right h h2
    _ = product p'.amounts * q.shares.totalSupply ^ n * p.shares.totalSupply ^ n := by ring
    _ ≤ product q.amounts * p'.shares.totalSupply ^ n * p.shares.totalSupply ^ n :=
        mul_le_mul_of_nonneg_right h' h0
    _ = product q.amounts * p.shares.totalSupply ^ n * p'.shares.totalSupply ^ n := by ring

theorem Traded.product_le (hp : p.Admissible) (h : p.Traded p') :
    product p.amounts ≤ product p'.amounts := by
  obtain ⟨i, j, u, v, hi, hj, hij, -, -, -, -, hle, hnew⟩ := h
  rw [hnew]
  exact product_le_set_set hp.amounts_nonneg hi hj hij hle

/-! ### Swaps -/

theorem traded_of_quoteProductSwap (hp : p.Admissible) {tokenIn tokenOut : String}
    {x minimum : Int} {fees : AdminFees} {i j : Nat} {q : Quote}
    (h : p.quoteProductSwap tokenIn x tokenOut minimum fees = .ok (i, j, q))
    (hnew : p'.amounts = q.newAmounts) : p.Traded p' := by
  obtain ⟨hij, hx, -, hout, hm, -⟩ := quoteProductSwap_eq_ok h
  obtain ⟨hi, hj, hne⟩ := swapIndices_eq_ok hij
  rw [← hp.amounts_length] at hi hj
  obtain ⟨hin, hpos, hlt, hle⟩ := ConstantProduct.amountOut_keeps hx hp.fee_nonneg hout
  obtain ⟨-, hmoved⟩ := (movedAmounts_eq_ok_iff hi hj hne).1 hm
  exact ⟨i, j, _, _, hi, hj, hne, hin, hpos, by omega, by omega, hle, hnew.trans hmoved⟩

theorem traded_of_quoteProductSwapByOutput (hp : p.Admissible) {tokenIn tokenOut : String}
    {y : Int} {maximum : Option Int} {fees : AdminFees} {i j : Nat} {q : Quote}
    (h : p.quoteProductSwapByOutput tokenIn y tokenOut maximum fees = .ok (i, j, q))
    (hnew : p'.amounts = q.newAmounts) : p.Traded p' := by
  obtain ⟨hij, hy, -, hcost, hm, -⟩ := quoteProductSwapByOutput_eq_ok h
  obtain ⟨hi, hj, hne⟩ := swapIndices_eq_ok hij
  rw [← hp.amounts_length] at hi hj
  obtain ⟨hin, hx, hlt, hle⟩ := ConstantProduct.amountIn_keeps hy hp.fee_nonneg hcost
  obtain ⟨-, hmoved⟩ := (movedAmounts_eq_ok_iff hi hj hne).1 hm
  exact ⟨i, j, _, _, hi, hj, hne, hin, by omega, by omega, by omega, hle, hnew.trans hmoved⟩

theorem totalSupply_of_growthMints {fees : AdminFees} {newAmounts : List Int}
    {mints : List (String × Int)} {l : Ledger}
    (hg : p.growthMints newAmounts fees = .ok mints)
    (hl : Ledger.settle mints [] p.shares = .ok () l) (hfree : fees.adminRate = 0) :
    l.totalSupply = p.shares.totalSupply := by
  obtain rfl := (growthMints_eq_ok hg).2 hfree
  simpa using Ledger.totalSupply_of_settle hl

/-- The policy of a swap fits the fee, and the swap changes nothing, or trades a pair and mints what
the growth owes. -/
theorem swap_settled (hp : p.Admissible) (hcurve : p.curve = .constantProduct)
    (hs : c.isSwap = true) (h : c.run limits p = .ok reply p') :
    c.policy.validate p.totalFee = .ok () ∧ (p' = p ∨ p.Traded p' ∧
      ∃ mints, p.growthMints p'.amounts c.policy = .ok mints ∧
        Ledger.settle mints [] p.shares = .ok () p'.shares) := by
  cases c with
  | swap tokenIn x tokenOut minimum fees simulate poolId =>
    have hc : Command.plan? p (.swap tokenIn x tokenOut minimum fees simulate poolId) = some _ :=
      rfl
    obtain ⟨pl, hpl, -, hout⟩ := Command.planned_eq_ok hp hc h
    obtain ⟨i, j, q, hq, rfl⟩ := swapPlan_eq_ok hpl
    rw [curveSwap_of_product hcurve] at hq
    obtain ⟨-, -, hv, -, -, hg⟩ := quoteProductSwap_eq_ok hq
    refine ⟨hv, ?_⟩
    obtain ⟨-, rfl⟩ | ⟨-, s, l, hs, -, hl, rfl⟩ := hout
    · exact .inl rfl
    · obtain rfl := Except.ok.inj hs
      exact .inr ⟨traded_of_quoteProductSwap hp hq rfl, _, hg, hl⟩
  | swapByOutput tokenIn y tokenOut maximum fees simulate =>
    have hc : Command.plan? p (.swapByOutput tokenIn y tokenOut maximum fees simulate) = some _ :=
      rfl
    obtain ⟨pl, hpl, -, hout⟩ := Command.planned_eq_ok hp hc h
    obtain ⟨-, i, j, q, hq, rfl⟩ := swapByOutputPlan_eq_ok hpl
    obtain ⟨-, -, hv, -, -, hg⟩ := quoteProductSwapByOutput_eq_ok hq
    refine ⟨hv, ?_⟩
    obtain ⟨-, rfl⟩ | ⟨-, s, l, hs, -, hl, rfl⟩ := hout
    · exact .inl rfl
    · obtain rfl := Except.ok.inj hs
      exact .inr ⟨traded_of_quoteProductSwapByOutput hp hq rfl, _, hg, hl⟩
  | _ => cases hs

/-- A swap changes nothing or trades a pair, and without an admin part it mints nothing. -/
theorem swap_cases (hp : p.Admissible) (hcurve : p.curve = .constantProduct)
    (hs : c.isSwap = true) (h : c.run limits p = .ok reply p') :
    p' = p ∨ p.Traded p' ∧ (c.adminFree → p'.shares.totalSupply = p.shares.totalSupply) := by
  obtain ⟨-, rfl | ⟨htraded, mints, hg, hl⟩⟩ := swap_settled hp hcurve hs h
  · exact .inl rfl
  · exact .inr ⟨htraded, fun hfree =>
      totalSupply_of_growthMints hg hl (Command.adminRate_of_adminFree hfree)⟩

/-! ### Liquidity -/

/-- If every reserve grows at least as the supply does, the worth of a share is kept. -/
theorem worthKept_of_scaled (hp : p.Admissible) (hp' : p'.Admissible)
    (hs : 0 ≤ p.shares.totalSupply) (hs' : 0 ≤ p'.shares.totalSupply)
    (h : List.Forall₂ (fun r r' => r * p'.shares.totalSupply ≤ r' * p.shares.totalSupply)
      p.amounts p'.amounts) : p.WorthKept p' := by
  unfold WorthKept
  rw [← hp.amounts_length]
  exact product_scaled hs hs' hp.amounts_nonneg hp'.amounts_nonneg h

/-- The kept deposit covers the shares at the ratio of every reserve. -/
theorem scaled_of_deposit {amounts : List Int} {kept : Deposit}
    (h : p.deposit amounts = .ok kept) (hs : 0 < p.shares.totalSupply) :
    List.Forall₂ (fun r r' => r * (p.shares.totalSupply + kept.shares) ≤
      r' * p.shares.totalSupply) p.amounts (List.zipWith (· + ·) p.amounts kept.amounts) := by
  obtain ⟨-, ⟨h0, -⟩ | ⟨-, -, -, rfl⟩⟩ := deposit_eq_ok_iff.1 h
  · omega
  · set m := p.coveredShares amounts
    rw [List.zipWith_map_right, List.zipWith_self, List.forall₂_map_right_iff, List.forall₂_same]
    intro r _
    have := Checked.le_ceiling_mul (r * m) hs
    linarith

/-- What is left after a withdrawal is at least the part of the shares that remain. -/
theorem scaled_of_withdrawal {sender : String} {shares : Int} {minimums paid left : List Int}
    (h : p.withdrawal sender shares minimums = .ok paid)
    (hl : ((p.amounts.zip paid).mapM fun (r, a) => Checked.sub r a) = .ok left)
    (hs : 0 < p.shares.totalSupply) :
    List.Forall₂ (fun r r' => r * (p.shares.totalSupply - shares) ≤ r' * p.shares.totalSupply)
      p.amounts left := by
  obtain ⟨-, -, rfl⟩ := withdrawal_eq_ok h
  obtain ⟨rfl, -⟩ := subs_eq_ok hl
  rw [List.zipWith_map_right, List.zipWith_self, List.forall₂_map_right_iff, List.forall₂_same]
  intro r _
  have := fdiv_mul_le (r * shares) hs
  linarith

/-! ### One command -/

theorem WorthKept.refl (p : Pool) : p.WorthKept p := by
  unfold WorthKept
  exact le_rfl

theorem worthKept_of_swap (hp : p.Admissible) (hcurve : p.curve = .constantProduct)
    (hs : 0 < p.shares.totalSupply) (hswap : c.isSwap = true) (hfree : c.adminFree)
    (h : c.run limits p = .ok reply p') : p.WorthKept p' := by
  obtain rfl | ⟨ht, hsupply⟩ := swap_cases hp hcurve hswap h
  · exact .refl p'
  · unfold WorthKept
    rw [hsupply hfree]
    exact mul_le_mul_of_nonneg_right (ht.product_le hp) (pow_nonneg hs.le _)

theorem worthKept_of_run (hp : p.Admissible) (hcurve : p.curve = .constantProduct)
    (hs : 0 < p.shares.totalSupply) (hs' : 0 < p'.shares.totalSupply) (hfree : c.adminFree)
    (h : c.run limits p = .ok reply p') : p.WorthKept p' := by
  have hp' := Command.run_admissible hp h
  cases hc : c.plan? p with
  | none =>
    obtain ⟨ha, -, hsupply⟩ := Command.unplanned_keeps hc h
    unfold WorthKept
    rw [ha, hsupply]
  | some plan =>
    obtain ⟨pl, hpl, -, ⟨-, rfl⟩ | ⟨-, s, l, hset, -, hl, rfl⟩⟩ := Command.planned_eq_ok hp hc h
    · exact .refl p'
    · have hsupply := Ledger.totalSupply_of_settle hl
      cases c with
      | swap | swapByOutput => exact worthKept_of_swap hp hcurve hs rfl hfree h
      | addLiquidity sender amounts simulate =>
        obtain rfl := Option.some.inj hc
        obtain ⟨-, kept, hk, rfl⟩ := depositPlan_eq_ok hpl
        obtain rfl := Except.ok.inj hset
        refine worthKept_of_scaled hp hp' hs.le hs'.le ?_
        have hnew : l.totalSupply = p.shares.totalSupply + kept.shares := by simpa using hsupply
        change List.Forall₂ (fun r r' => r * l.totalSupply ≤ _) _ _
        rw [hnew]
        exact scaled_of_deposit hk hs
      | removeLiquidity sender shares minimums simulate =>
        obtain rfl := Option.some.inj hc
        obtain ⟨paid, left, hpaid, hleft, -, rfl⟩ := withdrawalPlan_eq_ok hpl hset
        refine worthKept_of_scaled hp hp' hs.le hs'.le ?_
        have hnew : l.totalSupply = p.shares.totalSupply - shares := by
          simp only [List.map_cons, List.map_nil, total_cons, total_nil] at hsupply
          omega
        change List.Forall₂ (fun r r' => r * l.totalSupply ≤ _) _ _
        rw [hnew]
        exact scaled_of_withdrawal hpaid hleft hs
      | addStableLiquidity =>
        obtain rfl := Option.some.inj hc
        obtain ⟨_, _, hstable, -⟩ := stableDepositPlan_eq_ok hpl
        cases hcurve.symm.trans hstable
      | removeLiquidityByTokens =>
        obtain rfl := Option.some.inj hc
        obtain ⟨_, _, hstable, -⟩ := stableWithdrawalPlan_eq_ok hpl
        cases hcurve.symm.trans hstable
      | modifyTotalFee | updateRates | register | unregister | transfer => cases hc

/-! ### A run -/

theorem worthKept_after (hp : p.Admissible) (hcurve : p.curve = .constantProduct)
    {calls : List Call} (hpos : ∀ pre, pre <+: calls → 0 < (p.after pre).shares.totalSupply)
    (hfree : ∀ call ∈ calls, call.command.adminFree) : p.WorthKept (p.after calls) := by
  induction calls generalizing p with
  | nil => exact .refl p
  | cons call calls ih =>
    rw [List.forall_mem_cons] at hfree
    have hp₁ := hp.after_call call
    obtain ⟨ht, hcurve₁⟩ := frame_after_call hp call
    have hs : 0 < p.shares.totalSupply := hpos [] List.nil_prefix
    have hs₁ : 0 < (call.after p).shares.totalSupply := hpos [call] (by simp)
    have hs₂ : 0 < ((call.after p).after calls).shares.totalSupply := hpos _ List.prefix_rfl
    have hfirst : p.WorthKept (call.after p) := by
      obtain ⟨_, h⟩ | h := after_call_cases hp call
      · exact worthKept_of_run hp hcurve hs hs₁ hfree.1 h
      · rw [h]
        exact .refl p
    have hrest : (call.after p).WorthKept ((call.after p).after calls) :=
      ih hp₁ (hcurve₁ hcurve) (fun pre hpre => hpos (call :: pre) (by simpa using hpre)) hfree.2
    exact hfirst.trans hrest (congrArg List.length ht) hs hs₁ hs₂

/-- Twice a positive reserve and one for an empty one: no factor is zero, and every change of a
reserve shows. -/
def weight (r : Int) : Int := max 1 (2 * r)

theorem weight_pos (r : Int) : 0 < weight r := by
  unfold weight
  omega

theorem weight_of_pos {r : Int} (h : 0 < r) : weight r = 2 * r := by
  unfold weight
  omega

theorem weight_mono {r s : Int} (h : r ≤ s) : weight r ≤ weight s := by
  unfold weight
  omega

theorem weight_lt {r s : Int} (hr : 0 ≤ r) (h : r < s) : weight r < weight s := by
  unfold weight
  omega

theorem Traded.weight_le (h : p.Traded p') :
    product (p.amounts.map weight) ≤ product (p'.amounts.map weight) := by
  obtain ⟨i, j, u, v, hi, hj, hij, hpi, hpj, hu, hv, hle, hnew⟩ := h
  have hweight {k : Nat} (hk : k < p.amounts.length) :
      (p.amounts.map weight).getD k 0 = weight (p.amounts.getD k 0) := by
    rw [List.getD_eq_getElem _ 0 (by rwa [List.length_map]), List.getElem_map,
      List.getD_eq_getElem _ 0 hk]
  rw [hnew, List.map_set, List.map_set]
  refine product_le_set_set (fun w hw => ?_) (by rwa [List.length_map])
    (by rwa [List.length_map]) hij ?_
  · obtain ⟨r, -, rfl⟩ := List.mem_map.1 hw
    exact (weight_pos r).le
  · rw [hweight hi, hweight hj, weight_of_pos hpi, weight_of_pos hpj, weight_of_pos hu,
      weight_of_pos hv]
    linarith

theorem weight_le_after (hp : p.Admissible) (hcurve : p.curve = .constantProduct)
    {calls : List Call} (hswap : ∀ call ∈ calls, call.command.isSwap = true) :
    product (p.amounts.map weight) ≤ product ((p.after calls).amounts.map weight) := by
  induction calls generalizing p with
  | nil => exact le_rfl
  | cons call calls ih =>
    rw [List.forall_mem_cons] at hswap
    have hrest := ih (hp.after_call call) ((frame_after_call hp call).2 hcurve) hswap.2
    refine le_trans ?_ hrest
    obtain ⟨_, h⟩ | h := after_call_cases hp call
    · obtain h | ⟨ht, -⟩ := swap_cases hp hcurve hswap.1 h
      · rw [h]
      · exact ht.weight_le
    · rw [h]

/-- Reserves that have all stayed or fallen, and one of them fallen, weigh less. -/
theorem weight_lt_of_fallen {xs ys : List Int} (hx : ∀ x ∈ xs, 0 ≤ x)
    (h : List.Forall₂ (· ≤ ·) xs ys) (hk : ∃ k, xs.getD k 0 < ys.getD k 0) :
    product (xs.map weight) < product (ys.map weight) := by
  obtain ⟨k, hk⟩ := hk
  by_contra hle
  have hall : List.Forall₂ (· ≤ ·) (xs.map weight) (ys.map weight) := by
    rw [List.forall₂_map_left_iff, List.forall₂_map_right_iff]
    exact h.imp fun _ _ => weight_mono
  have heq := eq_of_product_le hall (by simp [weight_pos]) (not_lt.1 hle)
  have hmap (zs : List Int) : (zs.map weight).getD k (weight 0) = weight (zs.getD k 0) :=
    List.getD_map ..
  have hsame : weight (xs.getD k 0) = weight (ys.getD k 0) := by
    rw [← hmap xs, ← hmap ys, heq]
  exact (weight_lt (getD_nonneg hx k) hk).ne hsame

/-- Along every run with a positive supply and no admin part, the worth of a share of a
constant-product pool does not fall; and no run of swaps takes something out for nothing. -/
theorem worth_kept {p : Pool} (hp : p.check = .ok ()) (hcurve : p.curve = .constantProduct)
    (calls : List Call) :
    let q := p.after calls
    let n := p.tokens.length
    ((∀ pre, pre <+: calls → 0 < (p.after pre).shares.totalSupply) →
      (∀ call ∈ calls, call.command.adminFree) →
        product p.amounts * q.shares.totalSupply ^ n ≤
          product q.amounts * p.shares.totalSupply ^ n) ∧
      ((∀ call ∈ calls, call.command.isSwap = true) →
        ¬ (List.Forall₂ (· ≤ ·) q.amounts p.amounts ∧
          ∃ k, q.amounts.getD k 0 < p.amounts.getD k 0)) := by
  replace hp := check_eq_ok_iff.1 hp
  constructor
  · intro hpos hfree
    exact worthKept_after hp hcurve hpos hfree
  · rintro hswap ⟨hle, hk⟩
    have hlt := weight_lt_of_fallen (hp.after calls).amounts_nonneg hle hk
    exact absurd (weight_le_after hp hcurve hswap) (not_le.2 hlt)

/-- A swap, a deposit, an exact-output swap that is refused, and a withdrawal; and a swap there and
back, after which one reserve is lower. -/
theorem worth_kept_mixed_run :
    let shares : Ledger := ⟨10000, ⟨[("lp", 10000)], by decide⟩⟩
    let p : Pool :=
      ⟨["x", "y"], [5000, 5000], 30, shares, [.zero, .zero], .standard, .constantProduct⟩
    let fees : AdminFees := ⟨0, "dao", 0, none, by decide, by decide, by decide⟩
    let there : Call := ⟨∅, .swap "x" 1000 "y" 0 fees false none⟩
    let back : Call := ⟨∅, .swapByOutput "y" 900 "x" none fees false⟩
    let mixed : List Call :=
      [there, ⟨∅, .addLiquidity "lp" [600, 500] false⟩,
        ⟨∅, .swapByOutput "x" 9000 "y" none fees false⟩,
        ⟨∅, .removeLiquidity "lp" 4000 [0, 0] false⟩]
    (p.after mixed).shares.totalSupply = 7000 ∧
      product p.amounts * 7000 ^ 2 ≤ product (p.after mixed).amounts * 10000 ^ 2 ∧
      (p.after [there, back]).amounts.getD 1 0 < p.amounts.getD 1 0 ∧
      ¬ List.Forall₂ (· ≤ ·) (p.after [there, back]).amounts p.amounts := by
  intro shares p fees there back mixed
  have hp : p.check = .ok () := by decide +kernel
  have hfree : fees.adminRate = 0 := rfl
  have hpos : ∀ pre ∈ mixed.inits, 0 < (p.after pre).shares.totalSupply := by decide +kernel
  have hsupply : (p.after mixed).shares.totalSupply = 7000 := by decide +kernel
  have hlower : (p.after [there, back]).amounts.getD 1 0 < p.amounts.getD 1 0 := by decide +kernel
  obtain ⟨hworth, -⟩ := worth_kept hp rfl mixed
  obtain ⟨-, hfair⟩ := worth_kept hp rfl [there, back]
  have hkept := hworth (fun pre hpre => hpos pre ((List.mem_inits _ _).2 hpre))
    (by simp [mixed, there, Command.adminFree, hfree])
  rw [hsupply] at hkept
  exact ⟨hsupply, hkept, hlower,
    fun hle => hfair (by simp [there, back, Command.isSwap]) ⟨hle, 1, hlower⟩⟩

end Pool

end SwapPool
