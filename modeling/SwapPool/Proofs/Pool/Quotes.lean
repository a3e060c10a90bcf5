import Mathlib.Data.List.GetD
import SwapPool.Pool.ConstantProduct
import SwapPool.Pool.Stable
import SwapPool.Proofs.AdminShares
import SwapPool.Proofs.Number.Product
import SwapPool.Proofs.Pool.Admissible

/-! What a quote has checked and what it holds. A quote that was answered is taken
apart into the conditions that it passed and the steps that it went through. -/

namespace SwapPool.Pool

open StableInvariant (calcD calcY adjustForImbalance)

variable {p : Pool} {amounts : List Int}

theorem tokenIndex_eq_ok {token : String} {i : Nat} (h : p.tokenIndex token = .ok i) :
    p.tokens[i]? = some token := by
  unfold tokenIndex at h
  cases hi : p.tokens.idxOf? token with
  | none => simp [hi] at h
  | some k =>
    obtain rfl : k = i := by simpa [hi] using h
    obtain ⟨hk, ht, -⟩ := List.idxOf?_eq_some_iff.1 hi
    rw [List.getElem?_eq_getElem hk, ht]

theorem tokenIndex_of_swapIndices {tokenIn tokenOut : String} {i j : Nat}
    (h : p.swapIndices tokenIn tokenOut = .ok (i, j)) :
    tokenIn ≠ tokenOut ∧ p.tokenIndex tokenIn = .ok i ∧ p.tokenIndex tokenOut = .ok j := by
  simpa [swapIndices] using h

theorem swapIndices_eq_ok {tokenIn tokenOut : String} {i j : Nat}
    (h : p.swapIndices tokenIn tokenOut = .ok (i, j)) :
    i < p.tokens.length ∧ j < p.tokens.length ∧ i ≠ j := by
  obtain ⟨hne, hi, hj⟩ := tokenIndex_of_swapIndices h
  have hi := tokenIndex_eq_ok hi
  have hj := tokenIndex_eq_ok hj
  refine ⟨(List.getElem?_eq_some_iff.1 hi).1, (List.getElem?_eq_some_iff.1 hj).1, ?_⟩
  rintro rfl
  exact hne (Option.some.inj (hi.symm.trans hj))

theorem checkAmounts_eq_ok_iff : p.checkAmounts amounts = .ok () ↔
    amounts.length = p.tokens.length ∧ ∀ a ∈ amounts, 0 ≤ a := by
  simp [checkAmounts]

theorem movedAmounts_eq_ok_iff {i j : Nat} {amountIn amountOut : Int} {newAmounts : List Int}
    (hi : i < amounts.length) (hj : j < amounts.length) (hij : i ≠ j) :
    movedAmounts amounts i amountIn j amountOut = .ok newAmounts ↔
      amountOut ≤ amounts.getD j 0 ∧ newAmounts =
        (amounts.set i (amounts.getD i 0 + amountIn)).set j (amounts.getD j 0 - amountOut) := by
  have hm : amounts.modify i (· + amountIn) = amounts.set i (amounts[i] + amountIn) := by
    refine List.ext_getElem (by simp) fun k h1 h2 => ?_
    rw [List.getElem_modify, List.getElem_set]
    split <;> simp_all
  have hj' : j < (amounts.set i (amounts[i] + amountIn)).length := by rwa [List.length_set]
  rw [List.getD_eq_getElem amounts 0 hi, List.getD_eq_getElem amounts 0 hj]
  simp only [movedAmounts, hm, Position.item_natCast hj', List.getElem_set_ne hij, ok_bind,
    bind_eq_ok_iff, Checked.sub_eq_ok_iff, pure_eq_ok, Except.ok.injEq]
  constructor
  · rintro ⟨_, ⟨hle, rfl⟩, rfl⟩
    exact ⟨hle, rfl⟩
  · rintro ⟨hle, rfl⟩
    exact ⟨_, ⟨hle, rfl⟩, rfl⟩

theorem getD_of_movedAmounts {i j : Nat} {amountIn amountOut : Int} {newAmounts : List Int}
    (hi : i < amounts.length) (hj : j < amounts.length) (hij : i ≠ j)
    (h : movedAmounts amounts i amountIn j amountOut = .ok newAmounts) :
    newAmounts.getD i 0 = amounts.getD i 0 + amountIn ∧
      newAmounts.getD j 0 = amounts.getD j 0 - amountOut := by
  obtain ⟨-, rfl⟩ := (movedAmounts_eq_ok_iff hi hj hij).1 h
  constructor
  · rw [getD_set (by rwa [List.length_set]), if_neg hij.symm, getD_set hi, if_pos rfl]
  · rw [getD_set (by rwa [List.length_set]), if_pos rfl]

theorem nonneg_zipWith_add {xs ys : List Int} (hx : ∀ x ∈ xs, 0 ≤ x) (hy : ∀ y ∈ ys, 0 ≤ y) :
    ∀ z ∈ List.zipWith (· + ·) xs ys, 0 ≤ z := by
  intro z hz
  obtain ⟨x, hmx, y, hmy, rfl⟩ := exists_of_mem_zipWith hz
  exact add_nonneg (hx x hmx) (hy y hmy)

/-- Deductions that are checked leave the differences, and none is negative. -/
theorem subs_eq_ok {xs ys zs : List Int}
    (h : ((xs.zip ys).mapM fun (x, y) => Checked.sub x y) = .ok zs) :
    zs = List.zipWith (· - ·) xs ys ∧ ∀ z ∈ zs, 0 ≤ z := by
  rw [mapM_eq_ok_iff] at h
  induction xs generalizing ys zs with
  | nil => cases h; simp
  | cons x xs ih =>
    cases ys with
    | nil => cases h; simp
    | cons y ys =>
      rw [List.zip_cons_cons] at h
      cases h with
      | cons hz hzs =>
        obtain ⟨hle, rfl⟩ := Checked.sub_eq_ok_iff.1 hz
        obtain ⟨rfl, hn⟩ := ih hzs
        rw [List.forall_mem_cons]
        exact ⟨rfl, by omega, hn⟩

theorem subs_succeed {xs ys : List Int} (h : List.Forall₂ (· ≤ ·) ys xs) :
    ((xs.zip ys).mapM fun (x, y) => Checked.sub x y) = .ok (List.zipWith (· - ·) xs ys) := by
  rw [mapM_eq_ok_iff]
  induction h with
  | nil => exact .nil
  | cons hyx _ ih => exact .cons (Checked.sub_eq_ok_iff.2 ⟨hyx, rfl⟩) ih

/-- A quotient of every entry, each of them checked. -/
theorem quots_eq_ok {f : Int → Int} {d : Int} {xs ys : List Int}
    (h : (xs.mapM fun x => Checked.quot (f x) d) = .ok ys) : ys = xs.map fun x => (f x).fdiv d := by
  rw [mapM_eq_ok_iff] at h
  induction h with
  | nil => rfl
  | cons hxy _ ih => rw [List.map_cons, ← ih, (Checked.quot_eq_ok_iff.1 hxy).2]

theorem quots_succeed {d : Int} (hd : d ≠ 0) (f : Int → Int) (xs : List Int) :
    (xs.mapM fun x => Checked.quot (f x) d) = .ok (xs.map fun x => (f x).fdiv d) := by
  rw [mapM_eq_ok_iff, List.forall₂_map_right_iff, List.forall₂_same]
  exact fun x _ => Checked.quot_eq_ok_iff.2 ⟨hd, rfl⟩

/-- A withdrawal is within the balance of its sender and pays the rounded-down part. -/
theorem withdrawal_eq_ok {sender : String} {shares : Int} {minimums paid : List Int}
    (h : p.withdrawal sender shares minimums = .ok paid) :
    0 < shares ∧ shares ≤ p.shares.balanceOf sender ∧
      paid = p.amounts.map fun r => (r * shares).fdiv p.shares.totalSupply := by
  simp only [withdrawal, bind_eq_ok_iff, exists_unit_iff, throw_eq_error, error_bind,
    unless_eq_ok_iff, not_le, not_lt] at h
  obtain ⟨-, hs, hb, amounts, ha, hm⟩ := h
  split at hm
  · simp at hm
  · obtain rfl : amounts = paid := by simpa using hm
    exact ⟨hs, hb, quots_eq_ok ha⟩

/-! ### Constant product -/

theorem deposit_eq_ok_iff {kept : Deposit} : p.deposit amounts = .ok kept ↔
    p.checkAmounts amounts = .ok () ∧
      (p.shares.totalSupply = 0 ∧ (∀ a ∈ amounts, 0 < a) ∧ kept = ⟨initSharesSupply, amounts⟩ ∨
        p.shares.totalSupply ≠ 0 ∧ (∀ r ∈ p.amounts, 0 < r) ∧ p.coveredShares amounts ≠ 0 ∧
          kept = ⟨p.coveredShares amounts, p.amounts.map fun r =>
            Checked.ceiling (r * p.coveredShares amounts) p.shares.totalSupply⟩) := by
  by_cases h0 : p.shares.totalSupply = 0 <;> simp [deposit, h0, eq_comm (b := kept)]

/-- The shares of a later deposit have the sign of the supply. -/
theorem coveredShares_mul_nonneg (ha : ∀ a ∈ amounts, 0 ≤ a) (hr : ∀ r ∈ p.amounts, 0 < r) :
    0 ≤ p.coveredShares amounts * p.shares.totalSupply := by
  unfold coveredShares
  cases hm : ((amounts.zip p.amounts).map fun (a, r) => (a * p.shares.totalSupply).fdiv r).min? with
  | none => simp
  | some m =>
    obtain ⟨⟨a, r⟩, hz, rfl⟩ := List.mem_map.1 (List.min?_mem hm)
    have h0 := ha a (List.of_mem_zip hz).1
    have hp := hr r (List.of_mem_zip hz).2
    rw [Option.getD_some]
    rcases le_total 0 p.shares.totalSupply with hs | hs
    · exact mul_nonneg ((le_fdiv_iff hp).2 (by simpa using mul_nonneg h0 hs)) hs
    · exact mul_nonneg_of_nonpos_of_nonpos
        (fdiv_le_of_le_mul hp (by simpa using mul_nonpos_of_nonneg_of_nonpos h0 hs)) hs

theorem split_of_growthMints {newAmounts : List Int} {fees : AdminFees}
    {mints : List (String × Int)} (h : p.growthMints newAmounts fees = .ok mints) :
    ∃ shares, mints = fees.splitShares shares := by
  unfold growthMints at h
  split at h
  · exact ⟨0, (Except.ok.inj h).symm⟩
  · simp only [bind_eq_ok_iff, pure_eq_ok, Except.ok.injEq] at h
    obtain ⟨_, -, _, -, shares, -, rfl⟩ := h
    exact ⟨shares, rfl⟩

theorem growthMints_eq_ok {newAmounts : List Int} {fees : AdminFees}
    {mints : List (String × Int)} (h : p.growthMints newAmounts fees = .ok mints) :
    (∀ m ∈ mints, 0 < m.2) ∧ (fees.adminRate = 0 → mints = []) := by
  obtain ⟨shares, rfl⟩ := split_of_growthMints h
  exact ⟨fun _ => AdminFees.splitShares_pos, fun hr => AdminFees.splitShares_of_adminFree hr shares⟩

theorem growthMints_of_adminFree {fees : AdminFees} (h : fees.adminRate = 0)
    (newAmounts : List Int) : p.growthMints newAmounts fees = .ok [] := by
  rw [growthMints, if_pos (.inl h)]
  rfl

theorem quoteProductSwap_eq_ok {tokenIn tokenOut : String} {x minimum : Int} {fees : AdminFees}
    {i j : Nat} {q : Quote}
    (h : p.quoteProductSwap tokenIn x tokenOut minimum fees = .ok (i, j, q)) :
    p.swapIndices tokenIn tokenOut = .ok (i, j) ∧ 0 < x ∧ fees.validate p.totalFee = .ok () ∧
      ConstantProduct.amountOut x (p.amounts.getD i 0) (p.amounts.getD j 0) p.totalFee =
        .ok q.value ∧
      movedAmounts p.amounts i x j q.value = .ok q.newAmounts ∧
      p.growthMints q.newAmounts fees = .ok q.adminMints := by
  simp only [quoteProductSwap, settleProduct, bind_eq_ok_iff, Prod.exists, throw_eq_error,
    error_bind, unless_eq_ok_iff, exists_unit_iff, pure_eq_ok, Except.ok.injEq, Prod.mk.injEq,
    not_le] at h
  obtain ⟨_, _, hij, hx, hv, _, hout, -, -, _, ⟨_, hm, _, hg, rfl⟩, rfl, rfl, rfl⟩ := h
  exact ⟨hij, hx, hv, hout, hm, hg⟩

theorem quoteProductSwap_value_ne {tokenIn tokenOut : String} {x minimum : Int} {fees : AdminFees}
    {i j : Nat} {q : Quote}
    (h : p.quoteProductSwap tokenIn x tokenOut minimum fees = .ok (i, j, q)) : q.value ≠ 0 := by
  simp only [quoteProductSwap, settleProduct, bind_eq_ok_iff, Prod.exists, throw_eq_error,
    error_bind, unless_eq_ok_iff, exists_unit_iff, pure_eq_ok, Except.ok.injEq, Prod.mk.injEq] at h
  obtain ⟨_, _, -, -, -, _, -, -, hne, _, ⟨_, -, _, -, rfl⟩, -, -, rfl⟩ := h
  exact hne

theorem quoteProductSwapByOutput_eq_ok {tokenIn tokenOut : String} {y : Int}
    {maximum : Option Int} {fees : AdminFees} {i j : Nat} {q : Quote}
    (h : p.quoteProductSwapByOutput tokenIn y tokenOut maximum fees = .ok (i, j, q)) :
    p.swapIndices tokenIn tokenOut = .ok (i, j) ∧ 0 < y ∧ fees.validate p.totalFee = .ok () ∧
      ConstantProduct.amountIn y (p.amounts.getD i 0) (p.amounts.getD j 0) p.totalFee =
        .ok q.value ∧
      movedAmounts p.amounts i q.value j y = .ok q.newAmounts ∧
      p.growthMints q.newAmounts fees = .ok q.adminMints := by
  cases maximum <;> simp only [quoteProductSwapByOutput, settleProduct, bind_eq_ok_iff,
    Prod.exists, throw_eq_error, error_bind, unless_eq_ok_iff, exists_unit_iff, pure_eq_ok,
    Except.ok.injEq, Prod.mk.injEq, not_le] at h
  · obtain ⟨_, _, hij, hy, hv, _, hin, _, ⟨_, hm, _, hg, rfl⟩, rfl, rfl, rfl⟩ := h
    exact ⟨hij, hy, hv, hin, hm, hg⟩
  · obtain ⟨_, _, hij, hy, hv, _, hin, -, _, ⟨_, hm, _, hg, rfl⟩, rfl, rfl, rfl⟩ := h
    exact ⟨hij, hy, hv, hin, hm, hg⟩

/-! ### Stable -/

theorem depositShares_pos {old new : List Int} {amp minted : Int} {fees : AdminFees}
    {mints : List (String × Int)}
    (h : p.depositShares amounts old new amp fees = .ok (minted, mints)) :
    ∀ m ∈ mints, 0 < m.2 := by
  simp only [depositShares, bind_eq_ok_iff, throw_eq_error, error_bind, unless_eq_ok_iff,
    pure_eq_ok, Except.ok.injEq, Prod.mk.injEq] at h
  obtain ⟨_, -, _, -, -, _, -, _, -, _, -, _, -, _, -, _, -, _, -, -, rfl⟩ := h
  exact fun m => AdminFees.splitShares_pos

/-- A deposit adds what is supplied, and credits admin recipients with positive numbers only. -/
theorem quoteDeposit_eq_ok {c : StableCurve} {fees : AdminFees} {rates : Option (List Int)}
    {q : Quote} (h : p.quoteDeposit c amounts fees rates = .ok q) :
    p.checkAmounts amounts = .ok () ∧ q.newAmounts = List.zipWith (· + ·) p.amounts amounts ∧
      ∀ m ∈ q.adminMints, 0 < m.2 := by
  by_cases h0 : p.shares.totalSupply = 0
  · simp only [quoteDeposit, if_pos h0, bind_eq_ok_iff, exists_unit_iff, throw_eq_error, error_bind,
      unless_eq_ok_iff, pure_eq_ok, Except.ok.injEq] at h
    obtain ⟨ha, -, _, -, -, _, -, _, rfl, -, rfl⟩ := h
    exact ⟨ha, rfl, by simp⟩
  · simp only [quoteDeposit, if_neg h0, bind_eq_ok_iff, exists_unit_iff, throw_eq_error, error_bind,
      unless_eq_ok_iff, pure_eq_ok, Except.ok.injEq] at h
    obtain ⟨ha, -, _, -, _, hs, -, rfl⟩ := h
    exact ⟨ha, rfl, depositShares_pos hs⟩

/-- What a quote of a later deposit went through: the invariants before it, after it, and after it
less the imbalance fee. -/
structure DepositSteps (p : Pool) (c : StableCurve) (units amounts : List Int) (fees : AdminFees)
    (q : Quote) (d₀ d₁ d₂ : Int) : Prop where
  checked : p.checkAmounts amounts = .ok ()
  validated : fees.validate p.totalFee = .ok ()
  newAmounts_eq : q.newAmounts = List.zipWith (· + ·) p.amounts amounts
  before : calcD c.amp (comparables units p.amounts) p.config = .ok d₀
  after : calcD c.amp (comparables units q.newAmounts) p.config = .ok d₁
  grows : d₀ < d₁
  charged : ∃ adjusted, adjustForImbalance (comparables units p.amounts)
    (comparables units q.newAmounts) d₀ d₁ p.totalFee = .ok adjusted ∧
      calcD c.amp adjusted p.config = .ok d₂
  before_ne : d₀ ≠ 0
  before_le : d₀ ≤ d₂
  value_eq : q.value = (p.shares.totalSupply * (d₂ - d₀)).fdiv d₀
  value_ne : q.value ≠ 0
  value_le : q.value ≤ (p.shares.totalSupply * (d₁ - d₀)).fdiv d₀
  minted : q.adminMints = fees.splitShares (fees.adminPart
    ((p.shares.totalSupply * (d₁ - d₀)).fdiv d₀ - q.value) p.totalFee)

theorem quoteDeposit_steps {c : StableCurve} {fees : AdminFees} {rates : Option (List Int)}
    {q : Quote} (h : p.quoteDeposit c amounts fees rates = .ok q) (h0 : p.shares.totalSupply ≠ 0) :
    ∃ applied, c.effectiveRates p.tokens.length rates = .ok applied ∧
      ∃ d₀ d₁ d₂, p.DepositSteps c (c.units applied) amounts fees q d₀ d₁ d₂ := by
  simp only [quoteDeposit, if_neg h0, depositShares, sharesWorth, bind_eq_ok_iff, exists_unit_iff,
    throw_eq_error, error_bind, unless_eq_ok_iff, pure_eq_ok, Except.ok.injEq,
    Checked.sub_eq_ok_iff, Checked.quot_eq_ok_iff, not_le] at h
  obtain ⟨ha, hv, applied, hr, _, ⟨d₀, hd₀, d₁, hd₁, hlt, adjusted, hadj, d₂, hd₂, _, ⟨hle, rfl⟩, _,
    ⟨hne, rfl⟩, _, ⟨-, rfl⟩, _, ⟨-, rfl⟩, _, ⟨hfair, rfl⟩, rfl⟩, hvalue, rfl⟩ := h
  exact ⟨applied, hr, d₀, d₁, d₂, ha, hv, rfl, hd₀, hd₁, hlt, ⟨adjusted, hadj, hd₂⟩, hne, hle, rfl,
    hvalue, hfair, rfl⟩

/-- What a quote of a withdrawal by tokens went through, with the same three invariants. -/
structure WithdrawalSteps (p : Pool) (c : StableCurve) (units amounts : List Int)
    (fees : AdminFees) (q : Quote) (d₀ d₁ d₂ : Int) : Prop where
  checked : p.checkAmounts amounts = .ok ()
  validated : fees.validate p.totalFee = .ok ()
  supply_ne : p.shares.totalSupply ≠ 0
  some_ne : ∃ a ∈ amounts, a ≠ 0
  kept : p.drained? amounts = none
  left : ((p.amounts.zip amounts).mapM fun (r, a) => Checked.sub r a) = .ok q.newAmounts
  before : calcD c.amp (comparables units p.amounts) p.config = .ok d₀
  after : calcD c.amp (comparables units q.newAmounts) p.config = .ok d₁
  charged : ∃ adjusted, adjustForImbalance (comparables units p.amounts)
    (comparables units q.newAmounts) d₀ d₁ p.totalFee = .ok adjusted ∧
      calcD c.amp adjusted p.config = .ok d₂
  before_ne : d₀ ≠ 0
  after_le : d₁ ≤ d₀
  charged_le : d₂ ≤ d₀
  value_eq : q.value = Checked.ceiling (p.shares.totalSupply * (d₀ - d₂)) d₀
  le_value : (p.shares.totalSupply * (d₀ - d₁)).fdiv d₀ ≤ q.value
  minted : q.adminMints = fees.splitShares (fees.adminPart
    (q.value - (p.shares.totalSupply * (d₀ - d₁)).fdiv d₀) p.totalFee)

theorem quoteWithdrawal_steps {c : StableCurve} {fees : AdminFees} {rates : Option (List Int)}
    {q : Quote} (h : p.quoteWithdrawal c amounts fees rates = .ok q) :
    ∃ applied, c.effectiveRates p.tokens.length rates = .ok applied ∧
      ∃ d₀ d₁ d₂, p.WithdrawalSteps c (c.units applied) amounts fees q d₀ d₁ d₂ := by
  cases hk : p.drained? amounts <;> simp only [quoteWithdrawal, hk, sharesWorth, bind_eq_ok_iff,
    throw_eq_error, error_bind, unless_eq_ok_iff, exists_unit_iff, pure_eq_ok, Except.ok.injEq,
    Checked.sub_eq_ok_iff, Checked.quot_eq_ok_iff, Checked.ceilQuot_eq_ok_iff] at h
  · obtain ⟨ha, hv, applied, hr, hs, hall, _, hl, d₀, hd₀, d₁, hd₁, adjusted, hadj, d₂, hd₂, _,
      ⟨hle₂, rfl⟩, _, ⟨hne, rfl⟩, _, ⟨hle₁, rfl⟩, _, ⟨-, rfl⟩, _, ⟨hfair, rfl⟩, rfl⟩ := h
    exact ⟨applied, hr, d₀, d₁, d₂, ha, hv, hs, by simpa using hall, hk, hl, hd₀, hd₁,
      ⟨adjusted, hadj, hd₂⟩, hne, hle₁, hle₂, rfl, hfair, rfl⟩
  · simp at h

/-- A withdrawal leaves the differences, and credits admin recipients with positive numbers only. -/
theorem quoteWithdrawal_eq_ok {c : StableCurve} {fees : AdminFees} {rates : Option (List Int)}
    {q : Quote} (h : p.quoteWithdrawal c amounts fees rates = .ok q) :
    p.checkAmounts amounts = .ok () ∧
      ((p.amounts.zip amounts).mapM fun (r, a) => Checked.sub r a) = .ok q.newAmounts ∧
      ∀ m ∈ q.adminMints, 0 < m.2 := by
  obtain ⟨_, -, _, _, _, hq⟩ := quoteWithdrawal_steps h
  exact ⟨hq.checked, hq.left, fun m hm => AdminFees.splitShares_pos (hq.minted ▸ hm)⟩

theorem getD_of_item {xs : List Int} {i : Nat} {x : Int} (h : Position.item xs i = .ok x) :
    xs.getD i 0 = x := by
  rcases lt_or_ge i xs.length with hi | hi
  · rw [Position.item_natCast hi, Except.ok.injEq] at h
    rw [List.getD_eq_getElem xs 0 hi, h]
  · have hr : Position.resolve? xs.length i = none := by
      unfold Position.resolve?
      rw [if_neg (by omega)]
    simp [Position.item, Position.resolve, hr] at h

/-- The mints of a swap are none, where there is nothing to mint for, or the split of what the
admin part of the fee adds to the invariant. -/
theorem swapMints_eq_ok {c : StableCurve} {units newAmounts : List Int} {i : Nat}
    {amountOut adminAmount : Int} {fees : AdminFees} {mints : List (String × Int)}
    (h : p.swapMints c units newAmounts i amountOut adminAmount fees = .ok mints) :
    (adminAmount ≤ 0 ∨ p.shares.totalSupply ≤ 0 ∨ amountOut ≤ 0) ∧ mints = [] ∨
      0 < adminAmount ∧ 0 < p.shares.totalSupply ∧
        ∃ d₁ d₂, calcD c.amp (comparables units newAmounts) p.config = .ok d₁ ∧
          calcD c.amp (comparables units (newAmounts.set i (newAmounts.getD i 0 - adminAmount)))
            p.config = .ok d₂ ∧
          d₂ ≠ 0 ∧ d₂ ≤ d₁ ∧
          mints = fees.splitShares ((p.shares.totalSupply * (d₁ - d₂)).fdiv d₂) := by
  unfold swapMints at h
  split at h
  next hsome =>
    simp only [bind_eq_ok_iff, Checked.sub_eq_ok_iff, sharesWorth, Checked.quot_eq_ok_iff,
      pure_eq_ok, Except.ok.injEq] at h
    obtain ⟨r, hr, _, ⟨-, rfl⟩, d₁, hd₁, d₂, hd₂, _, ⟨hle, rfl⟩, _, ⟨hne, rfl⟩, hmints⟩ := h
    rw [← getD_of_item hr] at hd₂
    exact .inr ⟨hsome.1, hsome.2.1, d₁, d₂, hd₁, hd₂, hne, hle, hmints.symm⟩
  next hnone => exact .inl ⟨by omega, (Except.ok.inj h).symm⟩

theorem split_of_swapMints {c : StableCurve} {units newAmounts : List Int} {i : Nat}
    {amountOut adminAmount : Int} {fees : AdminFees} {mints : List (String × Int)}
    (h : p.swapMints c units newAmounts i amountOut adminAmount fees = .ok mints) :
    ∃ shares, mints = fees.splitShares shares := by
  obtain ⟨-, hnone⟩ | ⟨-, -, _, _, -, -, -, -, hsplit⟩ := swapMints_eq_ok h
  · exact ⟨0, hnone⟩
  · exact ⟨_, hsplit⟩

/-- What a quote of a swap went through, with the fee, the invariant and the solved balance. -/
structure SwapSteps (p : Pool) (c : StableCurve) (units : List Int) (i : Nat) (x : Int) (j : Nat)
    (fees : AdminFees) (q : Quote) (fee d y : Int) : Prop where
  validated : fees.validate p.totalFee = .ok ()
  reserves_pos : ∀ b ∈ comparables units p.amounts, 0 < b
  fee_eq : fee = Checked.ceiling (x * p.totalFee) feeDivisor
  fee_le : fee ≤ x
  invariant : calcD c.amp (comparables units p.amounts) p.config = .ok d
  solved : calcY c.amp (toComparable (units.getD i 0) (p.amounts.getD i 0 + (x - fee)))
    (comparables units p.amounts) i j d p.config = .ok y
  value_eq : q.value = min (fromComparable (units.getD j 0)
    (max ((comparables units p.amounts).getD j 0 - y - 1) 0)) (p.amounts.getD j 0)
  moved : movedAmounts p.amounts i x j q.value = .ok q.newAmounts
  minted : p.swapMints c units q.newAmounts i q.value (fees.adminPart fee p.totalFee) fees =
    .ok q.adminMints

theorem quoteSwap_eq_ok {c : StableCurve} {i j : Nat} {x : Int} {fees : AdminFees}
    {rates : Option (List Int)} {q : Quote} (h : p.quoteSwap c i x j fees rates = .ok q) :
    ∃ applied, c.effectiveRates p.tokens.length rates = .ok applied ∧
      ∃ fee d y, p.SwapSteps c (c.units applied) i x j fees q fee d y := by
  simp only [quoteSwap, quoteSwapPaying, bind_eq_ok_iff, throw_eq_error, error_bind,
    unless_eq_ok_iff, exists_unit_iff, pure_eq_ok, Except.ok.injEq, Int.toNat_natCast,
    Checked.ceilQuot_eq_ok_iff, Checked.sub_eq_ok_iff] at h
  obtain ⟨hv, applied, hr, hpos, fee, ⟨-, hfee⟩, _, ⟨hle, rfl⟩, d, hd, u, hu, r, hri, y, hy, o, ho,
    w, hw, s, hs, new, hm, mints, hmints, rfl⟩ := h
  rw [← getD_of_item hu, ← getD_of_item hri] at hy
  rw [← getD_of_item ho, ← getD_of_item hw, ← getD_of_item hs] at hm hmints ⊢
  exact ⟨applied, hr, fee, d, y, hv, by simpa using hpos, hfee, hle, hd, hy, rfl, hm, hmints⟩

theorem quoteStableSwap_eq_ok {c : StableCurve} {tokenIn tokenOut : String} {x minimum : Int}
    {fees : AdminFees} {i j : Nat} {q : Quote}
    (h : p.quoteStableSwap c tokenIn x tokenOut minimum fees = .ok (i, j, q)) :
    p.swapIndices tokenIn tokenOut = .ok (i, j) ∧ 0 < x ∧ q.value ≠ 0 ∧
      ∃ fee d y, p.SwapSteps c (c.units (c.cachedRates p.tokens.length)) i x j fees q fee d y := by
  simp only [quoteStableSwap, bind_eq_ok_iff, Prod.exists, throw_eq_error, error_bind,
    unless_eq_ok_iff, exists_unit_iff, pure_eq_ok, Except.ok.injEq, Prod.mk.injEq, not_le] at h
  obtain ⟨_, _, hij, hx, q, hq, -, hne, rfl, rfl, rfl⟩ := h
  obtain ⟨_, hr, hsteps⟩ := quoteSwap_eq_ok hq
  obtain rfl : c.cachedRates p.tokens.length = _ := Except.ok.inj hr
  exact ⟨hij, hx, hne, hsteps⟩

end SwapPool.Pool
