import SwapPool.Proofs.ConstantProduct.FeeShares

/-! The geometric mean of the reserves, rounded down. Newton's steps fall, so their
loop ends, after no more turns than it starts above the root; and it ends exactly at
the root, so that the searches below and above it stop where they start. The mean of
the reserves is the root of their product, and it follows the product. -/

namespace SwapPool

/-- A loop that replaces `r` by `body r` while `test r` holds leads from one number to another in a
number of turns, and ends there. -/
inductive Loop (test : Nat → Prop) (body : Nat → Nat) : Nat → Nat → Nat → Prop
  | done {r : Nat} (h : ¬ test r) : Loop test body 0 r r
  | turn {turns r s : Nat} (h : test r) (rest : Loop test body turns (body r) s) :
      Loop test body (turns + 1) r s

namespace Root

variable {n x r k : Nat}

/-- A search for the root: Newton's steps while they fall, then units down while the power is above
`x`, then units up while the next power is not. -/
def Search (n x turns downs ups r : Nat) : Prop :=
  ∃ r₁ r₂, Loop (fun r => step n x r < r) (step n x) turns (start n x) r₁ ∧
    Loop (fun r => x < r ^ n) (· - 1) downs r₁ r₂ ∧ Loop (fun r => (r + 1) ^ n ≤ x) (· + 1) ups r₂ r

theorem loop_descend (n x r : Nat) : ∃ turns, turns + descend n x r ≤ r ∧
    Loop (fun r => step n x r < r) (step n x) turns r (descend n x r) := by
  induction r using descend.induct n x with
  | case1 r hlt ih =>
    obtain ⟨turns, hturns, hloop⟩ := ih
    rw [descend, if_pos hlt]
    exact ⟨turns + 1, by omega, .turn hlt hloop⟩
  | case2 r hlt =>
    rw [descend, if_neg hlt]
    exact ⟨0, (Nat.zero_add r).le, .done hlt⟩

theorem floorRoot_pow_le (hn : 1 ≤ n) (x : Nat) : floorRoot n x ^ n ≤ x :=
  (le_floorRoot_iff hn).1 le_rfl

theorem lt_succ_floorRoot_pow (hn : 1 ≤ n) (x : Nat) : x < (floorRoot n x + 1) ^ n :=
  not_le.1 (mt (le_floorRoot_iff hn).2 (by omega))

/-- The search ends at the root, and Newton's steps have already brought it there. -/
theorem search_floorRoot (hn : 2 ≤ n) (hx : 2 ≤ x) :
    ∃ turns, turns + floorRoot n x ≤ start n x ∧ Search n x turns 0 0 (floorRoot n x) := by
  have hbelow := floorRoot_pow_le (by omega : 1 ≤ n) x
  have habove := lt_succ_floorRoot_pow (by omega : 1 ≤ n) x
  obtain ⟨turns, hturns, hloop⟩ := loop_descend n x (start n x)
  rw [← floorRoot_eq_descend hn hx] at hturns hloop
  exact ⟨turns, hturns, _, _, hloop, .done hbelow.not_gt, .done habove.not_ge⟩

end Root

namespace ConstantProduct

variable {reserves : List Int} {I J : Int}

theorem exists_invariant (h : ∀ r ∈ reserves, 0 ≤ r) (hne : reserves ≠ []) :
    ∃ I, invariant reserves = .ok I ∧ 0 ≤ I ∧ I ^ reserves.length ≤ product reserves ∧
      product reserves < (I + 1) ^ reserves.length := by
  have hanswer := invariant_of_nonneg h hne
  exact ⟨_, hanswer, invariant_nonneg hanswer, pow_invariant_le h hne hanswer,
    lt_succ_invariant_pow h hne hanswer⟩

theorem invariant_mono {xs ys : List Int} (hne : xs ≠ []) (hlen : xs.length = ys.length)
    (hx : ∀ x ∈ xs, 0 ≤ x) (hy : ∀ y ∈ ys, 0 ≤ y) (hle : product xs ≤ product ys)
    (hI : invariant xs = .ok I) (hJ : invariant ys = .ok J) : I ≤ J := by
  have hne' : ys ≠ [] := by
    rintro rfl
    exact hne (List.eq_nil_of_length_eq_zero hlen)
  rw [le_invariant_iff hy hne' hJ (invariant_nonneg hI), ← hlen]
  exact (pow_invariant_le hx hne hI).trans hle

/-- The root is exact and the search for it ends: it is returned at once where the number is its own
root, and else Newton's steps lead to it and the two searches that follow stop where they start. So
the invariant of reserves is the floor of their geometric mean, and it follows their product. -/
theorem root_and_invariant_exact (x : Nat) {n : Nat} (hn : 1 ≤ n) :
    (∃ r : Nat, integerRoot x n = .ok r ∧ r ^ n ≤ x ∧ x < (r + 1) ^ n ∧
      (x < 2 ∨ n = 1 → r = x) ∧
      (2 ≤ x → 2 ≤ n → ∃ turns, turns + r ≤ Root.start n x ∧ Root.Search n x turns 0 0 r)) ∧
    (∀ reserves : List Int, reserves.length = n → (∀ r ∈ reserves, 0 ≤ r) →
      ∃ I, invariant reserves = .ok I ∧ 0 ≤ I ∧ I ^ n ≤ product reserves ∧
        product reserves < (I + 1) ^ n) ∧
    ∀ xs ys : List Int, xs.length = n → ys.length = n → (∀ x ∈ xs, 0 ≤ x) → (∀ y ∈ ys, 0 ≤ y) →
      product xs ≤ product ys → ∀ I J, invariant xs = .ok I → invariant ys = .ok J → I ≤ J := by
  have hne {zs : List Int} (hl : zs.length = n) : zs ≠ [] := List.ne_nil_of_length_pos (by omega)
  refine ⟨⟨Root.floorRoot n x, ?_, Root.floorRoot_pow_le hn x, Root.lt_succ_floorRoot_pow hn x,
    Root.floorRoot_of_trivial, fun hx hn => Root.search_floorRoot hn hx⟩, ?_, ?_⟩
  · rw [integerRoot_of_nonneg (Int.natCast_nonneg x) (by omega), Int.toNat_natCast,
      Int.toNat_natCast]
  · intro reserves hl h
    have hmean := exists_invariant h (hne hl)
    rwa [hl] at hmean
  · intro xs ys hl hl' hx hy hle I J hI hJ
    exact invariant_mono (hne hl) (hl.trans hl'.symm) hx hy hle hI hJ

/-- A degree above the bit length, and a product that is no power. -/
theorem root_and_invariant_exact_high_degree :
    (∃ r : Nat, integerRoot (5 : Nat) (70 : Nat) = .ok r ∧ r ^ 70 ≤ 5 ∧ 5 < (r + 1) ^ 70 ∧
      ∃ turns, turns + r ≤ Root.start 70 5 ∧ Root.Search 70 5 turns 0 0 r) ∧
    ∃ I, invariant [2, 5, 9] = .ok I ∧ I ^ 3 ≤ product [2, 5, 9] ∧
      product [2, 5, 9] < (I + 1) ^ 3 := by
  obtain ⟨⟨r, hr, hbelow, habove, -, hsearch⟩, -⟩ :=
    root_and_invariant_exact 5 (by decide : 1 ≤ 70)
  obtain ⟨-, hinvariant, -⟩ := root_and_invariant_exact 0 (by decide : 1 ≤ 3)
  obtain ⟨I, hI, -, hle, hlt⟩ := hinvariant [2, 5, 9] rfl (by decide)
  exact ⟨⟨r, hr, hbelow, habove, hsearch (by decide) (by decide)⟩, I, hI, hle, hlt⟩

end ConstantProduct

end SwapPool
