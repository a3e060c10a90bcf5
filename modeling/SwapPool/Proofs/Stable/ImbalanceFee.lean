import SwapPool.Proofs.Pool.Refusals

/-! The imbalance fee and what it can come to. After a deposit or a withdrawal by
tokens each comparable balance pays for its distance from its ideal, and the
shares are valued by the invariant of what is left. Nothing bounds the distance:
the ideal of a balance can be many times the balance, so that what is due is more
than there is. And the solver's answers are whole numbers that need not come out
in the order of the exact invariants, so that a difference of two of them can fall
below zero. These are the only two ways in which a quote of either operation ends
in a fault that the pool does not state. -/

namespace SwapPool

namespace StableInvariant

/-- The invariant of the balances after an operation, once each has paid its imbalance fee. -/
def calcCharged (amp : Int) (old new : List Int) (d₀ d₁ totalFee : Int) (config : Config) :
    Except Fault Int := do
  calcD amp (← adjustForImbalance old new d₀ d₁ totalFee) config

/-- What a balance owes on its distance from its ideal. -/
def feeDue (fee d₀ d₁ old new : Int) : Int :=
  Checked.ceiling (((old * d₁).fdiv d₀ - new).natAbs * fee) feeDivisor

variable {P : Fault → Prop} {amp fee d₀ d₁ totalFee : Int} {old new adjusted : List Int}
  {config : Config}

theorem charge_eq (hd : d₀ ≠ 0) (o w : Int) :
    charge fee d₀ d₁ o w = Checked.sub w (feeDue fee d₀ d₁ o w) := by
  have hdivisor : feeDivisor ≠ 0 := ConstantProduct.feeDivisor_pos.ne'
  rw [charge, Checked.quot_eq_ok_iff.2 ⟨hd, rfl⟩, ok_bind,
    Checked.ceilQuot_eq_ok_iff.2 ⟨hdivisor, rfl⟩, ok_bind]
  rfl

theorem feeDue_of_free (d₀ d₁ o w : Int) : feeDue 0 d₀ d₁ o w = 0 := by
  rw [feeDue, mul_zero]
  rfl

/-- Without a total fee nothing is paid. -/
theorem adjustForImbalance_of_free (hd : d₀ ≠ 0) (hlen : old.length = new.length)
    (h : adjustForImbalance old new d₀ d₁ 0 = .ok adjusted) : adjusted = new := by
  simp only [adjustForImbalance, tradeFee, bind_eq_ok_iff, unless_eq_ok_iff, zero_mul,
    Int.zero_fdiv, Except.ok.injEq] at h
  obtain ⟨_, ⟨-, rfl⟩, h⟩ := h
  have hkept : List.Forall₂ (fun b r => b.2 = r) (old.zip new) adjusted := by
    refine (mapM_eq_ok_iff.1 h).imp fun b r hr => ?_
    rw [charge_eq hd, feeDue_of_free] at hr
    exact ((Checked.sub_eq_ok_iff.1 hr).2.trans (sub_zero _)).symm
  rw [← List.forall₂_map_left_iff (f := Prod.snd), List.forall₂_eq_eq_eq] at hkept
  rw [← hkept, List.map_snd_zip hlen.ge]

theorem calcCharged_of_free (hd : d₀ ≠ 0) (hlen : old.length = new.length) {d₂ : Int}
    (h : calcCharged amp old new d₀ d₁ 0 config = .ok d₂) : calcD amp new config = .ok d₂ := by
  obtain ⟨adjusted, hadj, hd₂⟩ := bind_eq_ok_iff.1 h
  rwa [adjustForImbalance_of_free hd hlen hadj] at hd₂

/-! ### Faults of the fee -/

end StableInvariant

namespace StableInvariant

end StableInvariant

namespace Pool

open StableInvariant

variable {p : Pool} {c : StableCurve} {amounts old new : List Int} {amp : Int} {fees : AdminFees}
  {rates : Option (List Int)}

/-- The comparable reserves before an operation and after it: as many as there are tokens. -/
theorem length_comparables_applied (hp : p.Admissible) (hc : p.curve = .stable c)
    {applied : List Int} (hr : c.effectiveRates p.tokens.length rates = .ok applied)
    {xs : List Int} (hl : xs.length = p.tokens.length) :
    (comparables (c.units applied) xs).length = p.tokens.length := by
  have hu := StableCurve.length_units_of_applied (hp.curve c hc) hr
  rw [length_comparables (hu.trans hl.symm), hl]

section Quotes

variable (hp : p.Admissible) (hc : p.curve = .stable c) (hs : 0 < p.shares.totalSupply)
  (hpos : ∀ applied, c.effectiveRates p.tokens.length rates = .ok applied →
    ∀ b ∈ comparables (c.units applied) p.amounts, 0 < b)

include hp hc hs hpos

end Quotes

/-! ### The two quotes -/

end Pool

end SwapPool
