import Mathlib.Data.Int.Cast.Lemmas
import SwapPool.Pool.Comparable
import SwapPool.Proofs.Outcome

/-! The conditions under which a pool is built, as facts. `check` passes exactly
the admissible pools, so a pool that was built is one, with what was left out
filled in. -/

namespace SwapPool

theorem validateRates_eq_ok_iff {rates : List Int} {count : Int} :
    validateRates rates count = .ok () ↔ rates.length = count ∧ ∀ r ∈ rates, 0 < r := by
  simp [validateRates]

namespace StableCurve

/-- One decimal count within the target and one positive rate per token, and an amplification
within its range. -/
structure Admissible (c : StableCurve) (count : Nat) : Prop where
  decimals_length : c.decimals.length = count
  decimals_nonneg : ∀ d ∈ c.decimals, 0 ≤ d
  decimals_le : ∀ d ∈ c.decimals, d ≤ c.valuation.targetDecimals
  minAmp_le : minAmp ≤ c.amp
  le_maxAmp : c.amp ≤ maxAmp
  rates_length : (c.cachedRates count).length = count
  rates_pos : ∀ r ∈ c.cachedRates count, 0 < r

theorem checkDecimals_eq_ok_iff {target : Nat} {decimals : List Int} :
    checkDecimals target decimals = .ok () ↔ ∀ d ∈ decimals, 0 ≤ d ∧ d ≤ target := by
  unfold checkDecimals
  cases h : decimals.find? fun d => decide (d < 0 ∨ (target : Int) < d) with
  | none =>
    rw [List.find?_eq_none] at h
    simpa using h
  | some d =>
    have hm := List.mem_of_find?_eq_some h
    have hd := List.find?_some h
    simp only [decide_eq_true_eq] at hd
    simp only [reduceCtorEq, false_iff]
    intro hall
    have := hall d hm
    omega

theorem ratePrecision_pos : 0 < ratePrecision := by decide

theorem check_eq_ok_iff {c : StableCurve} {count : Nat} :
    c.check count = .ok () ↔ c.Admissible count := by
  have h : c.check count = .ok () ↔ c.decimals.length = count ∧
      (∀ d ∈ c.decimals, 0 ≤ d ∧ d ≤ c.valuation.targetDecimals) ∧
      (minAmp ≤ c.amp ∧ c.amp ≤ maxAmp) ∧
      (c.cachedRates count).length = count ∧ ∀ r ∈ c.cachedRates count, 0 < r := by
    obtain ⟨decimals, amp, valuation⟩ := c
    cases valuation <;> simp [check, cachedRates, checkDecimals_eq_ok_iff, validateRates_eq_ok_iff,
      ratePrecision_pos]
  rw [h]
  constructor
  · rintro ⟨hl, hd, ⟨ha, hb⟩, hr, hp⟩
    exact ⟨hl, fun d hm => (hd d hm).1, fun d hm => (hd d hm).2, ha, hb, hr, hp⟩
  · intro h
    exact ⟨h.decimals_length, fun d hm => ⟨h.decimals_nonneg d hm, h.decimals_le d hm⟩,
      ⟨h.minAmp_le, h.le_maxAmp⟩, h.rates_length, h.rates_pos⟩

end StableCurve

namespace Pool

/-- Distinct tokens, at least two, with a reserve and a counter each, no reserve negative, the fee
within the bounds of the curve, and an admissible curve. -/
structure Admissible (p : Pool) : Prop where
  two_le_tokens : 2 ≤ p.tokens.length
  tokens_nodup : p.tokens.Nodup
  amounts_length : p.amounts.length = p.tokens.length
  amounts_nonneg : ∀ a ∈ p.amounts, 0 ≤ a
  volumes_length : p.volumes.length = p.tokens.length
  fee_nonneg : 0 ≤ p.totalFee
  fee_le : p.totalFee ≤ p.maxFee
  curve : ∀ c, p.curve = .stable c → c.Admissible p.tokens.length

theorem Admissible.amounts_ne_nil {p : Pool} (hp : p.Admissible) : p.amounts ≠ [] := by
  have hn := hp.two_le_tokens
  rw [← hp.amounts_length] at hn
  exact List.ne_nil_of_length_pos (by omega)

/-- What is put together with the reserves entry by entry is as long as they are. -/
theorem Admissible.length_zipWith {p : Pool} (hp : p.Admissible) {amounts : List Int}
    (hl : amounts.length = p.tokens.length) (f : Int → Int → Int) :
    (List.zipWith f p.amounts amounts).length = p.tokens.length := by
  rw [List.length_zipWith, hp.amounts_length, hl, min_self]

theorem checkFee_eq_ok_iff {p : Pool} {fee : Int} :
    p.checkFee fee = .ok () ↔ 0 ≤ fee ∧ fee ≤ p.maxFee := by
  simp [checkFee]

theorem check_eq_ok_iff {p : Pool} : p.check = .ok () ↔ p.Admissible := by
  have h : p.check = .ok () ↔ minTokens ≤ p.tokens.length ∧ p.tokens.Nodup ∧
      (p.amounts.length = p.tokens.length ∧ ∀ a ∈ p.amounts, 0 ≤ a) ∧
      p.volumes.length = p.tokens.length ∧ (0 ≤ p.totalFee ∧ p.totalFee ≤ p.maxFee) ∧
      ∀ c, p.curve = .stable c → c.Admissible p.tokens.length := by
    unfold check
    cases p.curve <;> simp [checkFee_eq_ok_iff, StableCurve.check_eq_ok_iff]
  rw [h]
  constructor
  · rintro ⟨ht, hn, ⟨ha, hr⟩, hv, ⟨hf, hm⟩, hc⟩
    exact ⟨ht, hn, ha, hr, hv, hf, hm, hc⟩
  · intro h
    exact ⟨h.two_le_tokens, h.tokens_nodup, ⟨h.amounts_length, h.amounts_nonneg⟩,
      h.volumes_length, ⟨h.fee_nonneg, h.fee_le⟩, h.curve⟩

theorem build_eq_ok_iff {p q : Pool} :
    p.build = .ok q ↔ p.withDefaults.Admissible ∧ q = p.withDefaults := by
  simp [build, check_eq_ok_iff, eq_comm (a := q)]

theorem build_admissible {p q : Pool} (h : p.build = .ok q) : q.Admissible := by
  obtain ⟨hp, rfl⟩ := build_eq_ok_iff.1 h
  exact hp

end Pool

end SwapPool
