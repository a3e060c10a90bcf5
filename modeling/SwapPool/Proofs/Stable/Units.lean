import SwapPool.Proofs.Number.Product
import SwapPool.Proofs.Number.Quotient
import SwapPool.Proofs.Pool.Admissible

/-! Comparable units. A raw unit is worth a positive number of units at rate
precision, so conversion keeps order, and what a comparable amount buys back is
worth no more than the amount. Changing one reserve changes one comparable
balance. -/

namespace SwapPool

variable {unit a b k : Int} {units amounts : List Int}

theorem le_toComparable_iff : k ≤ toComparable unit a ↔ k * ratePrecision ≤ unit * a :=
  le_fdiv_iff StableCurve.ratePrecision_pos

theorem toComparable_mul_le (unit a : Int) : toComparable unit a * ratePrecision ≤ unit * a :=
  fdiv_mul_le _ StableCurve.ratePrecision_pos

theorem toComparable_mono (hu : 0 ≤ unit) (h : a ≤ b) :
    toComparable unit a ≤ toComparable unit b :=
  fdiv_mono StableCurve.ratePrecision_pos (mul_le_mul_of_nonneg_left h hu)

theorem fromComparable_mul_le (hu : 0 < unit) (k : Int) :
    fromComparable unit k * unit ≤ k * ratePrecision :=
  fdiv_mul_le _ hu

theorem fromComparable_mono (hu : 0 < unit) (h : a ≤ b) :
    fromComparable unit a ≤ fromComparable unit b :=
  fdiv_mono hu (mul_le_mul_of_nonneg_right h StableCurve.ratePrecision_pos.le)

/-- What an amount is worth, or less, buys back no more than the amount. -/
theorem fromComparable_le (hu : 0 < unit) (h : k ≤ toComparable unit a) :
    fromComparable unit k ≤ a := by
  refine fdiv_le_of_le_mul hu ?_
  rw [mul_comm a]
  exact le_toComparable_iff.1 h

/-- What a comparable amount buys back is worth no more than it. -/
theorem toComparable_fromComparable_le (hu : 0 < unit) (k : Int) :
    toComparable unit (fromComparable unit k) ≤ k := by
  refine fdiv_le_of_le_mul StableCurve.ratePrecision_pos ?_
  rw [mul_comm unit]
  exact fromComparable_mul_le hu k

/-- Giving up at most what a comparable amount buys back costs at most that amount. -/
theorem sub_le_toComparable_sub (hu : 0 < unit) (hb : b ≤ fromComparable unit k) :
    toComparable unit a - k ≤ toComparable unit (a - b) := by
  rw [le_toComparable_iff]
  have h1 := toComparable_mul_le unit a
  have h2 := fromComparable_mul_le hu k
  have h3 := mul_le_mul_of_nonneg_right hb hu.le
  linarith

theorem comparables_set (i : Nat) (z : Int) : comparables units (amounts.set i z) =
    (comparables units amounts).set i (toComparable (units.getD i 0) z) := by
  unfold comparables
  induction units generalizing amounts i with
  | nil => simp
  | cons u units ih =>
    cases amounts with
    | nil => simp
    | cons a amounts =>
      cases i with
      | zero => rfl
      | succ i =>
        rw [List.set_cons_succ, List.zipWith_cons_cons, List.zipWith_cons_cons,
          List.set_cons_succ, List.getD_cons_succ, ih]

theorem length_comparables (h : units.length = amounts.length) :
    (comparables units amounts).length = amounts.length := by
  unfold comparables
  rw [List.length_zipWith, h, min_self]

theorem getD_comparables {i : Nat} (hi : i < units.length) (hj : i < amounts.length) :
    (comparables units amounts).getD i 0 =
      toComparable (units.getD i 0) (amounts.getD i 0) := by
  unfold comparables
  simp [hi, hj]

/-- A comparable balance stays positive as its reserve grows. -/
theorem toComparable_pos_of_le {i : Nat} {z : Int} (hl : units.length = amounts.length)
    (hu : ∀ u ∈ units, 0 < u) (h : ∀ b ∈ comparables units amounts, 0 < b)
    (hi : i < amounts.length) (hz : amounts.getD i 0 ≤ z) :
    0 < toComparable (units.getD i 0) z := by
  have hiu : i < units.length := hl.symm ▸ hi
  have hold := getD_pos h (by rwa [length_comparables hl])
  rw [getD_comparables hiu hi] at hold
  exact hold.trans_le (toComparable_mono (getD_pos hu hiu).le hz)

/-- What is worth something is something. -/
theorem pos_of_comparables (hl : units.length = amounts.length) (hu : ∀ u ∈ units, 0 < u)
    (h : ∀ b ∈ comparables units amounts, 0 < b) : ∀ a ∈ amounts, 0 < a := by
  intro a ha
  obtain ⟨k, hk, rfl⟩ := List.mem_iff_getElem.1 ha
  have hku : k < units.length := hl ▸ hk
  have hkc : k < (comparables units amounts).length := by rwa [length_comparables hl]
  have hpos : 0 < toComparable units[k] amounts[k] := by
    simpa only [comparables, List.getElem_zipWith] using h _ (List.getElem_mem hkc)
  have hle := le_toComparable_iff.1 (Int.add_one_le_of_lt hpos)
  rw [zero_add, one_mul] at hle
  exact pos_of_mul_pos_right (StableCurve.ratePrecision_pos.trans_le hle)
    (hu _ (List.getElem_mem hku)).le

namespace StableCurve

variable {c : StableCurve} {count : Nat} {rates : Option (List Int)}

theorem unit_pos {decimals rate : Int} (hr : 0 < rate) : 0 < c.unit decimals rate :=
  mul_pos (Int.pow_pos (by decide)) hr

theorem units_pos {rates : List Int} (h : ∀ r ∈ rates, 0 < r) : ∀ u ∈ c.units rates, 0 < u := by
  intro u hu
  obtain ⟨_, -, rate, hr, rfl⟩ := exists_of_mem_zipWith hu
  exact unit_pos (h rate hr)

/-- The rates that apply are one positive rate per token. -/
theorem applied_facts (hc : c.Admissible count) {applied : List Int}
    (h : c.effectiveRates count rates = .ok applied) :
    applied.length = count ∧ ∀ r ∈ applied, 0 < r := by
  cases rates with
  | none =>
    obtain rfl : c.cachedRates count = applied := Except.ok.inj h
    exact ⟨hc.rates_length, hc.rates_pos⟩
  | some rs =>
    obtain ⟨_, hv, hr⟩ := bind_eq_ok_iff.1 h
    obtain rfl : rs = applied := Except.ok.inj hr
    obtain ⟨hl, hpos⟩ := validateRates_eq_ok_iff.1 hv
    exact ⟨Int.natCast_inj.1 hl, hpos⟩

theorem length_units_of_applied (hc : c.Admissible count) {applied : List Int}
    (h : c.effectiveRates count rates = .ok applied) : (c.units applied).length = count := by
  rw [units, List.length_zipWith, hc.decimals_length, (applied_facts hc h).1, min_self]

end StableCurve

end SwapPool
