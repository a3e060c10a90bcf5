import Mathlib.Data.List.Basic
import Mathlib.Data.List.TakeWhile
import SwapPool.Text.IntegerLiteral

/-! The decimal numeral of a natural number, as it is written. It is made of
digits alone, at least one, and none of them a leading zero; so nothing about it
is a blank, a sign or a separator, and a reader of integers takes all of it and
finds the number. -/

namespace SwapPool.Text

theorem toList_toString (n : Nat) : (toString n).toList = Nat.toDigits 10 n := by
  rw [Nat.toString_eq_ofList_toDigits, String.toList_ofList]

theorem isDigit_of_mem_toDigits {n : Nat} {c : Char} (h : c ∈ Nat.toDigits 10 n) :
    c.isDigit = true :=
  Nat.isDigit_of_mem_toDigits (by decide) (by decide) h

theorem toNat_of_isDigit {c : Char} (h : c.isDigit = true) : 48 ≤ c.toNat ∧ c.toNat ≤ 57 := by
  simpa [Char.isDigit, UInt32.le_iff_toNat_le] using h

/-- A character outside the run of the digits is none of them. -/
theorem ne_of_isDigit {c d : Char} (h : c.isDigit = true) (hd : d.isDigit = false) : c ≠ d := by
  rintro rfl
  simp [h] at hd

theorem exists_cons_toDigits (n : Nat) :
    ∃ d ds, Nat.toDigits 10 n = d :: ds ∧ d.isDigit = true := by
  obtain ⟨d, ds, h⟩ := List.exists_cons_of_ne_nil (Nat.toDigits_ne_nil (n := n) (b := 10))
  exact ⟨d, ds, h, isDigit_of_mem_toDigits (n := n) (by simp [h])⟩

theorem digitChar_ne_zero : ∀ n < 10, 0 < n → n.digitChar ≠ '0' := by
  decide

/-- The numeral of a positive number has no leading zero. -/
theorem head?_toDigits_ne_zero {n : Nat} (h : 0 < n) : (Nat.toDigits 10 n).head? ≠ some '0' := by
  induction n using Nat.strongRecOn with
  | _ n ih =>
    rw [Nat.toDigits_eq_if (by decide)]
    split
    · simpa using digitChar_ne_zero n ‹_› h
    · have hhigh := ih (n / 10) (by omega) (by omega)
      obtain ⟨d, ds, hds, -⟩ := exists_cons_toDigits (n / 10)
      rw [hds] at hhigh ⊢
      simpa using hhigh

theorem foldl_toDigits (n : Nat) :
    (Nat.toDigits 10 n).foldl (fun v c => 10 * v + (c.toNat - '0'.toNat)) 0 = n := by
  rw [← Nat.ofDigitChars_eq_foldl]
  exact Nat.ofDigitChars_ten_toDigits

/-! ### A reader of integers -/

theorem digitValue?_of_isDigit {c : Char} (h : c.isDigit = true) :
    digitValue? c = some (c.toNat - '0'.toNat) := by
  obtain ⟨hl, hu⟩ := toNat_of_isDigit h
  have hrun : (decide (48 ≤ c.toNat) && decide (c.toNat < 48 + 10)) = true := by simp; omega
  simp [digitValue?, digitZeros, hrun]

theorem isBlank_of_isDigit {c : Char} (h : c.isDigit = true) : isBlank c = false := by
  obtain ⟨hl, hu⟩ := toNat_of_isDigit h
  simp only [isBlank, Bool.or_eq_false_iff, Bool.and_eq_false_imp, decide_eq_true_eq,
    decide_eq_false_iff_not, beq_eq_false_iff_ne]
  omega

theorem trimmed_eq_self {s : List Char} (h : ∀ c ∈ s, isBlank c = false) : trimmed s = s := by
  have hdrop (t : List Char) (ht : ∀ c ∈ t, isBlank c = false) : t.dropWhile isBlank = t := by
    cases t with
    | nil => rfl
    | cons c t => rw [List.dropWhile_cons_of_neg (by simp [ht c])]
  rw [trimmed, hdrop s h, hdrop s.reverse fun c hc => h c (List.mem_reverse.1 hc),
    List.reverse_reverse]

theorem hasDoubled_eq_false {c : Char} {s : List Char} (h : c ∉ s) : hasDoubled c s = false := by
  induction s with
  | nil => rfl
  | cons a s ih =>
    rw [List.mem_cons, not_or] at h
    cases s with
    | nil => rfl
    | cons b s => simp [hasDoubled, Ne.symm h.1, ih h.2]

theorem wellSeparated_of_notMem {s : List Char} (h : '_' ∉ s) : wellSeparated s = true := by
  have hhead : s.head? ≠ some '_' := fun hs => h (List.mem_of_head? hs)
  have hlast : s.getLast? ≠ some '_' := fun hs => h (List.mem_of_getLast? hs)
  simp [wellSeparated, hhead, hlast, hasDoubled_eq_false h]

/-- A run of digits is read as the number that it writes. -/
theorem natural_of_digits {s : List Char} (hne : s ≠ []) (h : ∀ c ∈ s, c.isDigit = true) :
    natural .unbounded s = .ok (s.foldl (fun v c => 10 * v + (c.toNat - '0'.toNat)) 0) := by
  have hrun : s.takeWhile continuesNumeral = s := by
    rw [List.takeWhile_eq_self_iff]
    intro c hc
    simp [continuesNumeral, digitValue?_of_isDigit (h c hc)]
  have hvalues : s.filterMap digitValue? = s.map fun c => c.toNat - '0'.toNat :=
    List.filterMap_eq_map_iff_forall_eq_some.2 fun c hc => digitValue?_of_isDigit (h c hc)
  have hsep : wellSeparated s = true :=
    wellSeparated_of_notMem fun hm => absurd (h _ hm) (by decide)
  simp [natural, hrun, hvalues, hsep, hne, ofDigits, List.foldl_map]

theorem integer_toString {n : Int} (h : 0 ≤ n) : integer .unbounded (toString n) = .ok n := by
  obtain ⟨k, rfl⟩ := Int.eq_ofNat_of_zero_le h
  change signed .unbounded (trimmed (toString k).toList) = _
  have hdigits (c : Char) (hc : c ∈ Nat.toDigits 10 k) : c.isDigit = true :=
    isDigit_of_mem_toDigits hc
  have hread := natural_of_digits Nat.toDigits_ne_nil hdigits
  rw [foldl_toDigits] at hread
  rw [toList_toString, trimmed_eq_self fun c hc => isBlank_of_isDigit (hdigits c hc)]
  -- The numeral begins with a digit, so neither sign is there to be taken off.
  obtain ⟨d, ds, hds, hd⟩ := exists_cons_toDigits k
  have hplus : d ≠ '+' := ne_of_isDigit hd (by decide)
  have hminus : d ≠ '-' := ne_of_isDigit hd (by decide)
  rw [hds] at hread ⊢
  simp [signed, hplus, hminus, hread, Except.map]

end SwapPool.Text
