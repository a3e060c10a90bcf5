import SwapPool.Json.Scan
import SwapPool.Proofs.Text.Numeral

/-! A token that is spelled is scanned again. Every character of a text comes back
from its escape, and a number ends where something begins that cannot continue
it. So a token is the first one of its spelling, whatever follows a text or a
mark, and whatever follows a scalar as long as it does not begin like the rest
of a number. -/

namespace SwapPool.Token

open Text (isDigit_of_mem_toDigits exists_cons_toDigits foldl_toDigits head?_toDigits_ne_zero
  toList_toString ne_of_isDigit)

/-! ### Texts -/

theorem hexValue?_digitChar : ∀ d < 16, hexValue? d.digitChar = some d := by
  decide

theorem hexValue?_hexDigit (n : Nat) : hexValue? (hexDigit n) = some (n % 16) :=
  hexValue?_digitChar _ (Nat.mod_lt _ (by decide))

/-- The hexadecimal escape of a control character states the character. -/
theorem hexValue4?_escape {n : Nat} (h : n < 0x20) :
    hexValue4? '0' '0' (hexDigit (n / 16)) (hexDigit n) = some n := by
  have hzero : hexValue? '0' = some 0 := by decide
  have hsum : ((0 * 16 + 0) * 16 + n / 16 % 16) * 16 + n % 16 = n := by omega
  simp only [hexValue4?, hzero, hexValue?_hexDigit, Option.bind_eq_bind, Option.bind_some, hsum,
    Option.pure_def]

theorem joinUnit?_control {n : Nat} (h : n < 0x20) :
    joinUnit? none n = some (some (Char.ofNat n), none) := by
  have hhigh : ¬ (0xD800 ≤ n ∧ n < 0xDC00) := by omega
  have hlow : ¬ (0xDC00 ≤ n ∧ n < 0xE000) := by omega
  simp [joinUnit?, hhigh, hlow]

/-- A character is read back from its escape. -/
theorem textBody?_escape (c : Char) (s : List Char) :
    textBody? none (escape c ++ s) =
      (textBody? none s).map fun (body, after) => (c :: body, after) := by
  by_cases hshort : c ∈ ['"', '\\', '\x08', '\x0c', '\n', '\r', '\t']
  · simp only [List.mem_cons, List.not_mem_nil, or_false] at hshort
    rcases hshort with rfl | rfl | rfl | rfl | rfl | rfl | rfl <;>
      simp [escape, textBody?, unescape?]
  · simp only [List.mem_cons, List.not_mem_nil, or_false, not_or] at hshort
    obtain ⟨hquote, hslash, hb, hf, hn, hr, ht⟩ := hshort
    by_cases hcontrol : c.toNat < 0x20
    · have hescape : escape c = ['\\', 'u', '0', '0', hexDigit (c.toNat / 16), hexDigit c.toNat] := by
        simp [escape, *]
      rw [hescape]
      simp only [List.cons_append, List.nil_append]
      rw [textBody?, hexValue4?_escape hcontrol, Option.bind_some, joinUnit?_control hcontrol,
        Char.ofNat_toNat]
      rfl
    · have hescape : escape c = [c] := by simp [escape, *]
      rw [hescape, List.singleton_append, textBody?.eq_5 none c s (fun _ _ _ _ _ h => absurd h hslash)
        fun _ _ h => absurd h hslash]
      simp [hquote, hcontrol]

theorem textBody?_spelled (cs rest : List Char) :
    textBody? none (cs.flatMap escape ++ '"' :: rest) = some (cs, rest) := by
  induction cs with
  | nil => simp [textBody?]
  | cons c cs ih => rw [List.flatMap_cons, List.append_assoc, textBody?_escape, ih]; rfl

/-! ### Numbers -/

/-- What follows begins like nothing that continues a number. -/
def Delimited (s : List Char) : Prop :=
  ∀ c ∈ s.head?, c.isDigit = false ∧ c ≠ '.' ∧ c ≠ 'e' ∧ c ≠ 'E'

theorem delimited_nil : Delimited [] := nofun

theorem digits?_append {ds s : List Char} (hne : ds ≠ []) (hd : ∀ c ∈ ds, c.isDigit = true)
    (hs : ∀ c ∈ s.head?, c.isDigit = false) : digits? (ds ++ s) = some (ds, s) := by
  have hrest : s.takeWhile Char.isDigit = [] ∧ s.dropWhile Char.isDigit = s := by
    cases s with
    | nil => exact ⟨rfl, rfl⟩
    | cons c s => simp [hs c rfl]
  rw [digits?, List.takeWhile_append_of_pos hd, List.dropWhile_append_of_pos hd, hrest.1, hrest.2,
    List.append_nil, if_neg (by simpa using hne)]

theorem digits?_toDigits (n : Nat) {s : List Char} (hs : ∀ c ∈ s.head?, c.isDigit = false) :
    digits? (Nat.toDigits 10 n ++ s) = some (Nat.toDigits 10 n, s) :=
  digits?_append Nat.toDigits_ne_nil (fun _ => isDigit_of_mem_toDigits) hs

theorem value_toDigits (n : Nat) : value (Nat.toDigits 10 n) = n := foldl_toDigits n

/-- A numeral of more than one digit does not begin with a zero. -/
theorem no_leadingZero (n : Nat) :
    ¬ ((Nat.toDigits 10 n).length > 1 ∧ (Nat.toDigits 10 n).head? = some '0') := by
  rintro ⟨hl, hz⟩
  rcases Nat.eq_zero_or_pos n with rfl | hpos
  · exact absurd hl (by decide)
  · exact head?_toDigits_ne_zero hpos hz

theorem number?_integer (negative : Bool) (n : Nat) {s : List Char} (hs : Delimited s) :
    number? .unbounded negative (Nat.toDigits 10 n ++ s) =
      some (.scalar (.integer (if negative then -(n : Int) else n)), s) := by
  have hfraction : fraction? s = some ([], s) := by
    unfold fraction?
    split
    · exact absurd rfl (hs '.' rfl).2.1
    · rfl
  have hexponent : exponent? s = some (none, s) := by
    cases s with
    | nil => rfl
    | cons c s =>
      obtain ⟨-, -, he, hE⟩ := hs c rfl
      simp [exponent?, he, hE]
  simp only [number?, digits?_toDigits n fun c hc => (hs c hc).1, if_neg (no_leadingZero n),
    DigitLimit.unbounded_admits, hfraction, hexponent]
  simp [ofParts, value_toDigits]

theorem exponent?_toString (e : Int) {s : List Char} (hs : Delimited s) :
    exponent? ('e' :: (toString e).toList ++ s) = some (some e, s) := by
  have hrest : ∀ c ∈ s.head?, c.isDigit = false := fun c hc => (hs c hc).1
  cases e with
  | ofNat k =>
    change exponent? ('e' :: (toString k).toList ++ s) = _
    have hread := digits?_toDigits k hrest
    rw [toList_toString]
    -- The first digit is neither sign, so the digits are read as they stand.
    obtain ⟨d, ds, hds, hd⟩ := exists_cons_toDigits k
    have hminus : d ≠ '-' := ne_of_isDigit hd (by decide)
    have hplus : d ≠ '+' := ne_of_isDigit hd (by decide)
    have hvalue := value_toDigits k
    rw [hds] at hread hvalue ⊢
    simp only [List.cons_append] at hread ⊢
    simp [exponent?, hminus, hplus, hread, hvalue]
  | negSucc k =>
    change exponent? ('e' :: ("-" ++ toString (k + 1)).toList ++ s) = _
    rw [String.toList_append, toList_toString]
    have hread := digits?_toDigits (k + 1) hrest
    have hvalue := value_toDigits (k + 1)
    simp [exponent?, hread, hvalue, Int.negSucc_eq]

theorem number?_real (negative : Bool) (n : Nat) (e : Int) {s : List Char} (hs : Delimited s) :
    number? .unbounded negative (Nat.toDigits 10 n ++ ('e' :: (toString e).toList ++ s)) =
      some (.scalar (.real (.finite negative n e)), s) := by
  have hexponent := exponent?_toString e hs
  have hfraction : fraction? ('e' :: (toString e).toList ++ s) =
      some ([], 'e' :: (toString e).toList ++ s) := rfl
  have hmark : ∀ c ∈ ('e' :: (toString e).toList ++ s).head?, c.isDigit = false := by simp
  simp only [number?, digits?_toDigits n hmark, if_neg (no_leadingZero n),
    DigitLimit.unbounded_admits, hfraction, hexponent]
  simp [ofParts, value_toDigits]

/-! ### The first token -/

/-- A numeral begins no mark, no text and no word. -/
theorem next?_of_digit {d : Char} (hd : d.isDigit = true) (s : List Char) :
    next? .unbounded (d :: s) = number? .unbounded false (d :: s) := by
  have hne (c : Char) (hc : c.isDigit = false) : c ≠ d := (ne_of_isDigit hd hc).symm
  have hmark : punctuation? d = none := by
    unfold punctuation?
    split <;> first | rfl | simp at hd
  have hword : word? (d :: s) = none := by
    simp [word?, words, hne 'n' rfl, hne 't' rfl, hne 'f' rfl, hne 'N' rfl, hne 'I' rfl,
      hne '-' rfl]
  simp [next?, hmark, hword, (hne '"' rfl).symm, (hne '-' rfl).symm]

theorem next?_of_minus {d : Char} (hd : d.isDigit = true) (s : List Char) :
    next? .unbounded ('-' :: d :: s) = number? .unbounded true (d :: s) := by
  have hne : 'I' ≠ d := (ne_of_isDigit hd rfl).symm
  have hword : word? ('-' :: d :: s) = none := by
    simp [word?, words, hne]
  simp [next?, punctuation?, hword]

/-- A number begins with a digit or with a sign and a digit. -/
theorem next?_of_number (negative : Bool) (n : Nat) (s : List Char) :
    next? .unbounded ((if negative then ['-'] else []) ++ Nat.toDigits 10 n ++ s) =
      number? .unbounded negative (Nat.toDigits 10 n ++ s) := by
  obtain ⟨d, ds, hds, hd⟩ := exists_cons_toDigits n
  rw [hds]
  cases negative with
  | false => exact next?_of_digit hd (ds ++ s)
  | true => exact next?_of_minus hd (ds ++ s)

theorem spell_integer (n : Int) : spellScalar (.integer n) =
    (if n < 0 then ['-'] else []) ++ Nat.toDigits 10 n.natAbs := by
  cases n with
  | ofNat k => exact toList_toString k
  | negSucc k =>
    change ("-" ++ toString (k + 1)).toList = _
    rw [String.toList_append, toList_toString, if_pos (Int.negSucc_lt_zero k), Int.natAbs_negSucc]
    rfl

theorem spell_finite (negative : Bool) (n : Nat) (e : Int) :
    spellScalar (.real (.finite negative n e)) =
      (if negative then ['-'] else []) ++ Nat.toDigits 10 n ++ 'e' :: (toString e).toList := by
  rw [← toList_toString n]
  rfl

theorem next?_scalar (v : Scalar) {s : List Char} (hs : Delimited s) :
    next? .unbounded (spellScalar v ++ s) = some (.scalar v, s) := by
  cases v with
  | null => rfl
  | truth b => cases b <;> rfl
  | integer n =>
    have h := next?_of_number (decide (n < 0)) n.natAbs s
    simp only [decide_eq_true_eq] at h
    have hsigned : (if decide (n < 0) = true then -(n.natAbs : Int) else n.natAbs) = n := by
      simp only [decide_eq_true_eq]
      split <;> omega
    rw [spell_integer, h, number?_integer _ _ hs, hsigned]
  | real x =>
    cases x with
    | finite negative n e =>
      rw [spell_finite, List.append_assoc, next?_of_number, number?_real negative n e hs]
    | infinite negative => cases negative <;> rfl
    | notANumber => rfl
  | text t =>
    change next? .unbounded ('"' :: (t.toList.flatMap escape ++ ['"']) ++ s) = _
    simp [next?, punctuation?, textBody?_spelled]

/-- A scalar must be delimited; marks stand for themselves. -/
theorem next?_spell (t : Token) {s : List Char} (hs : ∀ v, t = .scalar v → Delimited s) :
    next? .unbounded (t.spell ++ s) = some (t, s) := by
  cases t with
  | scalar v => exact next?_scalar v (hs v rfl)
  | listOpen | listClose | objectOpen | objectClose | comma | colon => rfl

/-! ### All tokens -/

theorem next?_of_isSpace {c : Char} (h : isSpace c = true) (s : List Char) :
    next? .unbounded (c :: s) = none := by
  simp only [isSpace, Bool.or_eq_true, decide_eq_true_eq] at h
  rcases h with ((rfl | rfl) | rfl) | rfl <;> rfl

theorem scan?_of_next? {s rest : List Char} {t : Token}
    (h : next? .unbounded s = some (t, rest)) :
    scan? .unbounded s = (scan? .unbounded rest).map (t :: ·) := by
  have hspace : s.dropWhile isSpace = s := by
    cases s with
    | nil => rfl
    | cons c s =>
      have hc : isSpace c = false := by
        by_contra hc
        rw [next?_of_isSpace (by simpa using hc)] at h
        cases h
      simp [hc]
  rw [scan?]
  split
  · next hfound =>
    rw [hspace, h] at hfound
    cases hfound
    rfl
  · next hnone =>
    rw [hspace, h] at hnone
    cases hnone

theorem scan?_spell (t : Token) {s : List Char} {ts : List Token}
    (hs : ∀ v, t = .scalar v → Delimited s) (h : scan? .unbounded s = some ts) :
    scan? .unbounded (t.spell ++ s) = some (t :: ts) := by
  rw [scan?_of_next? (next?_spell t hs), h]
  rfl

end SwapPool.Token
