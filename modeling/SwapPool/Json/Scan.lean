import SwapPool.Json.Token
import SwapPool.Text.DigitLimit

/-! Reading tokens. Blanks between tokens are the space, the tab and the two line
ends. Numbers follow the usual grammar, without leading zeros, and their length
may be bounded; the marks for infinity and for no number are admitted. A text may
hold any character but the control ones below the space, and an escaped pair of
surrogates is one character. -/

namespace SwapPool.Token

def isSpace (c : Char) : Bool := c = ' ' || c = '\t' || c = '\n' || c = '\r'

def hexValue? (c : Char) : Option Nat :=
  if '0' ≤ c ∧ c ≤ '9' then some (c.toNat - '0'.toNat)
  else if 'a' ≤ c ∧ c ≤ 'f' then some (c.toNat - 'a'.toNat + 10)
  else if 'A' ≤ c ∧ c ≤ 'F' then some (c.toNat - 'A'.toNat + 10)
  else none

def hexValue4? (a b c d : Char) : Option Nat := do
  return (((← hexValue? a) * 16 + (← hexValue? b)) * 16 + (← hexValue? c)) * 16 + (← hexValue? d)

/-- The character of an escape other than a hexadecimal one. -/
def unescape? : Char → Option Char
  | '"' => some '"'
  | '\\' => some '\\'
  | '/' => some '/'
  | 'b' => some '\x08'
  | 'f' => some '\x0c'
  | 'n' => some '\n'
  | 'r' => some '\r'
  | 't' => some '\t'
  | _ => none

/-- What an escaped 16-bit unit adds to a text in which `high` waits for its low half: the
character that is complete, if any, and the high half that now waits. -/
def joinUnit? (high : Option Nat) (unit : Nat) : Option (Option Char × Option Nat) :=
  match high with
  | none =>
    if 0xD800 ≤ unit ∧ unit < 0xDC00 then some (none, some unit)
    else if 0xDC00 ≤ unit ∧ unit < 0xE000 then none
    else some (some (Char.ofNat unit), none)
  | some h =>
    if 0xDC00 ≤ unit ∧ unit < 0xE000 then
      some (some (Char.ofNat (0x10000 + (h - 0xD800) * 0x400 + (unit - 0xDC00))), none)
    else none

/-- The characters up to the closing quote, and what follows it. -/
def textBody? (high : Option Nat) : List Char → Option (List Char × List Char)
  | [] => none
  | '\\' :: 'u' :: a :: b :: c :: d :: rest =>
    match (hexValue4? a b c d).bind (joinUnit? high) with
    | none => none
    | some (done, waiting) =>
      (textBody? waiting rest).map fun (body, after) => (done.toList ++ body, after)
  | '\\' :: c :: rest =>
    match high, unescape? c with
    | none, some x => (textBody? none rest).map fun (body, after) => (x :: body, after)
    | _, _ => none
  | c :: rest =>
    if high.isSome then none
    else if c = '"' then some ([], rest)
    else if c.toNat < 0x20 then none
    else (textBody? none rest).map fun (body, after) => (c :: body, after)

def value (digits : List Char) : Nat :=
  digits.foldl (fun v c => 10 * v + (c.toNat - '0'.toNat)) 0

/-- One or more digits, and what follows them. -/
def digits? (s : List Char) : Option (List Char × List Char) :=
  if (s.takeWhile Char.isDigit).isEmpty then none
  else some (s.takeWhile Char.isDigit, s.dropWhile Char.isDigit)

/-- The digits after a point, none if there is no point. -/
def fraction? : List Char → Option (List Char × List Char)
  | '.' :: rest => digits? rest
  | s => some ([], s)

/-- The exponent, if there is one. -/
def exponent? : List Char → Option (Option Int × List Char)
  | [] => some (none, [])
  | c :: rest =>
    if c = 'e' ∨ c = 'E' then
      match rest with
      | '-' :: ds => (digits? ds).map fun (e, after) => (some (-(value e : Int)), after)
      | '+' :: ds => (digits? ds).map fun (e, after) => (some (value e : Int), after)
      | ds => (digits? ds).map fun (e, after) => (some (value e : Int), after)
    else some (none, c :: rest)

/-- The number that the parts of its text make; with neither a fraction nor an exponent
it is an integer. -/
def ofParts (negative : Bool) (whole fraction : List Char) (exponent : Option Int) : Scalar :=
  let size := value (whole ++ fraction)
  if fraction.isEmpty && exponent.isNone then .integer (if negative then -(size : Int) else size)
  else .real (.finite negative size (exponent.getD 0 - fraction.length))

/-- A number after its sign. How long its whole part may be, the sign included, is bounded. -/
def number? (limit : DigitLimit) (negative : Bool) (s : List Char) :
    Option (Token × List Char) :=
  match digits? s with
  | none => none
  | some (whole, s₁) =>
    if whole.length > 1 ∧ whole.head? = some '0' then none
    else if !limit.admits (whole.length + negative.toNat) then none
    else
      match fraction? s₁ with
      | none => none
      | some (fraction, s₂) =>
        match exponent? s₂ with
        | none => none
        | some (exponent, s₃) => some (.scalar (ofParts negative whole fraction exponent), s₃)

def punctuation? : Char → Option Token
  | '[' => some listOpen
  | ']' => some listClose
  | '{' => some objectOpen
  | '}' => some objectClose
  | ',' => some comma
  | ':' => some colon
  | _ => none

def words : List (List Char × Scalar) :=
  [("null".toList, .null), ("true".toList, .truth true), ("false".toList, .truth false),
   ("NaN".toList, .real .notANumber), ("Infinity".toList, .real (.infinite false)),
   ("-Infinity".toList, .real (.infinite true))]

def word? (s : List Char) : Option (Token × List Char) :=
  (words.find? fun w => w.1.isPrefixOf s).map fun w => (.scalar w.2, s.drop w.1.length)

/-- The first token of a text that does not begin with a space, and what follows it. -/
def next? (limit : DigitLimit) : List Char → Option (Token × List Char)
  | [] => none
  | c :: rest =>
    match punctuation? c with
    | some t => some (t, rest)
    | none =>
      if c = '"' then
        (textBody? none rest).map fun (s, after) => (.scalar (.text (String.ofList s)), after)
      else
        match word? (c :: rest) with
        | some found => some found
        | none => if c = '-' then number? limit true rest else number? limit false (c :: rest)

/-! ### Every token takes something away -/

theorem textBody?_length {high : Option Nat} {s body rest : List Char}
    (h : textBody? high s = some (body, rest)) : rest.length < s.length := by
  fun_induction textBody? high s generalizing body rest with
  | case1 => simp at h
  | case2 => simp at h
  | case3 high a b c d s done waiting _ ih =>
    obtain ⟨⟨b', r'⟩, hr, he⟩ := Option.map_eq_some_iff.1 h
    cases he
    have := ih hr
    simp only [List.length_cons]
    omega
  | case4 c s _ x _ ih =>
    obtain ⟨⟨b', r'⟩, hr, he⟩ := Option.map_eq_some_iff.1 h
    cases he
    have := ih hr
    simp only [List.length_cons]
    omega
  | case5 => simp at h
  | case6 => simp at h
  | case7 => simp_all
  | case8 => simp at h
  | case9 high c s _ _ _ _ _ ih =>
    obtain ⟨⟨b', r'⟩, hr, he⟩ := Option.map_eq_some_iff.1 h
    cases he
    have := ih hr
    simp only [List.length_cons]
    omega

theorem length_dropWhile_le (p : Char → Bool) (s : List Char) :
    (s.dropWhile p).length ≤ s.length :=
  (List.dropWhile_sublist p).length_le

theorem digits?_length {s ds rest : List Char} (h : digits? s = some (ds, rest)) :
    rest.length < s.length := by
  unfold digits? at h
  split at h
  · simp at h
  · next hne =>
    cases h
    cases s with
    | nil => simp at hne
    | cons c s =>
      by_cases hc : c.isDigit
      · have := length_dropWhile_le Char.isDigit s
        simp only [List.dropWhile_cons, hc, if_true, List.length_cons]
        omega
      · simp [hc] at hne

theorem fraction?_length {s ds rest : List Char} (h : fraction? s = some (ds, rest)) :
    rest.length ≤ s.length := by
  unfold fraction? at h
  split at h
  · have := digits?_length h
    simp only [List.length_cons]
    omega
  · cases h; exact Nat.le_refl _

theorem exponent?_length {s rest : List Char} {e : Option Int}
    (h : exponent? s = some (e, rest)) : rest.length ≤ s.length := by
  have key : ∀ {ds : List Char} {f : List Char × List Char → Option Int × List Char},
      (∀ q, (f q).2 = q.2) → (digits? ds).map f = some (e, rest) → rest.length < ds.length := by
    intro ds f hf hm
    obtain ⟨⟨e', r'⟩, hr, he⟩ := Option.map_eq_some_iff.1 hm
    have := digits?_length hr
    have hf' : rest = r' := by simpa [he] using hf (e', r')
    rw [hf']
    exact this
  unfold exponent? at h
  split at h
  · cases h; exact Nat.le_refl _
  · split at h
    · split at h
      all_goals
        have := key (fun _ => rfl) h
        simp only [List.length_cons] at *
        omega
    · cases h; exact Nat.le_refl _

theorem number?_length {limit : DigitLimit} {negative : Bool} {s rest : List Char} {t : Token}
    (h : number? limit negative s = some (t, rest)) : rest.length < s.length := by
  unfold number? at h
  split at h
  · simp at h
  · next h₁ =>
    split at h
    · simp at h
    · split at h
      · simp at h
      · split at h
        · simp at h
        · next h₂ =>
          split at h
          · simp at h
          · next h₃ =>
            have l₁ := digits?_length h₁
            have l₂ := fraction?_length h₂
            have l₃ := exponent?_length h₃
            cases h
            omega

theorem word?_length {s rest : List Char} {t : Token} (h : word? s = some (t, rest)) :
    rest.length < s.length := by
  obtain ⟨w, hw, he⟩ := Option.map_eq_some_iff.1 h
  cases he
  have hp : w.1.isPrefixOf s = true := by simpa using List.find?_some hw
  have hl := (List.isPrefixOf_iff_prefix.1 hp).length_le
  have hn : ∀ w ∈ words, 0 < w.1.length := by decide
  have := hn w (List.mem_of_find?_eq_some hw)
  rw [List.length_drop]
  omega

theorem next?_length {limit : DigitLimit} {s rest : List Char} {t : Token}
    (h : next? limit s = some (t, rest)) : rest.length < s.length := by
  unfold next? at h
  split at h
  · simp at h
  · split at h
    · cases h; simp
    · split at h
      · obtain ⟨⟨_, _⟩, hb, he⟩ := Option.map_eq_some_iff.1 h
        cases he
        have := textBody?_length hb
        simp only [List.length_cons]
        omega
      · split at h
        · next hw => cases h; exact word?_length hw
        · split at h
          · have := number?_length h
            simp only [List.length_cons]
            omega
          · exact number?_length h

/-- The tokens of a text. -/
def scan? (limit : DigitLimit) (s : List Char) : Option (List Token) :=
  match _h : next? limit (s.dropWhile isSpace) with
  | some (t, rest) => (scan? limit rest).map (t :: ·)
  | none => if (s.dropWhile isSpace).isEmpty then some [] else none
termination_by s.length
decreasing_by
  have := next?_length _h
  have := length_dropWhile_le isSpace s
  omega

end SwapPool.Token
