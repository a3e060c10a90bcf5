import SwapPool.Json.Read
import SwapPool.Proofs.Json.Scanning

/-! A value that is rendered is read again. Its tokens are scanned one by one: a
scalar is always followed by a mark or by the end, which delimits it. Driven by
these tokens the machine completes the value, as long as the containers that it
has open at a time are within the bound. -/

namespace SwapPool.Json

open Token (Delimited delimited_nil scan? scan?_spell)

/-! ### Scanning -/

theorem delimited_laterItems (xs : List Json) (s : List Char) :
    Delimited ((laterItems xs).flatMap Token.spell ++ s) := by
  cases xs with
  | nil => rintro _ ⟨⟩; decide
  | cons x xs => rintro _ ⟨⟩; decide

theorem delimited_laterFields (fs : List (String × Json)) (s : List Char) :
    Delimited ((laterFields fs).flatMap Token.spell ++ s) := by
  cases fs with
  | nil => rintro _ ⟨⟩; decide
  | cons f fs => rintro _ ⟨⟩; decide

theorem delimited_colon (s : List Char) : Delimited (Token.colon.spell ++ s) := by
  rintro _ ⟨⟩
  decide

mutual

theorem scan?_tokens : (j : Json) → {s : List Char} → {ts : List Token} → Delimited s →
    scan? .unbounded s = some ts →
      scan? .unbounded (j.tokens.flatMap Token.spell ++ s) = some (j.tokens ++ ts)
  | scalar v, s, ts, hs, h => by
    simp only [tokens, List.flatMap_singleton, List.singleton_append]
    exact scan?_spell _ (fun _ _ => hs) h
  | list [], s, ts, _, h => by
    simp only [tokens, List.flatMap_cons, List.flatMap_nil, List.append_nil, List.append_assoc,
      List.cons_append, List.nil_append]
    exact scan?_spell _ nofun (scan?_spell _ nofun h)
  | list (x :: xs), s, ts, _, h => by
    simp only [tokens, List.flatMap_cons, List.flatMap_append, List.append_assoc, List.cons_append]
    exact scan?_spell _ nofun (scan?_tokens x (delimited_laterItems xs s) (scan?_laterItems xs h))
  | object [], s, ts, _, h => by
    simp only [tokens, List.flatMap_cons, List.flatMap_nil, List.append_nil, List.append_assoc,
      List.cons_append, List.nil_append]
    exact scan?_spell _ nofun (scan?_spell _ nofun h)
  | object ((k, x) :: fs), s, ts, _, h => by
    simp only [tokens, List.flatMap_cons, List.flatMap_append, List.append_assoc, List.cons_append]
    refine scan?_spell _ nofun (scan?_spell _ (fun _ _ => delimited_colon _) ?_)
    exact scan?_spell _ nofun
      (scan?_tokens x (delimited_laterFields fs s) (scan?_laterFields fs h))

theorem scan?_laterItems : (xs : List Json) → {s : List Char} → {ts : List Token} →
    scan? .unbounded s = some ts →
      scan? .unbounded ((laterItems xs).flatMap Token.spell ++ s) = some (laterItems xs ++ ts)
  | [], s, ts, h => by
    simp only [laterItems, List.flatMap_singleton, List.singleton_append]
    exact scan?_spell _ nofun h
  | x :: xs, s, ts, h => by
    simp only [laterItems, List.flatMap_cons, List.flatMap_append, List.append_assoc,
      List.cons_append]
    exact scan?_spell _ nofun (scan?_tokens x (delimited_laterItems xs s) (scan?_laterItems xs h))

theorem scan?_laterFields : (fs : List (String × Json)) → {s : List Char} → {ts : List Token} →
    scan? .unbounded s = some ts →
      scan? .unbounded ((laterFields fs).flatMap Token.spell ++ s) = some (laterFields fs ++ ts)
  | [], s, ts, h => by
    simp only [laterFields, List.flatMap_singleton, List.singleton_append]
    exact scan?_spell _ nofun h
  | (k, x) :: fs, s, ts, h => by
    simp only [laterFields, List.flatMap_cons, List.flatMap_append, List.append_assoc,
      List.cons_append]
    refine scan?_spell _ nofun (scan?_spell _ (fun _ _ => delimited_colon _) ?_)
    exact scan?_spell _ nofun
      (scan?_tokens x (delimited_laterFields fs s) (scan?_laterFields fs h))

end

theorem scan?_render (j : Json) : scan? .unbounded j.render.toList = some j.tokens := by
  have hend : scan? .unbounded [] = some [] := by rw [scan?]; rfl
  have h := scan?_tokens j delimited_nil hend
  rw [List.append_nil, List.append_nil] at h
  rwa [render, String.toList_ofList]

/-! ### Reading -/

mutual

/-- How deep containers that hold something nest. -/
def nesting : Json → Nat
  | scalar _ | list [] | object [] => 0
  | list (x :: xs) => max (nesting x) (nestingOfItems xs) + 1
  | object ((_, x) :: fs) => max (nesting x) (nestingOfFields fs) + 1

def nestingOfItems : List Json → Nat
  | [] => 0
  | x :: xs => max (nesting x) (nestingOfItems xs)

def nestingOfFields : List (String × Json) → Nat
  | [] => 0
  | (_, x) :: fs => max (nesting x) (nestingOfFields fs)

end

theorem nestingOfItems_le {k : Nat} {xs : List Json} (h : ∀ x ∈ xs, x.nesting ≤ k) :
    nestingOfItems xs ≤ k := by
  induction xs with
  | nil => exact Nat.zero_le k
  | cons x xs ih =>
    rw [List.forall_mem_cons] at h
    exact max_le h.1 (ih h.2)

theorem nestingOfFields_le {k : Nat} {fs : List (String × Json)}
    (h : ∀ f ∈ fs, f.2.nesting ≤ k) : nestingOfFields fs ≤ k := by
  induction fs with
  | nil => exact Nat.zero_le k
  | cons f fs ih =>
    rw [List.forall_mem_cons] at h
    exact max_le h.1 (ih h.2)

theorem nesting_list_le {k : Nat} {xs : List Json} (h : ∀ x ∈ xs, x.nesting ≤ k) :
    (list xs).nesting ≤ k + 1 := by
  cases xs with
  | nil => exact Nat.zero_le _
  | cons x xs => exact Nat.succ_le_succ (nestingOfItems_le h)

theorem nesting_object_le {k : Nat} {fs : List (String × Json)}
    (h : ∀ f ∈ fs, f.2.nesting ≤ k) : (object fs).nesting ≤ k + 1 := by
  cases fs with
  | nil => exact Nat.zero_le _
  | cons f fs => exact Nat.succ_le_succ (nestingOfFields_le h)

section Reading

open Expecting

variable {depth : Nat}

/-- A value begins with a token that does not close a list. -/
theorem tokens_eq_cons (j : Json) : ∃ t ts, j.tokens = t :: ts ∧ t ≠ .listClose := by
  cases j with
  | scalar v => exact ⟨_, _, rfl, nofun⟩
  | list xs => cases xs <;> exact ⟨_, _, rfl, nofun⟩
  | object fs => rcases fs with _ | ⟨⟨k, x⟩, fs⟩ <;> exact ⟨_, _, rfl, nofun⟩

/-- The first item of a list is read like any other, once there is room for the list. -/
theorem read_firstItem {frames : List Frame} (h : frames.length < depth) (x : Json)
    (ts : List Token) : (x.tokens ++ ts).foldlM (step? depth) (firstItem frames) =
      (x.tokens ++ ts).foldlM (step? depth) (value (.list [] :: frames)) := by
  obtain ⟨t, rest, ht, hne⟩ := tokens_eq_cons x
  rw [ht, List.cons_append, List.foldlM_cons, List.foldlM_cons]
  have hstep : step? depth (firstItem frames) t = step? depth (value (.list [] :: frames)) t := by
    cases t <;> first | exact absurd rfl hne | simp [step?, h]
  rw [hstep]

mutual

/-- The tokens of a value complete it. -/
theorem read_tokens : (j : Json) → (frames : List Frame) → (ts : List Token) →
    frames.length + j.nesting ≤ depth →
      (j.tokens ++ ts).foldlM (step? depth) (value frames) =
        ts.foldlM (step? depth) (complete j frames)
  | scalar v, frames, ts, _ => by
    simp [tokens, step?, begin?]
  | list [], frames, ts, _ => by
    simp [tokens, step?, begin?]
  | list (x :: xs), frames, ts, h => by
    rw [nesting] at h
    have hroom : frames.length < depth := by omega
    simp only [tokens, List.cons_append, List.append_assoc, List.foldlM_cons, step?, begin?,
      Option.bind_eq_bind, Option.bind_some]
    rw [read_firstItem hroom, read_tokens x (.list [] :: frames) _ (by simp; omega)]
    exact read_laterItems xs [x] frames ts (by omega)
  | object [], frames, ts, _ => by
    simp [tokens, step?, begin?]
  | object ((k, x) :: fs), frames, ts, h => by
    rw [nesting] at h
    have hroom : frames.length < depth := by omega
    simp only [tokens, List.cons_append, List.append_assoc, List.foldlM_cons, step?, begin?,
      if_pos hroom, Option.bind_eq_bind, Option.bind_some]
    rw [read_tokens x (.object [] k :: frames) _ (by simp; omega)]
    exact read_laterFields fs [(k, x)] frames ts (by omega)

theorem read_laterItems : (xs items : List Json) → (frames : List Frame) → (ts : List Token) →
    frames.length + 1 + nestingOfItems xs ≤ depth →
      (laterItems xs ++ ts).foldlM (step? depth) (afterItem items frames) =
        ts.foldlM (step? depth) (complete (.list (items.reverse ++ xs)) frames)
  | [], items, frames, ts, _ => by
    simp [laterItems, step?]
  | x :: xs, items, frames, ts, h => by
    rw [nestingOfItems] at h
    simp only [laterItems, List.cons_append, List.append_assoc, List.foldlM_cons, step?,
      Option.bind_eq_bind, Option.bind_some]
    rw [read_tokens x (.list items :: frames) _ (by simp; omega)]
    have hrest := read_laterItems xs (x :: items) frames ts (by omega)
    rwa [List.reverse_cons, List.append_assoc, List.singleton_append] at hrest

theorem read_laterFields : (fs fields : List (String × Json)) → (frames : List Frame) →
    (ts : List Token) → frames.length + 1 + nestingOfFields fs ≤ depth →
      (laterFields fs ++ ts).foldlM (step? depth) (afterField fields frames) =
        ts.foldlM (step? depth) (complete (.object (fields.reverse ++ fs)) frames)
  | [], fields, frames, ts, _ => by
    simp [laterFields, step?]
  | (k, x) :: fs, fields, frames, ts, h => by
    rw [nestingOfFields] at h
    simp only [laterFields, List.cons_append, List.append_assoc, List.foldlM_cons, step?,
      Option.bind_eq_bind, Option.bind_some]
    rw [read_tokens x (.object fields k :: frames) _ (by simp; omega)]
    have hrest := read_laterFields fs ((k, x) :: fields) frames ts (by omega)
    rwa [List.reverse_cons, List.append_assoc, List.singleton_append] at hrest

end

end Reading

/-- A value that nests within the bound is read from its own text. -/
theorem parse?_render {depth : Nat} {j : Json} (h : j.nesting ≤ depth) :
    parse? ⟨depth, .unbounded⟩ j.render = some j := by
  have hread := read_tokens j [] [] (by simpa using h)
  rw [List.append_nil] at hread
  rw [parse?, scan?_render, Option.bind_some, ofTokens?, hread]
  rfl

end SwapPool.Json
