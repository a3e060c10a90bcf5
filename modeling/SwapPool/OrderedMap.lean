/-! Finite maps that remember the order in which their keys came. Writing a key
that is present keeps its place; a new key goes to the end; a key erased and
written again moves to the end. Keys are distinct by construction. -/

namespace SwapPool

namespace Entries

variable {κ ν : Type} [DecidableEq κ]

def put (k : κ) (v : ν) : List (κ × ν) → List (κ × ν)
  | [] => [(k, v)]
  | e :: rest => if e.1 = k then (k, v) :: rest else e :: put k v rest

def erase (k : κ) : List (κ × ν) → List (κ × ν)
  | [] => []
  | e :: rest => if e.1 = k then rest else e :: erase k rest

def find? (k : κ) : List (κ × ν) → Option ν
  | [] => none
  | e :: rest => if e.1 = k then some e.2 else find? k rest

theorem mem_keys_put {k j : κ} {v : ν} {es : List (κ × ν)} :
    j ∈ (put k v es).map Prod.fst ↔ j = k ∨ j ∈ es.map Prod.fst := by
  induction es with
  | nil => simp [put]
  | cons e rest ih =>
    by_cases h : e.1 = k
    · subst h; simp [put]
    · simp only [put, if_neg h, List.map_cons, List.mem_cons, ih]
      exact or_left_comm

theorem nodup_put {k : κ} {v : ν} {es : List (κ × ν)} (h : (es.map Prod.fst).Nodup) :
    ((put k v es).map Prod.fst).Nodup := by
  induction es with
  | nil => simp [put]
  | cons e rest ih =>
    rw [List.map_cons, List.nodup_cons] at h
    by_cases hk : e.1 = k
    · subst hk; simpa [put] using h
    · rw [put, if_neg hk, List.map_cons, List.nodup_cons, mem_keys_put]
      exact ⟨fun he => he.elim hk h.1, ih h.2⟩

theorem mem_keys_of_mem_erase {k j : κ} {es : List (κ × ν)}
    (h : j ∈ (erase k es).map Prod.fst) : j ∈ es.map Prod.fst := by
  induction es with
  | nil => exact h
  | cons e rest ih =>
    by_cases hk : e.1 = k
    · rw [erase, if_pos hk] at h
      exact List.mem_cons_of_mem _ h
    · rw [erase, if_neg hk, List.map_cons, List.mem_cons] at h
      rw [List.map_cons, List.mem_cons]
      exact h.imp_right ih

theorem nodup_erase {k : κ} {es : List (κ × ν)} (h : (es.map Prod.fst).Nodup) :
    ((erase k es).map Prod.fst).Nodup := by
  induction es with
  | nil => exact h
  | cons e rest ih =>
    rw [List.map_cons, List.nodup_cons] at h
    by_cases hk : e.1 = k
    · rw [erase, if_pos hk]; exact h.2
    · rw [erase, if_neg hk, List.map_cons, List.nodup_cons]
      exact ⟨fun he => h.1 (mem_keys_of_mem_erase he), ih h.2⟩

theorem find?_put {k j : κ} {v : ν} {es : List (κ × ν)} :
    find? j (put k v es) = if k = j then some v else find? j es := by
  induction es with
  | nil => rfl
  | cons e rest ih =>
    by_cases hk : e.1 = k
    · subst hk
      by_cases hj : e.1 = j <;> simp [put, find?, hj]
    · rw [put, if_neg hk, find?, find?, ih]
      by_cases hj : e.1 = j
      · rw [if_pos hj, if_pos hj, if_neg fun h => hk (hj.trans h.symm)]
      · rw [if_neg hj, if_neg hj]

theorem find?_eq_none_iff {j : κ} {es : List (κ × ν)} :
    find? j es = none ↔ j ∉ es.map Prod.fst := by
  induction es with
  | nil => simp [find?]
  | cons e rest ih =>
    by_cases hj : e.1 = j
    · simp [find?, hj]
    · rw [find?, if_neg hj, ih, List.map_cons, List.mem_cons]
      exact ⟨fun h he => he.elim (fun e => hj e.symm) h, fun h hr => h (.inr hr)⟩

theorem find?_erase {k j : κ} {es : List (κ × ν)} (h : (es.map Prod.fst).Nodup) :
    find? j (erase k es) = if k = j then none else find? j es := by
  induction es with
  | nil => simp [erase, find?]
  | cons e rest ih =>
    rw [List.map_cons, List.nodup_cons] at h
    by_cases hk : e.1 = k
    · subst hk
      rw [erase, if_pos rfl, find?]
      by_cases hj : e.1 = j
      · subst hj; rw [if_pos rfl]; exact find?_eq_none_iff.2 h.1
      · rw [if_neg hj, if_neg hj]
    · rw [erase, if_neg hk, find?, find?, ih h.2]
      by_cases hj : e.1 = j
      · rw [if_pos hj, if_pos hj, if_neg fun h => hk (hj.trans h.symm)]
      · rw [if_neg hj, if_neg hj]

end Entries

structure OrderedMap (κ ν : Type) where
  entries : List (κ × ν)
  nodup : (entries.map Prod.fst).Nodup
  deriving DecidableEq

namespace OrderedMap

variable {κ ν : Type}

@[ext] theorem ext {m n : OrderedMap κ ν} (h : m.entries = n.entries) : m = n := by
  cases m; cases n; cases h; rfl

def empty : OrderedMap κ ν := ⟨[], List.nodup_nil⟩

instance : Inhabited (OrderedMap κ ν) := ⟨empty⟩

instance : EmptyCollection (OrderedMap κ ν) := ⟨empty⟩

def keys (m : OrderedMap κ ν) : List κ := m.entries.map Prod.fst

def values (m : OrderedMap κ ν) : List ν := m.entries.map Prod.snd

variable [DecidableEq κ]

def find? (m : OrderedMap κ ν) (k : κ) : Option ν := Entries.find? k m.entries

def contains (m : OrderedMap κ ν) (k : κ) : Bool := (m.find? k).isSome

def put (m : OrderedMap κ ν) (k : κ) (v : ν) : OrderedMap κ ν :=
  ⟨Entries.put k v m.entries, Entries.nodup_put m.nodup⟩

def erase (m : OrderedMap κ ν) (k : κ) : OrderedMap κ ν :=
  ⟨Entries.erase k m.entries, Entries.nodup_erase m.nodup⟩

@[simp] theorem find?_put (m : OrderedMap κ ν) (k : κ) (v : ν) (j : κ) :
    (m.put k v).find? j = if k = j then some v else m.find? j :=
  Entries.find?_put

@[simp] theorem find?_erase (m : OrderedMap κ ν) (k j : κ) :
    (m.erase k).find? j = if k = j then none else m.find? j :=
  Entries.find?_erase m.nodup

/-- Of several entries for a key the last gives the value and the first the place. -/
def ofList (es : List (κ × ν)) : OrderedMap κ ν :=
  es.foldl (fun m e => m.put e.1 e.2) empty

/-- The same entries, in whatever order. -/
def sameEntries [DecidableEq ν] (m n : OrderedMap κ ν) : Bool :=
  m.entries.length == n.entries.length
    && m.entries.all fun e => decide (n.find? e.1 = some e.2)

/-- The entries by ascending key. -/
def ascending (le : κ → κ → Bool) (m : OrderedMap κ ν) : List (κ × ν) :=
  m.entries.mergeSort fun a b => le a.1 b.1

end OrderedMap

end SwapPool
