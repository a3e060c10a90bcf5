import SwapPool.Proofs.Ledger.Balanced
import SwapPool.Proofs.Pool.Admissible
import SwapPool.Record.Decode

/-! What a loaded pool is. It is built like a new one and so admissible, and its
ledger and its counters hold amounts, none of them negative; whether the balances
add up to the supply is left to the record. -/

namespace SwapPool

/-- An admissible pool with nothing negative in its ledger and its counters, which is what a record
has a place for. -/
structure Pool.Recordable (p : Pool) : Prop where
  admissible : p.Admissible
  supply_nonneg : 0 ≤ p.shares.totalSupply
  balances_nonneg : ∀ b ∈ p.shares.balances.values, 0 ≤ b
  volumes_nonneg : ∀ v ∈ p.volumes, 0 ≤ v.input ∧ 0 ≤ v.output

namespace Record

namespace Reading

variable {α β : Type}

theorem map_eq_ok_iff {f : α → β} {r : Reading α} {b : β} :
    map f r = ok b ↔ ∃ a, r = ok a ∧ f a = b := by
  constructor
  · intro h
    cases r with
    | ok a => exact ⟨a, rfl, Except.ok.inj h⟩
    | error ps => cases h
  · rintro ⟨a, rfl, rfl⟩
    rfl

theorem and_eq_ok_iff {r : Reading α} {s : Reading β} {a : α} {b : β} :
    and r s = ok (a, b) ↔ r = ok a ∧ s = ok b := by
  constructor
  · intro h
    cases r <;> cases s <;> cases h
    exact ⟨rfl, rfl⟩
  · rintro ⟨rfl, rfl⟩
    rfl

theorem under_eq_ok_iff {outer : Segment} {r : Reading α} {a : α} :
    under outer r = ok a ↔ r = ok a := by
  cases r with
  | ok a => rfl
  | error ps => constructor <;> intro h <;> cases h

@[simp] theorem functor_map_eq_ok_iff {f : α → β} {r : Reading α} {b : β} :
    f <$> r = ok b ↔ ∃ a, r = ok a ∧ f a = b :=
  map_eq_ok_iff

@[simp] theorem seq_eq_ok_iff {f : Reading (α → β)} {r : Reading α} {b : β} :
    f <*> r = ok b ↔ ∃ g a, f = ok g ∧ r = ok a ∧ g a = b := by
  change map (fun x => x.1 x.2) (and f r) = ok b ↔ _
  simp only [map_eq_ok_iff, Prod.exists, and_eq_ok_iff, and_assoc]

theorem mem_entries {read : α → Reading β} {es : List (String × α)} {rs : List (String × β)}
    (h : entries read es = ok rs) : ∀ r ∈ rs, ∃ x, read x = ok r.2 := by
  induction es generalizing rs with
  | nil =>
    obtain rfl : [] = rs := Except.ok.inj h
    simp
  | cons e es ih =>
    obtain ⟨⟨y, ys⟩, hy, rfl⟩ := map_eq_ok_iff.1 h
    obtain ⟨h1, h2⟩ := and_eq_ok_iff.1 hy
    rw [List.forall_mem_cons]
    exact ⟨⟨_, under_eq_ok_iff.1 h1⟩, ih h2⟩

theorem mem_items {read : α → Reading β} {i : Nat} {xs : List α} {ys : List β}
    (h : items read i xs = ok ys) : ∀ y ∈ ys, ∃ x, read x = ok y := by
  induction xs generalizing i ys with
  | nil =>
    obtain rfl : [] = ys := Except.ok.inj h
    simp
  | cons x xs ih =>
    obtain ⟨⟨z, zs⟩, hz, rfl⟩ := map_eq_ok_iff.1 h
    obtain ⟨h1, h2⟩ := and_eq_ok_iff.1 hz
    rw [List.forall_mem_cons]
    exact ⟨⟨_, under_eq_ok_iff.1 h1⟩, ih h2⟩

end Reading

variable {digits : DigitLimit}

theorem amountOf_nonneg {j : Json} {n : Int} (h : amountOf digits j = .ok n) : 0 ≤ n := by
  unfold amountOf at h
  split at h
  · cases h
  · split at h <;> cases h
    omega
  · split at h
    · cases h
    · split at h <;> cases h
      omega
  · cases h

theorem amount_nonneg {j : Json} {n : Int} (h : amount digits j = Reading.ok n) : 0 ≤ n := by
  unfold amount at h
  split at h <;> cases h
  exact amountOf_nonneg ‹_›

theorem required_eq_ok {α : Type} {name : String} {a : α} {read : Json → Reading α}
    {fs : List (String × Json)} (h : required name read fs = Reading.ok a) :
    ∃ j, read j = Reading.ok a := by
  have h := Reading.under_eq_ok_iff.1 h
  split at h
  · exact ⟨_, h⟩
  · cases h

theorem optional_eq_ok {α : Type} {name : String} {default a : α} {read : Json → Reading α}
    {fs : List (String × Json)} (h : optional name default read fs = Reading.ok a) :
    a = default ∨ ∃ j, read j = Reading.ok a := by
  unfold optional at h
  split at h
  · exact .inr ⟨_, Reading.under_eq_ok_iff.1 h⟩
  · exact .inl (Except.ok.inj h).symm

theorem object_eq_ok {α : Type} {a : α} {read : List (String × Json) → Reading α} {j : Json}
    (h : object read j = Reading.ok a) : ∃ fs, read fs = Reading.ok a := by
  cases j with
  | object fs => exact ⟨fs, h⟩
  | _ => cases h

theorem mem_values_ofList {κ ν : Type} [DecidableEq κ] {es : List (κ × ν)} {v : ν}
    (h : v ∈ (OrderedMap.ofList es).values) : v ∈ es.map Prod.snd := by
  suffices hs : ∀ m : OrderedMap κ ν, v ∈ (es.foldl (fun m e => m.put e.1 e.2) m).values →
      v ∈ m.values ∨ v ∈ es.map Prod.snd from
    (hs .empty h).resolve_left List.not_mem_nil
  clear h
  induction es with
  | nil => exact fun m h => .inl h
  | cons e es ih =>
    intro m h
    rw [List.map_cons, List.mem_cons]
    rcases ih (m.put e.1 e.2) h with h | h
    · rcases Entries.mem_values_put h with rfl | h
      · exact .inr (.inl rfl)
      · exact .inl h
    · exact .inr (.inr h)

theorem balances_nonneg {j : Json} {m : OrderedMap String Int}
    (h : balances digits j = Reading.ok m) : ∀ b ∈ m.values, 0 ≤ b := by
  cases j with
  | object fs =>
    obtain ⟨es, he, rfl⟩ := Reading.map_eq_ok_iff.1 h
    intro b hb
    obtain ⟨e, hm, rfl⟩ := List.mem_map.1 (mem_values_ofList hb)
    obtain ⟨x, hx⟩ := Reading.mem_entries he e hm
    exact amount_nonneg hx
  | _ => cases h

theorem mem_list {α : Type} {read : Json → Reading α} {j : Json} {ys : List α}
    (h : list read j = Reading.ok ys) : ∀ y ∈ ys, ∃ x, read x = Reading.ok y := by
  cases j with
  | list xs => exact Reading.mem_items h
  | _ => cases h

theorem optional_amount_nonneg {name : String} {fs : List (String × Json)} {n : Int}
    (h : optional name 0 (amount digits) fs = Reading.ok n) : 0 ≤ n := by
  obtain rfl | ⟨j, hj⟩ := optional_eq_ok h
  · exact Int.le_refl 0
  · exact amount_nonneg hj

theorem natural_nonneg {j : Json} {n : Int} (h : natural digits j = Reading.ok n) : 0 ≤ n := by
  unfold natural Reading.bind at h
  split at h
  · dsimp only at h
    split at h <;> cases h
    omega
  · cases h

theorem ledger_nonneg {fs : List (String × Json)} {l : Ledger}
    (h : ledger digits fs = Reading.ok l) :
    0 ≤ l.totalSupply ∧ ∀ b ∈ l.balances.values, 0 ≤ b := by
  simp only [ledger, Reading.seq_eq_ok_iff, Reading.functor_map_eq_ok_iff] at h
  obtain ⟨_, m, ⟨s, hs, rfl⟩, hm, rfl⟩ := h
  refine ⟨optional_amount_nonneg hs, ?_⟩
  obtain rfl | ⟨j, hj⟩ := optional_eq_ok hm
  · exact fun b hb => absurd hb List.not_mem_nil
  · exact balances_nonneg hj

theorem volume_nonneg {fs : List (String × Json)} {v : Volume}
    (h : volume digits fs = Reading.ok v) : 0 ≤ v.input ∧ 0 ≤ v.output := by
  simp only [volume, Reading.seq_eq_ok_iff, Reading.functor_map_eq_ok_iff] at h
  obtain ⟨_, o, ⟨i, hi, rfl⟩, ho, rfl⟩ := h
  exact ⟨optional_amount_nonneg hi, optional_amount_nonneg ho⟩

/-- What the fields of a record promise of a pool before it is built. -/
structure Drafted (config : Config) (draft : Pool) : Prop where
  config_eq : draft.config = config
  ledger_nonneg : 0 ≤ draft.shares.totalSupply ∧ ∀ b ∈ draft.shares.balances.values, 0 ≤ b
  volumes_nonneg : ∀ v ∈ draft.volumes, 0 ≤ v.input ∧ 0 ≤ v.output

variable {config : Config} {draft : Pool}

theorem fieldsOfPool_drafted {k : Kind} {fs : List (String × Json)}
    (h : fieldsOfPool digits config k fs = Reading.ok draft) : Drafted config draft := by
  simp only [fieldsOfPool, Reading.seq_eq_ok_iff, Reading.functor_map_eq_ok_iff] at h
  obtain ⟨_, _, ⟨_, vs, ⟨_, l, ⟨_, _, ⟨_, _, ⟨_, -, rfl⟩, -, rfl⟩, -, rfl⟩, hs, rfl⟩, hv, rfl⟩, -,
    rfl⟩ := h
  obtain ⟨j, hj⟩ := required_eq_ok hs
  obtain ⟨fs, hl⟩ := object_eq_ok hj
  obtain ⟨js, hjs⟩ := required_eq_ok hv
  refine ⟨rfl, ledger_nonneg hl, fun v hmem => ?_⟩
  obtain ⟨x, hx⟩ := mem_list hjs v hmem
  obtain ⟨_, hvolume⟩ := object_eq_ok hx
  exact volume_nonneg hvolume

theorem pool_drafted {j : Json} (h : pool digits config j = Reading.ok draft) :
    Drafted config draft := by
  unfold pool at h
  split at h
  · split at h
    · cases h
    · cases h
    · split at h
      · exact fieldsOfPool_drafted (Reading.under_eq_ok_iff.1 h)
      · cases h
    · cases h
  · cases h

/-- Counters that were left out are zero. -/
theorem Drafted.withDefaults_volumes_nonneg (h : Drafted config draft) :
    ∀ v ∈ draft.withDefaults.volumes, 0 ≤ v.input ∧ 0 ≤ v.output := by
  change ∀ v ∈ (if draft.volumes.isEmpty then _ else draft.volumes), _
  split
  · intro v hv
    rw [List.eq_of_mem_replicate hv]
    decide
  · exact h.volumes_nonneg

theorem document_eq_ok {fs : List (String × Json)} {poolId : Int}
    (h : document digits config fs = Reading.ok (poolId, draft)) :
    0 ≤ poolId ∧ Drafted config draft := by
  simp only [document, Reading.seq_eq_ok_iff, Reading.functor_map_eq_ok_iff] at h
  obtain ⟨_, _, ⟨_, _, ⟨_, -, rfl⟩, hid, rfl⟩, hp, ⟨⟩⟩ := h
  obtain ⟨_, hnatural⟩ := required_eq_ok hid
  obtain ⟨_, hpool⟩ := required_eq_ok hp
  exact ⟨natural_nonneg hnatural, pool_drafted hpool⟩

end Record

/-- A loaded pool is one that was built and can be recorded, under the configuration of the host
and a number that is not negative. -/
theorem loadPool_eq_ok {digits : DigitLimit} {config : Config} {text : String} {poolId : Int}
    {p : Pool} (h : loadPool digits config text = .ok (poolId, p)) :
    p.Recordable ∧ p.config = config ∧ 0 ≤ poolId := by
  unfold loadPool at h
  split at h
  · cases h
  · split at h
    · cases h
    · rename_i poolId' draft hd
      simp only [bind_eq_ok_iff, pure_eq_ok, Except.ok.injEq, Prod.mk.injEq] at h
      obtain ⟨q, hb, rfl, rfl⟩ := h
      obtain ⟨hq, rfl⟩ := Pool.build_eq_ok_iff.1 hb
      obtain ⟨fs, hf⟩ := Record.object_eq_ok hd
      obtain ⟨hid, hdraft⟩ := Record.document_eq_ok hf
      obtain ⟨hs, hbalances⟩ := hdraft.ledger_nonneg
      exact ⟨⟨hq, hs, hbalances, hdraft.withDefaults_volumes_nonneg⟩, hdraft.config_eq, hid⟩

end SwapPool
