import SwapPool.Proofs.Json.RoundTrip
import SwapPool.Proofs.Record.Loading
import SwapPool.Record.Encode

/-! A pool that is dumped is loaded again. Every part of a record that was written
from what it may hold is read as just that, so a pool that can be recorded comes
back whole. The pools of a run can be recorded, because the counters only grow,
and so can loaded ones. -/

namespace SwapPool

/-! ### Maps -/

namespace Entries

variable {κ ν : Type} [DecidableEq κ]

theorem put_of_notMem {k : κ} {v : ν} {es : List (κ × ν)} (h : k ∉ es.map Prod.fst) :
    put k v es = es ++ [(k, v)] := by
  induction es with
  | nil => rfl
  | cons e es ih =>
    rw [List.map_cons, List.mem_cons, not_or] at h
    rw [put, if_neg (Ne.symm h.1), ih h.2, List.cons_append]

end Entries

/-- A map is made again from its entries. -/
theorem OrderedMap.ofList_entries {κ ν : Type} [DecidableEq κ] (m : OrderedMap κ ν) :
    ofList m.entries = m := by
  suffices h : ∀ (es : List (κ × ν)) (n : OrderedMap κ ν),
      ((n.entries ++ es).map Prod.fst).Nodup →
        (es.foldl (fun m e => m.put e.1 e.2) n).entries = n.entries ++ es from
    OrderedMap.ext (h m.entries empty m.nodup)
  intro es
  induction es with
  | nil => exact fun n _ => (List.append_nil _).symm
  | cons e es ih =>
    intro n hn
    have hnew : e.1 ∉ n.entries.map Prod.fst := by
      rw [List.map_append, List.nodup_append] at hn
      intro hmem
      exact hn.2.2 _ hmem e.1 (by simp) rfl
    have hput : (n.put e.1 e.2).entries = n.entries ++ [e] := Entries.put_of_notMem hnew
    rw [List.foldl_cons, ih, hput, List.append_assoc, List.singleton_append]
    rwa [hput, List.append_assoc, List.singleton_append]

namespace Record

/-! ### Reading what was written -/

namespace Reading

variable {α β γ : Type}

@[simp] theorem map_ok (f : α → β) (a : α) : map f (ok a) = ok (f a) := rfl

@[simp] theorem and_ok (a : α) (b : β) : and (ok a) (ok b) = ok (a, b) := rfl

@[simp] theorem under_ok (outer : Segment) (a : α) : under outer (ok a) = ok a := rfl

theorem items_map {read : β → Reading α} {write : α → β} {xs : List α}
    (h : ∀ x ∈ xs, read (write x) = ok x) (i : Nat) : items read i (xs.map write) = ok xs := by
  induction xs generalizing i with
  | nil => rfl
  | cons x xs ih =>
    rw [List.forall_mem_cons] at h
    rw [List.map_cons, items, h.1, ih h.2, under_ok, and_ok, map_ok]

theorem entries_map {read : β → Reading α} {write : α → β} {es : List (String × α)}
    (h : ∀ x ∈ es.map Prod.snd, read (write x) = ok x) :
    entries read (es.map fun e => (e.1, write e.2)) = ok es := by
  induction es with
  | nil => rfl
  | cons e es ih =>
    rw [List.map_cons, List.forall_mem_cons] at h
    rw [List.map_cons, entries, h.1, ih h.2, under_ok, and_ok, map_ok]

end Reading

theorem list_map {α : Type} {read : Json → Reading α} {write : α → Json} {xs : List α}
    (h : ∀ x ∈ xs, read (write x) = Reading.ok x) :
    list read (.list (xs.map write)) = Reading.ok xs :=
  Reading.items_map h 0

theorem required_of_field {α : Type} {name : String} {read : Json → Reading α} {j : Json} {a : α}
    {fs : List (String × Json)} (hf : Json.lastField? name fs = some j)
    (h : read j = Reading.ok a) : required name read fs = Reading.ok a := by
  rw [required, hf]
  exact congrArg (Reading.under (.key name)) h

theorem optional_of_field {α : Type} {name : String} {default : α} {read : Json → Reading α}
    {j : Json} {a : α} {fs : List (String × Json)} (hf : Json.lastField? name fs = some j)
    (h : read j = Reading.ok a) : optional name default read fs = Reading.ok a := by
  rw [optional, hf]
  exact congrArg (Reading.under (.key name)) h

theorem amount_amountJson {n : Int} (h : 0 ≤ n) :
    amount .unbounded (amountJson n) = Reading.ok n := by
  have hn : ¬ n < 0 := by omega
  simp only [amount, amountJson, amountOf, Text.integer_toString h, if_neg hn]

theorem list_amounts {xs : List Int} (h : ∀ x ∈ xs, 0 ≤ x) :
    list (amount .unbounded) (.list (xs.map amountJson)) = Reading.ok xs :=
  list_map fun x hx => amount_amountJson (h x hx)

theorem integer_integer (digits : DigitLimit) (n : Int) :
    integer digits (.integer n) = Reading.ok n := rfl

theorem volume_volumeJson {v : Volume} (h : 0 ≤ v.input ∧ 0 ≤ v.output) :
    object (volume .unbounded) (volumeJson v) = Reading.ok v := by
  change volume .unbounded _ = _
  rw [volume, optional_of_field (by rfl) (amount_amountJson h.1),
    optional_of_field (by rfl) (amount_amountJson h.2)]
  rfl

theorem ledger_ledgerJson {l : Ledger} (hs : 0 ≤ l.totalSupply)
    (hb : ∀ b ∈ l.balances.values, 0 ≤ b) :
    object (ledger .unbounded) (ledgerJson l) = Reading.ok l := by
  have hbalances : balances .unbounded
      (.object (l.balances.entries.map fun e => (e.1, amountJson e.2))) =
        Reading.ok l.balances := by
    rw [balances, Reading.entries_map fun x hx => amount_amountJson (hb x hx), Reading.map_ok,
      OrderedMap.ofList_entries]
  change ledger .unbounded _ = _
  rw [ledger, optional_of_field (by rfl) (amount_amountJson hs),
    optional_of_field (by rfl) hbalances]
  rfl

/-! ### Pools -/

variable {p : Pool} {fs : List (String × Json)}

/-- The fields that every kind has. -/
theorem common_fields (h : poolJson p = .object fs) :
    Json.lastField? "token_account_ids" fs = some (.list (p.tokens.map Json.text)) ∧
      Json.lastField? "amounts" fs = some (.list (p.amounts.map amountJson)) ∧
      Json.lastField? "total_fee" fs = some (.integer p.totalFee) ∧
      Json.lastField? "shares" fs = some (ledgerJson p.shares) ∧
      Json.lastField? "volumes" fs = some (.list (p.volumes.map volumeJson)) ∧
      Json.lastField? "kind" fs = some (.text p.kind.tag) := by
  obtain ⟨tokens, amounts, totalFee, shares, volumes, config, curve⟩ := p
  rcases curve with _ | ⟨decimals, amp, _ | rates | factors⟩ <;> cases h <;>
    exact ⟨rfl, rfl, rfl, rfl, rfl, rfl⟩

/-- The fields that a stable curve adds. -/
theorem stable_fields {c : StableCurve} (hc : p.curve = .stable c) (h : poolJson p = .object fs) :
    Json.lastField? "token_decimals" fs = some (.list (c.decimals.map Json.integer)) ∧
      Json.lastField? "amp" fs = some (.integer c.amp) ∧
      (∀ rates, c.valuation = .rated rates →
        Json.lastField? "rates" fs = some (.list (rates.map amountJson))) ∧
      ∀ factors, c.valuation = .riskCapped factors →
        Json.lastField? "degens" fs = some (.list (factors.map amountJson)) := by
  obtain ⟨tokens, amounts, totalFee, shares, volumes, config, curve⟩ := p
  obtain rfl : curve = .stable c := hc
  obtain ⟨decimals, amp, _ | rates | factors⟩ := c <;> cases h <;>
    exact ⟨rfl, rfl, by rintro _ ⟨⟩ <;> rfl, by rintro _ ⟨⟩ <;> rfl⟩

theorem valuation_nonneg {c : StableCurve} (hp : p.Admissible) (hc : p.curve = .stable c) :
    (∀ rates, c.valuation = .rated rates → ∀ r ∈ rates, 0 ≤ r) ∧
      ∀ factors, c.valuation = .riskCapped factors → ∀ r ∈ factors, 0 ≤ r := by
  have hpos := (hp.curve c hc).rates_pos
  rw [StableCurve.cachedRates] at hpos
  constructor <;> intro _ hv r hr <;> simp only [hv] at hpos <;> exact (hpos r hr).le

theorem curve_poolJson (hp : p.Admissible) (h : poolJson p = .object fs) :
    curve .unbounded p.kind fs = Reading.ok p.curve := by
  unfold Pool.kind curve
  cases hc : p.curve with
  | constantProduct => rfl
  | stable c =>
    obtain ⟨hdecimals, hamp, hrated, hcapped⟩ := stable_fields hc h
    have hstable {valuation : List (String × Json) → Reading Valuation}
        (hv : valuation fs = Reading.ok c.valuation) :
        stableCurve .unbounded valuation fs = Reading.ok (.stable c) := by
      rw [stableCurve, required_of_field hdecimals (list_map fun _ _ => integer_integer _ _),
        required_of_field hamp (integer_integer _ _), hv]
      rfl
    obtain ⟨hrates, hfactors⟩ := valuation_nonneg hp hc
    cases hv : c.valuation with
    | pegged =>
      simp only [hv]
      exact hstable (congrArg Reading.ok hv.symm)
    | rated rates =>
      simp only [hv]
      refine hstable ?_
      rw [required_of_field (hrated rates hv) (list_amounts (hrates rates hv)), Reading.map_ok, hv]
    | riskCapped factors =>
      simp only [hv]
      refine hstable ?_
      rw [required_of_field (hcapped factors hv) (list_amounts (hfactors factors hv)),
        Reading.map_ok, hv]

theorem fieldsOfPool_poolJson (hp : p.Recordable) (h : poolJson p = .object fs) :
    fieldsOfPool .unbounded p.config p.kind fs = Reading.ok p := by
  obtain ⟨htokens, hamounts, hfee, hshares, hvolumes, -⟩ := common_fields h
  rw [fieldsOfPool, required_of_field htokens (list_map fun _ _ => rfl),
    required_of_field hamounts (list_amounts hp.admissible.amounts_nonneg),
    required_of_field hfee (integer_integer _ _),
    required_of_field hshares (ledger_ledgerJson hp.supply_nonneg hp.balances_nonneg),
    required_of_field hvolumes (list_map fun v hv => volume_volumeJson (hp.volumes_nonneg v hv)),
    curve_poolJson hp.admissible h]
  rfl

theorem pool_poolJson (hp : p.Recordable) :
    pool .unbounded p.config (poolJson p) = Reading.ok p := by
  obtain ⟨fs, h⟩ : ∃ fs, poolJson p = .object fs := ⟨_, rfl⟩
  obtain ⟨-, -, -, -, -, hkind⟩ := common_fields h
  rw [h, pool, hkind]
  simp only [Kind.ofTag?_tag, fieldsOfPool_poolJson hp h, Reading.under_ok]

theorem document_documentJson (hp : p.Recordable) {poolId : Int} (hid : 0 ≤ poolId) :
    object (document .unbounded p.config) (documentJson poolId p) = Reading.ok (poolId, p) := by
  have hnatural : natural .unbounded (.integer poolId) = Reading.ok poolId := by
    change (if poolId < 0 then Reading.fail .negativeInteger else Reading.ok poolId) = _
    rw [if_neg (not_lt.2 hid)]
  change document .unbounded p.config _ = _
  rw [document, optional_of_field (by rfl) (by rfl), required_of_field (by rfl) hnatural,
    required_of_field (by rfl) (pool_poolJson hp)]
  rfl

/-! ### Depth -/

theorem nesting_amounts (xs : List Int) : (Json.list (xs.map amountJson)).nesting ≤ 1 :=
  Json.nesting_list_le (List.forall_mem_map.2 fun _ _ => Nat.le_refl 0)

theorem nesting_curveFields (c : Curve) : ∀ f ∈ curveFields c, f.2.nesting ≤ 1 := by
  have hdecimals (xs : List Int) : (Json.list (xs.map Json.integer)).nesting ≤ 1 :=
    Json.nesting_list_le (List.forall_mem_map.2 fun _ _ => Nat.le_refl 0)
  rcases c with _ | ⟨decimals, amp, _ | rates | factors⟩ <;>
    simp [curveFields, valuationFields, hdecimals, nesting_amounts, Json.nesting]

theorem nesting_ledgerJson (l : Ledger) : (ledgerJson l).nesting ≤ 2 := by
  refine Json.nesting_object_le (List.forall_mem_cons.2 ⟨Nat.zero_le 1, ?_⟩)
  refine List.forall_mem_singleton.2 (Json.nesting_object_le ?_)
  exact List.forall_mem_map.2 fun _ _ => Nat.le_refl 0

theorem nesting_volumes (vs : List Volume) : (Json.list (vs.map volumeJson)).nesting ≤ 2 :=
  Json.nesting_list_le (List.forall_mem_map.2 fun _ _ =>
    Json.nesting_object_le (by simp [amountJson, Json.nesting]))

/-- A record nests as deep as the balances or the counters of its pool, and no deeper. -/
theorem nesting_documentJson (poolId : Int) (p : Pool) : (documentJson poolId p).nesting ≤ 4 := by
  have htokens : (Json.list (p.tokens.map Json.text)).nesting ≤ 1 :=
    Json.nesting_list_le (List.forall_mem_map.2 fun _ _ => Nat.le_refl 0)
  have hpool : (poolJson p).nesting ≤ 3 := by
    refine Json.nesting_object_le fun f hf => ?_
    rcases List.mem_append.1 hf with hf | hf
    · simp only [List.mem_cons, List.not_mem_nil, or_false] at hf
      obtain rfl | rfl | rfl | rfl | rfl | rfl := hf
      · exact htokens.trans (Nat.le_succ 1)
      · exact (nesting_amounts _).trans (Nat.le_succ 1)
      · exact Nat.zero_le 2
      · exact nesting_ledgerJson _
      · exact nesting_volumes _
      · exact Nat.zero_le 2
    · exact (nesting_curveFields _ f hf).trans (Nat.le_succ 1)
  refine Json.nesting_object_le ?_
  simp [hpool, Json.nesting]

/-! ### Nothing is refused -/

theorem negativeAt_eq_nil {path : List Segment} {n : Int} (h : 0 ≤ n) : negativeAt path n = [] :=
  if_neg (not_lt.2 h)

theorem negativeItems_eq_nil {name : String} {xs : List Int} (h : ∀ x ∈ xs, 0 ≤ x) :
    negativeItems name xs = [] :=
  List.flatMap_eq_nil_iff.2 fun _ he => negativeAt_eq_nil (h _ (List.fst_mem_of_mem_zipIdx he))

theorem ledgerProblems_eq_nil (hp : p.Recordable) : ledgerProblems p.shares = [] := by
  rw [ledgerProblems, negativeAt_eq_nil hp.supply_nonneg, List.nil_append]
  exact List.flatMap_eq_nil_iff.2 fun e he =>
    negativeAt_eq_nil (hp.balances_nonneg e.2 (List.mem_map_of_mem he))

theorem volumeProblems_eq_nil {v : Volume} (h : 0 ≤ v.input ∧ 0 ≤ v.output) :
    volumeProblems v = [] := by
  rw [volumeProblems, negativeAt_eq_nil h.1, negativeAt_eq_nil h.2, List.append_nil]

theorem curveProblems_eq_nil (hp : p.Admissible) : curveProblems p.curve = [] := by
  unfold curveProblems
  cases hc : p.curve with
  | constantProduct => rfl
  | stable c =>
    obtain ⟨hrates, hfactors⟩ := valuation_nonneg hp hc
    cases hv : c.valuation with
    | pegged => simp only [hv]
    | rated rates => simpa only [hv] using negativeItems_eq_nil (hrates rates hv)
    | riskCapped factors => simpa only [hv] using negativeItems_eq_nil (hfactors factors hv)

/-- No part of a pool that can be recorded is refused. -/
theorem problemsByPart_nil (hp : p.Recordable) {poolId : Int} (hid : 0 ≤ poolId) :
    ∀ problems ∈ problemsByPart poolId p, problems = [] := by
  have hvolumes : ∀ problems ∈ p.volumes.map volumeProblems, problems = [] :=
    List.forall_mem_map.2 fun v hv => volumeProblems_eq_nil (hp.volumes_nonneg v hv)
  have hrest : negativeItems "amounts" p.amounts ++ curveProblems p.curve = [] := by
    rw [negativeItems_eq_nil hp.admissible.amounts_nonneg, curveProblems_eq_nil hp.admissible,
      List.append_nil]
  rw [problemsByPart, List.cons_append, List.forall_mem_cons, List.forall_mem_append,
    List.forall_mem_cons, List.forall_mem_singleton]
  exact ⟨ledgerProblems_eq_nil hp, hvolumes, hrest, if_neg (not_lt.2 hid)⟩

end Record

/-! ### Dumping and loading -/

namespace Pool

variable {p : Pool}

/-- Nothing of an admissible pool was left out. -/
theorem Admissible.withDefaults_eq (hp : p.Admissible) : p.withDefaults = p := by
  have htokens := hp.two_le_tokens
  have ha : p.amounts ≠ [] := List.ne_nil_of_length_pos (by rw [hp.amounts_length]; omega)
  have hv : p.volumes ≠ [] := List.ne_nil_of_length_pos (by rw [hp.volumes_length]; omega)
  simp [withDefaults, ha, hv]

theorem Admissible.build_eq (hp : p.Admissible) : p.build = .ok p :=
  build_eq_ok_iff.2 ⟨hp.withDefaults_eq.symm ▸ hp, hp.withDefaults_eq.symm⟩

/-- A pool that can be recorded is dumped. -/
theorem Recordable.dumpPool_eq (hp : p.Recordable) {poolId : Int} (hid : 0 ≤ poolId) :
    dumpPool .unbounded p poolId = .ok (Record.documentJson poolId p).render := by
  have hnone : (Record.problemsByPart poolId p).find? (fun problems => !problems.isEmpty) = none := by
    refine List.find?_eq_none.2 fun problems hmem => ?_
    simp [Record.problemsByPart_nil hp hid problems hmem]
  rw [dumpPool, hnone]
  exact if_pos (List.all_eq_true.2 fun n _ => DigitLimit.unbounded_covers n)

/-- What was dumped is loaded, and is the pool that it was. -/
theorem Recordable.loadPool_render (hp : p.Recordable) {poolId : Int} (hid : 0 ≤ poolId) :
    loadPool .unbounded p.config (Record.documentJson poolId p).render = .ok (poolId, p) := by
  have hdepth := (Record.nesting_documentJson poolId p).trans (by decide : 4 ≤ 200)
  rw [loadPool, Record.bounds, Json.parse?_render hdepth]
  simp only [Record.document_documentJson hp hid, Record.Reading.ok, hp.admissible.build_eq]
  rfl

theorem Recordable.dump_load (hp : p.Recordable) {poolId : Int} (hid : 0 ≤ poolId) :
    ∃ text, dumpPool .unbounded p poolId = .ok text ∧
      loadPool .unbounded p.config text = .ok (poolId, p) :=
  ⟨_, hp.dumpPool_eq hid, hp.loadPool_render hid⟩

end Pool

end SwapPool
