import SwapPool.Proofs.Pool.Coverage
import SwapPool.Proofs.Pool.Runs
import SwapPool.Proofs.Record.RoundTrip

/-! Pools outlive the host. The pools of a run can all be recorded: their ledgers
are balanced, and what a trade adds to the counters is never negative. So each of
them is dumped, and loading the dump gives the same pool; the same holds of a
pool that was loaded, whatever the text looked like. -/

namespace SwapPool

/-! ### The counters -/

theorem forall_mem_modify {α : Type} {P : α → Prop} {xs : List α} {f : α → α}
    (h : ∀ x ∈ xs, P x) (hf : ∀ x, P x → P (f x)) (i : Nat) : ∀ x ∈ xs.modify i f, P x := by
  intro x hx
  obtain ⟨k, hk, rfl⟩ := List.mem_iff_getElem.1 hx
  rw [List.length_modify] at hk
  rw [List.getElem_modify]
  split
  · exact hf _ (h _ (List.getElem_mem hk))
  · exact h _ (List.getElem_mem hk)

theorem Settlement.counted_nonneg {s : Settlement} {vs : List Volume}
    (h : ∀ v ∈ vs, 0 ≤ v.input ∧ 0 ≤ v.output)
    (ht : ∀ t, s.trade = some t → 0 ≤ t.amountIn ∧ 0 ≤ t.amountOut) :
    ∀ v ∈ s.counted vs, 0 ≤ v.input ∧ 0 ≤ v.output := by
  unfold counted
  cases hs : s.trade with
  | none => exact h
  | some t =>
    obtain ⟨hin, hout⟩ := ht t hs
    refine forall_mem_modify (forall_mem_modify h ?_ t.i) ?_ t.j
    · exact fun v hv => ⟨Int.add_nonneg hv.1 hin, hv.2⟩
    · exact fun v hv => ⟨hv.1, Int.add_nonneg hv.2 hout⟩

namespace Pool

variable {p p' : Pool} {limits : Limits} {reply : Reply}

theorem volumes_nonneg_of_run (hp : p.Admissible) (hb : p.shares.Balanced)
    (hv : ∀ v ∈ p.volumes, 0 ≤ v.input ∧ 0 ≤ v.output) {c : Command}
    (h : c.run limits p = .ok reply p') : ∀ v ∈ p'.volumes, 0 ≤ v.input ∧ 0 ≤ v.output := by
  cases hc : c.plan? p with
  | none =>
    obtain ⟨-, hsame, -⟩ := Command.unplanned_keeps hc h
    rwa [hsame]
  | some plan =>
    obtain ⟨pl, hpl, -, ⟨-, rfl⟩ | ⟨-, s, l, hset, -, -, rfl⟩⟩ := Command.planned_eq_ok hp hc h
    · exact hv
    · have hcov := (Command.settles_of_plan? hc hpl hset).covered hp hb
      exact Settlement.counted_nonneg hv hcov.trade_nonneg

/-! ### Every pool can be recorded -/

theorem Created.recordable (h : p.Created) : p.Recordable where
  admissible := h.admissible
  supply_nonneg := h.balanced.totalSupply_nonneg
  balances_nonneg := h.balanced.nonneg
  volumes_nonneg v hv := by
    obtain ⟨tokens, _, _, _, hb⟩ := h
    obtain ⟨-, rfl⟩ := build_eq_ok_iff.1 hb
    obtain rfl : v = .zero := List.eq_of_mem_replicate hv
    decide

theorem Loaded.recordable (h : p.Loaded) : p.Recordable := by
  obtain ⟨_, _, _, _, hl⟩ := h
  exact (loadPool_eq_ok hl).1

theorem Recordable.after (hp : p.Recordable) (hb : p.shares.Balanced) (calls : List Call) :
    (p.after calls).Recordable where
  admissible := hp.admissible.after calls
  supply_nonneg := (balanced_after hp.admissible hb calls).totalSupply_nonneg
  balances_nonneg := (balanced_after hp.admissible hb calls).nonneg
  volumes_nonneg := after_keeps (I := fun p => ∀ v ∈ p.volumes, 0 ≤ v.input ∧ 0 ≤ v.output)
    (fun _ _ _ _ _ hp hb hv h => volumes_nonneg_of_run hp hb hv h) hp.admissible hb
    hp.volumes_nonneg

/-- Every pool of a run, under any number, is dumped, and loading the dump under its configuration
gives that number and the very same pool; and so does loading the dump of a loaded pool. -/
theorem dump_load_round_trip :
    (∀ p : Pool, p.Created ∨ p.Loaded ∧ p.shares.held = p.shares.totalSupply →
      ∀ (calls : List Call) (poolId : Int), 0 ≤ poolId →
        let q := p.after calls
        ∃ text, dumpPool .unbounded q poolId = .ok text ∧
          loadPool .unbounded q.config text = .ok (poolId, q)) ∧
      ∀ digits config text poolId p, loadPool digits config text = .ok (poolId, p) →
        ∃ text', dumpPool .unbounded p poolId = .ok text' ∧
          loadPool .unbounded config text' = .ok (poolId, p) := by
  constructor
  · intro p start calls poolId hid
    have hp : p.Recordable := start.elim Created.recordable fun h => h.1.recordable
    have hb : p.shares.Balanced := start.elim Created.balanced fun h => h.1.balanced h.2
    exact (hp.after hb calls).dump_load hid
  · intro digits config text poolId p h
    obtain ⟨hp, rfl, hid⟩ := loadPool_eq_ok h
    exact hp.dump_load hid

/-- Names that need escapes, empty accounts and wide integers come back from a run; and a text that
leaves fields out, and gives amounts as numbers, is not what its own dump looks like. -/
theorem dump_load_round_trip_odd_records :
    let c : StableCurve := ⟨[6, 18], 100, .riskCapped [2 * ratePrecision, ratePrecision]⟩
    let p : Pool := ⟨["\"x\\", "é"], [0, 0], 30, .empty, [.zero, .zero], .standard, .stable c⟩
    let calls : List Call :=
      [⟨∅, .register "line\nbreak"⟩, ⟨∅, .register ""⟩,
        ⟨∅, .addStableLiquidity "line\nbreak" [Int.pow 10 30, Int.pow 10 42] 0 .none false none⟩]
    let q := p.after calls
    let text := "\x7b\"pool_id\": 7, \"pool\": \x7b\"kind\": \"SIMPLE_POOL\", \"volumes\": [], " ++
      "\"token_account_ids\": [\"\\u0078\", \"y\"], \"amounts\": [2, \"+3\"], " ++
      "\"total_fee\": 30, \"shares\": \x7b\"total_supply\": 5\x7d\x7d\x7d"
    let r : Pool := ⟨["x", "y"], [2, 3], 30, ⟨5, ∅⟩, [.zero, .zero], .standard, .constantProduct⟩
    (0 < q.shares.balanceOf "line\nbreak" ∧ q.shares.isRegistered "" = true ∧
      ∃ t, dumpPool .unbounded q 0 = .ok t ∧ loadPool .unbounded q.config t = .ok (0, q)) ∧
      ∃ t, t ≠ text ∧ dumpPool .unbounded r 7 = .ok t ∧
        loadPool .unbounded .standard t = .ok (7, r) := by
  intro c p calls q text r
  have start : p.Created := ⟨["\"x\\", "é"], 30, .stable c, .standard, by rfl⟩
  have hlp : 0 < q.shares.balanceOf "line\nbreak" := by decide +kernel
  have hempty : q.shares.isRegistered "" = true := by decide +kernel
  have hl : loadPool .unbounded .standard text = .ok (7, r) := by decide +kernel
  have hdump : dumpPool .unbounded r 7 ≠ .ok text := by decide +kernel
  obtain ⟨hrun, hloaded⟩ := dump_load_round_trip
  obtain ⟨t, ht, hrt⟩ := hloaded .unbounded .standard text 7 r hl
  refine ⟨⟨hlp, hempty, hrun p (.inl start) calls 0 (by decide)⟩, t, ?_, ht, hrt⟩
  rintro rfl
  exact hdump ht

end Pool

end SwapPool
