import SwapPool.Ledger
import SwapPool.Proofs.Number.Product
import SwapPool.Proofs.Outcome

/-! The ledger invariant. A ledger is balanced when no account holds less than
nothing and all accounts together hold the supply. Each operation on a ledger
either fails and leaves it as it was, or changes holdings and supply by the same
amount; so a balanced ledger stays balanced, whoever sends to whom. -/

namespace SwapPool

namespace Entries

variable {κ ν : Type} [DecidableEq κ]

theorem mem_values_put {k : κ} {v x : ν} {es : List (κ × ν)}
    (h : x ∈ (put k v es).map Prod.snd) : x = v ∨ x ∈ es.map Prod.snd := by
  induction es with
  | nil => simpa [put] using h
  | cons e rest ih =>
    rw [put] at h
    split at h
    · simp only [List.map_cons, List.mem_cons] at h ⊢
      exact h.imp_right .inr
    · simp only [List.map_cons, List.mem_cons] at h ⊢
      rcases h with h | h
      · exact .inr (.inl h)
      · exact (ih h).imp_right .inr

theorem mem_values_erase {k : κ} {x : ν} {es : List (κ × ν)}
    (h : x ∈ (erase k es).map Prod.snd) : x ∈ es.map Prod.snd := by
  induction es with
  | nil => exact h
  | cons e rest ih =>
    rw [erase] at h
    split at h
    · exact List.mem_cons_of_mem _ h
    · simp only [List.map_cons, List.mem_cons] at h ⊢
      exact h.imp_right ih

theorem mem_values_of_find? {k : κ} {v : ν} {es : List (κ × ν)} (h : find? k es = some v) :
    v ∈ es.map Prod.snd := by
  induction es with
  | nil => simp [find?] at h
  | cons e rest ih =>
    rw [find?] at h
    split at h
    · cases h
      exact List.mem_cons_self
    · exact List.mem_cons_of_mem _ (ih h)

/-- A write changes the sum by the new value less the one that it replaces. -/
theorem total_put (k : κ) (v : Int) (es : List (κ × Int)) :
    total ((put k v es).map Prod.snd) + (find? k es).getD 0 = total (es.map Prod.snd) + v := by
  induction es with
  | nil => simp [put, find?]
  | cons e rest ih =>
    rw [put, find?]
    split
    · simp only [List.map_cons, total_cons, Option.getD_some]
      omega
    · simp only [List.map_cons, total_cons]
      omega

theorem total_erase (k : κ) (es : List (κ × Int)) :
    total ((erase k es).map Prod.snd) + (find? k es).getD 0 = total (es.map Prod.snd) := by
  induction es with
  | nil => simp [erase, find?]
  | cons e rest ih =>
    rw [erase, find?]
    split
    · simp only [List.map_cons, total_cons, Option.getD_some]
      omega
    · simp only [List.map_cons, total_cons]
      omega

end Entries

namespace Ledger

variable {l l' : Ledger} {account sender receiver : String} {shares : Int}

structure Balanced (l : Ledger) : Prop where
  nonneg : ∀ b ∈ l.balances.values, 0 ≤ b
  held_eq : l.held = l.totalSupply

theorem empty_balanced : empty.Balanced :=
  ⟨fun _ h => absurd h List.not_mem_nil, rfl⟩

theorem balanceOf_nonneg (h : l.Balanced) (account : String) : 0 ≤ l.balanceOf account := by
  unfold balanceOf OrderedMap.find?
  cases hf : Entries.find? account l.balances.entries with
  | none => exact Int.le_refl 0
  | some b => exact h.nonneg b (Entries.mem_values_of_find? hf)

theorem Balanced.totalSupply_nonneg (h : l.Balanced) : 0 ≤ l.totalSupply := by
  rw [← h.held_eq]
  exact total_nonneg h.nonneg

/-- Nobody holds more than there is. -/
theorem Balanced.balanceOf_le (h : l.Balanced) (account : String) :
    l.balanceOf account ≤ l.totalSupply := by
  have hs := h.totalSupply_nonneg
  unfold balanceOf OrderedMap.find?
  cases hf : Entries.find? account l.balances.entries with
  | none => exact hs
  | some b =>
    rw [Option.getD_some, ← h.held_eq]
    exact le_total_of_mem h.nonneg (Entries.mem_values_of_find? hf)

theorem held_setBalance (l : Ledger) (account : String) (n : Int) :
    (l.setBalance account n).held + l.balanceOf account = l.held + n :=
  Entries.total_put account n l.balances.entries

theorem mem_values_setBalance {b n : Int} (h : b ∈ (l.setBalance account n).balances.values) :
    b = n ∨ b ∈ l.balances.values :=
  Entries.mem_values_put h

@[simp] theorem isRegistered_setBalance (l : Ledger) (a b : String) (n : Int) :
    (l.setBalance a n).isRegistered b = (decide (a = b) || l.isRegistered b) := by
  unfold isRegistered setBalance OrderedMap.contains
  rw [OrderedMap.find?_put]
  by_cases h : a = b <;> simp [h]

/-- Crediting one account and the supply alike, or nothing, keeps the balance. -/
theorem Balanced.adjust (h : l.Balanced) (account : String) {n : Int}
    (hn : 0 ≤ l.balanceOf account + n)
    (hl : l' = { l.setBalance account (l.balanceOf account + n) with
      totalSupply := l.totalSupply + n }) : l'.Balanced := by
  subst hl
  refine ⟨fun b hb => ?_, ?_⟩
  · rcases mem_values_setBalance hb with rfl | hb
    · exact hn
    · exact h.nonneg b hb
  · have hs := held_setBalance l account (l.balanceOf account + n)
    have he := h.held_eq
    change (l.setBalance account _).held = l.totalSupply + n
    omega

/-! ### What each operation does -/

theorem requireRegistered_eq_ok_iff {accounts : List String} :
    l.requireRegistered accounts = .ok () ↔ ∀ a ∈ accounts, l.isRegistered a = true := by
  unfold requireRegistered
  cases h : accounts.find? fun a => !l.isRegistered a with
  | none =>
    rw [List.find?_eq_none] at h
    simpa using h
  | some a =>
    have hm := List.mem_of_find?_eq_some h
    have ha := List.find?_some h
    simp only [reduceCtorEq, false_iff]
    intro hall
    simp [hall a hm] at ha

theorem requireRegistered_eq_error {accounts : List String} {e : Fault}
    (h : l.requireRegistered accounts = .error e) : ∃ a, e = .unregistered a := by
  unfold requireRegistered at h
  cases hf : accounts.find? fun a => !l.isRegistered a with
  | none => simp [hf] at h
  | some a =>
    simp only [hf, Except.error.injEq] at h
    exact ⟨a, h.symm⟩

theorem mint_eq_ok_iff : mint account shares l = .ok () l' ↔
    shares = 0 ∧ l' = l ∨ 0 < shares ∧ l.isRegistered account = true ∧
      l' = { l.setBalance account (l.balanceOf account + shares) with
        totalSupply := l.totalSupply + shares } := by
  rcases Int.lt_trichotomy shares 0 with h | rfl | h
  · have hn : ¬ 0 < shares := by omega
    have h0 : shares ≠ 0 := by omega
    simp [mint, h, hn, h0]
  · simp [mint, eq_comm (a := l')]
  · have hn : ¬ shares < 0 := by omega
    have h0 : shares ≠ 0 := by omega
    simp [mint, h, hn, h0, requireRegistered_eq_ok_iff, eq_comm (a := l')]

theorem burn_eq_ok_iff : burn account shares l = .ok () l' ↔
    0 ≤ shares ∧ shares ≤ l.balanceOf account ∧ (shares = 0 ∧ l' = l ∨ 0 < shares ∧
      l' = { l.setBalance account (l.balanceOf account - shares) with
        totalSupply := l.totalSupply - shares }) := by
  rcases Int.lt_trichotomy shares 0 with h | rfl | h
  · have hn : ¬ 0 ≤ shares := by omega
    simp [burn, h, hn]
  · simp [burn, eq_comm (a := l'), and_comm]
  · have hn : ¬ shares < 0 := by omega
    have h0 : shares ≠ 0 := by omega
    simp [burn, h, hn, h0, Int.le_of_lt h, eq_comm (a := l')]

theorem transfer_eq_ok_iff : transfer sender receiver shares l = .ok () l' ↔
    0 ≤ shares ∧ l.isRegistered sender = true ∧ shares ≤ l.balanceOf sender ∧
      l.isRegistered receiver = true ∧
      l' = (l.setBalance sender (l.balanceOf sender - shares)).setBalance receiver
        ((l.setBalance sender (l.balanceOf sender - shares)).balanceOf receiver + shares) := by
  simp [transfer, eq_comm (a := l')]

theorem register_eq_ok_iff : register account l = .ok () l' ↔
    l.isRegistered account = false ∧ l' = l.setBalance account 0 := by
  simp [register, eq_comm (a := l')]

theorem unregister_eq_ok_iff : unregister account l = .ok () l' ↔
    l.isRegistered account = true ∧ l.balanceOf account = 0 ∧
      l' = { l with balances := l.balances.erase account } := by
  simp [unregister, eq_comm (a := l')]

theorem balanceOf_eq_zero_of_not_registered (h : l.isRegistered account = false) :
    l.balanceOf account = 0 := by
  unfold isRegistered OrderedMap.contains at h
  unfold balanceOf
  rw [Option.isSome_eq_false_iff, Option.isNone_iff_eq_none] at h
  rw [h, Option.getD_none]

/-! ### Balance is kept -/

theorem Balanced.mint (h : l.Balanced) (hm : mint account shares l = .ok () l') : l'.Balanced := by
  rcases mint_eq_ok_iff.1 hm with ⟨-, rfl⟩ | ⟨hp, -, hl⟩
  · exact h
  · have := balanceOf_nonneg h account
    exact h.adjust account (by omega) hl

theorem Balanced.burn (h : l.Balanced) (hb : burn account shares l = .ok () l') : l'.Balanced := by
  obtain ⟨-, hle, ⟨-, rfl⟩ | ⟨-, hl⟩⟩ := burn_eq_ok_iff.1 hb
  · exact h
  · refine h.adjust account (n := -shares) (by omega) ?_
    rw [hl, Int.sub_eq_add_neg, Int.sub_eq_add_neg]

/-- Moving shares keeps the balance, also from an account to itself. -/
theorem Balanced.transfer (h : l.Balanced) (ht : transfer sender receiver shares l = .ok () l') :
    l'.Balanced := by
  obtain ⟨hs, -, hle, -, rfl⟩ := transfer_eq_ok_iff.1 ht
  set m := l.setBalance sender (l.balanceOf sender - shares) with hm
  have hmv : ∀ b ∈ m.balances.values, 0 ≤ b := fun b hb => by
    rcases mem_values_setBalance hb with rfl | hb
    · omega
    · exact h.nonneg b hb
  have hr : 0 ≤ m.balanceOf receiver := by
    rw [hm, balanceOf_setBalance]
    split
    · omega
    · exact balanceOf_nonneg h receiver
  refine ⟨fun b hb => ?_, ?_⟩
  · rcases mem_values_setBalance hb with rfl | hb
    · omega
    · exact hmv b hb
  · have h1 : m.held + l.balanceOf sender = l.held + (l.balanceOf sender - shares) :=
      held_setBalance l sender _
    have h2 := held_setBalance m receiver (m.balanceOf receiver + shares)
    have he := h.held_eq
    change (m.setBalance receiver (m.balanceOf receiver + shares)).held = l.totalSupply
    omega

theorem Balanced.register (h : l.Balanced) (hr : register account l = .ok () l') :
    l'.Balanced := by
  obtain ⟨hn, rfl⟩ := register_eq_ok_iff.1 hr
  have h0 := balanceOf_eq_zero_of_not_registered hn
  refine h.adjust account (n := 0) (by omega) ?_
  rw [h0, Int.add_zero, Int.add_zero]
  rfl

theorem Balanced.unregister (h : l.Balanced) (hu : unregister account l = .ok () l') :
    l'.Balanced := by
  obtain ⟨-, h0, rfl⟩ := unregister_eq_ok_iff.1 hu
  refine ⟨fun b hb => h.nonneg b (Entries.mem_values_erase hb), ?_⟩
  have ht : l.held = total ((Entries.erase account l.balances.entries).map Prod.snd) +
      l.balanceOf account := (Entries.total_erase account l.balances.entries).symm
  rw [h0, Int.add_zero] at ht
  exact ht.symm.trans h.held_eq

/-! ### A refused operation writes nothing -/

theorem register_failsInPlace : (register account).FailsInPlace l := by
  simp [register]

theorem unregister_failsInPlace : (unregister account).FailsInPlace l := by
  simp [unregister]

theorem mint_failsInPlace : (mint account shares).FailsInPlace l := by
  simp [mint]

theorem burn_failsInPlace : (burn account shares).FailsInPlace l := by
  simp [burn]

theorem transfer_failsInPlace : (transfer sender receiver shares).FailsInPlace l := by
  simp [transfer]

end Ledger

end SwapPool
