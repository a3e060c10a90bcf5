import SwapPool.Pool.Commit
import SwapPool.Proofs.Ledger.Balanced
import SwapPool.Proofs.Pool.Admissible

/-! Writing an outcome. The writes to the ledger come first and can be refused at
the first entry only: the recipients have been looked up, and burning or minting
never takes a registration away. So a settlement that fits its pool is written
completely or not at all. -/

namespace SwapPool

namespace Ledger

variable {l l' : Ledger} {mints burns : List (String × Int)}

/-- The part of a commitment that concerns the ledger. -/
def settle (mints burns : List (String × Int)) : Action Ledger Unit := do
  (← get).requireRegistered ((mints.filter fun m => 0 < m.2).map Prod.fst)
  burns.forM fun b => burn b.1 b.2
  mints.forM fun m => mint m.1 m.2

/-- A new balance for an account that is registered registers nobody. -/
theorem isRegistered_setBalance_of {account : String} (h : l.isRegistered account = true)
    (n : Int) (a : String) : (l.setBalance account n).isRegistered a = l.isRegistered a := by
  rw [isRegistered_setBalance]
  by_cases ha : account = a
  · rw [← ha, h, Bool.or_true]
  · rw [decide_eq_false ha, Bool.false_or]

theorem isRegistered_of_burn {account : String} {shares : Int}
    (h : burn account shares l = .ok () l') (a : String) :
    l'.isRegistered a = l.isRegistered a := by
  obtain ⟨-, hle, ⟨-, rfl⟩ | ⟨hpos, rfl⟩⟩ := burn_eq_ok_iff.1 h
  · rfl
  · have hreg : l.isRegistered account = true := by
      by_contra hn
      have := balanceOf_eq_zero_of_not_registered (Bool.not_eq_true _ ▸ hn)
      omega
    exact isRegistered_setBalance_of hreg _ a

theorem isRegistered_of_mint {account : String} {shares : Int}
    (h : mint account shares l = .ok () l') (a : String) :
    l'.isRegistered a = l.isRegistered a := by
  obtain ⟨-, rfl⟩ | ⟨-, hreg, rfl⟩ := mint_eq_ok_iff.1 h
  · rfl
  · exact isRegistered_setBalance_of hreg _ a

theorem requireRecipients_eq_ok_iff {u : Unit} :
    l.requireRegistered ((mints.filter fun m => 0 < m.2).map Prod.fst) = .ok u ↔
      ∀ m ∈ mints, 0 < m.2 → l.isRegistered m.1 = true := by
  cases u
  rw [requireRegistered_eq_ok_iff]
  simp only [List.forall_mem_map, List.mem_filter, decide_eq_true_eq, and_imp]

theorem settle_eq_ok_iff : settle mints burns l = .ok () l' ↔
    (∀ m ∈ mints, 0 < m.2 → l.isRegistered m.1 = true) ∧
      ∃ t, burns.forM (fun b => burn b.1 b.2) l = .ok () t ∧
        mints.forM (fun m => mint m.1 m.2) t = .ok () l' := by
  rw [← requireRecipients_eq_ok_iff (u := ())]
  simp [settle]

theorem settle_burn_iff {account : String} {shares : Int} :
    settle [] [(account, shares)] l = .ok () l' ↔ burn account shares l = .ok () l' := by
  rw [settle_eq_ok_iff]
  simp [-List.forM_eq_forM]

theorem settle_mint_iff {account : String} {shares : Int} :
    settle [(account, shares)] [] l = .ok () l' ↔ mint account shares l = .ok () l' := by
  have hreg (h : mint account shares l = .ok () l') :
      0 < shares → l.isRegistered account = true := by
    obtain ⟨rfl, -⟩ | ⟨-, hreg, -⟩ := mint_eq_ok_iff.1 h
    · exact fun h => absurd h (lt_irrefl 0)
    · exact fun _ => hreg
  rw [settle_eq_ok_iff]
  simpa [-List.forM_eq_forM] using hreg

theorem Balanced.settle (h : l.Balanced) (hs : settle mints burns l = .ok () l') :
    l'.Balanced := by
  obtain ⟨-, t, hb, hm⟩ := settle_eq_ok_iff.1 hs
  have ht : t.Balanced := Action.forM_keeps (fun _ _ _ => Balanced.burn) h hb
  exact Action.forM_keeps (fun _ _ _ => Balanced.mint) ht hm

/-! ### The supply -/

theorem totalSupply_of_burn {account : String} {shares : Int}
    (h : burn account shares l = .ok () l') : l'.totalSupply + shares = l.totalSupply := by
  obtain ⟨-, -, ⟨rfl, rfl⟩ | ⟨-, rfl⟩⟩ := burn_eq_ok_iff.1 h
  · exact Int.add_zero _
  · exact Int.sub_add_cancel _ _

theorem totalSupply_of_mint {account : String} {shares : Int}
    (h : mint account shares l = .ok () l') : l'.totalSupply = l.totalSupply + shares := by
  obtain ⟨rfl, rfl⟩ | ⟨-, -, rfl⟩ := mint_eq_ok_iff.1 h
  · exact (Int.add_zero _).symm
  · rfl

theorem totalSupply_of_burns (h : burns.forM (fun b => burn b.1 b.2) l = .ok () l') :
    l'.totalSupply + total (burns.map Prod.snd) = l.totalSupply := by
  induction burns generalizing l with
  | nil =>
    simp only [Action.forM_nil_apply, EStateM.Result.ok.injEq, true_and] at h
    simp [h]
  | cons b burns ih =>
    obtain ⟨t, hb, h⟩ := Action.forM_cons_eq_ok_iff.1 h
    have h1 := totalSupply_of_burn hb
    have h2 := ih h
    rw [List.map_cons, total_cons]
    omega

theorem totalSupply_of_mints (h : mints.forM (fun m => mint m.1 m.2) l = .ok () l') :
    l'.totalSupply = l.totalSupply + total (mints.map Prod.snd) := by
  induction mints generalizing l with
  | nil =>
    simp only [Action.forM_nil_apply, EStateM.Result.ok.injEq, true_and] at h
    simp [h]
  | cons m mints ih =>
    obtain ⟨t, hm, h⟩ := Action.forM_cons_eq_ok_iff.1 h
    have h1 := totalSupply_of_mint hm
    have h2 := ih h
    rw [List.map_cons, total_cons]
    omega

theorem totalSupply_of_settle (h : settle mints burns l = .ok () l') :
    l'.totalSupply + total (burns.map Prod.snd) =
      l.totalSupply + total (mints.map Prod.snd) := by
  obtain ⟨-, t, hb, hm⟩ := settle_eq_ok_iff.1 h
  have h1 := totalSupply_of_burns hb
  have h2 := totalSupply_of_mints hm
  omega

/-! ### Refusal at the first entry -/

/-- Only the first entry can be refused: what follows it is minted and not negative. -/
def Payable (mints burns : List (String × Int)) : Prop :=
  burns = [] ∧ (∀ m ∈ mints.tail, 0 ≤ m.2) ∨ (∃ b, burns = [b]) ∧ ∀ m ∈ mints, 0 ≤ m.2

theorem mints_succeed (h : ∀ m ∈ mints, 0 ≤ m.2 ∧ (0 < m.2 → l.isRegistered m.1 = true)) :
    ∃ l', mints.forM (fun m => mint m.1 m.2) l = .ok () l' := by
  induction mints generalizing l with
  | nil => exact ⟨l, rfl⟩
  | cons m mints ih =>
    rw [List.forall_mem_cons] at h
    obtain ⟨t, ht⟩ : ∃ t, mint m.1 m.2 l = .ok () t := by
      rcases Int.lt_or_eq_of_le h.1.1 with hp | h0
      · exact ⟨_, mint_eq_ok_iff.2 (.inr ⟨hp, h.1.2 hp, rfl⟩)⟩
      · exact ⟨l, mint_eq_ok_iff.2 (.inl ⟨h0.symm, rfl⟩)⟩
    obtain ⟨l', hl'⟩ := ih fun k hk => ⟨(h.2 k hk).1, fun hp =>
      (isRegistered_of_mint ht _).trans ((h.2 k hk).2 hp)⟩
    exact ⟨l', Action.forM_cons_eq_ok_iff.2 ⟨t, ht, hl'⟩⟩

/-- What is minted to accounts that are registered is settled. -/
theorem settle_of_registered
    (h : ∀ m ∈ mints, 0 ≤ m.2 ∧ (0 < m.2 → l.isRegistered m.1 = true)) :
    ∃ l', settle mints [] l = .ok () l' := by
  obtain ⟨l', hl'⟩ := mints_succeed h
  exact ⟨l', settle_eq_ok_iff.2 ⟨fun m hm => (h m hm).2, l, rfl, hl'⟩⟩

theorem mints_succeed_ne_error (h : ∀ m ∈ mints, 0 ≤ m.2 ∧ (0 < m.2 → l.isRegistered m.1 = true))
    (e : Fault) (t : Ledger) : mints.forM (fun m => mint m.1 m.2) l ≠ .error e t := by
  obtain ⟨l', hl'⟩ := mints_succeed h
  simp [hl']

theorem settle_failsInPlace (h : Payable mints burns) : (settle mints burns).FailsInPlace l := by
  unfold settle
  simp only [Action.failsInPlace_get_bind, Action.failsInPlace_lift_bind]
  intro _ hr
  rw [requireRecipients_eq_ok_iff] at hr
  rcases h with ⟨rfl, hm⟩ | ⟨⟨b, rfl⟩, hm⟩
  · rw [List.forM_eq_forM, List.forM_nil, pure_bind]
    cases mints with
    | nil => exact Action.failsInPlace_pure _
    | cons m rest =>
      rw [List.forall_mem_cons] at hr
      refine mint_failsInPlace.bind fun _ t ht => mints_succeed_ne_error fun k hk => ?_
      exact ⟨hm k hk, fun hp => (isRegistered_of_mint ht _).trans (hr.2 k hk hp)⟩
  · simp only [List.forM_eq_forM, List.forM_cons, List.forM_nil, bind_pure_unit]
    refine burn_failsInPlace.bind fun _ t ht => mints_succeed_ne_error fun k hk => ?_
    exact ⟨hm k hk, fun hp => (isRegistered_of_burn ht _).trans (hr k hk hp)⟩

/-- Where balances cover the burns and nothing negative is minted, only an account that is not
registered stands in the way. -/
theorem settle_cases (h : Payable mints burns) (hm : ∀ m ∈ mints, 0 ≤ m.2)
    (hb : ∀ b ∈ burns, 0 ≤ b.2 ∧ b.2 ≤ l.balanceOf b.1) :
    (∃ l', settle mints burns l = .ok () l') ∨
      ∃ a, settle mints burns l = .error (.unregistered a) l := by
  cases hr : l.requireRegistered ((mints.filter fun m => 0 < m.2).map Prod.fst) with
  | error e =>
    obtain ⟨a, rfl⟩ := requireRegistered_eq_error hr
    exact .inr ⟨a, by simp only [settle, Action.get_bind_apply, hr, Action.lift_error,
      Action.throw_bind, Action.throw_apply]⟩
  | ok =>
    have hreg := requireRecipients_eq_ok_iff.1 hr
    refine .inl ?_
    simp only [settle_eq_ok_iff]
    rcases h with ⟨rfl, -⟩ | ⟨⟨b, rfl⟩, -⟩
    · simpa only [settle_eq_ok_iff] using
        settle_of_registered fun m hmem => ⟨hm m hmem, hreg m hmem⟩
    · obtain ⟨h0, hle⟩ := hb b List.mem_cons_self
      obtain ⟨t, ht⟩ : ∃ t, burn b.1 b.2 l = .ok () t := by
        rcases Int.lt_or_eq_of_le h0 with hpos | hzero
        · exact ⟨_, burn_eq_ok_iff.2 ⟨h0, hle, .inr ⟨hpos, rfl⟩⟩⟩
        · exact ⟨l, burn_eq_ok_iff.2 ⟨h0, hle, .inl ⟨hzero.symm, rfl⟩⟩⟩
      obtain ⟨l', hl'⟩ := mints_succeed fun m hmem =>
        ⟨hm m hmem, fun hpos => (isRegistered_of_burn ht _).trans (hreg m hmem hpos)⟩
      exact ⟨l', hreg, t, Action.forM_cons_eq_ok_iff.2 ⟨t, ht, rfl⟩, hl'⟩

end Ledger

namespace Pool

@[simp] theorem onShares_eq_ok_iff {α : Type} {act : Action Ledger α} {a : α} {p p' : Pool} :
    onShares act p = .ok a p' ↔ ∃ l, act p.shares = .ok a l ∧ p' = { p with shares := l } := by
  unfold onShares Action.on
  cases act p.shares <;> simp [and_assoc, eq_comm]

theorem onShares_get : onShares get = (·.shares) <$> get := rfl

theorem onShares_lift {α : Type} (x : Except Fault α) : onShares (liftM x) = liftM x := by
  cases x <;> rfl

theorem onShares_bind {α β : Type} (act : Action Ledger α) (f : α → Action Ledger β) :
    onShares (act >>= f) = onShares act >>= fun a => onShares (f a) := by
  funext p
  simp only [onShares, Action.on, Action.bind_apply]
  cases act p.shares <;> rfl

theorem onShares_forM {α : Type} (f : α → Action Ledger Unit) (xs : List α) :
    onShares (xs.forM f) = xs.forM fun x => onShares (f x) := by
  induction xs with
  | nil => rfl
  | cons x xs ih =>
    simp only [List.forM_eq_forM, List.forM_cons, onShares_bind] at ih ⊢
    rw [ih]

theorem commit_eq (newAmounts : List Int) (mints burns : List (String × Int)) :
    commit newAmounts mints burns = (do
      onShares (Ledger.settle mints burns)
      modify ({ · with amounts := newAmounts })) := by
  simp only [commit, Ledger.settle, onShares_get, onShares_lift, onShares_bind, onShares_forM,
    bind_assoc, bind_map_left]

theorem commit_apply (newAmounts : List Int) (mints burns : List (String × Int)) (p : Pool) :
    commit newAmounts mints burns p = match Ledger.settle mints burns p.shares with
      | .ok _ l => .ok () { p with shares := l, amounts := newAmounts }
      | .error e l => .error e { p with shares := l } := by
  rw [commit_eq, Action.bind_apply]
  unfold onShares Action.on
  cases Ledger.settle mints burns p.shares <;> rfl

end Pool

theorem Volume.record_apply {vs : List Volume} {i j : Nat} (hi : i < vs.length)
    (hj : j < vs.length) (amountIn amountOut : Int) :
    Volume.record i amountIn j amountOut vs =
      .ok () ((vs.modify i (addInput amountIn)).modify j (addOutput amountOut)) := by
  have hj' : j < (vs.modify i (addInput amountIn)).length := by rwa [List.length_modify]
  simp only [Volume.record, Action.bind_apply, Action.get_apply, Action.lift_apply,
    Position.resolve_natCast hi, Action.ofExcept_ok, Action.modify_apply,
    Position.resolve_natCast hj']

/-- What came in at one place and went out at another. -/
structure Trade where
  i : Nat
  amountIn : Int
  j : Nat
  amountOut : Int

/-- All that an operation writes. -/
structure Settlement where
  newAmounts : List Int
  mints : List (String × Int)
  burns : List (String × Int)
  trade : Option Trade

namespace Settlement

variable {s : Settlement} {p p' : Pool}

def write (s : Settlement) : Action Pool Unit := do
  Pool.commit s.newAmounts s.mints s.burns
  match s.trade with
  | some t => Pool.onVolumes (Volume.record t.i t.amountIn t.j t.amountOut)
  | none => pure ()

/-- The counters after the trade. -/
def counted (s : Settlement) (vs : List Volume) : List Volume :=
  match s.trade with
  | some t => (vs.modify t.i (Volume.addInput t.amountIn)).modify t.j (Volume.addOutput t.amountOut)
  | none => vs

/-- A reserve for every token and none negative, a ledger part that can be refused at its first
entry only, and a trade between places of the pool. -/
structure Fits (s : Settlement) (p : Pool) : Prop where
  amounts_length : s.newAmounts.length = p.tokens.length
  amounts_nonneg : ∀ a ∈ s.newAmounts, 0 ≤ a
  payable : Ledger.Payable s.mints s.burns
  places : ∀ t, s.trade = some t → t.i < p.tokens.length ∧ t.j < p.tokens.length

/-- The pool after a settlement that left the ledger `l`. -/
def outcome (s : Settlement) (l : Ledger) (p : Pool) : Pool :=
  { p with shares := l, amounts := s.newAmounts, volumes := s.counted p.volumes }

theorem length_counted (s : Settlement) (vs : List Volume) : (s.counted vs).length = vs.length := by
  unfold counted
  cases s.trade with
  | none => rfl
  | some t => simp only [List.length_modify]

theorem write_apply (hp : p.Admissible) (hs : s.Fits p) :
    s.write p = match Ledger.settle s.mints s.burns p.shares with
      | .ok _ l => .ok () (s.outcome l p)
      | .error e l => .error e { p with shares := l } := by
  obtain ⟨newAmounts, mints, burns, trade⟩ := s
  rw [write, Action.bind_apply, Pool.commit_apply]
  cases Ledger.settle mints burns p.shares with
  | error e l => rfl
  | ok u l =>
    cases trade with
    | none => rfl
    | some t =>
      obtain ⟨hi, hj⟩ := hs.places t rfl
      rw [← hp.volumes_length] at hi hj
      simp only [Pool.onVolumes, Action.on, Volume.record_apply hi hj, outcome, counted]

theorem write_eq_ok_iff (hp : p.Admissible) (hs : s.Fits p) : s.write p = .ok () p' ↔
    ∃ l, Ledger.settle s.mints s.burns p.shares = .ok () l ∧ p' = s.outcome l p := by
  rw [write_apply hp hs]
  cases Ledger.settle s.mints s.burns p.shares <;> simp [eq_comm]

theorem write_failsInPlace (hp : p.Admissible) (hs : s.Fits p) : s.write.FailsInPlace p := by
  intro e p' h
  rw [write_apply hp hs] at h
  cases hl : Ledger.settle s.mints s.burns p.shares with
  | ok u l => simp [hl] at h
  | error e' l =>
    simp only [hl, EStateM.Result.error.injEq] at h
    rw [← h.2, Ledger.settle_failsInPlace hs.payable e' l hl]

/-- What the balances and counters of a pool can take: nothing negative is minted, burned or
counted, and no account burns more than it holds. -/
structure Covered (s : Settlement) (p : Pool) : Prop where
  mints_nonneg : ∀ m ∈ s.mints, 0 ≤ m.2
  burns_le : ∀ b ∈ s.burns, 0 ≤ b.2 ∧ b.2 ≤ p.shares.balanceOf b.1
  trade_nonneg : ∀ t, s.trade = some t → 0 ≤ t.amountIn ∧ 0 ≤ t.amountOut

/-- A settlement that is covered is written, unless it credits an account that is not
registered. -/
theorem write_cases (hp : p.Admissible) (hs : s.Fits p) (hc : s.Covered p) :
    (∃ p', s.write p = .ok () p') ∨ ∃ a, s.write p = .error (.unregistered a) p := by
  rw [write_apply hp hs]
  obtain ⟨l, hl⟩ | ⟨a, ha⟩ := Ledger.settle_cases hs.payable hc.mints_nonneg hc.burns_le
  · exact .inl ⟨_, by rw [hl]⟩
  · exact .inr ⟨a, by rw [ha]⟩

theorem outcome_admissible (hp : p.Admissible) (hs : s.Fits p) (l : Ledger) :
    (s.outcome l p).Admissible :=
  { hp with
    amounts_length := hs.amounts_length
    amounts_nonneg := hs.amounts_nonneg
    volumes_length := (s.length_counted p.volumes).trans hp.volumes_length }

end Settlement

end SwapPool
