import Mathlib.Data.List.Induction
import SwapPool.Proofs.Pool.Solvency
import SwapPool.Proofs.Stable.Withdrawal

/-! Where the last share goes. Shares that are redeemed take their part of every
reserve, so the last one takes the rest. A withdrawal by tokens takes what it was
asked for, and never all of a reserve; its burn is rounded up, and where a share
is worth more than what is taken it can come to every share there is. What stays
in the pool then belongs to nobody, and to whoever deposits next. -/

namespace SwapPool

namespace Pool

variable {p p' : Pool} {call : Call}

/-- A withdrawal by tokens in which the holder of all shares burns all of them, for the invariant
that is left, less the fee, is worth less than one share, and something of every token is left. -/
structure BurnsOut (p : Pool) (call : Call) : Prop where
  withdrawal : ∃ sender amounts maxBurn fees,
    call.command = .removeLiquidityByTokens sender amounts maxBurn fees false ∧
      p.shares.balanceOf sender = p.shares.totalSupply ∧
      removeLiquidityByTokens sender amounts maxBurn fees false p =
        .ok p.shares.totalSupply (call.after p)
  supply_pos : 0 < p.shares.totalSupply
  worth_lt : ∃ c d₀ d₂, p.curve = .stable c ∧ p.invariant c = .ok d₀ ∧
    p.chargedInvariant (call.after p) c = .ok d₂ ∧ d₂ * p.shares.totalSupply < d₀
  reserves_pos : ∀ r ∈ (call.after p).amounts, 0 < r

/-- In the course of the calls the shares were burned out, and since then there were none. -/
def BurnedOut (p : Pool) (calls : List Call) : Prop :=
  ∃ pre call post, calls = pre ++ call :: post ∧ (p.after pre).BurnsOut call ∧
    ∀ mid, mid <+: post → (p.after (pre ++ call :: mid)).shares.totalSupply = 0

/-! ### One call -/

theorem WithdrawalSteps.worth_lt {c : StableCurve} {units amounts : List Int} {fees : AdminFees}
    {q : Quote} {d₀ d₁ d₂ : Int} (h : p.WithdrawalSteps c units amounts fees q d₀ d₁ d₂)
    (ha : 1 ≤ c.amp) (hall : q.value = p.shares.totalSupply) : d₂ * p.shares.totalSupply < d₀ := by
  have hburn : q.value * d₀ < p.shares.totalSupply * (d₀ - d₂) + d₀ := by
    rw [h.value_eq]
    exact Checked.ceiling_mul_lt _ (h.before_pos ha)
  rw [hall] at hburn
  linarith

theorem burnsOut_of_withdrawal (hp : p.Admissible) (hl : p.shares.Balanced) {sender : String}
    {amounts : List Int} {maxBurn burned : Int} {fees : AdminFees}
    (hcall : call.command = .removeLiquidityByTokens sender amounts maxBurn fees false)
    (h : removeLiquidityByTokens sender amounts maxBurn fees false p = .ok burned (call.after p))
    (h0 : (call.after p).shares.totalSupply = 0) : p.BurnsOut call := by
  obtain ⟨c, q, l, hc, hq, rfl, hle, hsettle, hout⟩ := Command.stableWithdrawal_settled hp h
  obtain ⟨_, ⟨⟩, d₀, d₁, d₂, hsteps⟩ := quoteWithdrawal_steps hq
  have hpart := hl.balanceOf_le sender
  have hall : q.value = p.shares.totalSupply := by
    have hburned := Ledger.totalSupply_of_settle hsettle
    have hminted : 0 ≤ total (q.adminMints.map Prod.snd) :=
      total_map_nonneg fun m hm => ((quoteWithdrawal_eq_ok hq).2.2 m hm).le
    rw [hout] at h0
    change l.totalSupply = 0 at h0
    simp only [List.map_cons, List.map_nil, total_cons, total_nil] at hburned
    omega
  exact
    { withdrawal := ⟨sender, amounts, maxBurn, fees, hcall, by omega, hall ▸ h⟩
      supply_pos := hsteps.supply_pos hl
      worth_lt := by
        rw [hout]
        exact ⟨c, d₀, d₂, hc, hsteps.before, hsteps.chargedInvariant_eq,
          hsteps.worth_lt (one_le_amp hp hc) hall⟩
      reserves_pos := by
        rw [hout]
        exact pos_of_quoteWithdrawal hp hq }

theorem emptied_of_settled (hp : p.Admissible) (hl : p.shares.Balanced) (hb : p.Backed)
    {c : Command} {s : Settlement} {l : Ledger} (h : Command.Settles p c s)
    (hledger : Ledger.settle s.mints s.burns p.shares = .ok () l) (h0 : l.totalSupply = 0) :
    (∀ r ∈ s.newAmounts, r = 0) ∨ (p.shares.totalSupply = 0 ∧ ∃ r ∈ p.amounts, 0 < r) ∨
      ∃ sender amounts maxBurn fees simulate,
        c = .removeLiquidityByTokens sender amounts maxBurn fees simulate := by
  have hs := hl.totalSupply_nonneg
  have hmints := (h.covered hp hl).mints_nonneg
  have hsupply := Ledger.totalSupply_of_settle hledger
  rw [h0, zero_add] at hsupply
  have hnone (hburns : s.burns = []) : p.shares.totalSupply = 0 := by
    have hminted := total_map_nonneg hmints
    rw [hburns, List.map_nil, total_nil] at hsupply
    omega
  cases h with
  | deposit _ hk =>
    have hpos := deposit_shares_pos hs hk
    simp only [List.map_cons, List.map_nil, total_cons, total_nil] at hsupply
    omega
  | stableDeposit hcurve hq =>
    have hpos := quoteDeposit_value_pos (hp.curve _ hcurve).minAmp_le hs hq
    have hadmin := total_map_nonneg (List.forall_mem_cons.1 hmints).2
    simp only [List.map_cons, List.map_nil, total_cons, total_nil] at hsupply
    omega
  | withdrawal hpaid hleft =>
    obtain ⟨hshares, -⟩ := withdrawal_eq_ok hpaid
    simp only [List.map_cons, List.map_nil, total_cons, total_nil, add_zero] at hsupply
    have hreserves := hb.reserves_pos (hsupply ▸ hshares)
    exact .inl ((left_of_withdrawal hpaid hleft hreserves).2 hsupply)
  | stableWithdrawal => exact .inr (.inr ⟨_, _, _, _, _, rfl⟩)
  | swap hq => exact .inr (.inl ⟨hnone rfl, reserve_of_curveSwap hp hq⟩)
  | swapByOutput _ hq =>
    exact .inr (.inl ⟨hnone rfl, reserve_of_quoteProductSwapByOutput hq⟩)

theorem last_share_cases (hp : p.Admissible) (hl : p.shares.Balanced) (hb : p.Backed) (call : Call)
    (h0 : (call.after p).shares.totalSupply = 0) : (∀ r ∈ (call.after p).amounts, r = 0) ∨
      (p.shares.totalSupply = 0 ∧ ∃ r ∈ p.amounts, 0 < r) ∨ p.BurnsOut call := by
  have hkept (ha : (call.after p).amounts = p.amounts)
      (hs : (call.after p).shares.totalSupply = p.shares.totalSupply) :
      (∀ r ∈ (call.after p).amounts, r = 0) ∨
        (p.shares.totalSupply = 0 ∧ ∃ r ∈ p.amounts, 0 < r) ∨ p.BurnsOut call := by
    rw [ha]
    by_cases hz : ∀ r ∈ p.amounts, r = 0
    · exact .inl hz
    · obtain ⟨r, hr, hne⟩ : ∃ r ∈ p.amounts, r ≠ 0 := by simpa using hz
      exact .inr (.inl ⟨hs.symm.trans h0, r, hr, lt_of_le_of_ne (hp.amounts_nonneg r hr) hne.symm⟩)
  obtain ⟨reply, hr⟩ | hsame := after_call_cases hp call
  · cases hc : call.command.plan? p with
    | none =>
      obtain ⟨ha, -, hs⟩ := Command.unplanned_keeps hc hr
      exact hkept ha hs
    | some plan =>
      obtain ⟨pl, hpl, -, ⟨-, hsame⟩ | ⟨hsim, s, l, hset, -, hledger, hout⟩⟩ :=
        Command.planned_eq_ok hp hc hr
      · exact hkept (by rw [hsame]) (by rw [hsame])
      · have hl0 : l.totalSupply = 0 := by
          rw [hout] at h0
          exact h0
        obtain hempty | hbefore | ⟨sender, amounts, maxBurn, fees, simulate, hcommand⟩ :=
          emptied_of_settled hp hl hb (Command.settles_of_plan? hc hpl hset) hledger hl0
        · left
          rw [hout]
          exact hempty
        · exact .inr (.inl hbefore)
        · rw [hcommand] at hr hsim
          obtain rfl : simulate = false := hsim
          obtain ⟨burned, h, -⟩ := Action.map_eq_ok_iff.1 hr
          exact .inr (.inr (burnsOut_of_withdrawal hp hl hcommand h h0))
  · exact hkept (by rw [hsame]) (by rw [hsame])

/-! ### A run -/

/-- In every pool of a run from a new one: if there are no shares, there is nothing of any token, or
the shares were burned out by a withdrawal by tokens, and there have been none since. -/
theorem emptied_or_burned_out {p : Pool} (start : p.Created) (calls : List Call)
    (h : (p.after calls).shares.totalSupply = 0) :
    (∀ r ∈ (p.after calls).amounts, r = 0) ∨ p.BurnedOut calls := by
  induction calls using List.reverseRecOn with
  | nil => exact .inl start.empty.2
  | append_singleton calls call ih =>
    have hafter : p.after (calls ++ [call]) = call.after (p.after calls) :=
      after_append calls [call] p
    rw [hafter] at h ⊢
    obtain hempty | ⟨hnone, r, hr, hpos⟩ | hburn := last_share_cases (start.admissible.after calls)
      (balanced_after start.admissible start.balanced calls) (start.backed_after calls) call h
    · exact .inl hempty
    · right
      obtain hempty | ⟨pre, first, post, rfl, hburn, hsince⟩ := ih hnone
      · exact absurd (hempty r hr) hpos.ne'
      · refine ⟨pre, first, post ++ [call], by simp, hburn, fun mid hmid => ?_⟩
        obtain rfl | hmid := List.prefix_concat_iff.1 hmid
        · rw [← List.cons_append, ← List.append_assoc, hafter]
          exact h
        · exact hsince mid hmid
    · refine .inr ⟨calls, call, [], rfl, hburn, fun mid hmid => ?_⟩
      obtain rfl := List.prefix_nil.1 hmid
      rw [hafter]
      exact h

/-- Fresher rates make one share worth a thousand units, and one unit taken burns it. What stays can
still be traded, for nobody's account. -/
theorem emptied_or_burned_out_fresher_rates :
    let c : StableCurve := ⟨[24, 24], 100, .rated [Int.pow 10 21, Int.pow 10 21]⟩
    let p : Pool := ⟨["x", "y"], [0, 0], 30, .empty, [.zero, .zero], .standard, .stable c⟩
    let calls : List Call :=
      [⟨∅, .register "lp"⟩, ⟨∅, .addStableLiquidity "lp" [80000, 80000] 0 .none false none⟩,
        ⟨∅, .removeLiquidity "lp" 159 [0, 0] false⟩,
        ⟨∅, .updateRates (some [Int.pow 10 24, Int.pow 10 24])⟩,
        ⟨∅, .removeLiquidityByTokens "lp" [1, 0] 1 .none false⟩,
        ⟨∅, .swap "x" 100 "y" 0 .none false none⟩]
    (p.after calls).amounts = [599, 402] ∧ p.BurnedOut calls := by
  intro c p calls
  have start : p.Created := ⟨["x", "y"], 30, .stable c, .standard, by rfl⟩
  have hleft : (p.after calls).amounts = [599, 402] := by decide +kernel
  have hnone : (p.after calls).shares.totalSupply = 0 := by decide +kernel
  obtain hempty | hburned := emptied_or_burned_out start calls hnone
  · rw [hleft] at hempty
    exact absurd (hempty 599 (by decide)) (by decide)
  · exact ⟨hleft, hburned⟩

/-- One share is left for two units and one; taking a unit burns it, and the others stay. -/
theorem tokens_left_without_shares :
    let c : StableCurve := ⟨[18, 18], 1, .pegged⟩
    let p : Pool := ⟨["x", "y"], [0, 0], 0, .empty, [.zero, .zero], .standard, .stable c⟩
    let q := p.after
      [⟨∅, .register "lp"⟩, ⟨∅, .addStableLiquidity "lp" [8, 1] 0 .none false none⟩,
        ⟨∅, .removeLiquidity "lp" 6 [0, 0] false⟩]
    let withdrawal := removeLiquidityByTokens "lp" [1, 0] 1 .none false
    p.Created ∧ q.amounts = [2, 1] ∧ q.shares.totalSupply = 1 ∧
      withdrawal q = .ok 1 (withdrawal.after q) ∧
      (withdrawal.after q).shares.totalSupply = 0 ∧ (withdrawal.after q).amounts = [1, 1] := by
  intro c p q withdrawal
  have start : p.Created := ⟨["x", "y"], 0, .stable c, .standard, by rfl⟩
  have hanswer : withdrawal.answer? q = some 1 := by decide +kernel
  exact ⟨start, by decide +kernel, by decide +kernel, Action.eq_ok_of_answer? hanswer,
    by decide +kernel, by decide +kernel⟩

end Pool

end SwapPool
