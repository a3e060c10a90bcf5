import SwapPool.Proofs.Pool.Coverage
import SwapPool.Proofs.Pool.Runs
import SwapPool.Proofs.Stable.Swap

/-! What a pool owes. A record may be loaded that hands out more shares than there
are, and then they can all be withdrawn: the supply falls below zero, but only as
the last reserve is paid out. So a pool with a negative supply is empty, and every
quote of it fails. -/

namespace SwapPool

namespace Pool

open StableInvariant (calcD)

variable {p p' : Pool} {c : StableCurve} {sender tokenIn tokenOut : String} {amounts : List Int}
  {fees : AdminFees} {limits : Limits} {reply : Reply}

/-- Where the supply is negative, nothing is left of any token. -/
def Solvent (p : Pool) : Prop := p.shares.totalSupply < 0 → ∀ r ∈ p.amounts, r = 0

theorem Solvent.of_nonneg (h : 0 ≤ p.shares.totalSupply) : p.Solvent :=
  fun hlt => absurd hlt (not_lt.2 h)

theorem Created.solvent (h : p.Created) : p.Solvent := .of_nonneg h.balanced.totalSupply_nonneg

theorem Loaded.solvent (h : p.Loaded) : p.Solvent := by
  obtain ⟨_, _, _, _, hl⟩ := h
  exact .of_nonneg (loadPool_eq_ok hl).1.supply_nonneg

/-! ### An empty pool quotes nothing -/

theorem Solvent.supply_nonneg (h : p.Solvent) (hr : ∃ r ∈ p.amounts, 0 < r) :
    0 ≤ p.shares.totalSupply := by
  obtain ⟨r, hr, hpos⟩ := hr
  by_contra hlt
  have := h (not_le.1 hlt) r hr
  omega

theorem exists_mem_amounts (hp : p.Admissible) : ∃ r, r ∈ p.amounts :=
  List.exists_mem_of_ne_nil _ hp.amounts_ne_nil

theorem calcD_of_empty (h : ∀ r ∈ p.amounts, r = 0) (amp : Int) (units : List Int)
    (config : Config) : calcD amp (comparables units p.amounts) config = .ok 0 := by
  have hzero : total (comparables units p.amounts) = 0 := by
    refine total_eq_zero fun b hb => ?_
    obtain ⟨u, -, r, hr, rfl⟩ := exists_of_mem_zipWith hb
    rw [h r hr, toComparable, mul_zero, Int.zero_fdiv]
  rw [calcD, if_pos hzero]

theorem Solvent.of_deposit (h : p.Solvent) (hp : p.Admissible) {kept : Deposit}
    (hk : p.deposit amounts = .ok kept) : 0 ≤ p.shares.totalSupply := by
  obtain ⟨-, ⟨h0, -⟩ | ⟨-, hpos, -⟩⟩ := deposit_eq_ok_iff.1 hk
  · exact h0.ge
  · obtain ⟨r, hr⟩ := exists_mem_amounts hp
    exact h.supply_nonneg ⟨r, hr, hpos r hr⟩

theorem Solvent.of_quoteDeposit (h : p.Solvent) {rates : Option (List Int)} {q : Quote}
    (hq : p.quoteDeposit c amounts fees rates = .ok q) : 0 ≤ p.shares.totalSupply := by
  by_contra hlt
  obtain ⟨applied, -, d₀, _, _, hsteps⟩ := quoteDeposit_steps hq (by omega)
  have hempty := calcD_of_empty (h (not_le.1 hlt)) c.amp (c.units applied) p.config
  exact hsteps.before_ne (Except.ok.inj (hsteps.before.symm.trans hempty))

theorem Solvent.of_quoteWithdrawal (h : p.Solvent) {rates : Option (List Int)} {q : Quote}
    (hq : p.quoteWithdrawal c amounts fees rates = .ok q) : 0 ≤ p.shares.totalSupply := by
  by_contra hlt
  obtain ⟨applied, -, d₀, _, _, hsteps⟩ := quoteWithdrawal_steps hq
  have hempty := calcD_of_empty (h (not_le.1 hlt)) c.amp (c.units applied) p.config
  exact hsteps.before_ne (Except.ok.inj (hsteps.before.symm.trans hempty))

/-- A swap that is answered finds something to swap against. -/
theorem reserve_of_curveSwap (hp : p.Admissible) {x minimum : Int} {i j : Nat} {q : Quote}
    (hq : p.curveSwap tokenIn x tokenOut minimum fees = .ok (i, j, q)) :
    ∃ r ∈ p.amounts, 0 < r := by
  obtain ⟨-, hq⟩ | ⟨c, hc, hq⟩ := curveSwap_cases hq
  · obtain ⟨-, hx, -, hout, -⟩ := quoteProductSwap_eq_ok hq
    obtain ⟨hpos, -⟩ := ConstantProduct.amountOut_eq_ok hx hout
    exact ⟨_, mem_of_getD_pos hpos, hpos⟩
  · obtain ⟨-, -, -, _, _, _, hsteps⟩ := quoteStableSwap_eq_ok hq
    obtain ⟨hlen, hunits⟩ := units_facts hp hc
    obtain ⟨r, hr⟩ := exists_mem_amounts hp
    exact ⟨r, hr, pos_of_comparables hlen hunits hsteps.reserves_pos r hr⟩

theorem reserve_of_quoteProductSwapByOutput {y : Int} {maximum : Option Int} {i j : Nat} {q : Quote}
    (hq : p.quoteProductSwapByOutput tokenIn y tokenOut maximum fees = .ok (i, j, q)) :
    ∃ r ∈ p.amounts, 0 < r := by
  obtain ⟨-, hy, -, hin, -⟩ := quoteProductSwapByOutput_eq_ok hq
  obtain ⟨hpos, -⟩ := ConstantProduct.amountIn_eq_ok hy hin
  exact ⟨_, mem_of_getD_pos hpos, hpos⟩

/-! ### One command -/

/-- A withdrawal by tokens burns no more than the supply. -/
theorem WithdrawalSteps.value_le_supply {units : List Int} {q : Quote} {d₀ d₁ d₂ : Int}
    (h : p.WithdrawalSteps c units amounts fees q d₀ d₁ d₂) (ha : 1 ≤ c.amp)
    (hs : 0 ≤ p.shares.totalSupply) : q.value ≤ p.shares.totalSupply := by
  obtain ⟨adjusted, -, hd₂⟩ := h.charged
  have h0 : 0 < d₀ := h.before_pos ha
  have h2 : 0 ≤ d₂ := StableInvariant.nonneg_of_calcD ha hd₂
  have hneg : -p.shares.totalSupply ≤ (-(p.shares.totalSupply * (d₀ - d₂))).fdiv d₀ := by
    rw [le_fdiv_iff h0, neg_mul, neg_le_neg_iff]
    exact mul_le_mul_of_nonneg_left (by omega) hs
  rw [h.value_eq, Checked.ceiling]
  omega

theorem supply_ne_of_withdrawal (hp : p.Admissible) {shares : Int} {minimums paid : List Int}
    (h : p.withdrawal sender shares minimums = .ok paid) : p.shares.totalSupply ≠ 0 := by
  simp only [withdrawal, bind_eq_ok_iff, exists_unit_iff, throw_eq_error, error_bind,
    unless_eq_ok_iff] at h
  obtain ⟨-, -, -, amounts, ha, -⟩ := h
  obtain ⟨r, hr⟩ := exists_mem_amounts hp
  obtain ⟨k, hk, -⟩ := List.mem_iff_getElem.1 hr
  have hquot := (List.forall₂_iff_get.1 (mapM_eq_ok_iff.1 ha)).2 k hk
  exact (Checked.quot_eq_ok_iff.1 (hquot (by rwa [← (mapM_eq_ok_iff.1 ha).length_eq]))).1

/-- More shares than there are take all of every token. -/
theorem empty_of_overdrawn (hp : p.Admissible) (h : p.Solvent) {shares : Int}
    {minimums paid left : List Int} (hpaid : p.withdrawal sender shares minimums = .ok paid)
    (hleft : ((p.amounts.zip paid).mapM fun (r, a) => Checked.sub r a) = .ok left)
    (hlt : p.shares.totalSupply < shares) : ∀ r ∈ left, r = 0 := by
  have hne : p.shares.totalSupply ≠ 0 := supply_ne_of_withdrawal hp hpaid
  obtain ⟨hshares, -, rfl⟩ := withdrawal_eq_ok hpaid
  obtain ⟨rfl, hnonneg⟩ := subs_eq_ok hleft
  rw [List.zipWith_map_right, List.zipWith_self] at hnonneg ⊢
  intro z hz
  have hz0 := hnonneg z hz
  obtain ⟨r, hr, rfl⟩ := List.mem_map.1 hz
  rcases lt_or_gt_of_ne hne with hneg | hpos
  · rw [h hneg r hr, zero_mul, Int.zero_fdiv, sub_zero]
  · have hall : r ≤ (r * shares).fdiv p.shares.totalSupply :=
      (le_fdiv_iff hpos).2 (mul_le_mul_of_nonneg_left hlt.le (hp.amounts_nonneg r hr))
    omega

/-- A settlement that mints nothing negative and burns no more than the supply leaves no debt. -/
theorem solvent_of_settled {s : Settlement} {l : Ledger}
    (hl : Ledger.settle s.mints s.burns p.shares = .ok () l) (hm : ∀ m ∈ s.mints, 0 ≤ m.2)
    (hb : total (s.burns.map Prod.snd) ≤ p.shares.totalSupply) : (s.outcome l p).Solvent := by
  have hsupply := Ledger.totalSupply_of_settle hl
  have hminted : 0 ≤ total (s.mints.map Prod.snd) := total_map_nonneg hm
  exact .of_nonneg (show 0 ≤ l.totalSupply by omega)

/-- No settlement mints a negative number of shares. -/
theorem Solvent.mints_nonneg (h : p.Solvent) (hp : p.Admissible) {c : Command} {s : Settlement}
    (hsettles : Command.Settles p c s) : ∀ m ∈ s.mints, 0 ≤ m.2 := by
  cases hsettles with
  | deposit _ hk => simpa using (deposit_shares_pos (h.of_deposit hp hk) hk).le
  | stableDeposit hcurve hq =>
    have hv := quoteDeposit_value_pos (hp.curve _ hcurve).minAmp_le (h.of_quoteDeposit hq) hq
    exact List.forall_mem_cons.2 ⟨hv.le, fun m hmem => ((quoteDeposit_eq_ok hq).2.2 m hmem).le⟩
  | withdrawal => simp
  | stableWithdrawal _ hq => exact fun m hmem => ((quoteWithdrawal_eq_ok hq).2.2 m hmem).le
  | swap hq => exact (covered_of_curveSwap hp hq).mints_nonneg
  | swapByOutput _ hq =>
    obtain ⟨-, -, -, -, -, hg⟩ := quoteProductSwapByOutput_eq_ok hq
    exact fun m hmem => ((growthMints_eq_ok hg).1 m hmem).le

theorem solvent_of_run (hp : p.Admissible) (h : p.Solvent) {c : Command}
    (hr : c.run limits p = .ok reply p') : p'.Solvent := by
  cases hc : c.plan? p with
  | none =>
    obtain ⟨ha, -, hs⟩ := Command.unplanned_keeps hc hr
    intro hlt
    rw [ha]
    exact h (hs ▸ hlt)
  | some plan =>
    obtain ⟨pl, hpl, -, ⟨-, rfl⟩ | ⟨-, s, l, hset, -, hl, rfl⟩⟩ := Command.planned_eq_ok hp hc hr
    · exact h
    · have hsettles := Command.settles_of_plan? hc hpl hset
      have hm := h.mints_nonneg hp hsettles
      cases hsettles with
      | deposit _ hk => exact solvent_of_settled hl hm (h.of_deposit hp hk)
      | stableDeposit _ hq => exact solvent_of_settled hl hm (h.of_quoteDeposit hq)
      | withdrawal hpaid hleft =>
        have hsupply := Ledger.totalSupply_of_settle hl
        simp only [List.map_nil, total_nil, List.map_cons, total_cons] at hsupply
        intro (hlt : l.totalSupply < 0)
        exact empty_of_overdrawn hp h hpaid hleft (by omega)
      | stableWithdrawal hcurve hq =>
        have h0 := h.of_quoteWithdrawal hq
        obtain ⟨_, -, _, _, _, hsteps⟩ := quoteWithdrawal_steps hq
        have hle := hsteps.value_le_supply (hp.curve _ hcurve).minAmp_le h0
        exact solvent_of_settled hl hm (by simpa using hle)
      | swap hq => exact solvent_of_settled hl hm (h.supply_nonneg (reserve_of_curveSwap hp hq))
      | swapByOutput _ hq =>
        exact solvent_of_settled hl hm (h.supply_nonneg (reserve_of_quoteProductSwapByOutput hq))

/-! ### A run -/

theorem solvent_after (hp : p.Admissible) (h : p.Solvent) (calls : List Call) :
    (p.after calls).Solvent := by
  induction calls generalizing p with
  | nil => exact h
  | cons call calls ih =>
    have hcall : (call.after p).Solvent := by
      obtain ⟨_, hok⟩ | hsame := after_call_cases hp call
      · exact solvent_of_run hp h hok
      · rwa [hsame]
    exact ih (hp.after_call call) hcall

end Pool

end SwapPool
