import SwapPool.Proofs.ConstantProduct.Value
import SwapPool.Proofs.Pool.Coverage
import SwapPool.Proofs.Stable.Swap

/-! Shares are backed. While there are shares, there is something of every token,
down to the last share that is left; and where the last share of a
constant-product pool is withdrawn, so is the last unit of every token. A pool
that was loaded may start otherwise, so the runs here start at a new one. -/

namespace SwapPool

namespace Pool

variable {p p' : Pool} {c : StableCurve} {limits : Limits} {reply : Reply} {amounts : List Int}

/-- No reserve is empty while there are shares, and on the constant-product curve every reserve
is empty while there are none. -/
structure Backed (p : Pool) : Prop where
  reserves_pos : 0 < p.shares.totalSupply → ∀ r ∈ p.amounts, 0 < r
  reserves_zero : p.curve = .constantProduct → p.shares.totalSupply = 0 → ∀ r ∈ p.amounts, r = 0

theorem Backed.of_pos (h : ∀ r ∈ p.amounts, 0 < r)
    (hs : p.curve = .constantProduct → 0 < p.shares.totalSupply) : p.Backed where
  reserves_pos _ := h
  reserves_zero hc h0 := absurd h0 (hs hc).ne'

theorem Created.empty (h : p.Created) : p.shares.totalSupply = 0 ∧ ∀ r ∈ p.amounts, r = 0 := by
  obtain ⟨tokens, _, _, _, hb⟩ := h
  obtain ⟨-, rfl⟩ := build_eq_ok_iff.1 hb
  exact ⟨rfl, fun _ hr => List.eq_of_mem_replicate hr⟩

theorem Created.backed (h : p.Created) : p.Backed where
  reserves_pos hs := absurd h.empty.1 hs.ne'
  reserves_zero _ _ := h.empty.2

/-! ### Deposits -/

theorem pos_of_deposit (hp : p.Admissible) {kept : Deposit} (h : p.deposit amounts = .ok kept)
    (hs : 0 ≤ p.shares.totalSupply) :
    ∀ r ∈ List.zipWith (· + ·) p.amounts kept.amounts, 0 < r := by
  intro z hz
  obtain ⟨r, hr, a, ha, rfl⟩ := exists_of_mem_zipWith hz
  obtain ⟨-, ⟨-, hpos, rfl⟩ | ⟨-, hpos, -, hk⟩⟩ := deposit_eq_ok_iff.1 h
  · exact add_pos_of_nonneg_of_pos (hp.amounts_nonneg r hr) (hpos a ha)
  · have hshares := deposit_shares_pos hs h
    rw [hk] at ha hshares
    obtain ⟨r', hr', rfl⟩ := List.mem_map.1 ha
    refine add_pos_of_pos_of_nonneg (hpos r hr) (Checked.ceiling_nonneg ?_)
    exact mul_nonneg (mul_nonneg (hpos r' hr').le hshares.le) hs

/-- The first deposit brings something of every token. -/
theorem initial_amounts_pos {fees : AdminFees} {rates : Option (List Int)} {q : Quote}
    (h : p.quoteDeposit c amounts fees rates = .ok q) (h0 : p.shares.totalSupply = 0) :
    ∀ a ∈ amounts, 0 < a := by
  simp only [quoteDeposit, if_pos h0, bind_eq_ok_iff, exists_unit_iff, throw_eq_error, error_bind,
    unless_eq_ok_iff] at h
  obtain ⟨-, -, _, -, hpos, -⟩ := h
  simpa using hpos

theorem pos_of_quoteDeposit (hp : p.Admissible) (hb : p.Backed) (hs : 0 ≤ p.shares.totalSupply)
    {fees : AdminFees} {rates : Option (List Int)} {q : Quote}
    (h : p.quoteDeposit c amounts fees rates = .ok q) : ∀ r ∈ q.newAmounts, 0 < r := by
  obtain ⟨hchecked, hnew, -⟩ := quoteDeposit_eq_ok h
  obtain ⟨-, hnonneg⟩ := checkAmounts_eq_ok_iff.1 hchecked
  intro z hz
  rw [hnew] at hz
  obtain ⟨r, hr, a, ha, rfl⟩ := exists_of_mem_zipWith hz
  rcases hs.eq_or_lt with h0 | hpos
  · exact add_pos_of_nonneg_of_pos (hp.amounts_nonneg r hr) (initial_amounts_pos h h0.symm a ha)
  · exact add_pos_of_pos_of_nonneg (hb.reserves_pos hpos r hr) (hnonneg a ha)

/-! ### Withdrawals -/

/-- A part of the shares takes less than all of any token, and all shares take everything. -/
theorem left_of_withdrawal {sender : String} {shares : Int} {minimums paid left : List Int}
    (h : p.withdrawal sender shares minimums = .ok paid)
    (hl : ((p.amounts.zip paid).mapM fun (r, a) => Checked.sub r a) = .ok left)
    (hpos : ∀ r ∈ p.amounts, 0 < r) :
    (shares < p.shares.totalSupply → ∀ r ∈ left, 0 < r) ∧
      (shares = p.shares.totalSupply → ∀ r ∈ left, r = 0) := by
  obtain ⟨hshares, -, rfl⟩ := withdrawal_eq_ok h
  obtain ⟨rfl, -⟩ := subs_eq_ok hl
  rw [List.zipWith_map_right, List.zipWith_self]
  constructor
  · intro hlt z hz
    obtain ⟨r, hr, rfl⟩ := List.mem_map.1 hz
    have hsupply : 0 < p.shares.totalSupply := hshares.trans hlt
    have hpaid := fdiv_mul_le (r * shares) hsupply
    have hwhole : r * shares < r * p.shares.totalSupply := mul_lt_mul_of_pos_left hlt (hpos r hr)
    have := lt_of_mul_lt_mul_right (hpaid.trans_lt hwhole) hsupply.le
    omega
  · rintro rfl z hz
    obtain ⟨r, -, rfl⟩ := List.mem_map.1 hz
    rw [Int.mul_fdiv_cancel _ hshares.ne', sub_self]

theorem backed_of_withdrawal (hb : p.shares.Balanced) (h : p.Backed) {sender : String}
    {shares : Int} {minimums paid left : List Int}
    (hpaid : p.withdrawal sender shares minimums = .ok paid)
    (hleft : ((p.amounts.zip paid).mapM fun (r, a) => Checked.sub r a) = .ok left)
    (hnew : p'.amounts = left)
    (hsupply : p'.shares.totalSupply + shares = p.shares.totalSupply) : p'.Backed := by
  obtain ⟨hpos, hbalance, -⟩ := withdrawal_eq_ok hpaid
  have hall := hb.balanceOf_le sender
  obtain ⟨hpart, hwhole⟩ := left_of_withdrawal hpaid hleft (h.reserves_pos (by omega))
  exact
    { reserves_pos := fun _ => hnew ▸ hpart (by omega)
      reserves_zero := fun _ _ => hnew ▸ hwhole (by omega) }

/-- A withdrawal that drains no token takes less than there is of each. -/
theorem amounts_lt_of_kept (hp : p.Admissible) (hl : amounts.length = p.tokens.length)
    (h : p.drained? amounts = none) : List.Forall₂ (· < ·) amounts p.amounts := by
  refine List.forall₂_iff_get.2 ⟨hl.trans hp.amounts_length.symm, fun k ha hr => ?_⟩
  have ht : k < p.tokens.length := hl ▸ ha
  have hmem : (p.tokens[k], p.amounts[k], amounts[k]) ∈ p.tokens.zip (p.amounts.zip amounts) :=
    List.mem_iff_getElem.2 ⟨k, by simp [hr, ha, ht], by simp⟩
  simpa using List.find?_eq_none.1 h _ hmem

/-- A withdrawal that leaves something of every token drains none. -/
theorem kept_of_pos (h : ∀ z ∈ List.zipWith (· - ·) p.amounts amounts, 0 < z) :
    p.drained? amounts = none := by
  refine List.find?_eq_none.2 ?_
  rintro ⟨token, r, a⟩ hmem
  have hleft : r - a ∈ List.zipWith (· - ·) p.amounts amounts := by
    rw [← List.map_uncurry_zip_eq_zipWith]
    exact List.mem_map.2 ⟨(r, a), (List.of_mem_zip hmem).2, rfl⟩
  have := h _ hleft
  simp only [decide_eq_true_eq]
  omega

theorem pos_of_quoteWithdrawal (hp : p.Admissible) {fees : AdminFees} {rates : Option (List Int)}
    {q : Quote} (h : p.quoteWithdrawal c amounts fees rates = .ok q) :
    ∀ r ∈ q.newAmounts, 0 < r := by
  obtain ⟨_, -, _, _, _, hq⟩ := quoteWithdrawal_steps h
  obtain ⟨hlen, -⟩ := checkAmounts_eq_ok_iff.1 hq.checked
  have hlt := amounts_lt_of_kept hp hlen hq.kept
  rw [(subs_eq_ok hq.left).1]
  intro z hz
  obtain ⟨k, hk, rfl⟩ := List.mem_iff_getElem.1 hz
  obtain ⟨hr, ha⟩ : k < p.amounts.length ∧ k < amounts.length := by
    simpa [List.length_zipWith] using hk
  rw [List.getElem_zipWith]
  exact sub_pos.2 ((List.forall₂_iff_get.1 hlt).2 k ha hr)

/-! ### Swaps -/

theorem Traded.pos (h : p.Traded p') (hpos : ∀ r ∈ p.amounts, 0 < r) : ∀ r ∈ p'.amounts, 0 < r := by
  obtain ⟨i, j, u, v, -, -, -, -, -, hu, hv, -, hnew⟩ := h
  rw [hnew]
  exact forall_mem_set (forall_mem_set hpos hu i) hv j

/-- A trade needs reserves, and so a pool that has shares. -/
theorem Traded.supply_pos (h : p.Traded p') (hb : p.Backed) (hc : p.curve = .constantProduct)
    (hs : 0 ≤ p.shares.totalSupply) : 0 < p.shares.totalSupply := by
  obtain ⟨i, j, u, v, hi, -, -, hpos, -⟩ := h
  refine lt_of_le_of_ne hs fun h0 => ?_
  rw [List.getD_eq_getElem _ 0 hi, hb.reserves_zero hc h0.symm _ (List.getElem_mem hi)] at hpos
  exact lt_irrefl 0 hpos

theorem Traded.backed (h : p.Traded p') (hb : p.Backed) (hc : p.curve = .constantProduct)
    (hs : 0 ≤ p.shares.totalSupply) (hle : p.shares.totalSupply ≤ p'.shares.totalSupply) :
    p'.Backed := by
  have hsupply := h.supply_pos hb hc hs
  exact .of_pos (h.pos (hb.reserves_pos hsupply)) fun _ => hsupply.trans_le hle

/-- A stable swap that succeeds, or is rehearsed, finds and leaves something of every token in
comparable units. -/
theorem comparables_of_stableSwap (hp : p.Admissible) (hc : p.curve = .stable c)
    {tokenIn tokenOut : String} {x minimum : Int} {fees : AdminFees} {simulate : Bool}
    {poolId : Option Int}
    (h : (Command.swap tokenIn x tokenOut minimum fees simulate poolId).run limits p =
      .ok reply p') :
    p'.curve = .stable c ∧ ∀ b ∈ p'.comparableReserves c (c.cachedRates p'.tokens.length), 0 < b := by
  obtain ⟨pl, hpl, -, hout⟩ := Command.planned_eq_ok hp rfl h
  obtain ⟨i, j, q, hq, rfl⟩ := swapPlan_eq_ok hpl
  rw [curveSwap_of_stable hc] at hq
  obtain ⟨hij, hx, hv, fee, d, y, hsteps⟩ := quoteStableSwap_eq_ok hq
  obtain ⟨-, rfl⟩ | ⟨-, s, l, hs, -, -, rfl⟩ := hout
  · exact ⟨hc, hsteps.reserves_pos⟩
  · obtain rfl := Except.ok.inj hs
    obtain ⟨hi, hj, hne⟩ := swapIndices_eq_ok hij
    have hpos := hsteps.comparables_pos hp hc hi hj hne hx hv
    exact ⟨hc, hpos⟩

/-- Where every comparable balance is positive, so is every reserve. -/
theorem reserves_pos_of_comparables (hp : p.Admissible) (hc : p.curve = .stable c)
    (h : ∀ b ∈ p.comparableReserves c (c.cachedRates p.tokens.length), 0 < b) :
    ∀ r ∈ p.amounts, 0 < r :=
  pos_of_comparables (units_facts hp hc).1 (units_facts hp hc).2 h

/-! ### One command -/

theorem backed_of_unplanned (h : p.Backed) {c : Command} (hc : c.plan? p = none)
    (hr : c.run limits p = .ok reply p') : p'.Backed := by
  obtain ⟨ha, -, hs⟩ := Command.unplanned_keeps hc hr
  have hcurve : p'.curve = .constantProduct → p.curve = .constantProduct := by
    obtain ⟨_, -, rfl⟩ | ⟨_, hf⟩ | ⟨_, rfl, -, -⟩ := Command.unplanned_eq_ok hc hr
    · exact id
    · obtain rfl | ⟨_, _, _, _, _, rfl, _⟩ := updateRates_eq_ok hf
      · exact id
      · exact nofun
    · exact id
  exact
    { reserves_pos := fun hpos => ha ▸ h.reserves_pos (hs ▸ hpos)
      reserves_zero := fun hc h0 => ha ▸ h.reserves_zero (hcurve hc) (hs ▸ h0) }

theorem backed_of_run (hp : p.Admissible) (hb : p.shares.Balanced) (h : p.Backed) {c : Command}
    (hr : c.run limits p = .ok reply p') : p'.Backed := by
  have h0 := hb.totalSupply_nonneg
  cases hc : c.plan? p with
  | none => exact backed_of_unplanned h hc hr
  | some plan =>
    obtain ⟨pl, hpl, -, ⟨-, rfl⟩ | ⟨-, s, l, hset, -, hl, hp'⟩⟩ := Command.planned_eq_ok hp hc hr
    · exact h
    · have hsupply := Ledger.totalSupply_of_settle hl
      have hsettles := Command.settles_of_plan? hc hpl hset
      have hle : s.burns = [] → p.shares.totalSupply ≤ l.totalSupply := by
        intro hburns
        have hm : 0 ≤ total (s.mints.map Prod.snd) :=
          total_map_nonneg (hsettles.covered hp hb).mints_nonneg
        rw [hburns, List.map_nil, total_nil] at hsupply
        omega
      subst hp'
      cases hsettles with
      | @deposit _ _ _ kept _ hk =>
        refine .of_pos (pos_of_deposit hp hk h0) fun _ => ?_
        have := deposit_shares_pos h0 hk
        have hnew : l.totalSupply = p.shares.totalSupply + kept.shares := by simpa using hsupply
        exact hnew ▸ by omega
      | stableDeposit hcurve hq =>
        exact .of_pos (pos_of_quoteDeposit hp h h0 hq) fun hcp => by cases hcurve.symm.trans hcp
      | withdrawal hpaid hleft =>
        refine backed_of_withdrawal hb h hpaid hleft rfl ?_
        change l.totalSupply + _ = _
        simpa using hsupply
      | stableWithdrawal hcurve hq =>
        exact .of_pos (pos_of_quoteWithdrawal hp hq) fun hcp => by cases hcurve.symm.trans hcp
      | swap hq =>
        cases hcurve : p.curve with
        | constantProduct =>
          rw [curveSwap_of_product hcurve] at hq
          exact (traded_of_quoteProductSwap hp hq rfl).backed h hcurve h0 (hle rfl)
        | stable c =>
          obtain ⟨hcurve', hpos⟩ := comparables_of_stableSwap hp hcurve hr
          exact .of_pos (reserves_pos_of_comparables (Command.run_admissible hp hr) hcurve' hpos)
            fun hcp => by cases hcurve'.symm.trans hcp
      | swapByOutput hcurve hq =>
        exact (traded_of_quoteProductSwapByOutput hp hq rfl).backed h hcurve h0 (hle rfl)

theorem Created.backed_after {p : Pool} (h : p.Created) (calls : List Call) :
    (p.after calls).Backed :=
  after_keeps (fun _ _ _ _ _ hp hb h hr => backed_of_run hp hb h hr) h.admissible h.balanced h.backed

/-- In every pool of a run from a new one: while there are shares no reserve is empty, and on the
constant-product curve all are empty while there are none. And wherever a run starts, a swap on a
stable curve leaves at least one comparable unit of every token. -/
theorem shares_backed {p : Pool} (hp : p.check = .ok ()) (calls : List Call) :
    let q := p.after calls
    (p.Created → (0 < q.shares.totalSupply → ∀ r ∈ q.amounts, 0 < r) ∧
      (q.kind = .simple → q.shares.totalSupply = 0 → ∀ r ∈ q.amounts, r = 0)) ∧
      ∀ c limits tokenIn x tokenOut minimum fees simulate poolId out q', q.curve = .stable c →
        swap limits tokenIn x tokenOut minimum fees simulate poolId q = .ok out q' →
          ∀ b ∈ q'.comparableReserves c (c.cachedRates q'.tokens.length), 1 ≤ b := by
  intro q
  replace hp := check_eq_ok_iff.1 hp
  constructor
  · intro start
    have hb : q.Backed := after_keeps (fun _ _ _ _ _ hp hb h => backed_of_run hp hb h) hp
      start.balanced start.backed
    refine ⟨hb.reserves_pos, fun hk => hb.reserves_zero ?_⟩
    cases hc : q.curve with
    | constantProduct => rfl
    | stable c => cases hv : c.valuation <;> simp [kind, hc, hv] at hk
  · intro c limits tokenIn x tokenOut minimum fees simulate poolId out q' hc h
    have hr : (Command.swap tokenIn x tokenOut minimum fees simulate poolId).run limits q =
        .ok (.integer out) q' := by
      simp only [Command.run, Action.map_apply, h]
    exact (comparables_of_stableSwap (hp.after calls) hc hr).2

/-- Down to one share there is something of both tokens, and with the last one nothing; and a swap
of the whole input reserve leaves a rated pool something to pay with. -/
theorem shares_backed_last_share :
    let p : Pool := ⟨["x", "y"], [0, 0], 30, .empty, [.zero, .zero], .standard, .constantProduct⟩
    let most : List Call :=
      [⟨∅, .register "lp"⟩, ⟨∅, .addLiquidity "lp" [5000, 700] false⟩,
        ⟨∅, .removeLiquidity "lp" (initSharesSupply - 1) [0, 0] false⟩]
    let all : List Call := most ++ [⟨∅, .removeLiquidity "lp" 1 [0, 0] false⟩]
    let c : StableCurve := ⟨[6, 18], 100, .rated [2 * ratePrecision, ratePrecision]⟩
    let p₂ : Pool := ⟨["x", "y"], [0, 0], 30, .empty, [.zero, .zero], .standard, .stable c⟩
    let calls : List Call :=
      [⟨∅, .register "lp"⟩, ⟨∅, .addStableLiquidity "lp" [5000, 9000] 0 .none false none⟩]
    let swapped := (swap ∅ "x" 5000 "y" 0 .none false none).after (p₂.after calls)
    ((p.after most).shares.totalSupply = 1 ∧ ∀ r ∈ (p.after most).amounts, 0 < r) ∧
      ((p.after all).shares.totalSupply = 0 ∧ ∀ r ∈ (p.after all).amounts, r = 0) ∧
      ∀ b ∈ swapped.comparableReserves c (c.cachedRates swapped.tokens.length), 1 ≤ b := by
  intro p most all c p₂ calls swapped
  have start : p.Created := ⟨["x", "y"], 30, .constantProduct, .standard, by rfl⟩
  have hone : (p.after most).shares.totalSupply = 1 := by decide +kernel
  have hzero : (p.after all).shares.totalSupply = 0 := by decide +kernel
  have hkind : (p.after all).kind = .simple := by decide +kernel
  have hcurve : (p₂.after calls).curve = .stable c := by decide +kernel
  have hs : (swap ∅ "x" 5000 "y" 0 .none false none).succeeds (p₂.after calls) = true := by
    decide +kernel
  obtain ⟨out, hout⟩ := Action.eq_ok_of_succeeds hs
  obtain ⟨hmost, -⟩ := shares_backed (p := p) (by decide +kernel) most
  obtain ⟨hall, -⟩ := shares_backed (p := p) (by decide +kernel) all
  obtain ⟨-, hswap⟩ := shares_backed (p := p₂) (by decide +kernel) calls
  exact ⟨⟨hone, (hmost start).1 (by omega)⟩, ⟨hzero, (hall start).2 hkind hzero⟩,
    hswap c _ _ _ _ _ _ _ _ _ _ hcurve hout⟩

end Pool

end SwapPool
