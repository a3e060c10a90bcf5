import SwapPool.Host
import SwapPool.Proofs.Pool.Faults
import SwapPool.Proofs.Pool.Solvency

/-! What a quote foretells. A quote at supplied rates is the quote at cached rates
of the pool that has them cached, since all that a quote takes from a curve is the
amplification, the worth of a raw unit at given rates, and the rates that apply.
And a rehearsed call answers the quote at cached rates: a deposit because what it
mints is positive, a withdrawal where the burn is within bounds, and a swap except
for an answer of zero, which it refuses and the quote reports. -/

namespace SwapPool

/-- `c'` is `c` with those rates in its cache that `rates` makes apply. -/
structure StableCurve.Refreshed (c c' : StableCurve) (count : Nat) (rates : Option (List Int)) :
    Prop where
  amp_eq : c'.amp = c.amp
  units_eq : c'.units = c.units
  applied : c.effectiveRates count rates = .ok (c'.cachedRates count)

@[simp] theorem StableCurve.effectiveRates_none (c : StableCurve) (count : Nat) :
    c.effectiveRates count none = .ok (c.cachedRates count) := rfl

namespace Pool

variable {p t : Pool} {c c' : StableCurve} {rates : Option (List Int)} {sender tokenIn : String}
  {tokenOut : String} {amounts : List Int} {x : Int} {fees : AdminFees} {limits : Limits}
  {poolId : Option Int}

/-! ### Rates supplied and rates cached -/

theorem refreshed_of_valuation {v : Valuation}
    (ht : v.targetDecimals = c.valuation.targetDecimals) {rs : List Int} {count : Nat}
    (hr : validateRates rs count = .ok ())
    (hv : ({ c with valuation := v } : StableCurve).cachedRates count = rs) :
    c.Refreshed { c with valuation := v } count (some rs) where
  amp_eq := rfl
  units_eq := by
    have hunit : ({ c with valuation := v } : StableCurve).unit = c.unit := by
      funext decimals rate
      simp only [StableCurve.unit, ht]
    funext rates
    simp only [StableCurve.units, hunit]
  applied := by
    rw [hv]
    simp only [StableCurve.effectiveRates, hr, ok_bind, pure_eq_ok]

/-- Valid rates can be cached in a pool that takes rates or risk factors. -/
theorem refreshed_of_updateRates (hk : p.kind = .rated ∨ p.kind = .degen)
    (hr : ∀ rs, rates = some rs → validateRates rs p.tokens.length = .ok ()) :
    ∃ c c', p.curve = .stable c ∧ c.Refreshed c' p.tokens.length rates ∧
      updateRates rates p = .ok () { p with curve := .stable c' } := by
  cases hc : p.curve with
  | constantProduct => simp [kind, hc] at hk
  | stable c =>
    cases rates with
    | none =>
      have hself : ({ p with curve := .stable c } : Pool) = p := by rw [← hc]
      refine ⟨c, c, rfl, ⟨rfl, rfl, rfl⟩, ?_⟩
      rw [hself]
      cases hv : c.valuation <;> simp_all [updateRates, kind]
    | some rs =>
      have hrs := hr rs rfl
      cases hv : c.valuation with
      | pegged => simp [kind, hc, hv] at hk
      | rated old =>
        refine ⟨c, _, rfl, refreshed_of_valuation (v := .rated rs) (by rw [hv]; rfl) hrs rfl, ?_⟩
        simp [updateRates, hc, hv, hrs, setRates]
      | riskCapped old =>
        refine ⟨c, _, rfl,
          refreshed_of_valuation (v := .riskCapped rs) (by rw [hv]; rfl) hrs rfl, ?_⟩
        simp [updateRates, hc, hv, hrs, setRates]

section Refreshed

variable (h : c.Refreshed c' p.tokens.length rates)

include h in
theorem quoteDeposit_refreshed :
    ({ p with curve := .stable c' } : Pool).quoteDeposit c' amounts fees none =
      p.quoteDeposit c amounts fees rates := by
  simp only [quoteDeposit, h.applied, h.amp_eq, h.units_eq, StableCurve.effectiveRates_none]
  rfl

include h in
theorem quoteWithdrawal_refreshed :
    ({ p with curve := .stable c' } : Pool).quoteWithdrawal c' amounts fees none =
      p.quoteWithdrawal c amounts fees rates := by
  simp only [quoteWithdrawal, h.applied, h.amp_eq, h.units_eq, StableCurve.effectiveRates_none]
  rfl

include h in
theorem quoteSwap_refreshed (i x j : Int) :
    ({ p with curve := .stable c' } : Pool).quoteSwap c' i x j fees none =
      p.quoteSwap c i x j fees rates := by
  simp only [quoteSwap, quoteSwapPaying, swapMints, h.applied, h.amp_eq, h.units_eq,
    StableCurve.effectiveRates_none]

include h in
theorem swapReturn_refreshed :
    ({ p with curve := .stable c' } : Pool).swapReturn c' tokenIn x tokenOut none fees =
      p.swapReturn c tokenIn x tokenOut rates fees := by
  simp only [swapReturn, quoteSwap_refreshed h]
  rfl

end Refreshed

theorem curveOfKind_eq_ok {k : Kind} (hc : p.curve = .stable c) (hk : p.kind = k)
    (operation : String) : p.curveOfKind k operation = .ok c := by
  simp only [curveOfKind, hc, if_pos hk]

/-! ### Queries write nothing -/

theorem after_query (request : Except Fault Query) (h : Host) :
    (Host.perform (.query request)).after h = h := by
  have hkeeps : Action.Keeps (· = h) (Host.perform (.query request)) :=
    (Action.keeps_lift request).bind fun _ => Action.keeps_get.bind fun _ => Action.keeps_lift _
  exact hkeeps h rfl

/-! ### Rehearsals -/

theorem rehearsed_deposit (hc : p.curve = .stable c) {minShares : Int} :
    addStableLiquidity limits sender amounts minShares fees true poolId p =
      match p.quoteDeposit c amounts fees none with
      | .ok q => if q.value < minShares then .error (.mintBelow q.value minShares) p
        else .ok q.value p
      | .error e => .error e p := by
  simp only [addStableLiquidity, Action.get_bind_apply, stableCurve, hc, Action.lift_ok, pure_bind,
    guarded, addStable]
  cases p.quoteDeposit c amounts fees none with
  | error e => simp
  | ok q => by_cases hm : q.value < minShares <;> simp [hm]

/-- A rehearsed deposit that accepts any number of shares answers the quote, since that is never
negative. -/
theorem rehearsed_deposit_eq (hp : p.Admissible) (hs : p.Solvent) (hc : p.curve = .stable c) :
    addStableLiquidity limits sender amounts 0 fees true poolId p =
      Action.ofExcept (p.predictAdd c amounts none fees) p := by
  rw [rehearsed_deposit hc, predictAdd]
  cases hq : p.quoteDeposit c amounts fees none with
  | error e => rfl
  | ok q =>
    have hpos := quoteDeposit_value_pos (hp.curve c hc).minAmp_le (hs.of_quoteDeposit hq) hq
    simp [not_lt.2 hpos.le]

/-- A rehearsed withdrawal by tokens fails as the quote does, and answers it within the bounds of
its caller and the balance of its sender. -/
theorem rehearsed_withdrawal (hc : p.curve = .stable c) {maxBurn : Int} :
    removeLiquidityByTokens sender amounts maxBurn fees true p =
      match p.quoteWithdrawal c amounts fees none with
      | .ok q => if maxBurn < q.value then .error (.burnAbove q.value maxBurn) p
        else if p.shares.balanceOf sender < q.value then
          .error (.sharesShort sender (p.shares.balanceOf sender) q.value) p
        else .ok q.value p
      | .error e => .error e p := by
  simp only [removeLiquidityByTokens, Action.get_bind_apply, stableCurve, hc, Action.lift_ok,
    pure_bind, removeStable]
  cases p.quoteWithdrawal c amounts fees none with
  | error e => simp
  | ok q =>
    by_cases hm : maxBurn < q.value
    · simp [hm]
    · by_cases hb : p.shares.balanceOf sender < q.value <;> simp [hm, hb]

theorem rehearsed_swap (hc : p.curve = .stable c) {minimum : Int} :
    swap limits tokenIn x tokenOut minimum fees true poolId p =
      Action.ofExcept
        ((·.2.2.value) <$> p.quoteStableSwap c tokenIn x tokenOut minimum fees) p := by
  simp only [swap, Action.get_bind_apply, hc, guarded, stableSwap]
  cases p.quoteStableSwap c tokenIn x tokenOut minimum fees <;> simp

/-- A quote of a swap and its rehearsal, which accepts any answer but zero: they pay the same, or
the quote is zero and the rehearsal says so, or they fail alike. -/
theorem rehearsed_swap_cases (hp : p.Admissible) (hc : p.curve = .stable c) (limits : Limits)
    (tokenIn tokenOut : String) (fees : AdminFees) (poolId : Option Int) (hx : 0 < x) :
    let quoted := p.swapReturn c tokenIn x tokenOut none fees
    let rehearsed := swap limits tokenIn x tokenOut 0 fees true poolId p
    (∃ v, 0 < v ∧ quoted = .ok v ∧ rehearsed = .ok v p) ∨
      (quoted = .ok 0 ∧ rehearsed = .error (.swapYieldsNothing x tokenIn) p) ∨
      ∃ e, e.OfQuote ∧ quoted = .error e ∧ rehearsed = .error e p := by
  intro quoted rehearsed
  have hn : ¬ x ≤ 0 := not_le.2 hx
  simp only [quoted, rehearsed, rehearsed_swap hc, swapReturn, quoteStableSwap, if_neg hn]
  cases hij : p.swapIndices tokenIn tokenOut with
  | error e => exact .inr (.inr ⟨e, p.ofQuote_swapIndices tokenIn tokenOut e hij, rfl, rfl⟩)
  | ok places =>
    obtain ⟨i, j⟩ := places
    cases hq : p.quoteSwap c i x j fees none with
    | error e =>
      have he : e.OfQuote := p.ofQuote_quoteSwap c i x j fees e hq
      exact .inr (.inr ⟨e, he, by simp [hq], by simp [hq]⟩)
    | ok q =>
      obtain ⟨_, hr, _, _, _, hsteps⟩ := quoteSwap_eq_ok hq
      obtain rfl : c.cachedRates p.tokens.length = _ := Except.ok.inj hr
      have hv : 0 ≤ q.value := hsteps.value_nonneg hp (StableCurve.units_pos (hp.curve c hc).rates_pos)
      rcases hv.eq_or_lt with h0 | hpos
      · exact .inr (.inl ⟨by simp [hq, ← h0], by simp [hq, checkOutput, ← h0]⟩)
      · exact .inl ⟨q.value, hpos, by simp [hq], by simp [hq, checkOutput, hpos.ne', not_lt.2 hv]⟩

/-- Three quotes, of a swap, a deposit and a withdrawal by tokens, foretell what rehearsals of these
calls do in the pool `t`. -/
structure Foretold (t : Pool) (fees : AdminFees)
    (returned : String → Int → String → Except Fault Int)
    (minted burned : List Int → Except Fault Int) : Prop where
  swap_pays (limits : Limits) (tokenIn tokenOut : String) {x : Int} (poolId : Option Int)
      (hx : 0 < x) (v : Int) :
    returned tokenIn x tokenOut = .ok v ∧ 0 < v ↔
      swap limits tokenIn x tokenOut 0 fees true poolId t = .ok v t
  swap_yields_nothing (limits : Limits) (tokenIn tokenOut : String) {x : Int} (poolId : Option Int)
      (hx : 0 < x) :
    returned tokenIn x tokenOut = .ok 0 ↔
      swap limits tokenIn x tokenOut 0 fees true poolId t = .error (.swapYieldsNothing x tokenIn) t
  swap_fails (limits : Limits) (tokenIn tokenOut : String) {x : Int} (poolId : Option Int)
      (hx : 0 < x) :
    (∃ v, 0 ≤ v ∧ returned tokenIn x tokenOut = .ok v) ∨ ∃ e,
      returned tokenIn x tokenOut = .error e ∧
        swap limits tokenIn x tokenOut 0 fees true poolId t = .error e t
  deposit (limits : Limits) (sender : String) (amounts : List Int) (poolId : Option Int) :
    addStableLiquidity limits sender amounts 0 fees true poolId t =
      Action.ofExcept (minted amounts) t
  withdrawal (sender : String) {amounts : List Int} {maxBurn v : Int} (hv : burned amounts = .ok v)
      (hb : v ≤ t.shares.balanceOf sender) (hm : v ≤ maxBurn) :
    removeLiquidityByTokens sender amounts maxBurn fees true t = .ok v t
  withdrawal_fails (sender : String) {amounts : List Int} (maxBurn : Int) {e : Fault}
      (he : burned amounts = .error e) :
    removeLiquidityByTokens sender amounts maxBurn fees true t = .error e t

/-- Quotes at cached rates foretell the rehearsals in the same pool. -/
theorem foretold_of_cached (hp : p.Admissible) (hs : p.Solvent) (hc : p.curve = .stable c)
    (fees : AdminFees) :
    p.Foretold fees (fun tokenIn x tokenOut => p.swapReturn c tokenIn x tokenOut none fees)
      (fun amounts => p.predictAdd c amounts none fees)
      (fun amounts => p.predictRemove c amounts none fees) where
  swap_pays limits tokenIn tokenOut x poolId hx v := by
    obtain ⟨u, hu, hq, hr⟩ | ⟨hq, hr⟩ | ⟨e, -, hq, hr⟩ :=
      rehearsed_swap_cases hp hc limits tokenIn tokenOut fees poolId hx
    · rw [hq, hr]
      constructor
      · rintro ⟨⟨⟩, -⟩
        rfl
      · rintro ⟨⟩
        exact ⟨rfl, hu⟩
    · simp only [hq, hr, Except.ok.injEq, reduceCtorEq, iff_false, not_and]
      rintro rfl
      exact lt_irrefl 0
    · simp [hq, hr]
  swap_yields_nothing limits tokenIn tokenOut x poolId hx := by
    obtain ⟨u, hu, hq, hr⟩ | ⟨hq, hr⟩ | ⟨e, he, hq, hr⟩ :=
      rehearsed_swap_cases hp hc limits tokenIn tokenOut fees poolId hx
    · simp [hq, hr, hu.ne']
    · simp [hq, hr]
    · simp only [hq, hr, reduceCtorEq, false_iff, EStateM.Result.error.injEq, and_true]
      rintro rfl
      exact he
  swap_fails limits tokenIn tokenOut x poolId hx := by
    obtain ⟨u, hu, hq, -⟩ | ⟨hq, -⟩ | ⟨e, -, hq, hr⟩ :=
      rehearsed_swap_cases hp hc limits tokenIn tokenOut fees poolId hx
    · exact .inl ⟨u, hu.le, hq⟩
    · exact .inl ⟨0, le_rfl, hq⟩
    · exact .inr ⟨e, hq, hr⟩
  deposit limits sender amounts poolId := rehearsed_deposit_eq hp hs hc
  withdrawal sender amounts maxBurn v hv hb hm := by
    simp only [predictRemove, bind_eq_ok_iff, pure_eq_ok, Except.ok.injEq] at hv
    obtain ⟨q, hq, rfl⟩ := hv
    simp [rehearsed_withdrawal hc, hq, not_lt.2 hb, not_lt.2 hm]
  withdrawal_fails sender amounts maxBurn e he := by
    rw [rehearsed_withdrawal hc]
    cases hq : p.quoteWithdrawal c amounts fees none with
    | ok q => simp [predictRemove, hq] at he
    | error e' => simp_all [predictRemove]

/-- Quotes at supplied rates foretell the rehearsals in the pool that has them cached. -/
theorem foretold_of_refreshed (hs : p.Solvent)
    (h : c.Refreshed c' p.tokens.length rates)
    (ht : ({ p with curve := .stable c' } : Pool).Admissible) (fees : AdminFees) :
    ({ p with curve := .stable c' } : Pool).Foretold fees
      (fun tokenIn x tokenOut => p.swapReturn c tokenIn x tokenOut rates fees)
      (fun amounts => p.predictAdd c amounts rates fees)
      (fun amounts => p.predictRemove c amounts rates fees) := by
  have hcached := foretold_of_cached ht hs rfl fees
  simpa only [predictAdd, predictRemove, swapReturn_refreshed h, quoteDeposit_refreshed h,
    quoteWithdrawal_refreshed h] using hcached

/-- In every pool of a run that takes rates or risk factors, quotes at valid rates, or at the cached
ones, say what the rehearsed calls do once those rates are cached; and no query changes the pool. -/
theorem quotes_foretell {p : Pool} (start : p.Created ∨ p.Loaded) (calls : List Call)
    {rates : Option (List Int)} (fees : AdminFees)
    (hk : (p.after calls).kind = .rated ∨ (p.after calls).kind = .degen)
    (hr : ∀ rs, rates = some rs → validateRates rs (p.after calls).tokens.length = .ok ()) :
    let s := p.after calls
    (∃ t, updateRates rates s = .ok () t ∧
      (s.kind = .rated → t.Foretold fees (s.ratedReturn · · · rates fees)
        (s.predictAddRated · rates fees) (s.predictRemoveRated · rates fees)) ∧
      (s.kind = .degen → t.Foretold fees (s.degenReturn · · · rates fees)
        (s.predictAddDegen · rates fees) (s.predictRemoveDegen · rates fees))) ∧
      ∀ (h : Host) (request : Except Fault Query), (Host.perform (.query request)).after h = h := by
  intro s
  have hp : s.Admissible :=
    (start.elim Created.admissible Loaded.admissible).after calls
  have hs : s.Solvent :=
    solvent_after (start.elim Created.admissible Loaded.admissible)
      (start.elim Created.solvent Loaded.solvent) calls
  obtain ⟨c, c', hc, href, ht⟩ := refreshed_of_updateRates (p := s) hk hr
  have hforetold := foretold_of_refreshed hs href (admissible_of_updateRates hp ht) fees
  refine ⟨⟨_, ht, fun hrated => ?_, fun hdegen => ?_⟩, fun h request => after_query request h⟩
  · simpa only [ratedReturn, predictAddRated, predictRemoveRated, curveOfKind_eq_ok hc hrated,
      ok_bind] using hforetold
  · simpa only [degenReturn, predictAddDegen, predictRemoveDegen, curveOfKind_eq_ok hc hdegen,
      ok_bind] using hforetold

/-- At twice the cached rate of the first token a quote is almost twice that at the cached rates,
and a swap pays it once the rate is cached. -/
theorem quotes_foretell_doubled_rate :
    let c : StableCurve := ⟨[6, 18], 100, .rated [ratePrecision, ratePrecision]⟩
    let p : Pool := ⟨["x", "y"], [0, 0], 30, .empty, [.zero, .zero], .standard, .stable c⟩
    let calls : List Call :=
      [⟨∅, .register "lp"⟩,
        ⟨∅, .addStableLiquidity "lp" [4000, 4 * Int.pow 10 15] 0 .none false none⟩]
    let s := p.after calls
    let rates := [2 * ratePrecision, ratePrecision]
    let fees : AdminFees := ⟨10, "dao", 0, none, by decide, by decide, by decide⟩
    s.ratedReturn "x" 1000 "y" none fees = .ok 995684521148123 ∧
      s.ratedReturn "x" 1000 "y" (some rates) fees = .ok 1974418235386022 ∧
      ∃ t, updateRates (some rates) s = .ok () t ∧
        swap ∅ "x" 1000 "y" 0 fees true none t = .ok 1974418235386022 t := by
  intro c p calls s rates fees
  have start : p.Created := ⟨["x", "y"], 30, .stable c, .standard, by rfl⟩
  have hk : s.kind = .rated := by decide +kernel
  have hr : validateRates rates s.tokens.length = .ok () := by decide +kernel
  have hcached : s.ratedReturn "x" 1000 "y" none fees = .ok 995684521148123 := by decide +kernel
  have hquoted : s.ratedReturn "x" 1000 "y" (some rates) fees = .ok 1974418235386022 := by
    decide +kernel
  obtain ⟨⟨t, ht, hrated, -⟩, -⟩ := quotes_foretell (.inl start) calls fees (.inl hk)
    (fun rs hrs => Option.some.inj hrs ▸ hr)
  exact ⟨hcached, hquoted, t, ht,
    ((hrated hk).swap_pays ∅ "x" "y" none (by decide) _).1 ⟨hquoted, by decide⟩⟩

end Pool

end SwapPool
