import SwapPool.Proofs.Pool.Policy

/-! A trade in parts. The fee of every part stays in the reserves, and what the pair
holds after some parts is at least what a single trade of the same input would have
left; so the parts together buy no more than the whole. The slack of each rounded
part only adds to what is left, and the whole is answered wherever its first part
was. -/

namespace SwapPool

namespace ConstantProduct

variable {rIn rOut left spent x y fee : Int}

/-- If `left` of the output reserve is at least what a single input of `spent` would have left, then
so it is after one more part. -/
theorem left_le_step (hfee : 0 ≤ fee) (hi : 0 ≤ rIn) (hs : 0 ≤ spent) (hx : 0 < x)
    (h : amountOut x (rIn + spent) left fee = .ok y)
    (hleft : rOut * (rIn * feeDivisor) ≤
      left * (rIn * feeDivisor + spent * (feeDivisor - fee))) :
    rOut * (rIn * feeDivisor) ≤
      (left - y) * (rIn * feeDivisor + (spent + x) * (feeDivisor - fee)) := by
  obtain ⟨hin, hout, hf, hy⟩ := amountOut_eq_ok hx h
  have hdenominator := denominator_pos hin hf hx.le
  have hwhole : 0 ≤ rIn * feeDivisor + (spent + x) * (feeDivisor - fee) :=
    add_nonneg (mul_nonneg hi feeDivisor_pos.le) (mul_nonneg (by omega) (by omega))
  set net := feeDivisor - fee
  set z := (rIn + spent) * feeDivisor + x * net
  have hpart : left * ((rIn + spent) * feeDivisor) ≤ (left - y) * z := by linarith
  -- The fee of the earlier parts has stayed in the input reserve.
  have hstayed : (rIn * feeDivisor + spent * net) * z ≤
      (rIn + spent) * feeDivisor * (rIn * feeDivisor + (spent + x) * net) := by
    have hkept : 0 ≤ x * net * spent * (feeDivisor - net) :=
      mul_nonneg (mul_nonneg (mul_nonneg hx.le (by omega)) hs) (by omega)
    linarith
  refine le_of_mul_le_mul_right ?_ hdenominator
  calc rOut * (rIn * feeDivisor) * z
      ≤ left * (rIn * feeDivisor + spent * net) * z :=
        mul_le_mul_of_nonneg_right hleft hdenominator.le
    _ = left * ((rIn * feeDivisor + spent * net) * z) := mul_assoc ..
    _ ≤ left * ((rIn + spent) * feeDivisor * (rIn * feeDivisor + (spent + x) * net)) :=
        mul_le_mul_of_nonneg_left hstayed hout.le
    _ = left * ((rIn + spent) * feeDivisor) * (rIn * feeDivisor + (spent + x) * net) :=
        (mul_assoc ..).symm
    _ ≤ (left - y) * z * (rIn * feeDivisor + (spent + x) * net) :=
        mul_le_mul_of_nonneg_right hpart hwhole
    _ = (left - y) * (rIn * feeDivisor + (spent + x) * net) * z := mul_right_comm ..

end ConstantProduct

namespace Pool

open ConstantProduct (amountOut)

variable {p p' start : Pool} {tokenIn tokenOut : String} {i j : Nat} {spent got y : Int}

/-- One part of a trade: its input, and the terms that it is made on. -/
structure TradePart where
  amount : Int
  minimum : Int
  fees : AdminFees
  limits : Limits
  poolId : Option Int

def TradePart.swap (part : TradePart) (tokenIn tokenOut : String) : Action Pool Int :=
  Pool.swap part.limits tokenIn part.amount tokenOut part.minimum part.fees false part.poolId

variable {part : TradePart} {parts : List TradePart} {outs : List Int}

theorem swapIndices_congr (h : p'.tokens = p.tokens) (tokenIn tokenOut : String) :
    p'.swapIndices tokenIn tokenOut = p.swapIndices tokenIn tokenOut := by
  unfold swapIndices tokenIndex
  rw [h]

/-- Between `start` and `p` the token at `i` was traded for that at `j`, and what is left is at least
what a single trade would have left. -/
structure TradedAlong (start p : Pool) (i j : Nat) (spent got : Int) : Prop where
  admissible : p.Admissible
  curve : p.curve = .constantProduct
  tokens_eq : p.tokens = start.tokens
  fee_eq : p.totalFee = start.totalFee
  spent_nonneg : 0 ≤ spent
  got_nonneg : 0 ≤ got
  reserveIn : p.amounts.getD i 0 = start.amounts.getD i 0 + spent
  reserveOut : p.amounts.getD j 0 = start.amounts.getD j 0 - got
  left_le : start.amounts.getD j 0 * (start.amounts.getD i 0 * feeDivisor) ≤
    (start.amounts.getD j 0 - got) *
      (start.amounts.getD i 0 * feeDivisor + spent * (feeDivisor - start.totalFee))

theorem TradedAlong.refl (hp : p.Admissible) (hcurve : p.curve = .constantProduct) (i j : Nat) :
    p.TradedAlong p i j 0 0 where
  admissible := hp
  curve := hcurve
  tokens_eq := rfl
  fee_eq := rfl
  spent_nonneg := le_rfl
  got_nonneg := le_rfl
  reserveIn := (add_zero _).symm
  reserveOut := (sub_zero _).symm
  left_le := by rw [sub_zero, zero_mul, add_zero]

theorem part_eq_ok (hp : p.Admissible) (hcurve : p.curve = .constantProduct)
    (hij : p.swapIndices tokenIn tokenOut = .ok (i, j))
    (h : part.swap tokenIn tokenOut p = .ok y p') :
    0 < part.amount ∧ 0 < y ∧
      amountOut part.amount (p.amounts.getD i 0) (p.amounts.getD j 0) p.totalFee = .ok y ∧
      p'.Admissible ∧ p'.curve = p.curve ∧ p'.tokens = p.tokens ∧ p'.totalFee = p.totalFee ∧
      p'.amounts.getD i 0 = p.amounts.getD i 0 + part.amount ∧
      p'.amounts.getD j 0 = p.amounts.getD j 0 - y := by
  obtain ⟨i', j', q, l, hq, rfl, hl, rfl⟩ := Command.swap_eq_ok hp h
  have hfits := fits_of_curveSwap hp hq
  rw [curveSwap_of_product hcurve] at hq
  obtain ⟨hij', hx, -, hout, hm, -⟩ := quoteProductSwap_eq_ok hq
  obtain ⟨rfl, rfl⟩ : i' = i ∧ j' = j := by simpa using hij'.symm.trans hij
  obtain ⟨hi, hj, hne⟩ := swapIndices_eq_ok hij
  rw [← hp.amounts_length] at hi hj
  obtain ⟨hin, hleft⟩ := getD_of_movedAmounts hi hj hne hm
  have hpos := lt_of_le_of_ne (ConstantProduct.amountOut_nonneg hx hout)
    (quoteProductSwap_value_ne hq).symm
  exact ⟨hx, hpos, hout, Settlement.outcome_admissible hp hfits l, rfl, rfl, rfl, hin, hleft⟩

theorem TradedAlong.step (h : start.TradedAlong p i j spent got) (hstart : start.Admissible)
    (hij : start.swapIndices tokenIn tokenOut = .ok (i, j))
    (hpart : part.swap tokenIn tokenOut p = .ok y p') :
    start.TradedAlong p' i j (spent + part.amount) (got + y) := by
  have hij' : p.swapIndices tokenIn tokenOut = .ok (i, j) :=
    (swapIndices_congr h.tokens_eq _ _).trans hij
  obtain ⟨hx, hy, hout, hp', hcurve, htokens, hfee, hin, hleft⟩ :=
    part_eq_ok h.admissible h.curve hij' hpart
  rw [h.reserveIn, h.reserveOut, h.fee_eq] at hout
  have hnext := ConstantProduct.left_le_step hstart.fee_nonneg
    (getD_nonneg hstart.amounts_nonneg i) h.spent_nonneg hx hout h.left_le
  exact
    { admissible := hp'
      curve := hcurve.trans h.curve
      tokens_eq := htokens.trans h.tokens_eq
      fee_eq := hfee.trans h.fee_eq
      spent_nonneg := add_nonneg h.spent_nonneg hx.le
      got_nonneg := add_nonneg h.got_nonneg hy.le
      reserveIn := by rw [hin, h.reserveIn, add_assoc]
      reserveOut := by rw [hleft, h.reserveOut, sub_sub]
      left_le := by rwa [← sub_sub] }

theorem TradedAlong.run (h : start.TradedAlong p i j spent got) (hstart : start.Admissible)
    (hij : start.swapIndices tokenIn tokenOut = .ok (i, j))
    (hparts : parts.mapM (·.swap tokenIn tokenOut) p = .ok outs p') :
    start.TradedAlong p' i j (spent + total (parts.map TradePart.amount)) (got + total outs) := by
  induction parts generalizing p outs spent got with
  | nil =>
    rw [Action.mapM_nil_apply, EStateM.Result.ok.injEq] at hparts
    obtain ⟨rfl, rfl⟩ := hparts
    simpa using h
  | cons part parts ih =>
    obtain ⟨y, q, ys, hpart, hrest, rfl⟩ := Action.mapM_cons_eq_ok_iff.1 hparts
    have hnext := ih (h.step hstart hij hpart) hrest
    rwa [add_assoc, add_assoc, ← total_cons, ← total_cons] at hnext

theorem TradedAlong.got_le (h : start.TradedAlong p i j spent got) (hpos : 0 < spent) {out : Int}
    (hout : amountOut spent (start.amounts.getD i 0) (start.amounts.getD j 0) start.totalFee =
      .ok out) : got ≤ out := by
  have hleft := h.left_le
  rw [ConstantProduct.le_amountOut_iff hpos hout]
  linarith

/-! ### The trade as a whole -/

theorem quote_of_swap (hp : p.Admissible) {limits : Limits} {x minimum out : Int} {fees : AdminFees}
    {simulate : Bool} {poolId : Option Int}
    (h : swap limits tokenIn x tokenOut minimum fees simulate poolId p = .ok out p') :
    ∃ i j q, p.curveSwap tokenIn x tokenOut minimum fees = .ok (i, j, q) ∧ out = q.value := by
  have hrun : (Command.swap tokenIn x tokenOut minimum fees simulate poolId).run limits p =
      .ok (.integer out) p' := by
    simp only [Command.run, Action.map_apply, h]
  obtain ⟨pl, hpl, hreply, -⟩ := Command.planned_eq_ok hp rfl hrun
  obtain ⟨i, j, q, hq, rfl⟩ := swapPlan_eq_ok hpl
  exact ⟨i, j, q, hq, Reply.integer.inj hreply⟩

theorem swap_succeeds (hp : p.Admissible) (hcurve : p.curve = .constantProduct)
    (hij : p.swapIndices tokenIn tokenOut = .ok (i, j)) {x out minimum : Int} (hx : 0 < x)
    (hout : amountOut x (p.amounts.getD i 0) (p.amounts.getD j 0) p.totalFee = .ok out)
    (hpos : 0 < out) (hmin : minimum ≤ out) (limits : Limits) (simulate : Bool)
    (poolId : Option Int) :
    ∃ q, swap limits tokenIn x tokenOut minimum .none simulate poolId p = .ok out q := by
  obtain ⟨hi, hj, hne⟩ := swapIndices_eq_ok hij
  rw [← hp.amounts_length] at hi hj
  obtain ⟨new, hmoved⟩ : ∃ new, movedAmounts p.amounts i x j out = .ok new :=
    ⟨_, (movedAmounts_eq_ok_iff hi hj hne).2 ⟨(ConstantProduct.amountOut_lt hx hout).le, rfl⟩⟩
  have hvalid : AdminFees.none.validate p.totalFee = .ok () :=
    AdminFees.validate_eq_ok_iff.2 hp.fee_nonneg
  have hquote : p.quoteProductSwap tokenIn x tokenOut minimum .none = .ok (i, j, ⟨out, new, []⟩) := by
    simp only [quoteProductSwap, settleProduct, checkOutput, hij, hvalid, hout, hmoved, ok_bind,
      growthMints_of_adminFree (rfl : AdminFees.none.adminRate = 0), if_neg (not_le.2 hx),
      if_neg (not_lt.2 hmin), if_neg hpos.ne', pure_eq_ok]
  have hplan : (Command.swap tokenIn x tokenOut minimum .none simulate poolId).plan? p =
      some (.ok ⟨.integer out, .ok ⟨new, AdminFees.none.splitShares 0, [], some ⟨i, x, j, out⟩⟩⟩) := by
    simp only [Command.plan?, swapPlan, curveSwap_of_product hcurve, hquote, ok_bind, pure_eq_ok]
    rfl
  have hpays (account : String) : ¬ AdminFees.none.Pays account := by
    simp [AdminFees.Pays, AdminFees.none]
  obtain ⟨q, hq⟩ : ∃ q, Command.run limits _ p = .ok _ q :=
    Command.succeeds_of_plan hp hcurve (fun account h => absurd h (hpays account)) hplan
  obtain ⟨_, hswap, hreply⟩ := Action.map_eq_ok_iff.1 hq
  obtain rfl := Reply.integer.inj hreply
  exact ⟨q, hswap⟩

theorem parts_pos (hp : p.Admissible) (hcurve : p.curve = .constantProduct) (hne : parts ≠ [])
    (h : parts.mapM (·.swap tokenIn tokenOut) p = .ok outs p') :
    ∃ i j out, p.swapIndices tokenIn tokenOut = .ok (i, j) ∧
      0 < total (parts.map TradePart.amount) ∧ 0 < total outs ∧
      amountOut (total (parts.map TradePart.amount)) (p.amounts.getD i 0) (p.amounts.getD j 0)
        p.totalFee = .ok out := by
  cases parts with
  | nil => exact absurd rfl hne
  | cons part parts =>
    obtain ⟨y, q, ys, hpart, hrest, rfl⟩ := Action.mapM_cons_eq_ok_iff.1 h
    obtain ⟨i, j, hij⟩ : ∃ i j, p.swapIndices tokenIn tokenOut = .ok (i, j) := by
      obtain ⟨i, j, _, hq, -⟩ := quote_of_swap hp hpart
      exact ⟨i, j, (curveSwap_eq_ok hq).1⟩
    obtain ⟨hx, hy, hout, hq, hcurve', htokens, -⟩ := part_eq_ok hp hcurve hij hpart
    have hlater := (TradedAlong.refl hq (hcurve'.trans hcurve) i j).run hq
      ((swapIndices_congr htokens _ _).trans hij) hrest
    have hspent := hlater.spent_nonneg
    have hgot := hlater.got_nonneg
    obtain ⟨hin, hleft, hf, -⟩ := ConstantProduct.amountOut_eq_ok hx hout
    obtain ⟨out, hwhole⟩ := ConstantProduct.exists_amountOut hin hleft hf
      (total ((part :: parts).map TradePart.amount))
    refine ⟨i, j, out, hij, ?_, ?_, hwhole⟩
    · rw [List.map_cons, total_cons]
      omega
    · rw [total_cons]
      omega

/-- Parts of a trade that succeed one after another on the constant-product curve pay no more than a
single swap of their whole input pays at the start. If there is a part, that swap succeeds, whatever
it is asked to pay at least within what it pays. -/
theorem splitting_never_pays {p p' : Pool} (hp : p.check = .ok ())
    (hcurve : p.curve = .constantProduct) {tokenIn tokenOut : String} {parts : List TradePart}
    {outs : List Int} (h : parts.mapM (·.swap tokenIn tokenOut) p = .ok outs p') :
    let whole := total (parts.map TradePart.amount)
    (∀ {limits minimum fees simulate poolId out q},
      swap limits tokenIn whole tokenOut minimum fees simulate poolId p = .ok out q →
        total outs ≤ out) ∧
    (parts ≠ [] → ∃ out, total outs ≤ out ∧ ∀ limits simulate poolId, ∀ minimum ≤ out,
      ∃ q, swap limits tokenIn whole tokenOut minimum .none simulate poolId p = .ok out q) := by
  intro whole
  replace hp := check_eq_ok_iff.1 hp
  have within {i j : Nat} {out : Int} (hij : p.swapIndices tokenIn tokenOut = .ok (i, j))
      (hpos : 0 < whole) (hout : amountOut whole (p.amounts.getD i 0) (p.amounts.getD j 0)
        p.totalFee = .ok out) : total outs ≤ out := by
    have hrun := (TradedAlong.refl hp hcurve i j).run hp hij h
    rw [zero_add, zero_add] at hrun
    exact hrun.got_le hpos hout
  constructor
  · intro limits minimum fees simulate poolId out q hswap
    obtain ⟨i, j, quote, hq, rfl⟩ := quote_of_swap hp hswap
    rw [curveSwap_of_product hcurve] at hq
    obtain ⟨hij, hpos, -, hout, -⟩ := quoteProductSwap_eq_ok hq
    exact within hij hpos hout
  · intro hne
    obtain ⟨i, j, out, hij, hpos, hgot, hout⟩ := parts_pos hp hcurve hne h
    have hle := within hij hpos hout
    refine ⟨out, hle, fun limits simulate poolId minimum hmin => ?_⟩
    exact swap_succeeds hp hcurve hij hpos hout (hgot.trans_le hle) hmin limits simulate poolId

/-- Three parts, one of which pays an exchange and a referrer, lose a unit against the whole, which
may ask for all that the parts paid. -/
theorem splitting_never_pays_three_parts :
    let shares : Ledger := ⟨10000, ⟨[("lp", 10000), ("dao", 0), ("ref", 0)], by decide⟩⟩
    let p : Pool :=
      ⟨["x", "y"], [5000, 5000], 30, shares, [.zero, .zero], .standard, .constantProduct⟩
    let fees : AdminFees := ⟨10, "dao", 5, some "ref", by decide, by decide, by decide⟩
    let parts : List TradePart :=
      [⟨1000, 0, .none, ∅, none⟩, ⟨500, 0, fees, ∅, none⟩, ⟨700, 0, .none, ∅, none⟩]
    let trade := parts.mapM (·.swap "x" "y")
    trade.answer? p = some [831, 319, 373] ∧
      (∃ out q, swap ∅ "x" 2200 "y" 1523 .none false none p = .ok out q ∧ 1523 ≤ out) ∧
      ∃ out q, swap ∅ "x" 2200 "y" 0 fees true none p = .ok out q ∧ 1523 ≤ out := by
  intro shares p fees parts trade
  have hp : p.check = .ok () := by decide +kernel
  have hparts : trade.answer? p = some [831, 319, 373] := by decide +kernel
  have hwhole : (swap ∅ "x" 2200 "y" 0 fees true none).answer? p = some 1524 := by decide +kernel
  obtain ⟨hwithin, hanswered⟩ := splitting_never_pays hp rfl (Action.eq_ok_of_answer? hparts)
  obtain ⟨out, hle, hok⟩ := hanswered (by simp [parts])
  obtain ⟨q, hq⟩ := hok ∅ false none 1523 hle
  have hother := Action.eq_ok_of_answer? hwhole
  exact ⟨hparts, ⟨out, q, hq, hle⟩, 1524, _, hother, hwithin hother⟩

end Pool

end SwapPool
