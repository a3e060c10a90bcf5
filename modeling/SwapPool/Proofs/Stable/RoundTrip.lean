import SwapPool.Proofs.Pool.Runs
import SwapPool.Proofs.Stable.Swap

/-! A stable swap and its way back. What the way back pays is bounded by what the
input token is worth in invariant: if the reserves with `k` raw units less of it
do not exceed the invariant that was found at the start, fewer than `k` units are
gained. The unit that either swap holds back is a unit of the balance it solves
for. Where reserves are uneven one unit of the scarce token carries several of
the abundant one, and between two roundings of the invariant one of these can be
gained. -/

namespace SwapPool

theorem forall₂_there_and_back {xs : List Int} {i j : Nat} (hij : i ≠ j) (hj : j < xs.length)
    {z w u v m : Int} (hu : u ≤ xs.getD j 0) (hv : v ≤ m) :
    List.Forall₂ (· ≤ ·) ((((xs.set i z).set j w).set j u).set i v) (xs.set i m) := by
  have hkept : (xs.set i m).set j (xs.getD j 0) = xs.set i m := by
    have hget : (xs.set i m).getD j 0 = xs.getD j 0 := by rw [getD_set hj, if_neg hij]
    rw [← hget, set_getD_self (by rwa [List.length_set])]
  rw [List.set_set, List.set_comm _ _ hij.symm, List.set_set, ← hkept]
  exact forall₂_set (forall₂_set (List.forall₂_same.2 fun _ _ => le_rfl) hv i) hu j

namespace Pool

open StableInvariant (Exceeds)

theorem lt_of_le_fromComparable {unit r s b k : Int} (hu : 0 < unit)
    (hb : b ≤ fromComparable unit (toComparable unit r - k - 1)) (hk : toComparable unit s ≤ k) :
    b < r - s := by
  have hr := toComparable_mul_le unit r
  have hs : unit * s < (toComparable unit s + 1) * ratePrecision :=
    Int.lt_fdiv_add_one_mul_self _ StableCurve.ratePrecision_pos
  have hle : (toComparable unit s + 1) * ratePrecision ≤ (k + 1) * ratePrecision :=
    mul_le_mul_of_nonneg_right (by omega) StableCurve.ratePrecision_pos.le
  refine lt_of_mul_lt_mul_right ?_ hu.le
  calc b * unit ≤ fromComparable unit (toComparable unit r - k - 1) * unit :=
        mul_le_mul_of_nonneg_right hb hu.le
    _ ≤ (toComparable unit r - k - 1) * ratePrecision := fromComparable_mul_le hu _
    _ = toComparable unit r * ratePrecision - (k + 1) * ratePrecision := by ring
    _ < unit * r - unit * s := by linarith
    _ = (r - s) * unit := by ring

section Back

variable {p : Pool} {l : Ledger} {t : Option Trade} {c : StableCurve} {i j : Nat} {a : Int}
  {fees fees' : AdminFees} {q q' : Quote} {fee fee' d d' y y' : Int}
  (hp : p.Admissible) (hc : p.curve = .stable c) (hi : i < p.tokens.length)
  (hj : j < p.tokens.length) (hij : i ≠ j) (ha : 0 < a)
  (h : p.SwapSteps c (c.units (c.cachedRates p.tokens.length)) i a j fees q fee d y)
  (hv : q.value ≠ 0) (hs : (Settlement.outcome ⟨q.newAmounts, q.adminMints, [], t⟩ l p).Admissible)
  (h' : (Settlement.outcome ⟨q.newAmounts, q.adminMints, [], t⟩ l p).SwapSteps c
    (c.units (c.cachedRates p.tokens.length)) j q.value i fees' q' fee' d' y')

include hp hc hi hj hij ha h hv hs h' in
theorem SwapSteps.le_solved_back {m : Int} (hm : ¬ Exceeds c.amp
    ((comparables (c.units (c.cachedRates p.tokens.length)) p.amounts).set i m) d) : m ≤ y' := by
  obtain ⟨hlen, hpos⟩ := units_facts hp hc
  have hia : i < p.amounts.length := hp.amounts_length.symm ▸ hi
  have hja : j < p.amounts.length := hp.amounts_length.symm ▸ hj
  have hju := hlen.symm ▸ hja
  have hjc : j < (comparables (c.units (c.cachedRates p.tokens.length)) p.amounts).length := by
    rwa [length_comparables hlen]
  have hpaid : 0 < q.value := lt_of_le_of_ne (h.value_nonneg hp hpos) hv.symm
  have hnew := h.newAmounts_eq hp hi hj hij
  obtain ⟨-, hleft⟩ := getD_of_movedAmounts hia hja hij h.moved
  have hd : d ≤ d' := by
    have hfee := h.fee_nonneg hp ha
    exact h.le_invariant hp hc hi hj hv (z := p.amounts.getD i 0 + a) (by omega)
      (hnew ▸ h'.invariant)
  obtain ⟨hinpos, hy, hexceeds⟩ := h'.exceeds hs hc hj
  change Exceeds c.amp (((comparables _ q.newAmounts).set j (toComparable _
    (q.newAmounts.getD j 0 + (q.value - fee')))).set i (y' + 1)) d' at hexceeds
  have hback : q.newAmounts.getD j 0 + (q.value - fee') ≤ p.amounts.getD j 0 := by
    have hfee := h'.fee_nonneg hs hpaid
    omega
  have hgiven := toComparable_mono (getD_pos hpos hju).le hback
  rw [← getD_comparables hju hja] at hgiven
  by_contra hlt
  refine hm (hexceeds.mono (one_le_amp hp hc) (h.invariant_nonneg hp hc) hd ?_ ?_ ?_)
  · exact forall_mem_set (forall_mem_set h'.reserves_pos hinpos j) (by omega) i
  · simpa using comparables_ne_nil hs hc (rfl : q.newAmounts.length = _)
  · rw [hnew, comparables_set, comparables_set, ← hnew]
    exact forall₂_there_and_back hij hjc hgiven (by omega)

include hp hc hi hj hij ha h hv hs h' in
/-- The way back pays less than what was sent and `k` units more, if the reserves before both swaps
with `k` units less do not exceed the invariant that was found for them. -/
theorem SwapSteps.gain_lt (hv' : q'.value ≠ 0) {k : Int} (hk : ¬ Exceeds c.amp (comparables
    (c.units (c.cachedRates p.tokens.length)) (p.amounts.set i (p.amounts.getD i 0 - k))) d) :
    q'.value < a + k := by
  obtain ⟨hlen, hpos⟩ := units_facts hp hc
  have hia : i < p.amounts.length := hp.amounts_length.symm ▸ hi
  obtain ⟨hreserve, -⟩ := getD_of_movedAmounts hia (hp.amounts_length.symm ▸ hj) hij h.moved
  rw [comparables_set] at hk
  have hsolved := h.le_solved_back hp hc hi hj hij ha hv hs h' hk
  have hpays := h'.value_le hs hc hi hv'
  change q'.value ≤ fromComparable _ (toComparable _ (q.newAmounts.getD i 0) - y' - 1) at hpays
  rw [hreserve] at hpays
  have hgain := lt_of_le_fromComparable (getD_pos hpos (hlen.symm ▸ hia)) hpays hsolved
  omega

end Back

/-- Swapping there and back gains fewer than `k` units, if the reserves with `k` units less of the
token that comes back do not exceed the invariant that was found for them; with a `k` of one there is
no gain. The admin policies and the fees of the two swaps may be any, and none too. -/
theorem round_trip_gain_lt {p p' p'' : Pool} {c : StableCurve} (hp : p.check = .ok ())
    (hc : p.curve = .stable c) {limits : Limits} {tokenX tokenY : String}
    {a b a' minimum minimum' : Int} {fees fees' : AdminFees} {poolId poolId' : Option Int}
    (hout : swap limits tokenX a tokenY minimum fees false poolId p = .ok b p')
    (hback : swap limits tokenY b tokenX minimum' fees' false poolId' p' = .ok a' p'') :
    ∃ i d, p.tokenIndex tokenX = .ok i ∧ p.invariant c = .ok d ∧
      ∀ k, ¬ Exceeds c.amp (comparables (c.units (c.cachedRates p.tokens.length))
        (p.amounts.set i (p.amounts.getD i 0 - k))) d → a' < a + k := by
  replace hp := check_eq_ok_iff.1 hp
  obtain ⟨i, j, q, l, hq, rfl, -, rfl⟩ := Command.swap_eq_ok hp hout
  have hs := Settlement.outcome_admissible hp (fits_of_curveSwap hp hq) l
  set s := Settlement.outcome ⟨q.newAmounts, q.adminMints, [], some ⟨i, a, j, q.value⟩⟩ l p
  have hcs : s.curve = .stable c := hc
  obtain ⟨i', j', q', l', hq', rfl, -, -⟩ := Command.swap_eq_ok hs hback
  rw [curveSwap_of_stable hc] at hq
  rw [curveSwap_of_stable hcs] at hq'
  obtain ⟨hij, ha, hv, fee, d, y, hsteps⟩ := quoteStableSwap_eq_ok hq
  obtain ⟨hij', -, hv', fee', d', y', hsteps'⟩ := quoteStableSwap_eq_ok hq'
  obtain ⟨hi, hj, hne⟩ := swapIndices_eq_ok hij
  obtain ⟨-, hX, hY⟩ := tokenIndex_of_swapIndices hij
  obtain ⟨-, hY', hX'⟩ := tokenIndex_of_swapIndices hij'
  obtain rfl : j = i' := Except.ok.inj (hY.symm.trans hY')
  obtain rfl : i = j' := Except.ok.inj (hX.symm.trans hX')
  refine ⟨i, d, hX, hsteps.invariant, fun k hk => ?_⟩
  exact hsteps.gain_lt hp hc hi hj hne ha hv hs hsteps' hv' hk

/-- One raw unit of the coarser token is worth 10¹² units of the invariant, so there is no gain, with
no fee charged on either way. -/
theorem round_trip_gain_lt_coarse_unit :
    let c : StableCurve := ⟨[18, 6], 10, .pegged⟩
    let shares : Ledger := ⟨10000, ⟨[("lp", 10000)], by decide⟩⟩
    let p : Pool :=
      ⟨["x", "y"], [5 * Int.pow 10 16, 50000], 0, shares, [.zero, .zero], .standard, .stable c⟩
    let there := swap ∅ "y" 4000 "x" 0 .none false none
    let back := swap ∅ "x" 3984731801590555 "y" 0 .none false none
    ¬ Exceeds c.amp (comparables (c.units (c.cachedRates 2)) [5 * Int.pow 10 16, 49999])
        (Int.pow 10 17) ∧
      there p = .ok 3984731801590555 (there.after p) ∧
      ∃ a', back (there.after p) = .ok a' (back.after (there.after p)) ∧ a' < 4000 + 1 := by
  intro c shares p there back
  have hthere : there.answer? p = some 3984731801590555 := by decide +kernel
  have hback : back.succeeds (there.after p) = true := by decide +kernel
  have hinvariant : p.invariant c = .ok (Int.pow 10 17) := by decide +kernel
  have hbelow : ¬ Exceeds c.amp
      (comparables (c.units (c.cachedRates 2)) [5 * Int.pow 10 16, 49999]) (Int.pow 10 17) := by
    decide +kernel
  have hout := Action.eq_ok_of_answer? hthere
  obtain ⟨a', hin⟩ := Action.eq_ok_of_succeeds hback
  obtain ⟨i, d, hi, hd, hgain⟩ := round_trip_gain_lt (by decide +kernel) rfl hout hin
  obtain rfl : 1 = i := Except.ok.inj hi
  obtain rfl : Int.pow 10 17 = d := Except.ok.inj (hinvariant.symm.trans hd)
  exact ⟨hbelow, hout, a', hin, hgain 1 hbelow⟩

/-- In a pool of fourteen and four units whose invariant is found as sixteen, one unit buys one, and
that one buys two back. -/
theorem round_trip_gains_a_unit :
    let c : StableCurve := ⟨[18, 18], 1, .pegged⟩
    let p₀ : Pool := ⟨["x", "y"], [0, 0], 0, .empty, [.zero, .zero], .standard, .stable c⟩
    let p := p₀.after
      [⟨∅, .register "lp"⟩, ⟨∅, .addStableLiquidity "lp" [14, 4] 0 .none false none⟩]
    let there := swap ∅ "x" 1 "y" 0 .none false none
    let back := swap ∅ "y" 1 "x" 0 .none false none
    p₀.Created ∧ p.amounts = [14, 4] ∧
      (∀ b ∈ p.comparableReserves c (c.cachedRates p.tokens.length), 0 < b) ∧
      there p = .ok 1 (there.after p) ∧
      back (there.after p) = .ok 2 (back.after (there.after p)) ∧
      (back.after (there.after p)).amounts = [13, 4] := by
  intro c p₀ p there back
  have hthere : there.answer? p = some 1 := by decide +kernel
  have hback : back.answer? (there.after p) = some 2 := by decide +kernel
  exact ⟨⟨["x", "y"], 0, .stable c, .standard, by rfl⟩, by decide +kernel, by decide +kernel,
    Action.eq_ok_of_answer? hthere, Action.eq_ok_of_answer? hback, by decide +kernel⟩

end Pool

end SwapPool
