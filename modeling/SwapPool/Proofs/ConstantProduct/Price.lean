import Mathlib.Tactic.Positivity
import Mathlib.Tactic.Ring
import SwapPool.ConstantProduct
import SwapPool.Proofs.Number.Quotient
import SwapPool.Proofs.Outcome

/-! The two prices of a constant-product pair. Each is a rounded quotient, and so
an inequality decides which integers are within it; the same terms stand in both,
on one side of `≤` and of `<`, which makes the price of an output the inverse of
what an input buys, less one unit at most. Either way the product of the pair does
not fall: the pool pays at most, and takes at least, what keeps it. What an input
buys follows each of its terms in one direction and stops a unit short of the
reserve. -/

namespace SwapPool.ConstantProduct

variable {rIn rOut x y fee : Int}

theorem feeDivisor_pos : 0 < feeDivisor := by decide

theorem denominator_pos (hi : 0 < rIn) (hf : fee ≤ feeDivisor) (hx : 0 ≤ x) :
    0 < rIn * feeDivisor + x * (feeDivisor - fee) :=
  add_pos_of_pos_of_nonneg (mul_pos hi feeDivisor_pos) (mul_nonneg hx (by omega))

theorem amountOut_eq_ok_iff (hx : 0 < x) : amountOut x rIn rOut fee = .ok y ↔
    0 < rIn ∧ 0 < rOut ∧ fee ≤ feeDivisor ∧
      y = (x * (feeDivisor - fee) * rOut).fdiv (rIn * feeDivisor + x * (feeDivisor - fee)) := by
  have hn : ¬ x ≤ 0 := by omega
  simp only [amountOut, if_neg hn, unless_eq_ok_iff, not_or, bind_eq_ok_iff,
    Checked.sub_eq_ok_iff, Checked.quot_eq_ok_iff, not_le]
  constructor
  · rintro ⟨⟨hi, ho⟩, _, ⟨hf, rfl⟩, -, rfl⟩
    exact ⟨hi, ho, hf, rfl⟩
  · rintro ⟨hi, ho, hf, rfl⟩
    exact ⟨⟨hi, ho⟩, _, ⟨hf, rfl⟩, (denominator_pos hi hf hx.le).ne', rfl⟩

theorem amountOut_eq_ok_iff_of_nonpos (hx : x ≤ 0) :
    amountOut x rIn rOut fee = .ok y ↔ 0 < rIn ∧ 0 < rOut ∧ y = 0 := by
  simp only [amountOut, if_pos hx, unless_eq_ok_iff, not_or, not_le, Except.ok.injEq, and_assoc,
    @eq_comm _ 0 y]

theorem amountIn_eq_ok_iff (hy : 0 < y) : amountIn y rIn rOut fee = .ok x ↔
    0 < rIn ∧ y < rOut ∧ fee < feeDivisor ∧
      x = (rIn * y * feeDivisor).fdiv ((rOut - y) * (feeDivisor - fee)) + 1 := by
  have hn : ¬ y ≤ 0 := by omega
  simp only [amountIn, if_neg hn, unless_eq_ok_iff, not_or, bind_eq_ok_iff,
    Checked.sub_eq_ok_iff, Checked.quot_eq_ok_iff, pure_eq_ok, Except.ok.injEq, not_le]
  constructor
  · rintro ⟨⟨hi, -⟩, hlt, _, ⟨-, rfl⟩, _, ⟨hf, rfl⟩, _, ⟨hd, rfl⟩, rfl⟩
    have hk : feeDivisor - fee ≠ 0 := right_ne_zero_of_mul hd
    exact ⟨hi, hlt, by omega, rfl⟩
  · rintro ⟨hi, hlt, hf, rfl⟩
    have hd : 0 < (rOut - y) * (feeDivisor - fee) := mul_pos (by omega) (by omega)
    exact ⟨⟨hi, by omega⟩, hlt, _, ⟨hlt.le, rfl⟩, _, ⟨hf.le, rfl⟩, _, ⟨hd.ne', rfl⟩, rfl⟩

/-- The outputs that an exact input covers. -/
theorem le_amountOut_iff (hx : 0 < x) (h : amountOut x rIn rOut fee = .ok y) (k : Int) :
    k ≤ y ↔ rIn * k * feeDivisor ≤ x * ((rOut - k) * (feeDivisor - fee)) := by
  obtain ⟨hi, -, hf, rfl⟩ := (amountOut_eq_ok_iff hx).1 h
  rw [le_fdiv_iff (denominator_pos hi hf hx.le)]
  constructor <;> intro hk <;> linarith

/-- The inputs that reach the price of an exact output. -/
theorem amountIn_le_iff (hy : 0 < y) (h : amountIn y rIn rOut fee = .ok x) (k : Int) :
    x ≤ k ↔ rIn * y * feeDivisor < k * ((rOut - y) * (feeDivisor - fee)) := by
  obtain ⟨-, hlt, hf, rfl⟩ := (amountIn_eq_ok_iff hy).1 h
  have hd : 0 < (rOut - y) * (feeDivisor - fee) := mul_pos (by omega) (by omega)
  rw [← not_le, ← le_fdiv_iff hd]
  omega

/-- What an exact input buys is within the output reserve, against the input net of the fee. -/
theorem amountOut_eq_ok (hx : 0 < x) (h : amountOut x rIn rOut fee = .ok y) :
    0 < rIn ∧ 0 < rOut ∧ fee ≤ feeDivisor ∧
      y * (rIn * feeDivisor + x * (feeDivisor - fee)) ≤ x * (feeDivisor - fee) * rOut := by
  obtain ⟨hi, ho, hf, rfl⟩ := (amountOut_eq_ok_iff hx).1 h
  exact ⟨hi, ho, hf, fdiv_mul_le _ (denominator_pos hi hf hx.le)⟩

theorem amountOut_nonneg (hx : 0 < x) (h : amountOut x rIn rOut fee = .ok y) : 0 ≤ y := by
  obtain ⟨hi, ho, hf, rfl⟩ := (amountOut_eq_ok_iff hx).1 h
  have hnet : 0 ≤ x * (feeDivisor - fee) := mul_nonneg hx.le (by omega)
  exact Int.fdiv_nonneg (mul_nonneg hnet ho.le) (denominator_pos hi hf hx.le).le

/-- No input empties the output reserve. -/
theorem amountOut_lt (hx : 0 < x) (h : amountOut x rIn rOut fee = .ok y) : y < rOut := by
  obtain ⟨hi, ho, -⟩ := (amountOut_eq_ok_iff hx).1 h
  rw [← not_le, le_amountOut_iff hx h, sub_self, zero_mul, mul_zero, not_le]
  exact mul_pos (mul_pos hi ho) feeDivisor_pos

theorem pos_of_amountOut (h : amountOut x rIn rOut fee = .ok y) (hy : 0 < y) : 0 < x := by
  by_contra hx
  obtain ⟨-, -, rfl⟩ := (amountOut_eq_ok_iff_of_nonpos (not_lt.1 hx)).1 h
  exact lt_irrefl 0 hy

/-- What an exact output costs exceeds what it is worth, against the input net of the fee. -/
theorem amountIn_eq_ok (hy : 0 < y) (h : amountIn y rIn rOut fee = .ok x) :
    0 < rIn ∧ y < rOut ∧ fee < feeDivisor ∧
      rIn * y * feeDivisor < x * ((rOut - y) * (feeDivisor - fee)) := by
  obtain ⟨hi, hlt, hf, -⟩ := (amountIn_eq_ok_iff hy).1 h
  exact ⟨hi, hlt, hf, (amountIn_le_iff hy h x).1 le_rfl⟩

theorem amountIn_pos (hy : 0 < y) (h : amountIn y rIn rOut fee = .ok x) : 0 < x := by
  obtain ⟨hi, hlt, hf, -⟩ := (amountIn_eq_ok_iff hy).1 h
  have hcost : 0 < rIn * y * feeDivisor := mul_pos (mul_pos hi hy) feeDivisor_pos
  rw [← not_le, amountIn_le_iff hy h, zero_mul]
  exact hcost.le.not_gt

/-- An exact-input swap keeps the product of the pair and empties neither side. -/
theorem amountOut_keeps (hx : 0 < x) (hf : 0 ≤ fee) (h : amountOut x rIn rOut fee = .ok y) :
    0 < rIn ∧ 0 < rOut ∧ y < rOut ∧ rIn * rOut ≤ (rIn + x) * (rOut - y) := by
  obtain ⟨hi, ho, hk, hy⟩ := amountOut_eq_ok hx h
  have hfd := feeDivisor_pos
  set net := x * (feeDivisor - fee)
  have hn : net ≤ x * feeDivisor := mul_le_mul_of_nonneg_left (by omega) hx.le
  have hlt := amountOut_lt hx h
  refine ⟨hi, ho, hlt, le_of_mul_le_mul_right ?_ hfd⟩
  calc rIn * rOut * feeDivisor
      ≤ (rIn * feeDivisor + net) * (rOut - y) := by linarith
    _ ≤ (rIn * feeDivisor + x * feeDivisor) * (rOut - y) :=
        mul_le_mul_of_nonneg_right (by omega) (by omega)
    _ = (rIn + x) * (rOut - y) * feeDivisor := by ring

/-- An exact-output swap costs something, keeps the product of the pair and empties neither side. -/
theorem amountIn_keeps (hy : 0 < y) (hf : 0 ≤ fee) (h : amountIn y rIn rOut fee = .ok x) :
    0 < rIn ∧ 0 < x ∧ y < rOut ∧ rIn * rOut ≤ (rIn + x) * (rOut - y) := by
  obtain ⟨hi, ho, hk, hx⟩ := amountIn_eq_ok hy h
  have hfd := feeDivisor_pos
  have hx0 := amountIn_pos hy h
  refine ⟨hi, hx0, ho, ?_⟩
  have hn : x * ((rOut - y) * (feeDivisor - fee)) ≤ x * (rOut - y) * feeDivisor := by
    rw [← mul_assoc]
    exact mul_le_mul_of_nonneg_left (by omega) (mul_nonneg hx0.le (by omega))
  have hlt : rIn * y < x * (rOut - y) := lt_of_mul_lt_mul_right (hx.trans_le hn) hfd.le
  linarith

/-! ### The price of an output against what an input buys -/

theorem exists_amountOut (hi : 0 < rIn) (ho : 0 < rOut) (hf : fee ≤ feeDivisor) (x : Int) :
    ∃ y, amountOut x rIn rOut fee = .ok y := by
  rcases le_or_gt x 0 with hx | hx
  · exact ⟨0, (amountOut_eq_ok_iff_of_nonpos hx).2 ⟨hi, ho, rfl⟩⟩
  · exact ⟨_, (amountOut_eq_ok_iff hx).2 ⟨hi, ho, hf, rfl⟩⟩

/-- The price of an output buys it. -/
theorem le_amountOut_of_amountIn {z : Int} (hy : 0 < y) (h : amountIn y rIn rOut fee = .ok x)
    (hz : amountOut x rIn rOut fee = .ok z) : y ≤ z := by
  obtain ⟨-, -, -, hlt⟩ := amountIn_eq_ok hy h
  exact (le_amountOut_iff (amountIn_pos hy h) hz y).2 hlt.le

/-- An input that buys an output is at most one unit below its price. -/
theorem amountIn_le_succ {a z : Int} (hy : 0 < y) (h : amountIn y rIn rOut fee = .ok x)
    (hz : amountOut a rIn rOut fee = .ok z) (hle : y ≤ z) : x ≤ a + 1 := by
  have ha : 0 < a := pos_of_amountOut hz (hy.trans_le hle)
  obtain ⟨-, hlt, hf, -⟩ := amountIn_eq_ok hy h
  have hd : 0 < (rOut - y) * (feeDivisor - fee) := mul_pos (by omega) (by omega)
  rw [amountIn_le_iff hy h]
  calc rIn * y * feeDivisor
      ≤ a * ((rOut - y) * (feeDivisor - fee)) := (le_amountOut_iff ha hz y).1 hle
    _ < (a + 1) * ((rOut - y) * (feeDivisor - fee)) := mul_lt_mul_of_pos_right (by omega) hd

/-- The price of an exact output buys it, and an input two units below does not. What any input buys
costs at most one unit more than that input. -/
theorem exact_output_price_tight (hi : 0 < rIn) (ho : 0 < rOut) (hf : fee < feeDivisor) :
    (∀ y, 0 < y → y < rOut → ∃ x, amountIn y rIn rOut fee = .ok x ∧
      (∃ z, amountOut x rIn rOut fee = .ok z ∧ y ≤ z) ∧
      (2 ≤ x → ∃ z, amountOut (x - 2) rIn rOut fee = .ok z ∧ z < y) ∧
      ∀ a z, amountOut a rIn rOut fee = .ok z → y ≤ z → x ≤ a + 1) ∧
    ∀ a, 0 < a → ∃ o, amountOut a rIn rOut fee = .ok o ∧
      (0 < o → ∃ x, amountIn o rIn rOut fee = .ok x ∧ x ≤ a + 1) := by
  have priced {y : Int} (hy : 0 < y) (hlt : y < rOut) :
      ∃ x, amountIn y rIn rOut fee = .ok x :=
    ⟨_, (amountIn_eq_ok_iff hy).2 ⟨hi, hlt, hf, rfl⟩⟩
  have bought (a : Int) : ∃ z, amountOut a rIn rOut fee = .ok z := exists_amountOut hi ho hf.le a
  constructor
  · intro y hy hlt
    obtain ⟨x, hx⟩ := priced hy hlt
    have minimal (a z : Int) (hz : amountOut a rIn rOut fee = .ok z) (hle : y ≤ z) :
        x ≤ a + 1 :=
      amountIn_le_succ hy hx hz hle
    refine ⟨x, hx, ?_, ?_, minimal⟩
    · obtain ⟨z, hz⟩ := bought x
      exact ⟨z, hz, le_amountOut_of_amountIn hy hx hz⟩
    · intro _
      obtain ⟨z, hz⟩ := bought (x - 2)
      refine ⟨z, hz, not_le.1 fun hle => ?_⟩
      have := minimal (x - 2) z hz hle
      omega
  · intro a ha
    obtain ⟨o, hout⟩ := bought a
    refine ⟨o, hout, fun hpos => ?_⟩
    obtain ⟨x, hx⟩ := priced hpos (amountOut_lt ha hout)
    exact ⟨x, hx, amountIn_le_succ hpos hx hout le_rfl⟩

/-- Where the division is exact the price is one unit above the least input that buys the output. -/
theorem exact_output_price_tight_even_division :
    amountIn 100 100 200 0 = .ok 101 ∧
      (∃ z, amountOut 101 100 200 0 = .ok z ∧ 100 ≤ z) ∧
      (∃ z, amountOut 99 100 200 0 = .ok z ∧ z < 100) ∧
      ∃ o x, amountOut 100 100 200 0 = .ok o ∧ 0 < o ∧ amountIn o 100 200 0 = .ok x ∧
        x ≤ 101 := by
  obtain ⟨hprice, hbuys⟩ :=
    exact_output_price_tight (by decide : (0 : Int) < 100) (by decide : (0 : Int) < 200)
      feeDivisor_pos
  obtain ⟨x, hx, hcovers, hbelow, -⟩ := hprice 100 (by decide) (by decide)
  obtain ⟨o, ho, hback⟩ := hbuys 100 (by decide)
  obtain rfl : 101 = x := Except.ok.inj hx
  obtain rfl : 100 = o := Except.ok.inj ho
  obtain ⟨cost, hcost, hle⟩ := hback (by decide)
  exact ⟨hx, hcovers, hbelow (by decide), 100, cost, ho, by decide, hcost, hle⟩

/-! ### What an input buys on other terms -/

theorem amountOut_bounds (h : amountOut x rIn rOut fee = .ok y) : 0 ≤ y ∧ y < rOut := by
  rcases le_or_gt x 0 with hx | hx
  · obtain ⟨-, ho, rfl⟩ := (amountOut_eq_ok_iff_of_nonpos hx).1 h
    exact ⟨le_rfl, ho⟩
  · exact ⟨amountOut_nonneg hx h, amountOut_lt hx h⟩

/-- No change of terms in the trader's favour lowers the output. -/
theorem amountOut_mono {x' rIn' rOut' fee' y' : Int} (h : amountOut x rIn rOut fee = .ok y)
    (h' : amountOut x' rIn' rOut' fee' = .ok y') (hinput : x ≤ x') (hin : rIn' ≤ rIn)
    (hout : rOut ≤ rOut') (hfee : fee' ≤ fee) : y ≤ y' := by
  obtain ⟨hy, hlt⟩ := amountOut_bounds h
  rcases le_or_gt x 0 with hx | hx
  · obtain ⟨-, -, rfl⟩ := (amountOut_eq_ok_iff_of_nonpos hx).1 h
    exact (amountOut_bounds h').1
  · -- Each term stands on one side only of what decides whether `y` is covered.
    have hx' : 0 < x' := hx.trans_le hinput
    rw [le_amountOut_iff hx' h']
    obtain ⟨-, -, hf, -⟩ := amountOut_eq_ok hx h
    have hnet : 0 ≤ feeDivisor - fee := sub_nonneg.2 hf
    have hleft : 0 ≤ rOut' - y := by omega
    have hfd := feeDivisor_pos
    calc rIn' * y * feeDivisor
        ≤ rIn * y * feeDivisor := by gcongr
      _ ≤ x * ((rOut - y) * (feeDivisor - fee)) := (le_amountOut_iff hx h y).1 le_rfl
      _ ≤ x' * ((rOut' - y) * (feeDivisor - fee')) := by gcongr

/-- As long as a fee leaves something of the input, some input buys all but a unit of the
reserve. -/
theorem amountOut_leaving_one (hi : 0 < rIn) (ho : 0 < rOut) (hf : fee < feeDivisor) :
    amountOut (rIn * rOut * feeDivisor) rIn rOut fee = .ok (rOut - 1) := by
  have hpos : 0 < rIn * rOut * feeDivisor := mul_pos (mul_pos hi ho) feeDivisor_pos
  have hfd := feeDivisor_pos
  obtain ⟨y, hy⟩ := exists_amountOut hi ho hf.le (rIn * rOut * feeDivisor)
  have hreached : rOut - 1 ≤ y := by
    rw [le_amountOut_iff hpos hy, sub_sub_cancel, one_mul]
    calc rIn * (rOut - 1) * feeDivisor
        ≤ rIn * rOut * feeDivisor := by gcongr; omega
      _ ≤ rIn * rOut * feeDivisor * (feeDivisor - fee) :=
          le_mul_of_one_le_right hpos.le (by omega)
  have hlt := amountOut_lt hpos hy
  rw [hy, le_antisymm (Int.le_sub_one_of_lt hlt) hreached]

/-- What an exact input buys stays below the output reserve and does not fall when the input or the
output reserve grows, nor when the input reserve or the fee falls. No lower bound than the reserve
would do: some input leaves a single unit of it. -/
theorem output_monotone_never_drains (hi : 0 < rIn) (ho : 0 < rOut) (hf : fee < feeDivisor) :
    (∀ x, ∃ y, amountOut x rIn rOut fee = .ok y ∧ 0 ≤ y ∧ y < rOut ∧
      ∀ x' rIn' rOut' fee', x ≤ x' → 0 < rIn' → rIn' ≤ rIn → rOut ≤ rOut' → fee' ≤ fee →
        ∃ y', amountOut x' rIn' rOut' fee' = .ok y' ∧ y ≤ y') ∧
    ∃ x, amountOut x rIn rOut fee = .ok (rOut - 1) := by
  refine ⟨fun x => ?_, _, amountOut_leaving_one hi ho hf⟩
  obtain ⟨y, hy⟩ := exists_amountOut hi ho hf.le x
  obtain ⟨hnonneg, hlt⟩ := amountOut_bounds hy
  refine ⟨y, hy, hnonneg, hlt, fun x' rIn' rOut' fee' hinput hi' hin hout hfee => ?_⟩
  obtain ⟨y', hy'⟩ := exists_amountOut hi' (ho.trans_le hout) (hfee.trans hf.le) x'
  exact ⟨y', hy', amountOut_mono hy hy' hinput hin hout hfee⟩

/-- The highest fee leaves a hundredth of a percent of the input, which still buys most of the
reserve and, if it is large enough, all but a unit. -/
theorem output_monotone_never_drains_highest_fee :
    amountOut 1000000000 10000 10000 9999 = .ok 9090 ∧ (9090 : Int) < 10000 ∧
      (∃ y, amountOut 1000000001 9999 10001 9998 = .ok y ∧ 9090 ≤ y) ∧
      ∃ x, amountOut x 10000 10000 9999 = .ok 9999 := by
  obtain ⟨hanswered, hreached⟩ :=
    output_monotone_never_drains (by decide : (0 : Int) < 10000) (by decide : (0 : Int) < 10000)
      (by decide : 9999 < feeDivisor)
  obtain ⟨y, hy, -, hlt, hbetter⟩ := hanswered 1000000000
  obtain rfl : 9090 = y := Except.ok.inj hy
  have hraised := hbetter 1000000001 9999 10001 9998 (by decide) (by decide) (by decide)
    (by decide) (by decide)
  exact ⟨hy, hlt, hraised, hreached⟩

end SwapPool.ConstantProduct
