import Mathlib.Data.Int.Log
import Mathlib.Data.Rat.Floor
import Mathlib.Tactic.Linarith

/-!
# Binary64 arithmetic

The numbers of IEEE 754 binary64 are the rationals `k * 2 ^ e` with at most 53
binary digits in `k` and `-1074 ≤ e`, as long as they stay below `2 ^ 1024`. An
operation rounds its exact result to the nearest of them, a tie to the one with
the even last digit. The exponent is not bounded above here: whether a result
overflows is asked of the rounded value.

* `round_exact` — a representable number is its own rounding;
* `round_mono` — rounding keeps the order;
* `toInt64_toInt` — a conversion to a machine integer that fits drops the fraction.
-/

namespace Lib.Binary64

/-- The nearest integer, a tie going to the even one. -/
def nearest (x : ℚ) : ℤ :=
  if x - ⌊x⌋ < 1 / 2 ∨ (x - ⌊x⌋ = 1 / 2 ∧ ⌊x⌋ % 2 = 0) then ⌊x⌋ else ⌊x⌋ + 1

/-- The exponent of the last binary place of a number of this size. -/
def place (x : ℚ) : ℤ := max (Int.log 2 |x| - 52) (-1074)

/-- The nearest binary64 number. -/
def round (x : ℚ) : ℚ := nearest (x / 2 ^ place x) * 2 ^ place x

/-! ## Integers -/

/-- An integer is nearest to itself. -/
theorem nearest_intCast (n : ℤ) : nearest n = n := by
  simp [nearest]

/-- Rounding to integers is monotone. -/
theorem nearest_mono {x y : ℚ} (h : x ≤ y) : nearest x ≤ nearest y := by
  have hFloor : ⌊x⌋ ≤ ⌊y⌋ := Int.floor_le_floor h
  unfold nearest
  split_ifs with hx hy hy
  · -- both are rounded down
    exact hFloor
  · omega
  · -- `x` is past the middle of its unit and `y` is not, so `y` is in a later one
    rcases lt_or_eq_of_le hFloor with hLt | hEq
    · omega
    · exfalso
      rw [← hEq] at hy
      have hUp : ¬ x - ⌊x⌋ < 1 / 2 := fun hLt => hx (.inl hLt)
      rcases hy with hy | ⟨hy, hEven⟩
      · linarith
      · rcases lt_or_eq_of_le (not_lt.mp hUp) with hMore | hSame
        · linarith
        · exact hx (.inr ⟨hSame.symm, hEven⟩)
  · omega

/-- An integer below stays below. -/
theorem le_nearest {n : ℤ} {x : ℚ} (h : (n : ℚ) ≤ x) : n ≤ nearest x := by
  rw [← nearest_intCast n]
  exact nearest_mono h

/-- And one above stays above. -/
theorem nearest_le {n : ℤ} {x : ℚ} (h : x ≤ n) : nearest x ≤ n := by
  rw [← nearest_intCast n]
  exact nearest_mono h

/-! ## Representable numbers -/

/-- Zero is exact. -/
theorem round_zero : round 0 = 0 := by
  simp [round, nearest]

/-- A multiple of the unit in the last place is its own rounding. -/
theorem round_of_multiple {x : ℚ} {n : ℤ} (h : x = n * 2 ^ place x) : round x = x := by
  have hPos : (0 : ℚ) < 2 ^ place x := zpow_pos (by norm_num) _
  have hQuotient : x / 2 ^ place x = n := by
    rw [div_eq_iff hPos.ne']
    exact h
  rw [round, hQuotient, nearest_intCast]
  exact h.symm

/-- A power of two counted in smaller units. -/
theorem zpow_split {p e : ℤ} (h : p ≤ e) :
    (2 : ℚ) ^ e = ((2 ^ (e - p).toNat : ℤ) : ℚ) * 2 ^ p := by
  push_cast
  rw [← zpow_natCast, ← zpow_add₀ (by norm_num), Int.toNat_of_nonneg (by omega), Int.sub_add_cancel]

/-- Up to 53 bits in a unit the format has, a number is exact. -/
theorem round_exact {k : ℤ} (hk : |k| ≤ 2 ^ 53) {e : ℤ} (he : -1074 ≤ e) :
    round (k * 2 ^ e) = k * 2 ^ e := by
  have hPow : (0 : ℚ) < 2 ^ e := zpow_pos (by norm_num) _
  have hAbs : |(k * 2 ^ e : ℚ)| = (|k| : ℤ) * 2 ^ e := by
    rw [abs_mul, abs_of_pos hPow, Int.cast_abs]
  rcases eq_or_ne k 0 with rfl | hZero
  · simpa using round_zero
  have hPos : (0 : ℚ) < |(k * 2 ^ e : ℚ)| := by
    rw [abs_pos]
    exact mul_ne_zero (Int.cast_ne_zero.mpr hZero) hPow.ne'
  rcases lt_or_eq_of_le hk with hLt | hEq
  · -- the last place is no larger than the unit `x` is counted in
    have hSize : |(k * 2 ^ e : ℚ)| < (2 : ℕ) ^ (53 + e) := by
      rw [hAbs, zpow_add₀ (by norm_num)]
      have hCast : ((|k| : ℤ) : ℚ) < 2 ^ 53 := by exact_mod_cast hLt
      exact mul_lt_mul_of_pos_right (by exact_mod_cast hCast) (by exact_mod_cast hPow)
    have hLog := (Int.lt_zpow_iff_log_lt (by norm_num) hPos).mp hSize
    have hPlace : place (k * 2 ^ e) ≤ e := max_le (by omega) he
    refine round_of_multiple (n := k * 2 ^ (e - place (k * 2 ^ e)).toNat) ?_
    rw [Int.cast_mul, mul_assoc, ← zpow_split hPlace]
  · -- a power of two, counted in the next unit
    have hPlace : place (k * 2 ^ e) = e + 1 := by
      have hLog : Int.log 2 |(k * 2 ^ e : ℚ)| = 53 + e := by
        have hSize : |(k * 2 ^ e : ℚ)| = (2 : ℕ) ^ (53 + e) := by
          rw [hAbs, hEq, zpow_add₀ (by norm_num)]
          norm_num
        rw [hSize]
        exact Int.log_zpow (by norm_num) _
      rw [place, hLog]
      omega
    -- a power of two is even, so half of it in the next unit is exact
    have hHalf : k = k / 2 * 2 := by
      rcases abs_choice k with h | h <;> omega
    refine round_of_multiple (n := k / 2) ?_
    rw [hPlace, zpow_add₀ (by norm_num)]
    have hCast : (k : ℚ) = (k / 2 : ℤ) * 2 := by exact_mod_cast hHalf
    rw [hCast]
    ring

/-! ## Order -/

/-- Rounding keeps the sign. -/
theorem round_nonneg {x : ℚ} (hx : 0 ≤ x) : 0 ≤ round x := by
  have hPos : (0 : ℚ) < 2 ^ place x := zpow_pos (by norm_num) _
  have hNearest : 0 ≤ nearest (x / 2 ^ place x) :=
    le_nearest (by rw [Int.cast_zero]; positivity)
  exact mul_nonneg (by exact_mod_cast hNearest) hPos.le

/-- The last place does not go down as numbers grow. -/
theorem place_mono {x y : ℚ} (hx : 0 < x) (h : x ≤ y) : place x ≤ place y := by
  have hLog : Int.log 2 |x| ≤ Int.log 2 |y| := by
    rw [abs_of_pos hx, abs_of_pos (hx.trans_le h)]
    exact Int.log_mono_right hx h
  unfold place
  omega

/-- A power of two with its exponent past the last place stays on its side. -/
theorem round_le_zpow {x : ℚ} {e : ℤ} (he : place x ≤ e) (h : x ≤ 2 ^ e) : round x ≤ 2 ^ e := by
  have hPos : (0 : ℚ) < 2 ^ place x := zpow_pos (by norm_num) _
  have hNearest : nearest (x / 2 ^ place x) ≤ 2 ^ (e - place x).toNat :=
    nearest_le (by rw [div_le_iff₀ hPos, ← zpow_split he]; exact h)
  rw [zpow_split he, round]
  exact mul_le_mul_of_nonneg_right (by exact_mod_cast hNearest) hPos.le

/-- A power of two below a number stays below it. -/
theorem zpow_le_round {x : ℚ} {e : ℤ} (he : place x ≤ e) (h : 2 ^ e ≤ x) : 2 ^ e ≤ round x := by
  have hPos : (0 : ℚ) < 2 ^ place x := zpow_pos (by norm_num) _
  have hNearest : (2 ^ (e - place x).toNat : ℤ) ≤ nearest (x / 2 ^ place x) :=
    le_nearest (by rw [le_div_iff₀ hPos, ← zpow_split he]; exact h)
  rw [zpow_split he, round]
  exact mul_le_mul_of_nonneg_right (by exact_mod_cast hNearest) hPos.le

/-- Rounding is monotone on the numbers that are not negative: within one unit as for integers, and
across units with a power of two in between. -/
theorem round_mono {x y : ℚ} (hx : 0 ≤ x) (h : x ≤ y) : round x ≤ round y := by
  rcases eq_or_lt_of_le hx with rfl | hPos
  · rw [round_zero]
    exact round_nonneg h
  rcases eq_or_lt_of_le (place_mono hPos h) with hSame | hLess
  · -- counted in the same unit
    have hUnit : (0 : ℚ) < 2 ^ place y := zpow_pos (by norm_num) _
    rw [round, round, hSame]
    have hNearest := nearest_mono (div_le_div_of_nonneg_right h hUnit.le)
    exact mul_le_mul_of_nonneg_right (by exact_mod_cast hNearest) hUnit.le
  · -- a power of two lies between them
    have hY : 0 < y := hPos.trans_le h
    have hPlace : place y = Int.log 2 y - 52 := by
      unfold place at hLess ⊢
      rw [abs_of_pos hY] at hLess ⊢
      omega
    have hX : x < 2 ^ Int.log 2 y := by
      have hLog : Int.log 2 x < Int.log 2 y := by
        have hLeft : Int.log 2 x - 52 ≤ place x := by
          rw [place, abs_of_pos hPos]
          exact le_max_left _ _
        omega
      exact_mod_cast (Int.lt_zpow_iff_log_lt (by norm_num) hPos).mpr hLog
    have hPow : (2 : ℚ) ^ Int.log 2 y ≤ y := by
      exact_mod_cast Int.zpow_log_le_self (by norm_num) hY
    exact (round_le_zpow (by omega) hX.le).trans (zpow_le_round (by omega) hPow)

/-! ## Machine integers -/

/-- The number without its fraction. -/
def truncate (x : ℚ) : ℤ := if 0 ≤ x then ⌊x⌋ else ⌈x⌉

/-- An integer is truncated to itself. -/
theorem truncate_intCast (n : ℤ) : truncate n = n := by
  simp [truncate]

/-- The conversion to `int64`; what becomes of a number that does not fit is up to the
machine. -/
def toInt64 (wild : ℚ → Int64) (x : ℚ) : Int64 :=
  if Int64.minValue.toInt ≤ truncate x ∧ truncate x ≤ Int64.maxValue.toInt then
    Int64.ofInt (truncate x)
  else wild x

/-- What fits is converted to its integer part. -/
theorem toInt64_toInt (wild : ℚ → Int64) {x : ℚ} (hLow : -2 ^ 63 ≤ truncate x)
    (hHigh : truncate x < 2 ^ 63) : (toInt64 wild x).toInt = truncate x := by
  have hFits : Int64.minValue.toInt ≤ truncate x ∧ truncate x ≤ Int64.maxValue.toInt := by
    rw [Int64.toInt_minValue, Int64.toInt_maxValue]
    omega
  rw [toInt64, if_pos hFits]
  exact Int64.toInt_ofInt_of_le (by omega) (by omega)

end Lib.Binary64
