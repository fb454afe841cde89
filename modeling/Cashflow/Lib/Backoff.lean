import Mathlib

/-!
# Backoff — capped doubling in machine integers

A delay that starts at a base and doubles up to a cap, computed in 64-bit signed arithmetic by
a loop that tests half the cap before it doubles.  `Backoff.after k` says in unbounded integers
what the delay is after `k` doublings, `Backoff.doublings` how many there can be, and `loop_eq`
ties the machine loop to both: it ends, assigns exactly those values and overflows nowhere.
-/

namespace Lib

/-- The settings of a backoff: a positive base and a cap not below it. -/
structure Backoff where
  base : Int64
  max : Int64
  base_pos : 0 < base
  base_le_max : base ≤ max

namespace Backoff

/-- The loop `for ; step < attempt && delay < max; step++` that sets the delay to the cap and
breaks when it is above `max/2`, and doubles it otherwise: the delay it leaves and, for each
iteration, its counter and the delay it assigned; `none` when the fuel runs out first. -/
def loop (b : Backoff) (attempt : Int64) :
    Nat → Int64 → Int64 → Option (Int64 × List (Int64 × Int64))
  | 0, _, _ => none
  | fuel + 1, step, delay =>
    if step < attempt ∧ delay < b.max then
      -- the early exit leaves by `break`, without the increment
      if b.max / 2 < delay then some (b.max, [(step, b.max)])
      else (loop b attempt fuel (step + 1) (delay * 2)).map fun r =>
        (r.1, (step, delay * 2) :: r.2)
    else some (delay, [])

/-- The delay after `k` doublings, in unbounded arithmetic. -/
def after (b : Backoff) (k : Nat) : Int := min (b.base.toInt * 2 ^ k) b.max.toInt

variable (b : Backoff)

/-- The base as an integer. -/
theorem base_toInt_pos : 0 < b.base.toInt := Int64.lt_iff_toInt_lt.mp b.base_pos

/-- And below the cap. -/
theorem base_toInt_le : b.base.toInt ≤ b.max.toInt := Int64.le_iff_toInt_le.mp b.base_le_max

/-- Doubling reaches the cap some time. -/
theorem exists_reaches : ∃ k : Nat, b.max.toInt ≤ b.base.toInt * 2 ^ k := by
  have hPos := b.base_toInt_pos
  have hMax := b.max.toInt_lt
  exact ⟨63, by omega⟩

/-- How many doublings take the base up to the cap. -/
def doublings : Nat := Nat.find b.exists_reaches

/-- The number of doublings is the first that reaches it. -/
theorem doublings_le_iff (k : Nat) : b.doublings ≤ k ↔ b.max.toInt ≤ b.base.toInt * 2 ^ k := by
  constructor
  · intro h
    have hReached := Nat.find_spec b.exists_reaches
    have hPow : (2 : Int) ^ b.doublings ≤ 2 ^ k := by
      exact_mod_cast Nat.pow_le_pow_right (by omega) h
    calc b.max.toInt
        ≤ b.base.toInt * 2 ^ b.doublings := hReached
      _ ≤ b.base.toInt * 2 ^ k := Int.mul_le_mul_of_nonneg_left hPow b.base_toInt_pos.le
  · exact fun h => Nat.find_min' b.exists_reaches h

/-- Sixty-three doublings take any base to any cap. -/
theorem doublings_le : b.doublings ≤ 63 := by
  rw [doublings_le_iff]
  have hPos := b.base_toInt_pos
  have hMax := b.max.toInt_lt
  omega

@[simp] theorem after_zero : b.after 0 = b.base.toInt := by
  simp only [after, pow_zero, mul_one]
  exact min_eq_left b.base_toInt_le

/-- No delay is zero. -/
theorem after_pos (k : Nat) : 0 < b.after k := by
  have hPow : (0 : Int) < 2 ^ k := by positivity
  have hPos := b.base_toInt_pos
  exact lt_min (Int.mul_pos hPos hPow) (hPos.trans_le b.base_toInt_le)

/-- The cap is reached after that many doublings, and not before. -/
theorem after_lt_max_iff (k : Nat) : b.after k < b.max.toInt ↔ k < b.doublings := by
  rw [← Nat.not_le, doublings_le_iff, after, min_lt_iff]
  omega

/-- From then on the delay is the cap. -/
theorem after_eq_max {k : Nat} (h : b.doublings ≤ k) : b.after k = b.max.toInt :=
  min_eq_right ((b.doublings_le_iff k).mp h)

/-- One more doubling, by the test the loop makes. -/
theorem after_succ (k : Nat) :
    b.after (k + 1) = if b.max.toInt / 2 < b.after k then b.max.toInt else b.after k * 2 := by
  have hMax := b.base_toInt_pos.trans_le b.base_toInt_le
  by_cases hHalf : b.max.toInt / 2 < b.after k
  · rw [if_pos hHalf]
    simp only [after, pow_succ, ← mul_assoc] at hHalf ⊢
    omega
  · rw [if_neg hHalf]
    simp only [after, pow_succ, ← mul_assoc] at hHalf ⊢
    omega

/-! ## The machine loop -/

/-- Halving the cap does not overflow. -/
theorem half_toInt : (b.max / 2).toInt = b.max.toInt / 2 := by
  have hPos := b.base_toInt_pos.trans_le b.base_toInt_le
  have hMin : b.max ≠ Int64.minValue := by
    intro h
    rw [h, Int64.toInt_minValue] at hPos
    omega
  rw [Int64.toInt_div_of_ne_left _ _ hMin, Int.tdiv_eq_ediv_of_nonneg hPos.le]
  rfl

/-- Nor does doubling a delay that is no more than half of the cap. -/
theorem double_toInt {delay : Int64} (hPos : 0 < delay.toInt)
    (hHalf : delay.toInt ≤ b.max.toInt / 2) : (delay * 2).toInt = delay.toInt * 2 := by
  have hMax := b.max.toInt_lt
  rw [Int64.toInt_mul]
  show (delay.toInt * 2).bmod (2 ^ 64) = _
  exact Int.bmod_eq_of_le (by omega) (by omega)

/-- Nor does counting up to the attempt. -/
theorem next_toInt {step attempt : Int64} (h : step.toInt < attempt.toInt) :
    (step + 1).toInt = step.toInt + 1 := by
  have hAttempt := attempt.toInt_lt
  have hStep := step.le_toInt
  rw [Int64.toInt_add]
  show (step.toInt + 1).bmod (2 ^ 64) = _
  exact Int.bmod_eq_of_le (by omega) (by omega)

/-- Counter and delay of the iteration that makes doubling `k + 1`. -/
def iteration (k : Nat) : Int × Int := (k + 1, b.after (k + 1))

/-- Entered with `k` doublings made, the loop makes those that `attempt` and the cap still allow
and leaves the delay that `attempt` asks for. -/
theorem loop_eq (attempt : Int64) (n : Nat) (hAttempt : attempt.toInt = n + 1) (fuel : Nat) :
    ∀ (k : Nat) (step delay : Int64), b.doublings - k < fuel → k ≤ n →
      step.toInt = k + 1 → delay.toInt = b.after k →
      ∃ last trace, b.loop attempt fuel step delay = some (last, trace) ∧
        last.toInt = b.after n ∧
        trace.map (fun e => (e.1.toInt, e.2.toInt)) =
          (List.range' k (min n b.doublings - k)).map b.iteration := by
  -- induction on the fuel; the doublings still to make bound it from below
  induction fuel with
  | zero => intro k step delay hFuel; omega
  | succ fuel ih =>
    intro k step delay hFuel hk hStep hDelay
    have hGo : step < attempt ∧ delay < b.max ↔ k < n ∧ k < b.doublings := by
      rw [Int64.lt_iff_toInt_lt, Int64.lt_iff_toInt_lt, hDelay, after_lt_max_iff]
      omega
    simp only [loop]
    by_cases hEnter : k < n ∧ k < b.doublings
    · rw [if_pos (hGo.mpr hEnter)]
      have hSucc := b.after_succ k
      by_cases hHalf : b.max / 2 < delay
      · -- the next doubling would pass the cap: this iteration is the last one
        have hClamp : b.after (k + 1) = b.max.toInt := by
          rw [hSucc, if_pos]
          rw [← hDelay, ← half_toInt]
          exact Int64.lt_iff_toInt_lt.mp hHalf
        have hLast : b.doublings = k + 1 := by
          have := (b.after_lt_max_iff (k + 1)).not.mp (by omega)
          omega
        rw [if_pos hHalf]
        refine ⟨b.max, [(step, b.max)], rfl, (b.after_eq_max (by omega)).symm, ?_⟩
        have hLength : min n b.doublings - k = 1 := by omega
        simp [hLength, iteration, hClamp, hStep]
      · -- there is room to double, and the loop goes on
        have hRoom : delay.toInt ≤ b.max.toInt / 2 := by
          rw [← half_toInt]
          exact Int.not_lt.mp fun h => hHalf (Int64.lt_iff_toInt_lt.mpr h)
        have hDouble : (delay * 2).toInt = b.after (k + 1) := by
          rw [b.double_toInt (hDelay ▸ b.after_pos k) hRoom, hSucc, if_neg (by omega), hDelay]
        have hNext : (step + 1).toInt = (k + 1 : Nat) + 1 := by
          rw [next_toInt (Int64.lt_iff_toInt_lt.mp (hGo.mpr hEnter).1), hStep]
          rfl
        rw [if_neg hHalf]
        obtain ⟨last, trace, hLoop, hEnd, hTrace⟩ :=
          ih (k + 1) (step + 1) (delay * 2) (by omega) (by omega) hNext hDouble
        refine ⟨last, (step, delay * 2) :: trace, by rw [hLoop]; rfl, hEnd, ?_⟩
        have hLength : min n b.doublings - k = (min n b.doublings - (k + 1)) + 1 := by omega
        rw [hLength, List.range'_succ, List.map_cons, List.map_cons, hTrace]
        simp [iteration, hStep, hDouble]
    · -- the loop is left: all attempts are counted, or the cap is reached
      rw [if_neg (mt hGo.mp hEnter)]
      have hLength : min n b.doublings - k = 0 := by omega
      refine ⟨delay, [], rfl, ?_, by simp [hLength]⟩
      rcases Nat.lt_or_ge k n with hLt | hGe
      · have hFull : b.doublings ≤ k := by omega
        rw [hDelay, b.after_eq_max hFull, b.after_eq_max (by omega)]
      · rw [hDelay, Nat.le_antisymm hk hGe]

end Backoff

end Lib
