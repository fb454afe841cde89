import Cashflow.Lib.Backoff
import Cashflow.Lib.Binary64

/-!
# Backoff — the delay before the next attempt

`Worker.retryDelay` (`services/ledger/internal/outbox/worker.go`) spaces the attempts to publish
an outbox event, `Consumer.backoffDelay`
(`services/consolidation/internal/adapters/inbound/rabbitmq/consumer.go`) those to apply a
delivery.  Both double the configured base once per attempt, then scale the result by a random
factor and cap it again.  The scaling, `time.Duration(float64(delay) * factor)`, is the
parameter `jitter`, and `scaled` what the code computes for it; the durations are `int64`
nanoseconds.

Main results:
* `retryDelay_exact` — both compute `min (base * 2 ^ (n - 1)) max` before the jitter;
* `retryDelay_jittered` — whatever is drawn, the delay lies between half that and the cap.
-/

namespace Cashflow

open Lib

namespace Pipeline

/-- The doubling loop of both functions; attempts below one count as one. -/
def doubled (config : Backoff) (fuel : Nat) (attempt : Int64) :
    Option (Int64 × List (Int64 × Int64)) :=
  config.loop (if attempt < 1 then 1 else attempt) fuel 1 config.base

/-- The cap both functions put on the scaled delay. -/
def capped (config : Backoff) (result : Int64) : Int64 :=
  if config.max < result then config.max else result

/-- The delay as both functions return it. -/
def jittered (config : Backoff) (jitter : Int64 → Int64) (fuel : Nat) (attempt : Int64) :
    Option Int64 :=
  (doubled config fuel attempt).map fun r => capped config (jitter r.1)

end Pipeline

/-- `Worker.retryDelay`. -/
def Outbox.retryDelay : Backoff → (Int64 → Int64) → Nat → Int64 → Option Int64 :=
  Pipeline.jittered

/-- `Consumer.backoffDelay`. -/
def Consolidation.backoffDelay : Backoff → (Int64 → Int64) → Nat → Int64 → Option Int64 :=
  Pipeline.jittered

namespace Pipeline

theorem floor_toInt (attempt : Int64) :
    (if attempt < 1 then (1 : Int64) else attempt).toInt =
      ((max attempt.toInt 1 - 1).toNat : Int) + 1 := by
  have hOne : (1 : Int64).toInt = 1 := rfl
  by_cases hLow : attempt < 1
  · have hInt := Int64.lt_iff_toInt_lt.mp hLow
    rw [if_pos hLow]
    omega
  · have hInt := mt Int64.lt_iff_toInt_lt.mpr hLow
    rw [if_neg hLow]
    omega

/-- Whatever the attempt, the loop ends within as many iterations as there are doublings up to
the cap, each of them assigns the exact value, and both functions scale
`min (base * 2 ^ (n - 1)) max`. -/
theorem retryDelay_exact (config : Backoff) (attempt : Int64) (fuel : Nat)
    (hFuel : config.doublings < fuel) :
    ∃ last trace, doubled config fuel attempt = some (last, trace) ∧
      last.toInt =
        min (config.base.toInt * 2 ^ (max attempt.toInt 1 - 1).toNat) config.max.toInt ∧
      trace.length = min (max attempt.toInt 1 - 1).toNat config.doublings ∧
      trace.map (fun e => (e.1.toInt, e.2.toInt)) =
        (List.range trace.length).map (fun i : Nat =>
          ((i : Int) + 1, min (config.base.toInt * 2 ^ (i + 1)) config.max.toInt)) ∧
      ∀ jitter : Int64 → Int64,
        Outbox.retryDelay config jitter fuel attempt = some (capped config (jitter last)) ∧
        Consolidation.backoffDelay config jitter fuel attempt =
          some (capped config (jitter last)) := by
  obtain ⟨last, trace, hLoop, hLast, hTrace⟩ :=
    config.loop_eq _ (max attempt.toInt 1 - 1).toNat (floor_toInt attempt) fuel 0 1 config.base
      (by omega) (by omega) rfl config.after_zero.symm
  -- the loop counts doublings from attempt one, and stops at the cap
  have hDoubled : doubled config fuel attempt = some (last, trace) := hLoop
  have hLength : trace.length = min (max attempt.toInt 1 - 1).toNat config.doublings := by
    have h := congrArg List.length hTrace
    simpa using h
  refine ⟨last, trace, hDoubled, hLast, hLength, ?_, fun jitter => ?_⟩
  · rw [hTrace, hLength, Nat.sub_zero, List.range_eq_range']
    rfl
  · have hJittered : jittered config jitter fuel attempt = some (capped config (jitter last)) := by
      rw [jittered, hDoubled, Option.map_some]
    exact ⟨hJittered, hJittered⟩

/-- Three nanoseconds doubled on the hundredth attempt, up to the largest duration. -/
theorem retryDelay_exact_largest :
    ∃ last trace, doubled ⟨3, Int64.maxValue, by decide, by decide⟩ 64 100 = some (last, trace) ∧
      last.toInt = 2 ^ 63 - 1 ∧ trace.length ≤ 63 := by
  have hDoublings := Backoff.doublings_le ⟨3, Int64.maxValue, by decide, by decide⟩
  obtain ⟨last, trace, hDoubled, hLast, hLength, -⟩ :=
    retryDelay_exact ⟨3, Int64.maxValue, by decide, by decide⟩ 100 64 (by omega)
  refine ⟨last, trace, hDoubled, ?_, by omega⟩
  rw [hLast]
  decide

/-! ## Jitter -/

/-- `random.Float64()` of `math/rand` for the `Int63` it draws; dividing by a power of two is exact.
A draw that rounds to one is repeated there, and is not left out here. -/
def float64 (draw : Fin (2 ^ 63)) : ℚ := Binary64.round (draw : ℕ) / 2 ^ 63

/-- `time.Duration(float64(delay) * factor)` for `factor := 0.5 + random.Float64()`. -/
def scaled (wild : ℚ → Int64) (draw : Fin (2 ^ 63)) (delay : Int64) : Int64 :=
  Binary64.toInt64 wild (Binary64.round (Binary64.round delay.toInt *
    Binary64.round (1 / 2 + float64 draw)))

/-- Half of a small integer is a binary64 number. -/
theorem round_half {n : ℤ} (h : |n| ≤ 2 ^ 53) : Binary64.round (n / 2) = n / 2 := by
  have hExact := Binary64.round_exact h (show -1074 ≤ (-1 : ℤ) by norm_num)
  rwa [zpow_neg_one, ← div_eq_mul_inv] at hExact

theorem float64_bounds (draw : Fin (2 ^ 63)) : 0 ≤ float64 draw ∧ float64 draw ≤ 1 := by
  have hTop : Binary64.round (2 ^ 63) = 2 ^ 63 := by
    simpa using @Binary64.round_exact 1 (by norm_num) 63 (by norm_num)
  have hDraw : ((draw : ℕ) : ℚ) ≤ 2 ^ 63 := by exact_mod_cast draw.isLt.le
  constructor
  · exact div_nonneg (Binary64.round_nonneg (by positivity)) (by norm_num)
  · refine (div_le_one (by norm_num)).mpr ?_
    calc _ ≤ Binary64.round (2 ^ 63) := Binary64.round_mono (by positivity) hDraw
      _ = 2 ^ 63 := hTop

/-- The factor lies between one half and three halves. -/
theorem factor_bounds (draw : Fin (2 ^ 63)) :
    1 / 2 ≤ Binary64.round (1 / 2 + float64 draw) ∧
      Binary64.round (1 / 2 + float64 draw) ≤ 3 / 2 := by
  obtain ⟨hNonneg, hBelow⟩ := float64_bounds draw
  have hHalf : Binary64.round (1 / 2) = 1 / 2 := by simpa using @round_half 1 (by norm_num)
  have hUpper : Binary64.round (3 / 2) = 3 / 2 := by simpa using @round_half 3 (by norm_num)
  constructor
  · calc (1 / 2 : ℚ) = Binary64.round (1 / 2) := hHalf.symm
      _ ≤ _ := Binary64.round_mono (by norm_num) (by linarith)
  · calc _ ≤ Binary64.round (3 / 2) := Binary64.round_mono (by linarith) (by linarith)
      _ = 3 / 2 := hUpper

/-- Up to 2^51 nanoseconds, some 26 days, three times the delay is still exact, and so are both
ends of the range a delay is scaled into. -/
theorem scaled_bounds (wild : ℚ → Int64) (draw : Fin (2 ^ 63)) {delay : Int64}
    (hPos : 0 < delay.toInt) (hSmall : delay.toInt ≤ 2 ^ 51) :
    delay.toInt / 2 ≤ (scaled wild draw delay).toInt ∧
      (scaled wild draw delay).toInt ≤ 3 * delay.toInt / 2 := by
  obtain ⟨hLow, hHigh⟩ := factor_bounds draw
  -- an integer below `2^53` is converted without loss
  have hDelay : Binary64.round delay.toInt = delay.toInt := by
    have hExact := @Binary64.round_exact delay.toInt (by rw [abs_of_pos hPos]; omega) 0 (by norm_num)
    simpa using hExact
  rw [scaled, hDelay]
  generalize Binary64.round (1 / 2 + float64 draw) = factor at hLow hHigh
  generalize delay.toInt = d at hPos hSmall
  have hPosQ : (0 : ℚ) < d := by exact_mod_cast hPos
  -- both ends of the interval are floats, so rounding cannot leave it
  have hHalf : Binary64.round ((d : ℚ) / 2) = d / 2 := round_half (by rw [abs_of_pos hPos]; omega)
  have hThree : Binary64.round (((3 * d : ℤ) : ℚ) / 2) = ((3 * d : ℤ) : ℚ) / 2 :=
    round_half (by rw [abs_of_pos (by omega)]; omega)
  have hFrom : (d : ℚ) / 2 ≤ Binary64.round (d * factor) := by
    rw [← hHalf]
    exact Binary64.round_mono (by positivity) (by nlinarith)
  have hTo : Binary64.round (d * factor) ≤ ((3 * d : ℤ) : ℚ) / 2 := by
    rw [← hThree]
    exact Binary64.round_mono (by positivity) (by push_cast; nlinarith)
  -- and the result fits an `int64`, so `wild` does not show
  have hRange : ((3 * d : ℤ) : ℚ) / 2 < 2 ^ 63 := by
    have hSmallQ : (d : ℚ) ≤ 2 ^ 51 := by exact_mod_cast hSmall
    push_cast
    linarith
  generalize Binary64.round (d * factor) = x at hFrom hTo
  have hNonneg : 0 ≤ x := le_trans (by positivity) hFrom
  have hFloor : Binary64.truncate x = ⌊x⌋ := if_pos hNonneg
  have hBelow : ⌊x⌋ < 2 ^ 63 := Int.floor_lt.mpr (by exact_mod_cast lt_of_le_of_lt hTo hRange)
  have hAbove : 0 ≤ ⌊x⌋ := Int.floor_nonneg.mpr hNonneg
  rw [Binary64.toInt64_toInt wild (by omega) (by omega), hFloor]
  -- truncation is the floor, which keeps the bounds
  have hFloorHalf := Rat.floor_intCast_div_natCast d 2
  have hFloorThree := Rat.floor_intCast_div_natCast (3 * d) 2
  push_cast at hFloorHalf hFloorThree hTo
  constructor
  · rw [← hFloorHalf]
    exact Int.floor_le_floor hFrom
  · rw [← hFloorThree]
    exact Int.floor_le_floor hTo

/-- What the loop leaves to be scaled. -/
theorem doubled_last (config : Backoff) (attempt : Int64) {fuel : Nat}
    (hFuel : config.doublings < fuel) :
    ∃ last trace, doubled config fuel attempt = some (last, trace) ∧
      last.toInt = config.after (max attempt.toInt 1 - 1).toNat := by
  obtain ⟨last, trace, hLoop, hLast, -⟩ :=
    config.loop_eq _ (max attempt.toInt 1 - 1).toNat (floor_toInt attempt) fuel 0 1 config.base
      (by omega) (by omega) rfl config.after_zero.symm
  exact ⟨last, trace, hLoop, hLast⟩

theorem capped_toInt (config : Backoff) (result : Int64) :
    (capped config result).toInt = min config.max.toInt result.toInt := by
  unfold capped
  split_ifs with hAbove <;> rw [Int64.lt_iff_toInt_lt] at hAbove <;> omega

/-- Whatever the attempt and whatever is drawn, both functions return, and the delay they return
lies between one half and three halves of `min (base * 2 ^ (n - 1)) max` and stays within the
cap; a machine's own conversion of a float out of range never shows. -/
theorem retryDelay_jittered (config : Backoff) (hMax : config.max.toInt ≤ 2 ^ 51)
    (attempt : Int64) (fuel : Nat) (hFuel : config.doublings < fuel) (wild : ℚ → Int64)
    (draw : Fin (2 ^ 63)) :
    ∃ delay, Outbox.retryDelay config (scaled wild draw) fuel attempt = some delay ∧
      Consolidation.backoffDelay config (scaled wild draw) fuel attempt = some delay ∧
      config.after (max attempt.toInt 1 - 1).toNat / 2 ≤ delay.toInt ∧
      delay.toInt ≤ config.max.toInt ∧
      delay.toInt ≤ 3 * config.after (max attempt.toInt 1 - 1).toNat / 2 := by
  obtain ⟨last, trace, hDoubled, hLast⟩ := doubled_last config attempt hFuel
  have hPos := config.after_pos (max attempt.toInt 1 - 1).toNat
  have hLe : config.after (max attempt.toInt 1 - 1).toNat ≤ config.max.toInt := min_le_right _ _
  obtain ⟨hLow, hHigh⟩ := scaled_bounds wild draw (hLast ▸ hPos) (hLast ▸ hLe.trans hMax)
  have hJittered : jittered config (scaled wild draw) fuel attempt =
      some (capped config (scaled wild draw last)) := by
    rw [jittered, hDoubled, Option.map_some]
  refine ⟨_, hJittered, hJittered, ?_, ?_, ?_⟩ <;> rw [capped_toInt] <;> omega

/-- The hundredth attempt of a backoff from a second to a minute, on the largest draw. -/
theorem retryDelay_jittered_minute :
    ∃ delay, Outbox.retryDelay ⟨1000000000, 60000000000, by decide, by decide⟩
        (scaled (fun _ => 0) (Fin.last _)) 64 100 = some delay ∧
      30000000000 ≤ delay.toInt ∧ delay.toInt ≤ 60000000000 := by
  have hDoublings := Backoff.doublings_le ⟨1000000000, 60000000000, by decide, by decide⟩
  obtain ⟨delay, hDelay, -, hLow, hHigh, -⟩ :=
    retryDelay_jittered ⟨1000000000, 60000000000, by decide, by decide⟩ (by decide) 100 64
      (by omega) (fun _ => 0) (Fin.last _)
  exact ⟨delay, hDelay, le_trans (by decide) hLow, le_trans hHigh (by decide)⟩

end Pipeline

end Cashflow
