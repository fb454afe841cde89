import Mathlib.Data.Int.Order.Basic
import Mathlib.Tactic.IntervalCases
import Mathlib.Tactic.Linarith

/-!
# The proleptic Gregorian calendar

A civil date is a year, a month and a day of the month; a day number counts
days from 1970-01-01. The conversion runs over years that start in March, so
that a leap day is the last day of its year: 400-year eras fall into
centuries, centuries into four-year cycles, and cycles into years, each with
its possible extra day at the very end.

* `toDays_ofDays` — converting a day number to a civil date and back is the
  identity, so distinct days have distinct civil dates;
* `ofDays_valid` — the civil date of a day number exists in the calendar.
-/

namespace Lib

/-- A year, month and day of the month. -/
structure Civil where
  year : Int
  month : Int
  day : Int
deriving DecidableEq, Repr

/-- The Gregorian leap rule. -/
def isLeap (y : Int) : Bool :=
  decide (y % 4 = 0) && (decide (y % 100 ≠ 0) || decide (y % 400 = 0))

/-- The number of days of month `m` of year `y`. -/
def daysIn (m y : Int) : Int :=
  if m = 2 then (if isLeap y then 29 else 28)
  else if m = 4 ∨ m = 6 ∨ m = 9 ∨ m = 11 then 30 else 31

namespace Civil

/-- The date exists in the calendar. -/
def Valid (c : Civil) : Prop :=
  1 ≤ c.month ∧ c.month ≤ 12 ∧ 1 ≤ c.day ∧ c.day ≤ daysIn c.month c.year

instance (c : Civil) : Decidable c.Valid := by
  unfold Valid
  infer_instance

/-- The day number of a civil date. -/
def toDays (c : Civil) : Int :=
  let y := if c.month ≤ 2 then c.year - 1 else c.year
  let yearOfEra := y % 400
  let monthFromMarch := (c.month + 9) % 12
  let dayOfYear := (153 * monthFromMarch + 2) / 5 + c.day - 1
  y / 400 * 146097 + (365 * yearOfEra + yearOfEra / 4 - yearOfEra / 100 + dayOfYear) - 719468

/-- The position of a day inside its 400-year era: century, four-year cycle of
the century, year of the cycle and day of the year. -/
structure EraDay where
  century : Int
  cycle : Int
  year : Int
  dayOfYear : Int

/-- Split the day of an era. The last century of an era and the last year of a
cycle may be one day longer, hence the two minima. -/
def EraDay.ofDay (day : Int) : EraDay :=
  let century := min (day / 36524) 3
  let inCentury := day - 36524 * century
  let cycle := inCentury / 1461
  let inCycle := inCentury - 1461 * cycle
  let year := min (inCycle / 365) 3
  ⟨century, cycle, year, inCycle - 365 * year⟩

/-- The year of the era, counted from zero. -/
def EraDay.yearOfEra (e : EraDay) : Int := 100 * e.century + 4 * e.cycle + e.year

/-- The civil date of a day of an era. -/
def ofEraDay (era : Int) (e : EraDay) : Civil :=
  let monthFromMarch := (5 * e.dayOfYear + 2) / 153
  let y := e.yearOfEra + era * 400
  let day := e.dayOfYear - (153 * monthFromMarch + 2) / 5 + 1
  -- March to December keep their year, January and February belong to the next
  if monthFromMarch < 10 then ⟨y, monthFromMarch + 3, day⟩
  else ⟨y + 1, monthFromMarch - 9, day⟩

/-- The civil date of a day number. -/
def ofDays (z : Int) : Civil :=
  ofEraDay ((z + 719468) / 146097) (EraDay.ofDay ((z + 719468) % 146097))

/-! ## The parts of an era day -/

/-- What the split of an era day guarantees; an extra day can only be the last
of a four-year cycle that does not end a short century. -/
structure EraDay.Bounds (day : Int) (e : EraDay) : Prop where
  century : 0 ≤ e.century ∧ e.century ≤ 3
  cycle : 0 ≤ e.cycle ∧ e.cycle ≤ 24
  year : 0 ≤ e.year ∧ e.year ≤ 3
  dayOfYear : 0 ≤ e.dayOfYear ∧ e.dayOfYear ≤ 365
  extra : e.dayOfYear = 365 → e.year = 3 ∧ (e.cycle = 24 → e.century = 3)
  sum : 36524 * e.century + 1461 * e.cycle + 365 * e.year + e.dayOfYear = day

/-- The division of a day of an era into centuries, cycles and years. -/
theorem eraDay_bounds {day : Int} (h0 : 0 ≤ day) (h1 : day < 146097) :
    EraDay.Bounds day (EraDay.ofDay day) := by
  unfold EraDay.ofDay
  set century := min (day / 36524) 3 with hc
  -- the last century has a day more, and so has the last cycle of it
  have hCentury : 0 ≤ century ∧ century ≤ 3 ∧ 36524 * century ≤ day ∧
      (century < 3 → day < 36524 * century + 36524) := by omega
  set inCentury := day - 36524 * century with hic
  have hIn : 0 ≤ inCentury ∧ inCentury ≤ 36524 ∧ (inCentury = 36524 → century = 3) := by omega
  set cycle := inCentury / 1461 with hq
  set inCycle := inCentury - 1461 * cycle with hiq
  have hCycle : 0 ≤ cycle ∧ cycle ≤ 24 ∧ 0 ≤ inCycle ∧ inCycle ≤ 1460 ∧
      (inCycle = 1460 → cycle = 24 → century = 3) := by omega
  set year := min (inCycle / 365) 3 with hy
  refine ⟨by dsimp only; omega, by dsimp only; omega, by dsimp only; omega,
    by dsimp only; omega, ?_, by dsimp only; omega⟩
  dsimp only
  intro h
  exact ⟨by omega, fun h24 => hCycle.2.2.2.2 (by omega) h24⟩

/-- The year of the era recovers the day counts the conversion adds up. -/
theorem yearOfEra_parts {day : Int} {e : EraDay} (h : EraDay.Bounds day e) :
    0 ≤ e.yearOfEra ∧ e.yearOfEra ≤ 399 ∧ e.yearOfEra / 4 = 25 * e.century + e.cycle ∧
      e.yearOfEra / 100 = e.century := by
  obtain ⟨hc, hq, hy, -, -, -⟩ := h
  unfold EraDay.yearOfEra
  omega

/-! ## Main results -/

/-- The date of a day of an era counts back to that day. -/
theorem toDays_ofEraDay {day : Int} {e : EraDay} (h : EraDay.Bounds day e) (era : Int) :
    (ofEraDay era e).toDays = era * 146097 + day - 719468 := by
  obtain ⟨hy0, hy1, hy4, hy100⟩ := yearOfEra_parts h
  have hSum := h.sum
  obtain ⟨hd0, hd1⟩ := h.dayOfYear
  have hyoe : e.yearOfEra = 100 * e.century + 4 * e.cycle + e.year := rfl
  have hmp : 0 ≤ (5 * e.dayOfYear + 2) / 153 ∧ (5 * e.dayOfYear + 2) / 153 ≤ 11 := by omega
  unfold ofEraDay
  generalize (5 * e.dayOfYear + 2) / 153 = mp at hmp ⊢
  dsimp only
  split
  · -- March to December, in the year the era counts
    have hmonth : ¬ (mp + 3 ≤ 2) := by omega
    have hback : (mp + 3 + 9) % 12 = mp := by omega
    have hera400 : (e.yearOfEra + era * 400) / 400 = era := by omega
    have hyoe400 : (e.yearOfEra + era * 400) % 400 = e.yearOfEra := by omega
    simp only [toDays, if_neg hmonth, hback, hera400, hyoe400, hy4, hy100]
    omega
  · -- January and February, of the next year
    have hmonth : mp - 9 ≤ 2 := by omega
    have hback : (mp - 9 + 9) % 12 = mp := by omega
    have hera400 : (e.yearOfEra + era * 400 + 1 - 1) / 400 = era := by omega
    have hyoe400 : (e.yearOfEra + era * 400 + 1 - 1) % 400 = e.yearOfEra := by omega
    simp only [toDays, if_pos hmonth, hback, hera400, hyoe400, hy4, hy100]
    omega

/-- The division of any day number. -/
theorem eraDay_ofDays_bounds (z : Int) :
    EraDay.Bounds ((z + 719468) % 146097) (EraDay.ofDay ((z + 719468) % 146097)) :=
  eraDay_bounds (Int.emod_nonneg _ (by norm_num)) (Int.emod_lt_of_pos _ (by norm_num))

/-- Day number to civil date and back is the identity. -/
@[simp] theorem toDays_ofDays (z : Int) : (ofDays z).toDays = z := by
  rw [ofDays, toDays_ofEraDay (eraDay_ofDays_bounds z)]
  have := Int.emod_add_mul_ediv (z + 719468) 146097
  omega

/-- A March-based year with an extra day is followed by a leap year. -/
theorem isLeap_next {day : Int} {e : EraDay} (h : EraDay.Bounds day e)
    (hExtra : e.dayOfYear = 365) (era : Int) :
    isLeap (e.yearOfEra + era * 400 + 1) = true := by
  obtain ⟨hy3, hcent⟩ := h.extra hExtra
  obtain ⟨hc, hq, -, -, -, -⟩ := h
  have hyoe : e.yearOfEra = 100 * e.century + 4 * e.cycle + e.year := rfl
  have h4 : (e.yearOfEra + era * 400 + 1) % 4 = 0 := by omega
  rw [isLeap, Bool.and_eq_true, Bool.or_eq_true]
  refine ⟨by simpa using h4, ?_⟩
  rw [decide_eq_true_eq, decide_eq_true_eq]
  by_cases h24 : e.cycle = 24
  · have := hcent h24
    right
    omega
  · left
    omega

/-- The date of a day of an era is one of the calendar. -/
theorem ofEraDay_valid {day : Int} {e : EraDay} (h : EraDay.Bounds day e) (era : Int) :
    (ofEraDay era e).Valid := by
  obtain ⟨hd0, hd1⟩ := h.dayOfYear
  have hLeap := fun hExtra => isLeap_next h hExtra era
  obtain ⟨mp, hmp⟩ : ∃ mp, mp = (5 * e.dayOfYear + 2) / 153 := ⟨_, rfl⟩
  have hlo : 0 ≤ mp := by omega
  have hhi : mp ≤ 11 := by omega
  unfold ofEraDay Valid
  rw [← hmp]
  -- one case for each month, February being the last of the March-based year
  interval_cases mp
  all_goals norm_num [daysIn]
  all_goals try omega
  -- the 366th day is the 29th of February, and the year is a leap year
  by_cases hExtra : e.dayOfYear = 365
  · rw [hLeap hExtra]
    norm_num
    omega
  · split <;> omega

/-- The day numbers from 0000-01-01 through 9999-12-31. -/
theorem ofDays_year {z : Int} (h0 : -719528 ≤ z) (h1 : z ≤ 2932896) :
    0 ≤ (ofDays z).year ∧ (ofDays z).year ≤ 9999 := by
  have hBounds := eraDay_ofDays_bounds z
  have hSplit := Int.emod_add_mul_ediv (z + 719468) 146097
  unfold ofDays
  generalize (z + 719468) / 146097 = era at hSplit ⊢
  generalize (z + 719468) % 146097 = day at hBounds hSplit ⊢
  generalize EraDay.ofDay day = e at hBounds ⊢
  obtain ⟨hYear0, hYear1, -, -⟩ := yearOfEra_parts hBounds
  obtain ⟨hc, hq, hy, hd, -, hSum⟩ := hBounds
  have hYear : e.yearOfEra = 100 * e.century + 4 * e.cycle + e.year := rfl
  have hEra : -1 ≤ era ∧ era ≤ 24 := by omega
  -- an era starts in March: of the era before the first only January and February are left, of
  -- the last one they are missing
  have hFirst : era = -1 → e.yearOfEra = 399 ∧ 306 ≤ e.dayOfYear := by omega
  have hLast : era = 24 → e.yearOfEra = 399 → e.dayOfYear ≤ 305 := by omega
  have hMonth : ∀ n : Int, 306 ≤ n ↔ 10 ≤ (5 * n + 2) / 153 := by omega
  have hMarch := hMonth e.dayOfYear
  unfold ofEraDay
  dsimp only
  split
  · dsimp only
    omega
  · dsimp only
    omega

/-- The civil date of a day number exists in the calendar. -/
theorem ofDays_valid (z : Int) : (ofDays z).Valid :=
  ofEraDay_valid (eraDay_ofDays_bounds z) _

end Civil

end Lib
