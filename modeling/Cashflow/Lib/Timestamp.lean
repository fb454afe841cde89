import Cashflow.Lib.Civil
import Cashflow.Lib.Decimal
import Cashflow.Lib.Text
import Mathlib.Data.List.DropRight

/-!
# Dates and timestamps as text

Instants are nanoseconds from 1970-01-01T00:00:00Z, dates are day numbers.
`formatDate` and `formatRFC3339Nano` write them the way Go's `time` package
formats the layouts `2006-01-02` and RFC 3339 with nanoseconds (in UTC);
`parseDate` and `parseRFC3339` read them the way `time.Parse` does, leniencies
included: a one-digit hour, a comma before the fraction, digits beyond the
ninth ignored, and zone offsets up to 24:60.

* `parseDate_formatDate`, `parseRFC3339_format` — what is written for a year
  of four digits is read back;
* `formatDate_append_inj`, `formatRFC3339Nano_append_inj` — no two dates and no
  two instants are written alike, whatever the year.
-/

namespace Lib

/-- Nanoseconds in a second. -/
def nanosPerSecond : Int := 1000000000

/-! ## Writing -/

/-- Layout `2006-01-02`. -/
def formatCivil (c : Civil) : List Char :=
  appendInt c.year 4 ++ '-' :: (padded 2 c.month.toNat ++ '-' :: padded 2 c.day.toNat)

/-- Layout `2006-01-02` for a day number. -/
def formatDate (z : Int) : List Char := formatCivil (Civil.ofDays z)

/-- The fraction of a second, without trailing zeros and empty when zero. -/
def formatFraction (nanos : Nat) : List Char :=
  if nanos = 0 then [] else '.' :: (padded 9 nanos).rdropWhile (· == '0')

/-- RFC 3339 with nanoseconds, in UTC. -/
def formatRFC3339Nano (t : Int) : List Char :=
  let seconds := t / nanosPerSecond
  let ofDay := (seconds % 86400).toNat
  formatDate (seconds / 86400) ++ 'T' :: (padded 2 (ofDay / 3600) ++
    ':' :: (padded 2 (ofDay % 3600 / 60) ++ ':' :: (padded 2 (ofDay % 60) ++
      (formatFraction (t % nanosPerSecond).toNat ++ ['Z']))))

/-- The year a timestamp is written with. -/
def yearOf (t : Int) : Int := (Civil.ofDays (t / nanosPerSecond / 86400)).year

/-- The first instant of the year 1, as an instant and as a date. -/
def zeroTime : Int := -62135596800 * nanosPerSecond

def zeroDate : Int := -719162

/-! ## Reading -/

/-- Exactly `n` digits. -/
def fixedNum (n : Nat) (l : List Char) : Option (Nat × List Char) :=
  if (l.take n).length = n ∧ (l.take n).all Char.isDigit then
    some (valueOf (l.take n), l.drop n)
  else none

/-- One or two digits. -/
def shortNum (l : List Char) : Option (Nat × List Char) :=
  (fixedNum 2 l).or (fixedNum 1 l)

/-- A calendar date, and the rest of the text. -/
def parseCivil (l : List Char) : Option (Civil × List Char) := do
  let (year, l) ← fixedNum 4 l
  let l ← expect '-' l
  let (month, l) ← fixedNum 2 l
  let l ← expect '-' l
  let (day, l) ← fixedNum 2 l
  let c : Civil := ⟨year, month, day⟩
  if c.Valid then some (c, l) else none

/-- `time.Parse("2006-01-02", …)`. -/
def parseDate (l : List Char) : Option Int := do
  let (c, l) ← parseCivil l
  if l = [] then some c.toDays else none

/-- An optional fraction of a second, in nanoseconds. -/
def parseFraction (l : List Char) : Nat × List Char :=
  match l with
  | p :: d :: rest =>
    if (p = '.' ∨ p = ',') ∧ d.isDigit then
      let digits := (d :: rest).takeWhile Char.isDigit
      let kept := digits.take 9
      (valueOf kept * 10 ^ (9 - kept.length), (d :: rest).dropWhile Char.isDigit)
    else (0, l)
  | _ => (0, l)

/-- `Z` or a zone offset, in seconds; nothing may follow. -/
def parseZone (l : List Char) : Option Int :=
  match l with
  | ['Z'] => some 0
  | sign :: rest => do
    let (hours, l) ← fixedNum 2 rest
    let l ← expect ':' l
    let (minutes, l) ← fixedNum 2 l
    -- the parser lets an offset of 24 hours and 60 minutes pass
    if l = [] ∧ hours ≤ 24 ∧ minutes ≤ 60 then
      if sign = '+' then some (hours * 3600 + minutes * 60)
      else if sign = '-' then some (-(hours * 3600 + minutes * 60))
      else none
    else none
  | [] => none

/-- `time.Parse(time.RFC3339Nano, …)`, as an instant. -/
def parseRFC3339 (l : List Char) : Option Int := do
  let (c, l) ← parseCivil l
  let l ← expect 'T' l
  let (hour, l) ← shortNum l
  let l ← expect ':' l
  let (minute, l) ← fixedNum 2 l
  let l ← expect ':' l
  let (second, l) ← fixedNum 2 l
  -- the fraction is not in the layout, and taken all the same
  let (nanos, l) := parseFraction l
  let offset ← parseZone l
  if hour < 24 ∧ minute < 60 ∧ second < 60 then
    some ((c.toDays * 86400 + hour * 3600 + minute * 60 + second - offset) * nanosPerSecond + nanos)
  else none

/-! ## Reading back fixed-width fields -/

/-- A number in a fixed width is read back. -/
theorem fixedNum_padded {w n : Nat} (h : n < 10 ^ w) (rest : List Char) :
    fixedNum w (padded w n ++ rest) = some (n, rest) := by
  have hTake : (padded w n ++ rest).take w = padded w n := by
    rw [List.take_append_of_le_length (by simp)]
    exact List.take_of_length_le (by simp)
  have hDrop : (padded w n ++ rest).drop w = rest := by
    rw [List.drop_append_of_le_length (by simp), List.drop_of_length_le (by simp)]
    rfl
  rw [fixedNum, hTake, hDrop, valueOf_padded w n h, if_pos]
  exact ⟨length_padded w n, List.all_eq_true.mpr (padded_isDigit w n)⟩

/-- So is one of two digits, where one digit would do. -/
theorem shortNum_padded {n : Nat} (h : n < 100) (rest : List Char) :
    shortNum (padded 2 n ++ rest) = some (n, rest) := by
  rw [shortNum, fixedNum_padded (by norm_num; exact h)]
  rfl

/-- A year of four digits is written with four digits. -/
theorem appendInt_year {y : Int} (h0 : 0 ≤ y) (h1 : y ≤ 9999) :
    appendInt y 4 = padded 4 y.toNat := by
  rw [appendInt, zeroFilled, if_neg (by omega), if_pos (by norm_num; omega), List.nil_append]
  congr 1
  omega

/-- No month is longer than 31 days. -/
theorem daysIn_le (m y : Int) : daysIn m y ≤ 31 := by
  unfold daysIn
  split_ifs <;> norm_num

/-- A date between the years 0 and 9999 is read back. -/
theorem parseCivil_format {c : Civil} (hv : c.Valid) (h0 : 0 ≤ c.year) (h1 : c.year ≤ 9999)
    (rest : List Char) : parseCivil (formatCivil c ++ rest) = some (c, rest) := by
  have hv' := hv
  obtain ⟨hm0, hm1, hd0, hd1⟩ := hv'
  have hd31 := le_trans hd1 (daysIn_le _ _)
  have hc : (⟨(c.year.toNat : Int), (c.month.toNat : Int), (c.day.toNat : Int)⟩ : Civil) = c := by
    rw [Int.toNat_of_nonneg h0, Int.toNat_of_nonneg (by omega), Int.toNat_of_nonneg (by omega)]
  rw [formatCivil, appendInt_year h0 h1]
  simp only [List.append_assoc, List.cons_append]
  rw [parseCivil, fixedNum_padded (by norm_num; omega)]
  simp only [Option.bind_eq_bind, Option.bind_some, expect_self]
  rw [fixedNum_padded (by norm_num; omega)]
  simp only [Option.bind_some, expect_self]
  rw [fixedNum_padded (by norm_num; omega)]
  simp only [Option.bind_some, hc, if_pos hv]

/-- A date of a four-digit year is read back. -/
theorem parseDate_formatDate {z : Int} (h0 : 0 ≤ (Civil.ofDays z).year)
    (h1 : (Civil.ofDays z).year ≤ 9999) : parseDate (formatDate z) = some z := by
  have h := parseCivil_format (Civil.ofDays_valid z) h0 h1 []
  rw [List.append_nil] at h
  simp [parseDate, formatDate, h]

/-- What is read in a fixed width are that many digits. -/
theorem fixedNum_some {n v : Nat} {l rest : List Char} (h : fixedNum n l = some (v, rest)) :
    ∃ ds, l = ds ++ rest ∧ ds.length = n ∧ ∀ c ∈ ds, c.isDigit = true := by
  unfold fixedNum at h
  split at h
  · rename_i hTake
    cases h
    exact ⟨l.take n, (List.take_append_drop n l).symm, hTake.1, List.all_eq_true.mp hTake.2⟩
  · cases h

/-- The day numbers of the four-digit years. -/
theorem toDays_bounds {c : Civil} (hValid : c.Valid) (h0 : 0 ≤ c.year) (h1 : c.year ≤ 9999) :
    -719528 ≤ c.toDays ∧ c.toDays ≤ 2932896 := by
  obtain ⟨hm0, hm1, hd0, hd1⟩ := hValid
  have hd31 := le_trans hd1 (daysIn_le _ _)
  -- January and February stand at the end of the year before
  have hMonth : (c.month ≤ 2 → 306 ≤ (153 * ((c.month + 9) % 12) + 2) / 5) ∧
      (153 * ((c.month + 9) % 12) + 2) / 5 ≤ 337 ∧
      (2 < c.month → 0 ≤ (153 * ((c.month + 9) % 12) + 2) / 5 ∧
        (153 * ((c.month + 9) % 12) + 2) / 5 ≤ 275) := by omega
  have hYear : ∀ y : Int, -1 ≤ y → y ≤ 9999 → y = 400 * (y / 400) + y % 400 ∧
      0 ≤ y % 400 / 4 - y % 400 / 100 ∧ (y % 400 = 399 → y % 400 / 4 - y % 400 / 100 = 96) ∧
      y % 400 / 4 - y % 400 / 100 ≤ 99 ∧ -1 ≤ y / 400 ∧ y / 400 ≤ 24 ∧
      0 ≤ y % 400 ∧ y % 400 ≤ 399 := by omega
  unfold Civil.toDays
  dsimp only
  generalize (153 * ((c.month + 9) % 12) + 2) / 5 = start at hMonth ⊢
  split
  · -- January or February of the year after
    have hParts := hYear (c.year - 1) (by omega) (by omega)
    generalize (c.year - 1) % 400 / 4 = a at hParts ⊢
    generalize (c.year - 1) % 400 / 100 = b at hParts ⊢
    generalize (c.year - 1) % 400 = r at hParts ⊢
    generalize (c.year - 1) / 400 = q at hParts ⊢
    constructor <;> omega
  · -- the other months
    have hParts := hYear c.year (by omega) (by omega)
    generalize c.year % 400 / 4 = a at hParts ⊢
    generalize c.year % 400 / 100 = b at hParts ⊢
    generalize c.year % 400 = r at hParts ⊢
    generalize c.year / 400 = q at hParts ⊢
    constructor <;> omega

/-- A date that is read has a year of four digits. -/
theorem parseDate_year {l : List Char} {z : Int} (h : parseDate l = some z) :
    0 ≤ (Civil.ofDays z).year ∧ (Civil.ofDays z).year ≤ 9999 := by
  simp only [parseDate, parseCivil, Option.bind_eq_bind, Option.bind_eq_some_iff] at h
  obtain ⟨_, ⟨⟨year, _⟩, hYear, _, -, ⟨month, _⟩, -, _, -, ⟨day, _⟩, -, hCivil⟩, h⟩ := h
  -- the year was read from four digits
  have hDigits : year < 10 ^ 4 := by
    unfold fixedNum at hYear
    split at hYear
    · rename_i hTake
      cases hYear
      have hLt := valueOf_lt (List.all_eq_true.mp hTake.2)
      rwa [hTake.1] at hLt
    · cases hYear
  split at hCivil
  · rename_i hValid
    cases hCivil
    split at h
    · cases h
      have hBounds := toDays_bounds hValid (by dsimp only; omega) (by dsimp only; omega)
      exact Civil.ofDays_year hBounds.1 hBounds.2
    · cases h
  · cases hCivil

/-- What is written for a date is read back as that date or not at all. -/
theorem eq_of_parseDate_formatDate {z d : Int} (h : parseDate (formatDate z) = some d) : d = z := by
  suffices hYear : 0 ≤ (Civil.ofDays z).year ∧ (Civil.ofDays z).year ≤ 9999 by
    rw [parseDate_formatDate hYear.1 hYear.2] at h
    exact (Option.some.inj h).symm
  -- a text that is read starts with four digits and a dash
  obtain ⟨ds, rest, hText, hLength, hDigits⟩ : ∃ ds rest, formatDate z = ds ++ '-' :: rest ∧
      ds.length = 4 ∧ ∀ c ∈ ds, c.isDigit = true := by
    simp only [parseDate, parseCivil, Option.bind_eq_bind, Option.bind_eq_some_iff] at h
    obtain ⟨_, ⟨⟨_, l⟩, hFixed, _, hDash, -⟩, -⟩ := h
    obtain ⟨ds, hText, hLength, hDigits⟩ := fixedNum_some hFixed
    have hDash : l = '-' :: _ := expect_some hDash
    exact ⟨ds, _, by rw [hText, hDash], hLength, hDigits⟩
  have hStop : ∀ q : List Char, ∀ c, ('-' :: q).head? = some c → c.isDigit = false := by
    intro q c hc
    rw [← Option.some.inj hc]
    rfl
  have hSpan := span_digits hDigits (hStop rest)
  rw [← hText, formatDate, formatCivil, appendInt] at hSpan
  -- a year before zero is written with a sign, which is no digit
  rcases lt_or_ge (Civil.ofDays z).year 0 with hNeg | hPos
  · rw [if_pos hNeg, List.append_assoc, List.cons_append, List.span_eq_takeWhile_dropWhile] at hSpan
    rw [← (Prod.mk.inj hSpan).1] at hLength
    cases hLength
  · -- else it is as wide as its digits, and four is no more than the year 9999
    rw [if_neg (not_lt.mpr hPos), List.nil_append,
      span_digits (zeroFilled_isDigit _ _) (hStop _)] at hSpan
    have hLt := lt_of_length_zeroFilled (le_of_eq (by rw [(Prod.mk.inj hSpan).1, hLength]))
    norm_num at hLt
    omega

/-! ## Reading back the fraction -/

/-- Dropping trailing zeros loses a power of ten. -/
theorem valueOf_rdropWhile (l : List Char) :
    valueOf (l.rdropWhile (· == '0')) * 10 ^ (l.length - (l.rdropWhile (· == '0')).length) =
      valueOf l := by
  induction l using List.reverseRecOn with
  | nil => rfl
  | append_singleton l c ih =>
    by_cases hc : (c == '0') = true
    · rw [List.rdropWhile_concat_pos (· == '0') _ _ hc]
      have hLen : (l.rdropWhile (· == '0')).length ≤ l.length :=
        (List.rdropWhile_prefix _ _).length_le
      have hZero : valueOf (l ++ [c]) = valueOf l * 10 := by
        rw [beq_iff_eq.mp hc]
        simp [valueOf]
      rw [hZero, ← ih, List.length_append, List.length_singleton,
        Nat.sub_add_comm hLen, pow_succ]
      ring
    · rw [List.rdropWhile_concat_neg (· == '0') _ _ hc]
      simp

/-- A fraction that is not zero keeps a digit when its trailing zeros are cut. -/
theorem rdropWhile_ne_nil {n : Nat} (h0 : n ≠ 0) (h : n < 10 ^ 9) :
    (padded 9 n).rdropWhile (· == '0') ≠ [] := by
  intro hNil
  have hVal := valueOf_rdropWhile (padded 9 n)
  rw [hNil, valueOf_padded 9 n h] at hVal
  simp [valueOf] at hVal
  exact h0 hVal.symm

/-- The fraction of a second is read back from its digits without trailing zeros. -/
theorem parseFraction_format {n : Nat} (h : n < 10 ^ 9) (rest : List Char) :
    parseFraction (formatFraction n ++ 'Z' :: rest) = (n, 'Z' :: rest) := by
  unfold formatFraction
  split
  · -- no fraction at all
    rename_i h0
    rw [h0]
    cases rest <;> simp [parseFraction]
  · rename_i h0
    have hDigits : ∀ c ∈ (padded 9 n).rdropWhile (· == '0'), c.isDigit = true := fun c hc =>
      padded_isDigit 9 n c ((List.rdropWhile_prefix _ _).subset hc)
    have hLen : ((padded 9 n).rdropWhile (· == '0')).length ≤ 9 := by
      have := (List.rdropWhile_prefix (· == '0') (padded 9 n)).length_le
      simpa using this
    -- the zeros that were cut off are the digits the parser scales by
    have hVal := valueOf_rdropWhile (padded 9 n)
    rw [valueOf_padded 9 n h, length_padded] at hVal
    have hSpan := span_digits hDigits (by simp : ∀ c, ('Z' :: rest).head? = some c → c.isDigit = false)
    rw [List.span_eq_takeWhile_dropWhile, Prod.mk.injEq] at hSpan
    obtain ⟨d, ds, hds⟩ := List.exists_cons_of_ne_nil (rdropWhile_ne_nil h0 h)
    rw [hds] at hDigits hLen hVal hSpan ⊢
    rw [List.cons_append] at hSpan
    rw [List.cons_append, List.cons_append, parseFraction,
      if_pos ⟨Or.inl rfl, hDigits d List.mem_cons_self⟩, hSpan.1, hSpan.2]
    dsimp only
    rw [List.take_of_length_le hLen, hVal]

/-- An instant of a four-digit year is read back. -/
theorem parseRFC3339_format {t : Int} (h0 : 0 ≤ yearOf t) (h1 : yearOf t ≤ 9999) :
    parseRFC3339 (formatRFC3339Nano t) = some t := by
  have hsec0 := Int.emod_nonneg (t / nanosPerSecond) (by norm_num : (86400 : Int) ≠ 0)
  have hsec1 := Int.emod_lt_of_pos (t / nanosPerSecond) (by norm_num : (0 : Int) < 86400)
  have hns0 := Int.emod_nonneg t (by norm_num [nanosPerSecond] : nanosPerSecond ≠ 0)
  have hns1 := Int.emod_lt_of_pos t (by norm_num [nanosPerSecond] : 0 < nanosPerSecond)
  have hDays := Int.emod_add_mul_ediv (t / nanosPerSecond) 86400
  have hNanos := Int.emod_add_mul_ediv t nanosPerSecond
  obtain ⟨s, hs⟩ : ∃ s : Nat, (s : Int) = t / nanosPerSecond % 86400 :=
    ⟨_, Int.toNat_of_nonneg hsec0⟩
  obtain ⟨n, hn⟩ : ∃ n : Nat, (n : Int) = t % nanosPerSecond := ⟨_, Int.toNat_of_nonneg hns0⟩
  have hn9 : n < 10 ^ 9 := by
    simp only [nanosPerSecond] at hns1 hn
    norm_num
    omega
  have hZone : parseZone ['Z'] = some 0 := rfl
  -- read field after field, each as wide as it was written
  rw [formatRFC3339Nano, formatDate, ← hs, ← hn, Int.toNat_natCast, Int.toNat_natCast,
    parseRFC3339, parseCivil_format (Civil.ofDays_valid _) h0 h1]
  simp only [Option.bind_eq_bind, Option.bind_some, expect_self]
  rw [shortNum_padded (by omega)]
  simp only [Option.bind_some, expect_self]
  rw [fixedNum_padded (by norm_num; omega)]
  simp only [Option.bind_some, expect_self]
  rw [fixedNum_padded (by norm_num; omega), Option.bind_some]
  simp only [parseFraction_format hn9 [], hZone, Option.bind_some, Civil.toDays_ofDays]
  rw [if_pos ⟨by omega, by omega, by omega⟩, Option.some.injEq]
  push_cast
  -- the fields give the second of the day, and the day the rest
  have hSplit : (s : Int) / 3600 * 3600 + (s : Int) % 3600 / 60 * 60 + (s : Int) % 60 = s := by
    omega
  simp only [nanosPerSecond] at *
  omega

/-! ## No two dates or instants are written alike -/

/-- Equal two-digit fields in front of equal-shaped texts are equal numbers. -/
theorem padded_append_inj {w m n : Nat} (hm : m < 10 ^ w) (hn : n < 10 ^ w) {r r' : List Char}
    (h : padded w m ++ r = padded w n ++ r') : m = n ∧ r = r' := by
  obtain ⟨hEq, hr⟩ := List.append_inj h (by simp)
  refine ⟨?_, hr⟩
  rw [← valueOf_padded w m hm, hEq, valueOf_padded w n hn]

/-- A date can be told from its text, wherever that ends. -/
theorem formatCivil_append_inj {c c' : Civil} (hc : c.Valid) (hc' : c'.Valid)
    {r r' : List Char} (h : formatCivil c ++ r = formatCivil c' ++ r') : c = c' ∧ r = r' := by
  obtain ⟨hm0, hm1, hd0, hd1⟩ := hc
  obtain ⟨hm0', hm1', hd0', hd1'⟩ := hc'
  have hd31 := le_trans hd1 (daysIn_le _ _)
  have hd31' := le_trans hd1' (daysIn_le _ _)
  simp only [formatCivil, List.append_assoc, List.cons_append] at h
  obtain ⟨hYear, h⟩ := appendInt_dash_inj (by norm_num) h
  obtain ⟨hMonth, h⟩ := padded_append_inj (by norm_num; omega) (by norm_num; omega) h
  obtain ⟨hDay, h⟩ := padded_append_inj (by norm_num; omega) (by norm_num; omega) (List.cons.inj h).2
  refine ⟨?_, h⟩
  cases c
  cases c'
  simp only [Civil.mk.injEq] at *
  omega

/-- And so can a day number. -/
theorem formatDate_append_inj {z z' : Int} {r r' : List Char}
    (h : formatDate z ++ r = formatDate z' ++ r') : z = z' ∧ r = r' := by
  obtain ⟨hCivil, hr⟩ :=
    formatCivil_append_inj (Civil.ofDays_valid z) (Civil.ofDays_valid z') h
  refine ⟨?_, hr⟩
  rw [← Civil.toDays_ofDays z, hCivil, Civil.toDays_ofDays]

/-- No two dates are written alike. -/
theorem formatDate_injective : Function.Injective formatDate := fun _ _ h =>
  (formatDate_append_inj (congrArg (· ++ []) h)).1

/-- The fraction can be told from its text, for the zone ends it. -/
theorem formatFraction_zone_inj {m n : Nat} (hm : m < 10 ^ 9) (hn : n < 10 ^ 9)
    {r r' : List Char} (h : formatFraction m ++ 'Z' :: r = formatFraction n ++ 'Z' :: r') :
    m = n ∧ r = r' := by
  have hParse := parseFraction_format hm r
  rw [h, parseFraction_format hn, Prod.mk.injEq] at hParse
  exact ⟨hParse.1.symm, (List.cons.inj hParse.2).2.symm⟩

/-- A written instant determines the instant and what follows it. -/
theorem formatRFC3339Nano_append_inj {t t' : Int} {r r' : List Char}
    (h : formatRFC3339Nano t ++ r = formatRFC3339Nano t' ++ r') : t = t' ∧ r = r' := by
  have hs0 := Int.emod_nonneg (t / nanosPerSecond) (by norm_num : (86400 : Int) ≠ 0)
  have hs1 := Int.emod_lt_of_pos (t / nanosPerSecond) (by norm_num : (0 : Int) < 86400)
  have hs0' := Int.emod_nonneg (t' / nanosPerSecond) (by norm_num : (86400 : Int) ≠ 0)
  have hs1' := Int.emod_lt_of_pos (t' / nanosPerSecond) (by norm_num : (0 : Int) < 86400)
  unfold formatRFC3339Nano at h
  simp only [nanosPerSecond, List.append_assoc, List.cons_append, List.nil_append] at *
  obtain ⟨hDay, h⟩ := formatDate_append_inj h
  obtain ⟨hHour, h⟩ := padded_append_inj (by norm_num; omega) (by norm_num; omega) (List.cons.inj h).2
  obtain ⟨hMin, h⟩ := padded_append_inj (by norm_num; omega) (by norm_num; omega) (List.cons.inj h).2
  obtain ⟨hSec, h⟩ := padded_append_inj (by norm_num; omega) (by norm_num; omega) (List.cons.inj h).2
  obtain ⟨hNanos, hr⟩ := formatFraction_zone_inj (by norm_num; omega) (by norm_num; omega) h
  -- the fields determine the second of the day, the day, and the nanosecond
  have hOfDay : t / 1000000000 % 86400 = t' / 1000000000 % 86400 := by omega
  exact ⟨by omega, hr⟩

/-! ## The characters of written dates and instants -/

/-- The characters a date or an instant is written with. -/
def isTimeChar (c : Char) : Bool :=
  c.isDigit || c == '-' || c == ':' || c == 'T' || c == '.' || c == 'Z'

/-- Digits occur in times. -/
theorem isTimeChar_of_isDigit {c : Char} (h : c.isDigit = true) : isTimeChar c = true := by
  simp [isTimeChar, h]

/-- Numbers in a fixed width are made of digits. -/
theorem padded_timeChar (w n : Nat) : ∀ c ∈ padded w n, isTimeChar c = true := fun c hc =>
  isTimeChar_of_isDigit (padded_isDigit w n c hc)

/-- The characters of a date. -/
theorem formatDate_timeChar (z : Int) : ∀ c ∈ formatDate z, isTimeChar c = true := by
  intro c hc
  simp only [formatDate, formatCivil, appendInt, List.mem_append, List.mem_cons] at hc
  rcases hc with (hc | hc) | rfl | hc | rfl | hc
  · split at hc
    · rw [List.mem_singleton.mp hc]
      rfl
    · cases hc
  · exact isTimeChar_of_isDigit (zeroFilled_isDigit _ _ c hc)
  · rfl
  · exact padded_timeChar _ _ c hc
  · rfl
  · exact padded_timeChar _ _ c hc

/-- The characters of a fraction. -/
theorem formatFraction_timeChar (n : Nat) : ∀ c ∈ formatFraction n, isTimeChar c = true := by
  intro c hc
  unfold formatFraction at hc
  split at hc
  · cases hc
  · rcases List.mem_cons.mp hc with rfl | hc
    · rfl
    · exact padded_timeChar _ _ c ((List.rdropWhile_prefix _ _).subset hc)

/-- The characters of a time. -/
theorem formatRFC3339Nano_timeChar (t : Int) :
    ∀ c ∈ formatRFC3339Nano t, isTimeChar c = true := by
  intro c hc
  simp only [formatRFC3339Nano, List.mem_append, List.mem_cons, List.not_mem_nil, or_false] at hc
  rcases hc with hc | rfl | hc | rfl | hc | rfl | hc | hc | rfl
  · exact formatDate_timeChar _ c hc
  · rfl
  · exact padded_timeChar _ _ c hc
  · rfl
  · exact padded_timeChar _ _ c hc
  · rfl
  · exact padded_timeChar _ _ c hc
  · exact formatFraction_timeChar _ c hc
  · rfl

/-- They are ASCII, and none of them is NUL. -/
theorem isTimeChar_ascii {c : Char} (h : isTimeChar c = true) :
    isAscii c = true ∧ c ≠ '\x00' := by
  simp only [isTimeChar, Bool.or_eq_true, beq_iff_eq] at h
  rcases h with ((((h | rfl) | rfl) | rfl) | rfl) | rfl
  · refine ⟨isAscii_of_isDigit h, ?_⟩
    rintro rfl
    cases h
  all_goals decide

/-- They are ASCII, in a date. -/
theorem formatDate_ascii (z : Int) : ∀ c ∈ formatDate z, isAscii c = true := fun c hc =>
  (isTimeChar_ascii (formatDate_timeChar z c hc)).1

/-- And in a time. -/
theorem formatRFC3339Nano_ascii (t : Int) : ∀ c ∈ formatRFC3339Nano t, isAscii c = true :=
  fun c hc => (isTimeChar_ascii (formatRFC3339Nano_timeChar t c hc)).1

/-- None of them is the zero character, in a date. -/
theorem formatDate_noNul (z : Int) : (formatDate z).all (fun c => c != '\x00') = true :=
  List.all_eq_true.mpr fun c hc =>
    bne_iff_ne.mpr (isTimeChar_ascii (formatDate_timeChar z c hc)).2

/-- And in a time. -/
theorem formatRFC3339Nano_noNul (t : Int) :
    (formatRFC3339Nano t).all (fun c => c != '\x00') = true :=
  List.all_eq_true.mpr fun c hc =>
    bne_iff_ne.mpr (isTimeChar_ascii (formatRFC3339Nano_timeChar t c hc)).2

end Lib
