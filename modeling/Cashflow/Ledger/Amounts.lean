import Cashflow.Ledger.Domain
import Cashflow.Lib.Json

/-!
# Ledger — amounts as text

`ParseBRL` and `Money.String` of `services/ledger/internal/domain/money.go`. The
source compares bytes; a character outside ASCII is several bytes, none of which
is a digit, a sign or a point, so nothing depends on reading characters instead.

Main results:

* `parseBRL_exact` — an amount is accepted exactly when it is written in digits
  with at most two behind the point and its cents fit, and it is then those
  cents; printing and parsing again gives the same amount.
-/

namespace Cashflow.Ledger

open Lib

/-! ## Reading -/

def asciiDigits (value : Text) : Bool := !value.isEmpty && value.all Char.isDigit

/-- The digits behind the point: a single one counts tenths. -/
def fractionCents : Option Text → Option Int64
  | none => some 0
  | some text => Json.parseInt64 (if text.length = 1 then text ++ ['0'] else text)

/-- The part of `ParseBRL` behind the split. -/
def amountOf (wholeText : Text) (fractionText : Option Text) : Except LedgerError Money :=
  if !asciiDigits wholeText || fractionText.any (fun text => !asciiDigits text) then
    .error .invalidAmount
  else
    match Json.parseInt64 wholeText, fractionCents fractionText with
    | some whole, some fraction =>
      if whole < 0 ∨ (Int64.maxValue - fraction) / 100 < whole then .error .invalidAmount
      else newMoney (whole * 100 + fraction) currencyBRL
    | _, _ => .error .invalidAmount

def parseBRL (value : Text) : Except LedgerError Money :=
  if value = [] ∨ value.head? = some '+' ∨ value.head? = some '-' then .error .invalidAmount
  else
    match value.splitOn '.' with
    | [wholeText] => amountOf wholeText none
    | [wholeText, fractionText] =>
      if fractionText.length = 0 ∨ 2 < fractionText.length then .error .invalidAmount
      else amountOf wholeText (some fractionText)
    | _ => .error .invalidAmount

/-- `Money.String` -/
def Money.string (m : Money) : Text :=
  Json.intLiteral (m.minor / 100).toInt ++ '.' :: appendInt (m.minor % 100).toInt 2

/-! ## What an amount is -/

/-- One or more digits. -/
def Digits (text : Text) : Prop := text ≠ [] ∧ ∀ c ∈ text, c.isDigit = true

/-- The text of an amount, and its value in cents. -/
inductive Amount : Text → Nat → Prop
  | whole {digits : Text} (h : Digits digits) : Amount digits (valueOf digits * 100)
  | tenths {digits : Text} {d : Char} (h : Digits digits) (hd : Digits [d]) :
    Amount (digits ++ ['.', d]) (valueOf digits * 100 + valueOf [d] * 10)
  | cents {digits : Text} {d e : Char} (h : Digits digits) (hd : Digits [d, e]) :
    Amount (digits ++ ['.', d, e]) (valueOf digits * 100 + valueOf [d, e])

/-- The check of the source is that of the grammar. -/
theorem asciiDigits_iff (text : Text) : asciiDigits text = true ↔ Digits text := by
  simp [asciiDigits, Digits]

/-! ## Arithmetic without overflow -/

/-- The guard of `ParseBRL` keeps every operation on the way in range. -/
theorem cents_exact {whole fraction : Int64} (hWhole : 0 ≤ whole.toInt)
    (hFraction : 0 ≤ fraction.toInt) (hCents : fraction.toInt < 100) :
    (Int64.maxValue - fraction).toInt = 2 ^ 63 - 1 - fraction.toInt ∧
      ((Int64.maxValue - fraction) / 100).toInt = (2 ^ 63 - 1 - fraction.toInt) / 100 ∧
      ((Int64.maxValue - fraction) / 100 < whole ↔
        2 ^ 63 - 1 < whole.toInt * 100 + fraction.toInt) ∧
      (whole.toInt * 100 + fraction.toInt ≤ 2 ^ 63 - 1 →
        (whole * 100).toInt = whole.toInt * 100 ∧
          (whole * 100 + fraction).toInt = whole.toInt * 100 + fraction.toInt) := by
  -- what is subtracted is below a hundred
  have hSub : (Int64.maxValue - fraction).toInt = 2 ^ 63 - 1 - fraction.toInt := by
    rw [Int64.toInt_sub, Int64.toInt_maxValue]
    exact Int.bmod_eq_of_le (by omega) (by omega)
  have hDiv : ((Int64.maxValue - fraction) / 100).toInt = (2 ^ 63 - 1 - fraction.toInt) / 100 := by
    -- division of machine integers is exact but for the least one by minus one
    have hMin : Int64.maxValue - fraction ≠ Int64.minValue := by
      intro h
      have hInt := congrArg Int64.toInt h
      rw [hSub, Int64.toInt_minValue] at hInt
      omega
    rw [Int64.toInt_div_of_ne_left _ _ hMin, hSub, Int.tdiv_eq_ediv_of_nonneg (by omega)]
    rfl
  refine ⟨hSub, hDiv, ?_, ?_⟩
  · rw [Int64.lt_iff_toInt_lt, hDiv]
    omega
  · -- within the guard the product is in range, and the sum is
    intro hFits
    have hMul : (whole * 100).toInt = whole.toInt * 100 := by
      rw [Int64.toInt_mul]
      show (whole.toInt * 100).bmod (2 ^ 64) = _
      exact Int.bmod_eq_of_le (by omega) (by omega)
    refine ⟨hMul, ?_⟩
    rw [Int64.toInt_add, hMul]
    exact Int.bmod_eq_of_le (by omega) (by omega)

/-! ## Digits and their values -/

/-- Digits are parsed to their value, if it fits. -/
theorem parseInt64_digits {text : Text} (h : Digits text) (x : Int64) :
    Json.parseInt64 text = some x ↔ x.toInt = valueOf text := by
  -- digits have no sign
  have hSign : Json.signPart text = ([], text) := by
    obtain ⟨hNe, hDigits⟩ := h
    unfold Json.signPart
    split
    · exact absurd (hDigits '-' List.mem_cons_self) (by decide)
    · rfl
  have hMin : Int64.minValue.toInt = -2 ^ 63 := Int64.toInt_minValue
  have hMax : Int64.maxValue.toInt = 2 ^ 63 - 1 := Int64.toInt_maxValue
  simp only [Json.parseInt64, Json.intValue, hSign, if_true, hMin, hMax]
  constructor
  · intro hParse
    split at hParse
    · rename_i hRange
      rw [← Option.some.inj hParse]
      exact Int64.toInt_ofInt_of_le hRange.2.2.1 (by omega)
    · cases hParse
  · intro hValue
    have hLt := x.toInt_lt
    rw [if_pos ⟨h.1, List.all_eq_true.mpr h.2, by omega, by omega⟩, ← hValue, Int64.ofInt_toInt]

/-- The cents behind the point. -/
def fractionValue : Option Text → Nat
  | none => 0
  | some text => if text.length = 1 then valueOf text * 10 else valueOf text

section Fraction

variable {fractionText : Option Text} (hDigits : ∀ text ∈ fractionText, Digits text)
  (hShort : ∀ text ∈ fractionText, text.length ≤ 2)

include hDigits hShort

/-- A fraction is less than a whole. -/
theorem fractionValue_lt : fractionValue fractionText < 100 := by
  cases fractionText with
  | none => exact Nat.succ_pos 99
  | some text =>
    have hLt := valueOf_lt (hDigits text rfl).2
    have hLength := hShort text rfl
    have hNe : text.length ≠ 0 := fun h => (hDigits text rfl).1 (List.length_eq_zero_iff.mp h)
    show (if text.length = 1 then valueOf text * 10 else valueOf text) < 100
    by_cases hOne : text.length = 1
    · -- one digit stands for tens
      rw [hOne] at hLt
      rw [if_pos hOne]
      omega
    · have hTwo : text.length = 2 := by omega
      rw [hTwo] at hLt
      rw [if_neg hOne]
      omega

/-- The fraction in cents, one digit standing for tens. -/
theorem fractionCents_iff (x : Int64) :
    fractionCents fractionText = some x ↔ x.toInt = fractionValue fractionText := by
  cases fractionText with
  | none =>
    show some 0 = some x ↔ x.toInt = (0 : Nat)
    rw [Option.some.injEq, eq_comm, ← Int64.toInt_inj]
    rfl
  | some text =>
    have hText := hDigits text rfl
    show Json.parseInt64 (if text.length = 1 then text ++ ['0'] else text) = some x ↔
      x.toInt = ((if text.length = 1 then valueOf text * 10 else valueOf text : Nat) : Int)
    by_cases hOne : text.length = 1
    · rw [if_pos hOne, if_pos hOne, parseInt64_digits, valueOf_append]
      · rfl
      · -- the zero that is appended is a digit
        refine ⟨by simp, fun c hc => ?_⟩
        rcases List.mem_append.mp hc with hc | hc
        · exact hText.2 c hc
        · rw [List.mem_singleton.mp hc]
          rfl
    · rw [if_neg hOne, if_neg hOne, parseInt64_digits hText]

end Fraction

/-! ## Accepted amounts -/

/-- The operands `ParseBRL` computes an amount from. -/
structure Computes (wholeText : Text) (fractionText : Option Text) (m : Money)
    (whole fraction : Int64) : Prop where
  wholeText : whole.toInt = valueOf wholeText
  fractionText : fraction.toInt = fractionValue fractionText
  guard : (Int64.maxValue - fraction).toInt = 2 ^ 63 - 1 - fraction.toInt
  quotient : ((Int64.maxValue - fraction) / 100).toInt = (2 ^ 63 - 1 - fraction.toInt) / 100
  product : (whole * 100).toInt = whole.toInt * 100
  sum : (whole * 100 + fraction).toInt = whole.toInt * 100 + fraction.toInt
  minor : m.minor = whole * 100 + fraction

/-- Any amount that is money is accepted. -/
theorem newMoney_ok {amountMinor : Int64} {m : Money} :
    newMoney amountMinor currencyBRL = .ok m ↔ m.minor = amountMinor := by
  constructor
  · intro h
    unfold newMoney at h
    rw [if_neg (by simp)] at h
    split at h
    · cases h
      rfl
    · cases h
  · rintro rfl
    exact newMoney_minor m

/-- The minor units are the exact value of the text. -/
theorem Computes.value {wholeText : Text} {fractionText : Option Text} {m : Money}
    {whole fraction : Int64} (h : Computes wholeText fractionText m whole fraction) :
    m.minor.toInt = valueOf wholeText * 100 + fractionValue fractionText := by
  rw [h.minor, h.sum, h.wholeText, h.fractionText]

/-- An amount that is accepted was computed without wrapping. -/
theorem amountOf_ok {wholeText : Text} {fractionText : Option Text} {m : Money}
    (hShort : ∀ text ∈ fractionText, text.length ≤ 2) (h : amountOf wholeText fractionText = .ok m) :
    Digits wholeText ∧ (∀ text ∈ fractionText, Digits text) ∧
      ∃ whole fraction, Computes wholeText fractionText m whole fraction := by
  unfold amountOf at h
  split at h
  · cases h
  rename_i hDigits
  rw [Bool.or_eq_true, not_or] at hDigits
  obtain ⟨hWhole, hFraction⟩ := hDigits
  have hWhole : Digits wholeText := (asciiDigits_iff _).mp (by simpa using hWhole)
  have hFraction : ∀ text ∈ fractionText, Digits text := by
    intro text hText
    refine (asciiDigits_iff _).mp ?_
    cases hText
    simpa using hFraction
  refine ⟨hWhole, hFraction, ?_⟩
  split at h
  · rename_i whole fraction hParse hCents
    rw [parseInt64_digits hWhole] at hParse
    rw [fractionCents_iff hFraction hShort] at hCents
    have hLt := fractionValue_lt hFraction hShort
    -- the guard of the source is the exact bound, so the product does not wrap
    obtain ⟨hGuard, hQuotient, hOver, hExact⟩ :=
      @cents_exact whole fraction (by omega) (by omega) (by omega)
    split at h
    · cases h
    · rename_i hFits
      rw [not_or, hOver, not_lt] at hFits
      obtain ⟨hProduct, hSum⟩ := hExact hFits.2
      exact ⟨whole, fraction, hParse, hCents, hGuard, hQuotient, hProduct, hSum, newMoney_ok.mp h⟩
  · cases h

/-- Every amount whose cents fit is accepted. -/
theorem amountOf_complete {wholeText : Text} {fractionText : Option Text} {m : Money}
    (hShort : ∀ text ∈ fractionText, text.length ≤ 2) (hWhole : Digits wholeText)
    (hFraction : ∀ text ∈ fractionText, Digits text)
    (hValue : m.minor.toInt = valueOf wholeText * 100 + fractionValue fractionText) :
    amountOf wholeText fractionText = .ok m := by
  -- a value that is an `Int64` has a whole and a fraction that are
  have hLt := m.minor.toInt_lt
  have hFractionLt := fractionValue_lt hFraction hShort
  obtain ⟨whole, hw⟩ : ∃ whole : Int64, whole.toInt = valueOf wholeText :=
    ⟨.ofInt (valueOf wholeText), Int64.toInt_ofInt_of_le (by omega) (by omega)⟩
  obtain ⟨fraction, hf⟩ : ∃ fraction : Int64, fraction.toInt = fractionValue fractionText :=
    ⟨.ofInt (fractionValue fractionText), Int64.toInt_ofInt_of_le (by omega) (by omega)⟩
  obtain ⟨-, -, hOver, hExact⟩ :=
    @cents_exact whole fraction (by omega) (by omega) (by omega)
  have hAscii : (!asciiDigits wholeText || fractionText.any fun text => !asciiDigits text) =
      false := by
    rw [(asciiDigits_iff _).mpr hWhole]
    cases fractionText with
    | none => rfl
    | some text =>
      show (!asciiDigits text) = false
      rw [(asciiDigits_iff _).mpr (hFraction text rfl)]
      rfl
  have hNonneg : ¬ whole < 0 := by
    rw [Int64.lt_iff_toInt_lt, Int64.toInt_zero]
    omega
  unfold amountOf
  rw [if_neg (by rw [hAscii]; exact Bool.false_ne_true)]
  simp only [(parseInt64_digits hWhole whole).mpr hw,
    (fractionCents_iff hFraction hShort fraction).mpr hf]
  rw [if_neg (by rw [not_or, hOver]; exact ⟨hNonneg, by omega⟩), newMoney_ok]
  rw [← Int64.toInt_inj, (hExact (by omega)).2]
  omega

/-! ## The split at the point -/

/-- An amount put together from its parts. -/
def spelled (wholeText : Text) : Option Text → Text
  | none => wholeText
  | some fractionText => wholeText ++ '.' :: fractionText

/-- The grammar, part by part. -/
theorem amount_iff {s : Text} {c : Nat} : Amount s c ↔ ∃ wholeText fractionText,
    s = spelled wholeText fractionText ∧ (∀ text ∈ fractionText, text.length ≤ 2) ∧
      Digits wholeText ∧ (∀ text ∈ fractionText, Digits text) ∧
      c = valueOf wholeText * 100 + fractionValue fractionText := by
  constructor
  · intro h
    cases h with
    | whole h => exact ⟨s, none, rfl, nofun, h, nofun, rfl⟩
    | @tenths digits d h hd =>
      exact ⟨digits, some [d], rfl, by simp, h, by rintro _ ⟨⟩; exact hd, rfl⟩
    | @cents digits d e h hd =>
      exact ⟨digits, some [d, e], rfl, by simp, h, by rintro _ ⟨⟩; exact hd, rfl⟩
  · rintro ⟨wholeText, fractionText, rfl, hShort, hWhole, hFraction, rfl⟩
    rcases fractionText with _ | (_ | ⟨d, _ | ⟨e, _ | ⟨f, rest⟩⟩⟩)
    · exact .whole hWhole
    · exact absurd rfl (hFraction [] rfl).1
    · exact .tenths hWhole (hFraction [d] rfl)
    · exact .cents hWhole (hFraction [d, e] rfl)
    · exact absurd (hShort _ rfl) (by simp only [List.length_cons]; omega)

/-- Digits have no dot among them. -/
theorem not_mem_digits {text : Text} (h : Digits text) : '.' ∉ text := fun hMem =>
  absurd (h.2 '.' hMem) (by decide)

/-- What `ParseBRL` accepts: a text of one part or two, whose amount is accepted. -/
theorem parseBRL_iff {s : Text} {m : Money} : parseBRL s = .ok m ↔
    ∃ wholeText fractionText, s = spelled wholeText fractionText ∧
      (∀ text ∈ fractionText, text.length ≤ 2) ∧ amountOf wholeText fractionText = .ok m := by
  constructor
  · intro h
    unfold parseBRL at h
    split at h
    · cases h
    -- the parts put together again are the text
    have hJoin : ['.'].intercalate (s.splitOn '.') = s := List.intercalate_splitOn '.'
    split at h
    · rename_i wholeText hParts
      rw [hParts] at hJoin
      exact ⟨wholeText, none, by rw [← hJoin]; simp [spelled, List.intercalate], nofun, h⟩
    · rename_i wholeText fractionText hParts
      rw [hParts] at hJoin
      split at h
      · cases h
      · rename_i hLength
        refine ⟨wholeText, some fractionText, ?_, ?_, h⟩
        · rw [← hJoin]
          simp [spelled, List.intercalate]
        · rintro _ ⟨⟩
          omega
    · -- two dots or more
      cases h
  · rintro ⟨wholeText, fractionText, rfl, hShort, h⟩
    obtain ⟨hWhole, hFraction, -⟩ := amountOf_ok hShort h
    -- the first character is a digit
    have hStart : ¬ (spelled wholeText fractionText = [] ∨
        (spelled wholeText fractionText).head? = some '+' ∨
        (spelled wholeText fractionText).head? = some '-') := by
      obtain ⟨c, rest, rfl⟩ := List.exists_cons_of_ne_nil hWhole.1
      have hDigit := hWhole.2 c List.mem_cons_self
      have hHead : (spelled (c :: rest) fractionText).head? = some c := by
        cases fractionText <;> rfl
      rintro (hNil | hPlus | hMinus)
      · rw [hNil] at hHead
        cases hHead
      · rw [hHead] at hPlus
        cases hPlus
        exact absurd hDigit (by decide)
      · rw [hHead] at hMinus
        cases hMinus
        exact absurd hDigit (by decide)
    unfold parseBRL
    rw [if_neg hStart]
    cases fractionText with
    | none =>
      -- and a text put together of parts without a dot is split into them
      have hParts : (spelled wholeText none).splitOn '.' = [wholeText] := by
        have hSplit : (['.'].intercalate [wholeText]).splitOn '.' = [wholeText] :=
          List.splitOn_intercalate '.' (by simpa using not_mem_digits hWhole) (by simp)
        simpa [spelled, List.intercalate] using hSplit
      simp only [hParts]
      exact h
    | some text =>
      have hText := hFraction text rfl
      have hParts : (spelled wholeText (some text)).splitOn '.' = [wholeText, text] := by
        have hSplit : (['.'].intercalate [wholeText, text]).splitOn '.' = [wholeText, text] :=
          List.splitOn_intercalate '.'
            (by simpa using ⟨not_mem_digits hWhole, not_mem_digits hText⟩) (by simp)
        simpa [spelled, List.intercalate] using hSplit
      have hLength : ¬ (text.length = 0 ∨ 2 < text.length) := by
        have hNe : text.length ≠ 0 := fun hZero => hText.1 (List.length_eq_zero_iff.mp hZero)
        have := hShort text rfl
        omega
      simp only [hParts]
      rw [if_neg hLength]
      exact h

/-! ## Printing -/

/-- A number is written in digits. -/
theorem digits_decimal (n : Nat) : Digits (decimal n) := ⟨decimal_ne_nil n, decimal_isDigit n⟩

/-- And so are its cents. -/
theorem digits_padded (n : Nat) : Digits (padded 2 n) :=
  ⟨List.ne_nil_of_length_pos (by simp), padded_isDigit 2 n⟩

/-- An amount is printed as its units, a point and two digits. -/
theorem string_eq (m : Money) : ∃ units cents : Nat, cents < 100 ∧
    m.minor.toInt = units * 100 + cents ∧
    m.string = spelled (decimal units) (some (padded 2 cents)) := by
  have hPositive : 0 < m.minor.toInt := Int64.lt_iff_toInt_lt.mp m.positive
  have hMin : m.minor ≠ Int64.minValue := by
    intro h
    rw [h, Int64.toInt_minValue] at hPositive
    omega
  have hDiv : (m.minor / 100).toInt = m.minor.toInt / 100 := by
    rw [Int64.toInt_div_of_ne_left _ _ hMin, Int.tdiv_eq_ediv_of_nonneg (by omega)]
    rfl
  have hMod : (m.minor % 100).toInt = m.minor.toInt % 100 := by
    rw [Int64.toInt_mod, Int.tmod_eq_emod_of_nonneg (by omega)]
    rfl
  refine ⟨(m.minor.toInt / 100).natAbs, (m.minor.toInt % 100).natAbs, by omega, by omega, ?_⟩
  unfold Money.string
  rw [hDiv, hMod, Json.intLiteral, appendInt, zeroFilled, if_neg (by omega), if_neg (by omega),
    if_pos (by omega)]
  rfl

/-- An amount is accepted if and only if it is one or more digits, optionally with
a point and one or two digits behind it, and its value in cents is positive and
fits; it is then exactly that value, and no operation on the way leaves the range.
What `Money.String` prints is read back as the same amount. -/
theorem parseBRL_exact :
    (∀ s, (∃ m, parseBRL s = .ok m) ↔ ∃ c, Amount s c ∧ 1 ≤ c ∧ c ≤ 2 ^ 63 - 1) ∧
    (∀ s m, parseBRL s = .ok m →
      ∃ wholeText fractionText whole fraction,
        s = spelled wholeText fractionText ∧ Computes wholeText fractionText m whole fraction ∧
        Amount s (valueOf wholeText * 100 + fractionValue fractionText) ∧
        m.minor.toInt = valueOf wholeText * 100 + fractionValue fractionText) ∧
    ∀ m : Money, parseBRL m.string = .ok m := by
  refine ⟨fun s => ⟨?_, ?_⟩, ?_, ?_⟩
  · rintro ⟨m, h⟩
    obtain ⟨wholeText, fractionText, rfl, hShort, h⟩ := parseBRL_iff.mp h
    obtain ⟨hWhole, hFraction, whole, fraction, hComputes⟩ := amountOf_ok hShort h
    have hMinor := hComputes.value
    have hPositive : 0 < m.minor.toInt := Int64.lt_iff_toInt_lt.mp m.positive
    have hLt := m.minor.toInt_lt
    exact ⟨_, amount_iff.mpr ⟨wholeText, fractionText, rfl, hShort, hWhole, hFraction, rfl⟩,
      by omega, by omega⟩
  · rintro ⟨c, hAmount, hOne, hMax⟩
    obtain ⟨wholeText, fractionText, rfl, hShort, hWhole, hFraction, rfl⟩ := amount_iff.mp hAmount
    -- an amount in range is the value of some machine integer
    obtain ⟨minor, hMinor⟩ : ∃ minor : Int64, minor.toInt =
        valueOf wholeText * 100 + fractionValue fractionText :=
      ⟨.ofInt _, Int64.toInt_ofInt_of_le (by omega) (by omega)⟩
    have hPositive : 0 < minor := by
      rw [Int64.lt_iff_toInt_lt, Int64.toInt_zero]
      omega
    refine ⟨⟨minor, hPositive⟩, parseBRL_iff.mpr ⟨wholeText, fractionText, rfl, hShort, ?_⟩⟩
    exact amountOf_complete hShort hWhole hFraction hMinor
  · intro s m h
    obtain ⟨wholeText, fractionText, rfl, hShort, h⟩ := parseBRL_iff.mp h
    obtain ⟨hWhole, hFraction, whole, fraction, hComputes⟩ := amountOf_ok hShort h
    exact ⟨wholeText, fractionText, whole, fraction, rfl, hComputes,
      amount_iff.mpr ⟨wholeText, fractionText, rfl, hShort, hWhole, hFraction, rfl⟩,
      hComputes.value⟩
  · -- what `String` writes is of the grammar, with the same value
    intro m
    obtain ⟨units, cents, hCents, hMinor, hString⟩ := string_eq m
    have hShort : ∀ text ∈ some (padded 2 cents), text.length ≤ 2 := by
      rintro _ ⟨⟩
      simp
    rw [hString]
    refine parseBRL_iff.mpr ⟨_, _, rfl, hShort, amountOf_complete hShort (digits_decimal units)
      (by rintro _ ⟨⟩; exact digits_padded cents) ?_⟩
    rw [hMinor, valueOf_decimal, fractionValue, if_neg (by simp), valueOf_padded 2 cents hCents]

/-- The largest amount. -/
def largestAmount : Money := ⟨Int64.maxValue, by decide⟩

/-- The largest amount is read without overflow. -/
theorem parseBRL_exact_largest :
    ∃ wholeText fractionText whole fraction,
      Computes wholeText fractionText largestAmount whole fraction ∧
        largestAmount.minor.toInt = valueOf wholeText * 100 + fractionValue fractionText := by
  have hParse : parseBRL "92233720368547758.07".toList = .ok largestAmount := by decide +kernel
  obtain ⟨wholeText, fractionText, whole, fraction, -, hComputes, -, hValue⟩ :=
    parseBRL_exact.2.1 _ _ hParse
  exact ⟨wholeText, fractionText, whole, fraction, hComputes, hValue⟩

example : parseBRL "92233720368547758.08".toList = .error .invalidAmount := by decide +kernel

example : parseBRL "007.5".toList = .ok ⟨750, by decide⟩ := by decide +kernel

end Cashflow.Ledger
