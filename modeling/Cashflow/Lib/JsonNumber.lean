import Cashflow.Lib.Binary64
import Cashflow.Lib.Json

/-!
# JsonNumber — the literals of numbers

A number of a JSON document is kept as its literal. `Numeral` says of a text that
it is one literal and nothing else; inside a document it is followed by what ends
a value, and is read back from there (`parseNumber_append`). `parseFloat64` is
the binary64 number nearest to what the literal says; small integers come out as
they are (`parseFloat64_intLiteral`).
-/

namespace Lib

namespace Json

/-- A text that is the literal of a number. -/
def Numeral (literal : Text) : Prop := parseNumber literal = some (literal, [])

/-- What may follow a value in a document without white space. -/
def Ends (rest : Text) : Prop := rest = [] ∨ ∃ c r, rest = c :: r ∧ (c = ',' ∨ c = '}' ∨ c = ']')

/-! ## Literals inside a document -/

section Append

variable {t a r rest : Text}

/-- What ends a value is no digit. -/
theorem Ends.head_not_digit (h : Ends rest) : ∀ c, rest.head? = some c → c.isDigit = false := by
  rintro c hc
  obtain rfl | ⟨d, r, rfl, hd⟩ := h
  · cases hc
  · cases hc
    rcases hd with rfl | rfl | rfl <;> rfl

/-- A span that ended within the text ends there in a longer text too. -/
theorem span_append {p : Char → Bool} (h : t.span p = (a, r))
    (hRest : ∀ c, rest.head? = some c → p c = false) : (t ++ rest).span p = (a, r ++ rest) := by
  simp only [List.span_eq_takeWhile_dropWhile, Prod.mk.injEq] at h ⊢
  obtain ⟨rfl, rfl⟩ := h
  induction t with
  | nil =>
    cases rest with
    | nil => exact ⟨rfl, rfl⟩
    | cons c rest => simp [hRest c rfl]
  | cons c t ih =>
    by_cases hc : p c = true
    · simp [hc, ih.1, ih.2]
    · simp [hc]

/-- Without a leading zero the integer part is a run of digits. -/
theorem integerPart_cons {c : Char} (hZero : c ≠ '0') (s : Text) :
    integerPart (c :: s) =
      if ((c :: s).span Char.isDigit).1 = [] then none else some ((c :: s).span Char.isDigit) := by
  rw [integerPart.eq_def]
  split
  · rename_i heq
    cases heq
    exact absurd rfl hZero
  · rfl

/-- The integer part does not change with what follows the number. -/
theorem integerPart_append (h : integerPart t = some (a, r)) (hEnds : Ends rest) :
    integerPart (t ++ rest) = some (a, r ++ rest) := by
  cases t with
  | nil => cases h
  | cons c t =>
    by_cases hZero : c = '0'
    · subst hZero
      cases h
      rfl
    · rw [integerPart_cons hZero] at h
      split at h
      · cases h
      · rename_i hSome
        have hSpan := span_append (Option.some.inj h) hEnds.head_not_digit
        rw [Option.some.inj h] at hSome
        rw [List.cons_append] at hSpan
        rw [List.cons_append, integerPart_cons hZero, hSpan, if_neg hSome]

/-- Nor does the fraction. -/
theorem fractionPart_append (h : fractionPart t = some (a, r)) (hEnds : Ends rest) :
    fractionPart (t ++ rest) = some (a, r ++ rest) := by
  cases t with
  | nil =>
    -- the number ends here, and what follows starts no fraction
    cases h
    obtain rfl | ⟨c, r, rfl, rfl | rfl | rfl⟩ := hEnds <;> rfl
  | cons c t =>
    by_cases hPoint : c = '.'
    · -- a point, and at least one digit behind it
      subst hPoint
      simp only [fractionPart] at h
      split at h
      · cases h
      · rename_i hSome
        cases hSpan : t.span Char.isDigit with
        | mk digits after =>
          rw [hSpan] at h hSome
          cases h
          have hWhole := span_append hSpan hEnds.head_not_digit
          rw [List.cons_append]
          simp only [fractionPart, hWhole, if_neg hSome]
    · -- no point: there is no fraction, with or without what follows
      have hNone : ∀ s : Text, fractionPart (c :: s) = some ([], c :: s) := by
        intro s
        rw [fractionPart.eq_def]
        split
        · rename_i heq
          cases heq
          exact absurd rfl hPoint
        · rfl
      rw [hNone] at h
      cases h
      rw [List.cons_append, hNone]

/-- Nor does the sign of the exponent. -/
theorem exponentSign_append (h : exponentSign t = (a, r)) (hNe : t ≠ []) :
    exponentSign (t ++ rest) = (a, r ++ rest) := by
  cases t with
  | nil => exact absurd rfl hNe
  | cons c t =>
    rw [exponentSign.eq_def] at h
    rw [List.cons_append, exponentSign.eq_def]
    split at h
    · rename_i heq
      cases heq
      cases h
      rfl
    · rename_i heq
      cases heq
      cases h
      rfl
    · rename_i hPlus hMinus
      cases h
      split
      · rename_i heq
        cases heq
        exact absurd rfl (hPlus t)
      · rename_i heq
        cases heq
        exact absurd rfl (hMinus t)
      · rfl

/-- Nor does the exponent. -/
theorem exponentPart_append (h : exponentPart t = some (a, r)) (hEnds : Ends rest) :
    exponentPart (t ++ rest) = some (a, r ++ rest) := by
  cases t with
  | nil =>
    cases h
    obtain rfl | ⟨c, r, rfl, rfl | rfl | rfl⟩ := hEnds <;> rfl
  | cons c t =>
    rw [List.cons_append]
    by_cases hMark : c = 'e' ∨ c = 'E'
    · -- a mark, an optional sign and at least one digit
      simp only [exponentPart, if_pos hMark] at h ⊢
      cases hSign : exponentSign t with
      | mk sign digits =>
        cases hSpan : digits.span Char.isDigit with
        | mk number after =>
          simp only [hSign, hSpan] at h
          split at h
          · cases h
          · rename_i hSome
            cases h
            -- the sign alone would be an empty exponent
            have hNe : t ≠ [] := by
              rintro rfl
              cases hSign
              cases hSpan
              exact hSome rfl
            simp only [exponentSign_append hSign hNe, span_append hSpan hEnds.head_not_digit,
              if_neg hSome]
    · simp only [exponentPart, if_neg hMark] at h ⊢
      cases h
      rfl

/-- Nor does the sign. -/
theorem signPart_append (hNe : t ≠ []) :
    signPart (t ++ rest) = ((signPart t).1, (signPart t).2 ++ rest) := by
  cases t with
  | nil => exact absurd rfl hNe
  | cons c t =>
    by_cases hMinus : c = '-'
    · subst hMinus
      rfl
    · have hNone : ∀ s : Text, signPart (c :: s) = ([], c :: s) := by
        intro s
        rw [signPart.eq_def]
        split
        · rename_i heq
          cases heq
          exact absurd rfl hMinus
        · rfl
      rw [List.cons_append, hNone, hNone, List.cons_append]

/-- What follows a literal is left to be read. -/
theorem parseNumber_append (h : parseNumber t = some (a, r)) (hEnds : Ends rest) :
    parseNumber (t ++ rest) = some (a, r ++ rest) := by
  have hNe : t ≠ [] := by
    rintro rfl
    cases h
  simp only [parseNumber, Option.bind_eq_bind, Option.bind_eq_some_iff, Prod.exists] at h
  obtain ⟨integer, r₁, hInteger, fraction, r₂, hFraction, exponent, r₃, hExponent, hEq⟩ := h
  cases hEq
  simp only [parseNumber, signPart_append hNe, integerPart_append hInteger hEnds,
    fractionPart_append hFraction hEnds, exponentPart_append hExponent hEnds,
    Option.bind_eq_bind, Option.bind_some]

end Append

/-! ## Integers -/

/-- A natural number is its own integer part. -/
theorem integerPart_decimal_alone (n : Nat) : integerPart (decimal n) = some (decimal n, []) := by
  by_cases hZero : n = 0
  · rw [hZero]
    rfl
  have hHead := head_decimal_ne_zero hZero
  have hSpan := @span_digits _ [] (decimal_isDigit n) nofun
  rw [List.append_nil] at hSpan
  cases hDigits : decimal n with
  | nil => exact absurd hDigits (decimal_ne_nil n)
  | cons d ds =>
    rw [hDigits] at hHead hSpan
    rw [integerPart_cons (fun h => hHead (by rw [h]; rfl)), hSpan]
    rfl

/-- Integers are written as numerals. -/
theorem numeral_intLiteral (n : Int) : Numeral (intLiteral n) := by
  simp only [Numeral, parseNumber, signPart_intLiteral, integerPart_decimal_alone, fractionPart,
    exponentPart, Option.bind_eq_bind, Option.bind_some, List.append_nil]
  rfl

/-! ## Values -/

/-- What a literal says. -/
def literalValue (literal : Text) : Option ℚ := do
  let (integer, r) ← integerPart (signPart literal).2
  let (fraction, r) ← fractionPart r
  let (exponent, _) ← exponentPart r
  let (sign, digits) := exponentSign exponent.tail
  let power : ℤ := (if sign = ['-'] then -(valueOf digits : ℤ) else valueOf digits) -
    fraction.tail.length
  let magnitude : ℚ := valueOf (integer ++ fraction.tail) * 10 ^ power
  some (if (signPart literal).1 = [] then magnitude else -magnitude)

/-- The nearest binary64 number, unless the literal is out of range. -/
def parseFloat64 (literal : Text) : Option ℚ := do
  let value ← literalValue literal
  if |Binary64.round value| < 2 ^ 1024 then some (Binary64.round value) else none

/-- The value of an integer's literal is the integer. -/
theorem literalValue_intLiteral (n : Int) : literalValue (intLiteral n) = some (n : ℚ) := by
  have hExponent : exponentSign ([] : Text) = ([], []) := rfl
  have hValue : (if (if n < 0 then ['-'] else []) = ([] : Text) then ((n.natAbs : ℕ) : ℚ)
      else -((n.natAbs : ℕ) : ℚ)) = n := by
    by_cases hNeg : n < 0
    · rw [if_pos hNeg, if_neg (List.cons_ne_nil _ _), Nat.cast_natAbs, abs_of_neg hNeg]
      push_cast
      ring
    · rw [if_neg hNeg, if_pos rfl, Nat.cast_natAbs, abs_of_nonneg (not_lt.mp hNeg)]
  simp only [literalValue, signPart_intLiteral, integerPart_decimal_alone, fractionPart,
    exponentPart, Option.bind_eq_bind, Option.bind_some, List.tail_nil, hExponent, List.append_nil,
    valueOf_decimal]
  simpa [valueOf] using hValue

/-- A small integer is read as it is. -/
theorem parseFloat64_intLiteral {n : Int} (h : |n| ≤ 2 ^ 53) :
    parseFloat64 (intLiteral n) = some (n : ℚ) := by
  have hExact := Binary64.round_exact h (show -1074 ≤ (0 : ℤ) by norm_num)
  rw [zpow_zero, mul_one] at hExact
  have hRange : |(n : ℚ)| < 2 ^ 1024 := by
    have hCast : |(n : ℚ)| ≤ 2 ^ 53 := by exact_mod_cast h
    exact lt_of_le_of_lt hCast (pow_lt_pow_right₀ (by norm_num) (by norm_num))
  rw [parseFloat64, literalValue_intLiteral, Option.bind_eq_bind, Option.bind_some, hExact,
    if_pos hRange]

end Json

end Lib
