import Mathlib.Data.List.Perm.Basic
import Mathlib.Data.List.Sort
import Cashflow.Lib.Text

/-!
# JSON texts

`parse` reads a JSON document of any nesting; `renderObject` writes a flat
object the way an encoder without indentation does, with the characters
`<`, `>`, `&`, U+2028 and U+2029 escaped.

Main results:

* `parse_renderObject` — what is written is read back, member by member;
* `renderObject_injective` — different objects have different texts;
* `field_eq_of_perm` — a member is found wherever a store has moved it to;
* `Jsonb.sorted` — a column that moves the members and spaces them anew.
-/

namespace Lib

/-- A JSON value. A number is kept as its literal. -/
inductive Json where
  | null
  | bool (b : Bool)
  | num (literal : Text)
  | str (s : Text)
  | arr (elems : List Json)
  | obj (members : List (Text × Json))

namespace Json

/-! ## Strings -/

/-- One character of a string literal, or one `\u` escape of it. -/
inductive CodeUnit where
  | char (c : Char)
  | code (n : Nat)
deriving DecidableEq, Repr

/-- The value of a hexadecimal digit. -/
def hexValue (c : Char) : Option Nat :=
  if c.isDigit then some (c.toNat - 48)
  else if 'a' ≤ c ∧ c ≤ 'f' then some (c.toNat - 87)
  else if 'A' ≤ c ∧ c ≤ 'F' then some (c.toNat - 55)
  else none

/-- The code unit of a `\u` escape. -/
def hex4 (a b c d : Char) : Option Nat := do
  let a ← hexValue a
  let b ← hexValue b
  let c ← hexValue c
  let d ← hexValue d
  some (((a * 16 + b) * 16 + c) * 16 + d)

/-- The character of a two-character escape. -/
def unescape (c : Char) : Option Char :=
  if c = '"' ∨ c = '\\' ∨ c = '/' then some c
  else if c = 'b' then some '\x08'
  else if c = 'f' then some '\x0c'
  else if c = 'n' then some '\n'
  else if c = 'r' then some '\r'
  else if c = 't' then some '\t'
  else none

/-- The units of a string literal, read after its opening quote. -/
def parseUnits : Text → Option (List CodeUnit × Text)
  | [] => none
  | '"' :: r => some ([], r)
  | '\\' :: 'u' :: a :: b :: c :: d :: r => do
    let n ← hex4 a b c d
    let (us, r) ← parseUnits r
    some (.code n :: us, r)
  | '\\' :: e :: r => do
    let c ← unescape e
    let (us, r) ← parseUnits r
    some (.char c :: us, r)
  | c :: r =>
    -- a control character has to be escaped
    if c.toNat < 0x20 ∨ c = '\\' then none
    else do
      let (us, r) ← parseUnits r
      some (.char c :: us, r)

/-- The text the units stand for: an escaped surrogate pair is one character, a
lone surrogate is the replacement character. -/
def joinUnits : List CodeUnit → Text
  | [] => []
  | .char c :: us => c :: joinUnits us
  | .code n :: .code m :: us =>
    if 0xD800 ≤ n ∧ n < 0xDC00 ∧ 0xDC00 ≤ m ∧ m < 0xE000 then
      Char.ofNat (0x10000 + (n - 0xD800) * 1024 + (m - 0xDC00)) :: joinUnits us
    else if 0xD800 ≤ n ∧ n < 0xE000 then '�' :: joinUnits (.code m :: us)
    else Char.ofNat n :: joinUnits (.code m :: us)
  | .code n :: us =>
    if 0xD800 ≤ n ∧ n < 0xE000 then '�' :: joinUnits us else Char.ofNat n :: joinUnits us

/-- A string, read after its opening quote. -/
def parseString (t : Text) : Option (Text × Text) :=
  (parseUnits t).map fun p => (joinUnits p.1, p.2)

/-! ## Numbers -/

/-- An optional minus sign. -/
def signPart : Text → Text × Text
  | '-' :: r => (['-'], r)
  | r => ([], r)

/-- A zero, or digits that start with another one. -/
def integerPart : Text → Option (Text × Text)
  | '0' :: r => some (['0'], r)
  | r => if (r.span Char.isDigit).1 = [] then none else some (r.span Char.isDigit)

/-- A point with digits after it, if there is one. -/
def fractionPart : Text → Option (Text × Text)
  | '.' :: r =>
    if (r.span Char.isDigit).1 = [] then none
    else some ('.' :: (r.span Char.isDigit).1, (r.span Char.isDigit).2)
  | r => some ([], r)

/-- The sign of an exponent. -/
def exponentSign : Text → Text × Text
  | '+' :: r => (['+'], r)
  | '-' :: r => (['-'], r)
  | r => ([], r)

/-- An exponent, if there is one. -/
def exponentPart : Text → Option (Text × Text)
  | [] => some ([], [])
  | c :: r =>
    if c = 'e' ∨ c = 'E' then
      let (sign, r) := exponentSign r
      if (r.span Char.isDigit).1 = [] then none
      else some (c :: sign ++ (r.span Char.isDigit).1, (r.span Char.isDigit).2)
    else some ([], c :: r)

/-- The literal of a number, and the rest of the text. -/
def parseNumber (t : Text) : Option (Text × Text) := do
  let (integer, r) ← integerPart (signPart t).2
  let (fraction, r) ← fractionPart r
  let (exponent, r) ← exponentPart r
  some ((signPart t).1 ++ integer ++ fraction ++ exponent, r)

/-! ## Values -/

/-- White space between tokens. -/
def isSpace (c : Char) : Bool := c = ' ' || c = '\t' || c = '\n' || c = '\r'

/-- Drop leading white space. -/
def skipSpace (t : Text) : Text := t.dropWhile isSpace

/-- A fixed word. -/
def keyword (word : Text) (v : Json) (t : Text) : Option (Json × Text) :=
  if word <+: t then some (v, t.drop word.length) else none

mutual

/-- A value, and the rest of the text. -/
def parseValue : Nat → Text → Option (Json × Text)
  | 0, _ => none
  | fuel + 1, t =>
    match skipSpace t with
    | '"' :: r => (parseString r).map fun p => (.str p.1, p.2)
    | '{' :: r =>
      match skipSpace r with
      | '}' :: r => some (.obj [], r)
      | _ => (parseMembers fuel r).map fun p => (.obj p.1, p.2)
    | '[' :: r =>
      match skipSpace r with
      | ']' :: r => some (.arr [], r)
      | _ => (parseElems fuel r).map fun p => (.arr p.1, p.2)
    | 'n' :: r => keyword "ull".toList .null r
    | 't' :: r => keyword "rue".toList (.bool true) r
    | 'f' :: r => keyword "alse".toList (.bool false) r
    | r => (parseNumber r).map fun p => (.num p.1, p.2)

/-- The members of an object up to its closing brace; at least one. -/
def parseMembers : Nat → Text → Option (List (Text × Json) × Text)
  | 0, _ => none
  | fuel + 1, t => do
    let r ← expect '"' (skipSpace t)
    let (key, r) ← parseString r
    let r ← expect ':' (skipSpace r)
    let (v, r) ← parseValue fuel r
    match skipSpace r with
    | '}' :: r => some ([(key, v)], r)
    | ',' :: r => (parseMembers fuel r).map fun p => ((key, v) :: p.1, p.2)
    | _ => none

/-- The elements of an array up to its closing bracket; at least one. -/
def parseElems : Nat → Text → Option (List Json × Text)
  | 0, _ => none
  | fuel + 1, t => do
    let (v, r) ← parseValue fuel t
    match skipSpace r with
    | ']' :: r => some ([v], r)
    | ',' :: r => (parseElems fuel r).map fun p => (v :: p.1, p.2)
    | _ => none

end

/-- A document: one value with nothing but white space around it. Every level
of nesting takes a character, so the length of the text is fuel enough. -/
def parse (t : Text) : Option Json :=
  match parseValue (t.length + 1) t with
  | some (v, r) => if skipSpace r = [] then some v else none
  | none => none

/-! ## Flat objects and their texts -/

/-- A value that is neither an object nor an array. -/
inductive Scalar where
  | null
  | int (n : Int)
  | text (s : Text)
deriving DecidableEq, Repr

/-- The literal of an integer. -/
def intLiteral (n : Int) : Text := (if n < 0 then ['-'] else []) ++ decimal n.natAbs

def Scalar.toJson : Scalar → Json
  | .null => .null
  | .int n => .num (intLiteral n)
  | .text s => .str s

/-- A `\u` escape. -/
def escapeCode (n : Nat) : Text :=
  ['\\', 'u', Nat.digitChar (n / 4096 % 16), Nat.digitChar (n / 256 % 16),
    Nat.digitChar (n / 16 % 16), Nat.digitChar (n % 16)]

/-- The characters written as a `\u` escape. -/
def usesCode (c : Char) : Bool :=
  decide (c.toNat < 0x20) || c = '<' || c = '>' || c = '&' || c.toNat = 0x2028 || c.toNat = 0x2029

/-- The characters that have an escape of two characters. -/
def shortEscape (c : Char) : Option Char :=
  if c = '"' ∨ c = '\\' then some c
  else if c = '\x08' then some 'b'
  else if c = '\x0c' then some 'f'
  else if c = '\n' then some 'n'
  else if c = '\r' then some 'r'
  else if c = '\t' then some 't'
  else none

/-- A character inside a string literal. -/
def escapeChar (c : Char) : Text :=
  match shortEscape c with
  | some e => ['\\', e]
  | none => if usesCode c then escapeCode c.toNat else [c]

/-- A string literal. -/
def quote (s : Text) : Text := '"' :: s.flatMap escapeChar ++ ['"']

def Scalar.render : Scalar → Text
  | .null => "null".toList
  | .int n => intLiteral n
  | .text s => quote s

/-- The members of an object and its closing brace, with a gap after each colon
and comma. -/
def renderMembers (gap : Text) : List (Text × Scalar) → Text
  | [] => ['}']
  | [m] => quote m.1 ++ ':' :: (gap ++ m.2.render) ++ ['}']
  | m :: n :: ms =>
    quote m.1 ++ ':' :: (gap ++ m.2.render) ++ ',' :: (gap ++ renderMembers gap (n :: ms))

/-- An object in the form of an encoder without indentation. -/
def renderObject (ms : List (Text × Scalar)) : Text := '{' :: renderMembers [] ms

/-- An object in the form of a database, with a blank between tokens. -/
def renderSpaced (ms : List (Text × Scalar)) : Text := '{' :: renderMembers [' '] ms

/-- The members of an object as values. -/
def members (ms : List (Text × Scalar)) : List (Text × Json) := ms.map fun m => (m.1, m.2.toJson)

example : renderObject [("a".toList, .int (-7)), ("b".toList, .text "<\n".toList)] =
    "\x7b\"a\":-7,\"b\":\"\\u003c\\n\"\x7d".toList := by decide +kernel

example : renderSpaced [("a".toList, .int (-7)), ("b".toList, .null)] =
    "\x7b\"a\": -7, \"b\": null\x7d".toList := by decide +kernel

/-! ## Reading back what was written -/

/-- Four hexadecimal digits are read as the number they were written for. -/
theorem hex4_digits {n : Nat} (h : n < 65536) :
    hex4 (Nat.digitChar (n / 4096 % 16)) (Nat.digitChar (n / 256 % 16))
      (Nat.digitChar (n / 16 % 16)) (Nat.digitChar (n % 16)) = some n := by
  have hDigit : ∀ d < 16, hexValue (Nat.digitChar d) = some d := by decide
  have hMod : ∀ m, m % 16 < 16 := fun m => Nat.mod_lt _ (by norm_num)
  simp only [hex4, hDigit _ (hMod _), Option.bind_eq_bind, Option.bind_some, Option.some.injEq]
  omega

/-- The unit a written character is read as. -/
def unitOf (c : Char) : CodeUnit :=
  if (shortEscape c).isNone && usesCode c then .code c.toNat else .char c

/-- A short escape is read back as its character, and does not start a code. -/
theorem unescape_shortEscape {c e : Char} (h : shortEscape c = some e) :
    e ≠ 'u' ∧ unescape e = some c := by
  unfold shortEscape at h
  split at h
  · rename_i hc
    cases h
    rcases hc with rfl | rfl
    all_goals decide
  all_goals repeat' (split at h; · (rename_i hc; subst hc; cases h; decide))
  cases h

/-- What is written as a code is below the surrogates, so one code is enough. -/
theorem lt_of_usesCode {c : Char} (h : usesCode c = true) : c.toNat < 0xD800 := by
  simp only [usesCode, Bool.or_eq_true, decide_eq_true_eq] at h
  rcases h with ((((h | rfl) | rfl) | rfl) | h) | h
  · omega
  · decide
  · decide
  · decide
  · omega
  · omega

/-- Reading a short escape. -/
theorem parseUnits_escape {e : Char} (h : e ≠ 'u') (rest : Text) :
    parseUnits ('\\' :: e :: rest) =
      (unescape e).bind fun c => (parseUnits rest).map fun p => (.char c :: p.1, p.2) := by
  rw [parseUnits.eq_def]
  split
  · simp_all
  · simp_all
  · simp_all
  · rename_i heq
    cases heq
    cases unescape e with
    | none => rfl
    | some c => cases parseUnits rest <;> rfl
  · rename_i hNotEscape heq
    cases heq
    exact absurd rfl (hNotEscape e rest rfl)

/-- Reading a character that stands for itself. -/
theorem parseUnits_plain {c : Char} (hQuote : c ≠ '"') (hSlash : c ≠ '\\')
    (hControl : ¬ c.toNat < 0x20) (rest : Text) :
    parseUnits (c :: rest) = (parseUnits rest).map fun p => (.char c :: p.1, p.2) := by
  rw [parseUnits.eq_def]
  split
  · simp_all
  · simp_all
  · simp_all
  · simp_all
  · rename_i heq
    cases heq
    rw [if_neg (by simp [hControl, hSlash])]
    cases parseUnits rest <;> rfl

/-- Reading one character, however it was written. -/
theorem parseUnits_escapeChar (c : Char) (rest : Text) :
    parseUnits (escapeChar c ++ rest) =
      (parseUnits rest).map fun p => (unitOf c :: p.1, p.2) := by
  cases hShort : shortEscape c with
  | some e =>
    -- a short escape, which is read back by its table
    obtain ⟨hu, hBack⟩ := unescape_shortEscape hShort
    simp only [escapeChar, unitOf, hShort, List.cons_append, List.nil_append]
    rw [parseUnits_escape hu, hBack]
    rfl
  | none =>
    simp only [escapeChar, unitOf, hShort, Option.isNone_none, Bool.true_and]
    by_cases hCode : usesCode c = true
    · -- a code of four digits, which is one unit
      have hHex := hex4_digits (lt_trans (lt_of_usesCode hCode) (by norm_num))
      rw [if_pos hCode, if_pos hCode, escapeCode]
      simp only [List.cons_append, List.nil_append, parseUnits, hHex]
      cases parseUnits rest <;> rfl
    · rw [if_neg hCode, if_neg hCode, List.singleton_append]
      -- what is written as itself is no quote, no backslash and no control character
      apply parseUnits_plain
      · rintro rfl
        cases hShort
      · rintro rfl
        cases hShort
      · intro hLt
        exact hCode (by simp [usesCode, hLt])

/-- A code below the surrogates is a character of its own. -/
theorem joinUnits_code {n : Nat} (h : n < 0xD800) (us : List CodeUnit) :
    joinUnits (.code n :: us) = Char.ofNat n :: joinUnits us := by
  have hLow : ¬ (0xD800 ≤ n ∧ n < 0xE000) := by omega
  have hPair : ∀ m, ¬ (0xD800 ≤ n ∧ n < 0xDC00 ∧ 0xDC00 ≤ m ∧ m < 0xE000) := by omega
  match us with
  | [] => simp only [joinUnits, if_neg hLow]
  | .char c :: us => simp only [joinUnits, if_neg hLow]
  | .code m :: us => simp only [joinUnits, if_neg hLow, if_neg (hPair m)]

/-- The units of a text join to the text. -/
theorem joinUnits_map (s : Text) : joinUnits (s.map unitOf) = s := by
  induction s with
  | nil => rfl
  | cons c s ih =>
    rw [List.map_cons, unitOf]
    split
    · rename_i hCode
      rw [joinUnits_code (lt_of_usesCode (Bool.and_eq_true_iff.mp hCode).2), ih, Char.ofNat_toNat]
    · show c :: joinUnits (s.map unitOf) = c :: s
      rw [ih]

/-- A quoted text is read back, up to its closing quote. -/
theorem parseString_quote (s rest : Text) :
    parseString (s.flatMap escapeChar ++ '"' :: rest) = some (s, rest) := by
  have hUnits : parseUnits (s.flatMap escapeChar ++ '"' :: rest) = some (s.map unitOf, rest) := by
    induction s with
    | nil => rfl
    | cons c s ih => rw [List.flatMap_cons, List.append_assoc, parseUnits_escapeChar, ih]; rfl
  rw [parseString, hUnits, Option.map_some, joinUnits_map]

/-- What may follow a value inside an object. -/
def Closes (rest : Text) : Prop := ∃ c r, rest = c :: r ∧ (c = ',' ∨ c = '}')

/-- The digits of a number end where the number ends. -/
theorem span_decimal (n : Nat) {rest : Text} (h : Closes rest) :
    (decimal n ++ rest).span Char.isDigit = (decimal n, rest) := by
  apply span_digits (decimal_isDigit n)
  obtain ⟨c, r, rfl, hc⟩ := h
  intro d hd
  cases hd
  rcases hc with rfl | rfl <;> rfl

/-- The integer part of a number without leading zeros is the number. -/
theorem integerPart_decimal (n : Nat) {rest : Text} (h : Closes rest) :
    integerPart (decimal n ++ rest) = some (decimal n, rest) := by
  -- zero is a case of its own: it may not be followed by digits
  by_cases hZero : n = 0
  · rw [hZero]
    rfl
  have hHead := head_decimal_ne_zero hZero
  have hNil := decimal_ne_nil n
  have hSpan := span_decimal n h
  cases hDigits : decimal n with
  | nil => exact absurd hDigits hNil
  | cons d ds =>
    rw [hDigits] at hHead hSpan
    rw [List.cons_append] at hSpan ⊢
    rw [integerPart.eq_def]
    split
    · -- the digits of a positive number do not start with zero
      rename_i heq
      cases heq
      exact absurd rfl hHead
    · rw [hSpan]
      simp

/-- A natural number has no sign. -/
theorem signPart_decimal (n : Nat) (rest : Text) :
    signPart (decimal n ++ rest) = ([], decimal n ++ rest) := by
  have hDigit := decimal_isDigit n
  cases hDigits : decimal n with
  | nil => exact absurd hDigits (decimal_ne_nil n)
  | cons d ds =>
    rw [List.cons_append, signPart.eq_def]
    split
    · rename_i heq
      cases heq
      rw [hDigits] at hDigit
      exact absurd (hDigit '-' List.mem_cons_self) (by decide)
    · rfl

/-- The sign of an integer, and its digits behind it. -/
theorem signPart_intLiteral_append (n : Int) (rest : Text) :
    signPart (intLiteral n ++ rest) =
      (if n < 0 then ['-'] else [], decimal n.natAbs ++ rest) := by
  unfold intLiteral
  split
  · rfl
  · exact signPart_decimal _ _

/-- The sign of an integer that stands alone. -/
theorem signPart_intLiteral (n : Int) :
    signPart (intLiteral n) = (if n < 0 then ['-'] else [], decimal n.natAbs) := by
  have h := signPart_intLiteral_append n []
  rwa [List.append_nil, List.append_nil] at h

/-- An integer is read back as its own literal. -/
theorem parseNumber_intLiteral (n : Int) {rest : Text} (h : Closes rest) :
    parseNumber (intLiteral n ++ rest) = some (intLiteral n, rest) := by
  have hEnd : fractionPart rest = some ([], rest) ∧ exponentPart rest = some ([], rest) := by
    obtain ⟨c, r, rfl, rfl | rfl⟩ := h
    · exact ⟨rfl, rfl⟩
    · exact ⟨rfl, rfl⟩
  simp only [parseNumber, signPart_intLiteral_append, integerPart_decimal _ h, hEnd.1, hEnd.2,
    Option.bind_eq_bind, Option.bind_some, List.append_nil]
  rfl

/-- There is nothing to skip in front of what is no space. -/
theorem skipSpace_cons {c : Char} (h : isSpace c = false) (r : Text) :
    skipSpace (c :: r) = c :: r := by
  rw [skipSpace, List.dropWhile_cons_of_neg (by simp [h])]

/-- The first character of a number is a sign or a digit. -/
theorem head_intLiteral (n : Int) :
    ∃ c r, intLiteral n = c :: r ∧ (c = '-' ∨ c.isDigit = true) := by
  unfold intLiteral
  split
  · exact ⟨'-', _, rfl, Or.inl rfl⟩
  · cases hDigits : decimal n.natAbs with
    | nil => exact absurd hDigits (decimal_ne_nil _)
    | cons d ds =>
      refine ⟨d, ds, rfl, Or.inr (decimal_isDigit n.natAbs d ?_)⟩
      rw [hDigits]
      exact List.mem_cons_self

/-- A member's value is read back, whatever closes it. -/
theorem parseValue_render (fuel : Nat) (v : Scalar) {rest : Text} (h : Closes rest) :
    parseValue (fuel + 1) (v.render ++ rest) = some (v.toJson, rest) := by
  cases v with
  | null =>
    show parseValue (fuel + 1) ('n' :: 'u' :: 'l' :: 'l' :: rest) = some (.null, rest)
    rw [parseValue, skipSpace_cons (by decide)]
    simp [keyword]
  | text s =>
    simp only [Scalar.render, quote, List.cons_append, List.append_assoc]
    rw [parseValue, skipSpace_cons (by decide)]
    simp only [parseString_quote, Option.map_some, Scalar.toJson, List.nil_append]
  | int n =>
    have hNumber := parseNumber_intLiteral n h
    obtain ⟨c, r, hText, hc⟩ := head_intLiteral n
    have hSpace : isSpace c = false := by
      rcases hc with rfl | hc
      · rfl
      · exact Bool.eq_false_iff.mpr fun hSpace => by
          simp only [isSpace, Bool.or_eq_true, decide_eq_true_eq] at hSpace
          rcases hSpace with ((rfl | rfl) | rfl) | rfl <;> cases hc
    simp only [Scalar.render, Scalar.toJson, hText, List.cons_append] at hNumber ⊢
    rw [parseValue.eq_def]
    simp only [skipSpace_cons hSpace]
    split
    -- no other kind of value starts with a sign or a digit
    all_goals first
      | (rename_i heq
         cases heq
         rcases hc with hc | hc <;> cases hc)
      | (rw [hNumber]
         rfl)

section Gap

variable {gap : Text}

/-- A gap of white space is not seen by what skips it. -/
theorem skipSpace_gap (hGap : gap.all isSpace = true) (t : Text) :
    skipSpace (gap ++ t) = skipSpace t := by
  rw [skipSpace, List.dropWhile_append_of_pos (List.all_eq_true.mp hGap), skipSpace]

/-- Space in front of a value is skipped. -/
theorem parseValue_gap (hGap : gap.all isSpace = true) (fuel : Nat) (t : Text) :
    parseValue fuel (gap ++ t) = parseValue fuel t := by
  cases fuel with
  | zero => rfl
  | succ fuel => rw [parseValue.eq_def, parseValue.eq_def _ t]; simp only [skipSpace_gap hGap]

/-- And in front of members. -/
theorem parseMembers_gap (hGap : gap.all isSpace = true) (fuel : Nat) (t : Text) :
    parseMembers fuel (gap ++ t) = parseMembers fuel t := by
  cases fuel with
  | zero => rfl
  | succ fuel => rw [parseMembers, parseMembers, skipSpace_gap hGap]

/-- The text of members is that of the first one, closed by the brace or by the comma before the
others. -/
theorem renderMembers_closes (gap : Text) (m : Text × Scalar) (ms : List (Text × Scalar))
    (rest : Text) :
    ∃ tail, renderMembers gap (m :: ms) ++ rest =
        quote m.1 ++ ':' :: (gap ++ (m.2.render ++ tail)) ∧
      Closes tail ∧
      ((ms = [] ∧ tail = '}' :: rest) ∨
        (ms ≠ [] ∧ tail = ',' :: (gap ++ (renderMembers gap ms ++ rest)))) := by
  cases ms with
  | nil =>
    refine ⟨'}' :: rest, ?_, ⟨_, _, rfl, Or.inr rfl⟩, Or.inl ⟨rfl, rfl⟩⟩
    simp [renderMembers]
  | cons n ms =>
    refine ⟨',' :: (gap ++ (renderMembers gap (n :: ms) ++ rest)), ?_, ⟨_, _, rfl, Or.inl rfl⟩,
      Or.inr ⟨by simp, rfl⟩⟩
    simp [renderMembers]

/-- Members are read back one by one. -/
theorem parseMembers_render (hGap : gap.all isSpace = true) {ms : List (Text × Scalar)}
    (hNe : ms ≠ []) {fuel : Nat} (hFuel : ms.length < fuel) (rest : Text) :
    parseMembers fuel (renderMembers gap ms ++ rest) = some (members ms, rest) := by
  induction ms generalizing fuel with
  | nil => exact absurd rfl hNe
  | cons m ms ih =>
    obtain ⟨fuel, rfl⟩ : ∃ k, fuel = k + 2 := ⟨fuel - 2, by simp at hFuel; omega⟩
    obtain ⟨tail, hText, hCloses, hTail⟩ := renderMembers_closes gap m ms rest
    rw [hText]
    simp only [quote, List.cons_append, List.append_assoc, List.nil_append]
    rw [parseMembers, skipSpace_cons (by decide)]
    simp only [expect_self, parseString_quote, Option.bind_eq_bind, Option.bind_some,
      skipSpace_cons (show isSpace ':' = false by decide), parseValue_gap hGap,
      parseValue_render fuel m.2 hCloses]
    -- the last member is closed by the brace; behind any other the loop goes on
    rcases hTail with ⟨rfl, rfl⟩ | ⟨hMore, rfl⟩
    · rw [skipSpace_cons (by decide)]
      rfl
    · have hRest := @ih hMore (fuel + 1) (by simp at hFuel; omega)
      rw [skipSpace_cons (by decide)]
      simp only [parseMembers_gap hGap, hRest, Option.map_some]
      rfl

/-- There are fewer members than characters, so the length of the text is fuel enough. -/
theorem length_renderMembers (gap : Text) (ms : List (Text × Scalar)) :
    ms.length < (renderMembers gap ms).length := by
  induction ms with
  | nil => simp [renderMembers]
  | cons m ms ih =>
    obtain ⟨tail, hText, -, hTail⟩ := renderMembers_closes gap m ms []
    rw [List.append_nil] at hText
    rw [hText]
    rcases hTail with ⟨rfl, rfl⟩ | ⟨-, rfl⟩
    · simp
      omega
    · simp
      omega

/-- Whatever white space stands between the tokens, the members are read back. -/
theorem parse_renderMembers (hGap : gap.all isSpace = true) (ms : List (Text × Scalar)) :
    parse ('{' :: renderMembers gap ms) = some (.obj (members ms)) := by
  have hLength := length_renderMembers gap ms
  have hValue : parseValue (('{' :: renderMembers gap ms).length + 1)
      ('{' :: renderMembers gap ms) = some (.obj (members ms), []) := by
    rw [parseValue, skipSpace_cons (by decide)]
    cases ms with
    | nil => rfl
    | cons m ms =>
      obtain ⟨tail, hText, -, -⟩ := renderMembers_closes gap m ms []
      rw [List.append_nil] at hText
      have hRead := parseMembers_render hGap (List.cons_ne_nil m ms)
        (show (m :: ms).length < ('{' :: renderMembers gap (m :: ms)).length by
          simp at hLength ⊢; omega) []
      rw [List.append_nil] at hRead
      -- the text of a member starts with a quote, not with the closing brace
      have hSkip : skipSpace (renderMembers gap (m :: ms)) = renderMembers gap (m :: ms) := by
        rw [hText, quote, List.cons_append, List.cons_append, skipSpace_cons (by decide)]
      simp only [hRead, Option.map_some]
      split
      · rename_i r heq
        rw [hSkip, hText, quote, List.cons_append, List.cons_append] at heq
        cases heq
      · rfl
  rw [parse, hValue]
  rfl

end Gap

/-- What is written is read back, member by member. -/
theorem parse_renderObject (ms : List (Text × Scalar)) :
    parse (renderObject ms) = some (.obj (members ms)) := parse_renderMembers rfl ms

/-- An object written with spaces is read back as well. -/
theorem parse_renderSpaced (ms : List (Text × Scalar)) :
    parse (renderSpaced ms) = some (.obj (members ms)) := parse_renderMembers rfl ms

/-- Different integers are written differently. -/
theorem intLiteral_injective : Function.Injective intLiteral := by
  intro m n h
  have hDash : ∀ k l : Nat, '-' :: decimal k ≠ decimal l := by
    intro k l hEq
    have hDigit := decimal_isDigit l '-' (by rw [← hEq]; exact List.mem_cons_self)
    cases hDigit
  unfold intLiteral at h
  by_cases hm : m < 0 <;> by_cases hn : n < 0 <;>
    simp only [hm, hn, if_true, if_false, List.singleton_append, List.nil_append] at h
  · have := decimal_injective (List.cons.inj h).2
    omega
  · exact absurd h (hDash _ _)
  · exact absurd h.symm (hDash _ _)
  · have := decimal_injective h
    omega

/-- Different values are different trees. -/
theorem Scalar.toJson_injective : Function.Injective Scalar.toJson := by
  intro v w h
  cases v <;> cases w <;> simp only [Scalar.toJson, Json.num.injEq, Json.str.injEq, reduceCtorEq] at h
  · rfl
  · rw [intLiteral_injective h]
  · rw [h]

/-- Different objects have different texts. -/
theorem renderObject_injective : Function.Injective renderObject := by
  intro ms ms' h
  have hParse := parse_renderObject ms
  rw [h, parse_renderObject ms', Option.some.injEq, Json.obj.injEq] at hParse
  apply List.map_injective_iff.mpr _ hParse.symm
  intro a b hab
  rw [Prod.mk.injEq] at hab
  exact Prod.ext hab.1 (Scalar.toJson_injective hab.2)

/-! ## Decoding into the fields of a record

A decoder walks the members in order, ignores unknown names and lets a later
member of the same name overwrite an earlier one; `null` leaves a field as it
is. Fields do not influence one another, so each is decoded from the members
that bear its name. -/

/-- Names are compared without regard to letter case; two characters outside
ASCII fold to a letter. -/
def foldChar (c : Char) : Char :=
  -- the long s and the Kelvin sign
  if c = Char.ofNat 0x17F then 'S' else if c = Char.ofNat 0x212A then 'K' else c.toUpper

example : [Char.ofNat 0x212A, 'k', Char.ofNat 0x17F].map foldChar = "KKS".toList := by decide

/-- The values of the members that a field of this name receives. -/
def field (name : Text) (ms : List (Text × Json)) : List Json :=
  (ms.filter fun m => m.1.map foldChar = name.map foldChar).map (·.2)

/-- A member is found wherever it has been moved to. -/
theorem field_eq_of_perm {name : Text} {ms ms' : List (Text × Json)} (hPerm : ms'.Perm ms)
    (h : (field name ms).length ≤ 1) : field name ms' = field name ms := by
  have hField : (field name ms').Perm (field name ms) := (hPerm.filter _).map _
  cases hValues : field name ms with
  | nil =>
    rw [hValues] at hField
    exact hField.eq_nil
  | cons v vs =>
    have hNil : vs = [] := by
      rw [hValues, List.length_cons] at h
      exact List.eq_nil_of_length_eq_zero (by omega)
    rw [hValues, hNil] at hField
    rw [List.perm_singleton.mp hField, hNil]

/-- The values of a name, in two lists of members. -/
theorem field_append (name : Text) (ms ms' : List (Text × Json)) :
    field name (ms ++ ms') = field name ms ++ field name ms' := by
  simp [field]

@[simp] theorem members_append (ms ms' : List (Text × Scalar)) :
    members (ms ++ ms') = members ms ++ members ms' := List.map_append

/-- A text field. -/
def decodeText (old : Text) : Json → Option Text
  | .null => some old
  | .str s => some s
  | _ => none

/-- The integer of a literal without fraction and exponent. -/
def intValue (literal : Text) : Int :=
  if (signPart literal).1 = [] then valueOf (signPart literal).2 else -valueOf (signPart literal).2

/-- The value of a literal of digits in the range of the type. -/
def parseInt64 (literal : Text) : Option Int64 :=
  let digits := (signPart literal).2
  let v := intValue literal
  if digits ≠ [] ∧ digits.all Char.isDigit ∧ Int64.minValue.toInt ≤ v ∧ v ≤ Int64.maxValue.toInt then
    some (Int64.ofInt v)
  else none

/-- An integer field. -/
def decodeInt64 (old : Int64) : Json → Option Int64
  | .null => some old
  | .num literal => parseInt64 literal
  | _ => none

/-- An integer's literal has its value. -/
theorem intValue_intLiteral (n : Int) : intValue (intLiteral n) = n := by
  rw [intValue, signPart_intLiteral]
  by_cases hNeg : n < 0
  · rw [if_pos hNeg, if_neg (List.cons_ne_nil _ _), valueOf_decimal]
    omega
  · rw [if_neg hNeg, if_pos rfl, valueOf_decimal]
    omega

/-- A number of 64 bits is read back from its literal. -/
theorem parseInt64_intLiteral (x : Int64) : parseInt64 (intLiteral x.toInt) = some x := by
  simp only [parseInt64, signPart_intLiteral, intValue_intLiteral]
  rw [if_pos, Int64.ofInt_toInt]
  exact ⟨decimal_ne_nil _, List.all_eq_true.mpr (decimal_isDigit _), x.minValue_le_toInt,
    x.toInt_le⟩

/-! ## Columns that keep values -/

/-- A text a database can keep. -/
def nulFree (s : Text) : Bool := s.all fun c => c != '\x00'

def Scalar.nulFree : Scalar → Bool
  | .text s => Json.nulFree s
  | _ => true

/-- A column that keeps JSON values, not texts: `cast` is the text that reading
gives back for a text that was stored, if it was accepted. A flat object with
different names comes back with the same members, in some order. -/
structure Jsonb where
  cast : Text → Option Text
  reads : ∀ t ms, parse t = some (.obj (members ms)) → (ms.map Prod.fst).Nodup →
    (ms.map Prod.fst).all nulFree = true → (∀ m ∈ ms, m.2.nulFree = true) →
    ∃ t' ms', cast t = some t' ∧ parse t' = some (.obj (members ms')) ∧ ms'.Perm ms

def toScalar : Json → Option Scalar
  | .null => some .null
  | .num literal =>
    if intLiteral (intValue literal) = literal then some (.int (intValue literal)) else none
  | .str s => some (.text s)
  | _ => none

/-- The members of a flat object. -/
def flatMembers : Json → Option (List (Text × Scalar))
  | .obj ms => ms.mapM fun m => m.2.toScalar.map (m.1, ·)
  | _ => none

/-- A value comes back from its tree. -/
theorem toScalar_toJson (v : Scalar) : v.toJson.toScalar = some v := by
  cases v with
  | null => rfl
  | int n => simp only [Scalar.toJson, toScalar, intValue_intLiteral, if_true]
  | text s => rfl

/-- Members without nesting come back from their object. -/
theorem flatMembers_members (ms : List (Text × Scalar)) :
    flatMembers (.obj (members ms)) = some ms := by
  rw [flatMembers]
  induction ms with
  | nil => rfl
  | cons m ms ih =>
    rw [members, List.map_cons, List.mapM_cons, toScalar_toJson]
    rw [members] at ih
    rw [ih]
    rfl

/-- Shorter names first, names of one length in order. -/
def nameLE (a b : Text × Scalar) : Prop :=
  a.1.length < b.1.length ∨ a.1.length = b.1.length ∧ a.1 ≤ b.1

instance : DecidableRel nameLE := fun _ _ => inferInstanceAs (Decidable (_ ∨ _))

/-- The column that sorts the members of a flat object by name and spaces its text
anew; other values keep their text. -/
def Jsonb.sorted : Jsonb where
  cast t := (parse t).bind fun v =>
    match v.flatMembers with
    | some ms =>
      if (ms.map Prod.fst).all nulFree ∧ ∀ m ∈ ms, m.2.nulFree = true then
        some (renderSpaced (ms.insertionSort nameLE))
      else none
    | none => some t
  reads t ms hParse _ hNames hValues :=
    ⟨renderSpaced (ms.insertionSort nameLE), ms.insertionSort nameLE,
      by simp only [hParse, Option.bind_some, flatMembers_members, if_pos (And.intro hNames hValues)],
      parse_renderSpaced _, List.perm_insertionSort _ _⟩

example : Jsonb.sorted.cast "\x7b\"kind\":\"sale\",\"id\":7\x7d".toList =
    some "\x7b\"id\": 7, \"kind\": \"sale\"\x7d".toList := by decide +kernel

end Json

end Lib
