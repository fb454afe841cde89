import Mathlib.Data.List.Basic
import Cashflow.Lib.Text

/-!
# Base64 without padding

The alphabet for URLs of RFC 4648, without padding. The decoder is lenient the
way Go's `base64.RawURLEncoding` is: it skips line breaks and ignores the bits
that are left over in the last character.

Main result: `base64Decode_encode`.
-/

namespace Lib

/-- The character of a six-bit value. -/
def base64Char (v : Nat) : Char :=
  if v < 26 then Char.ofNat (65 + v)
  else if v < 52 then Char.ofNat (71 + v)
  else if v < 62 then Char.ofNat (v - 4)
  else if v = 62 then '-'
  else '_'

/-- The six-bit value of a character. -/
def base64Value (c : Char) : Option Nat :=
  if 'A' ≤ c ∧ c ≤ 'Z' then some (c.toNat - 65)
  else if 'a' ≤ c ∧ c ≤ 'z' then some (c.toNat - 71)
  else if '0' ≤ c ∧ c ≤ '9' then some (c.toNat + 4)
  else if c = '-' then some 62
  else if c = '_' then some 63
  else none

/-- The six-bit values of bytes, three bytes at a time. -/
def sextets : List UInt8 → List Nat
  | a :: b :: c :: rest =>
    a.toNat / 4 :: (a.toNat % 4 * 16 + b.toNat / 16) :: (b.toNat % 16 * 4 + c.toNat / 64) ::
      c.toNat % 64 :: sextets rest
  | [a, b] => [a.toNat / 4, a.toNat % 4 * 16 + b.toNat / 16, b.toNat % 16 * 4]
  | [a] => [a.toNat / 4, a.toNat % 4 * 16]
  | [] => []

/-- Bytes from six-bit values; one value alone is not enough for a byte. -/
def ofSextets : List Nat → Option (List UInt8)
  | a :: b :: c :: d :: rest => do
    let bytes ← ofSextets rest
    some (UInt8.ofNat (a * 4 + b / 16) :: UInt8.ofNat (b % 16 * 16 + c / 4) ::
      UInt8.ofNat (c % 4 * 64 + d) :: bytes)
  | [a, b, c] => some [UInt8.ofNat (a * 4 + b / 16), UInt8.ofNat (b % 16 * 16 + c / 4)]
  | [a, b] => some [UInt8.ofNat (a * 4 + b / 16)]
  | [_] => none
  | [] => some []

def base64Encode (bytes : List UInt8) : Text := (sextets bytes).map base64Char

def base64Decode (t : Text) : Option (List UInt8) := do
  let values ← (t.filter fun c => c != '\r' && c != '\n').mapM base64Value
  ofSextets values

/-! ## Round trip -/

/-- A byte put together from its bits. -/
theorem byte_of_parts {b : UInt8} {n : Nat} (h : n = b.toNat) : UInt8.ofNat n = b := by
  rw [h]
  exact UInt8.ofNat_toNat

/-- The pieces of six bits are joined to the bytes they were cut from. -/
theorem ofSextets_sextets (bytes : List UInt8) : ofSextets (sextets bytes) = some bytes := by
  induction bytes using sextets.induct with
  | case1 a b c rest ih =>
    -- three bytes in four pieces
    have ha := a.toNat_lt
    have hb := b.toNat_lt
    have hc := c.toNat_lt
    simp only [sextets, ofSextets, ih, Option.bind_eq_bind, Option.bind_some, Option.some.injEq,
      List.cons.injEq, and_true]
    refine ⟨byte_of_parts ?_, byte_of_parts ?_, byte_of_parts ?_⟩
    all_goals omega
  | case2 a b =>
    -- two bytes are left over, in three pieces
    have ha := a.toNat_lt
    have hb := b.toNat_lt
    simp only [sextets, ofSextets, Option.some.injEq, List.cons.injEq, and_true]
    refine ⟨byte_of_parts ?_, byte_of_parts ?_⟩
    all_goals omega
  | case3 a =>
    -- one byte is left over, in two
    simp only [sextets, ofSextets, Option.some.injEq, List.cons.injEq, and_true]
    exact byte_of_parts (by omega)
  | case4 => rfl

/-- Each piece has six bits. -/
theorem sextets_lt (bytes : List UInt8) : ∀ v ∈ sextets bytes, v < 64 := by
  induction bytes using sextets.induct with
  | case1 a b c rest ih =>
    -- three bytes are cut into four pieces of six bits
    have ha := a.toNat_lt
    have hb := b.toNat_lt
    have hc := c.toNat_lt
    intro v hv
    simp only [sextets, List.mem_cons] at hv
    rcases hv with rfl | rfl | rfl | rfl | hv
    · omega
    · omega
    · omega
    · omega
    · exact ih v hv
  | case2 a b =>
    have ha := a.toNat_lt
    have hb := b.toNat_lt
    intro v hv
    simp only [sextets, List.mem_cons, List.not_mem_nil, or_false] at hv
    omega
  | case3 a =>
    have ha := a.toNat_lt
    intro v hv
    simp only [sextets, List.mem_cons, List.not_mem_nil, or_false] at hv
    omega
  | case4 =>
    intro v hv
    cases hv

/-- What holds of the characters of the alphabet. -/
theorem base64Char_spec {v : Nat} (h : v < 64) :
    base64Value (base64Char v) = some v ∧ base64Char v ≠ '.' ∧ base64Char v ≠ '\r' ∧
      base64Char v ≠ '\n' := by
  have hAll : ∀ v < 64, base64Value (base64Char v) = some v ∧ base64Char v ≠ '.' ∧
      base64Char v ≠ '\r' ∧ base64Char v ≠ '\n' := by decide +kernel
  exact hAll v h

/-- No full stop occurs in an encoding, so that two can be told apart around one. -/
theorem base64Encode_no_dot (bytes : List UInt8) : '.' ∉ base64Encode bytes := by
  intro hMem
  obtain ⟨v, hv, hEq⟩ := List.mem_map.mp hMem
  exact (base64Char_spec (sextets_lt bytes v hv)).2.1 hEq

/-- What was encoded is decoded: the alphabet has no line break and tells the pieces apart. -/
theorem base64Decode_encode (bytes : List UInt8) : base64Decode (base64Encode bytes) = some bytes := by
  have hSpec : ∀ v ∈ sextets bytes, _ := fun v hv => base64Char_spec (sextets_lt bytes v hv)
  have hKept : (base64Encode bytes).filter (fun c => c != '\r' && c != '\n') = base64Encode bytes := by
    rw [List.filter_eq_self]
    intro c hc
    obtain ⟨v, hv, rfl⟩ := List.mem_map.mp hc
    simp [(hSpec v hv).2.2.1, (hSpec v hv).2.2.2]
  have hValues : ∀ values : List Nat, (∀ v ∈ values, v < 64) →
      (values.map base64Char).mapM base64Value = some values := by
    intro values hLt
    induction values with
    | nil => rfl
    | cons v values ih =>
      rw [List.map_cons, List.mapM_cons, (base64Char_spec (hLt v List.mem_cons_self)).1,
        ih fun w hw => hLt w (List.mem_cons_of_mem _ hw)]
      rfl
  rw [base64Decode, hKept, base64Encode, hValues _ (sextets_lt bytes)]
  exact ofSextets_sextets bytes

end Lib
