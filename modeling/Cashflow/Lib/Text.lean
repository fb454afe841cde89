import Mathlib.Data.List.Basic
import Mathlib.Data.Char
import Mathlib.Tactic.IntervalCases
import Cashflow.Lib.Decimal

/-!
# Texts, bytes and fixed-length patterns

* `utf8` — the UTF-8 bytes of a text; different texts have different bytes
  (`utf8_injective`), and ASCII text is its own bytes (`latin1_utf8`);
* `matchesAll` — a fixed-length pattern, one character class a position;
* `lower` — folding of ASCII letters, and hexadecimal digits.
-/

namespace Lib

/-- Text is kept as its characters. -/
abbrev Text := List Char

/-! ## Bytes -/

/-- A character of the ASCII range. -/
def isAscii (c : Char) : Bool := decide (c.toNat < 128)

/-- The UTF-8 bytes of a character; an ASCII character is its own byte. -/
def utf8Char (c : Char) : List UInt8 :=
  if isAscii c then [UInt8.ofNat c.toNat] else String.utf8EncodeChar c

/-- The UTF-8 bytes of a text. -/
def utf8 (l : List Char) : List UInt8 := l.flatMap utf8Char

/-- An ASCII character is one byte, its code. -/
theorem utf8EncodeChar_ascii {c : Char} (h : isAscii c = true) :
    String.utf8EncodeChar c = [UInt8.ofNat c.toNat] := by
  have h128 : c.toNat < 128 := by simpa [isAscii] using h
  have hSize : c.utf8Size = 1 := by
    have hLe : c.val ≤ 0x7F := by
      rw [UInt32.le_iff_toNat_le]
      have : c.val.toNat = c.toNat := rfl
      have : (0x7F : UInt32).toNat = 127 := rfl
      omega
    simp [Char.utf8Size, hLe]
  rw [String.utf8EncodeChar_eq_singleton hSize]
  rfl

/-- The shortcut for ASCII gives what the library gives. -/
theorem utf8Char_eq (c : Char) : utf8Char c = String.utf8EncodeChar c := by
  unfold utf8Char
  split
  · rename_i h
    rw [utf8EncodeChar_ascii h]
  · rfl

/-- Read every byte as the character of its value. -/
def latin1 (bytes : List UInt8) : List Char := bytes.map fun b => Char.ofNat b.toNat

@[simp] theorem latin1_append (a b : List UInt8) : latin1 (a ++ b) = latin1 a ++ latin1 b := by
  simp [latin1]

@[simp] theorem length_latin1 (a : List UInt8) : (latin1 a).length = a.length := by
  simp [latin1]

/-- ASCII text reads back from its bytes. -/
theorem latin1_utf8 {l : List Char} (h : ∀ c ∈ l, isAscii c = true) : latin1 (utf8 l) = l := by
  induction l with
  | nil => rfl
  | cons c l ih =>
    have hc := h c List.mem_cons_self
    have h128 : c.toNat < 128 := by simpa [isAscii] using hc
    have hByte : (UInt8.ofNat c.toNat).toNat = c.toNat := by
      rw [UInt8.toNat_ofNat']
      omega
    have ih := ih fun d hd => h d (List.mem_cons_of_mem _ hd)
    rw [utf8] at ih ⊢
    rw [List.flatMap_cons, latin1_append, ih, utf8Char, if_pos hc]
    simp [latin1, hByte, Char.ofNat_toNat]

/-- Different bytes are different characters. -/
theorem latin1_injective : Function.Injective latin1 := by
  apply List.map_injective_iff.mpr
  intro a b h
  have hToNat : ∀ x : UInt8, (Char.ofNat x.toNat).toNat = x.toNat := by
    intro x
    have hValid : x.toNat.isValidChar := Or.inl (by have := x.toNat_lt; omega)
    rw [Char.ofNat, dif_pos hValid]
    rfl
  have hNat := congrArg Char.toNat h
  rw [hToNat, hToNat] at hNat
  exact UInt8.toNat_inj.mp hNat

/-- An ASCII text has as many bytes as characters. -/
theorem length_utf8_ascii {l : List Char} (h : ∀ c ∈ l, isAscii c = true) :
    (utf8 l).length = l.length := by
  conv_rhs => rw [← latin1_utf8 h, length_latin1]

/-! ### Decoding -/

/-- What stands for a byte that begins no character. -/
def runeError : Char := Char.ofNat 0xFFFD

/-- A byte that continues a character. -/
def isContinuation (b : UInt8) : Bool := decide (128 ≤ b.toNat ∧ b.toNat < 192)

/-- The character of a code that took `size` bytes, unless fewer would have done
or there is none. -/
def checkedRune (least code size : Nat) : Char × Nat :=
  if least ≤ code ∧ code.isValidChar then (Char.ofNat code, size) else (runeError, 1)

/-- The first character of some bytes and how many of them it takes. -/
def decodeRune : List UInt8 → Char × Nat
  | [] => (runeError, 0)
  | a :: rest =>
    if a.toNat < 128 then (Char.ofNat a.toNat, 1)
    -- a continuation byte starts nothing
    else if a.toNat < 192 then (runeError, 1)
    -- two bytes
    else if a.toNat < 224 then
      match rest with
      | b :: _ =>
        if isContinuation b then checkedRune 128 (a.toNat % 32 * 64 + b.toNat % 64) 2
        else (runeError, 1)
      | _ => (runeError, 1)
    -- three
    else if a.toNat < 240 then
      match rest with
      | b :: c :: _ =>
        if isContinuation b && isContinuation c then
          checkedRune 2048 (a.toNat % 16 * 4096 + b.toNat % 64 * 64 + c.toNat % 64) 3
        else (runeError, 1)
      | _ => (runeError, 1)
    -- four
    else if a.toNat < 248 then
      match rest with
      | b :: c :: d :: _ =>
        if isContinuation b && isContinuation c && isContinuation d then
          checkedRune 65536
            (a.toNat % 8 * 262144 + b.toNat % 64 * 4096 + c.toNat % 64 * 64 + d.toNat % 64) 4
        else (runeError, 1)
      | _ => (runeError, 1)
    else (runeError, 1)

/-- The characters of at most so many bytes. -/
def runesFrom : Nat → List UInt8 → Text
  | 0, _ => []
  | _, [] => []
  | fuel + 1, a :: rest =>
    (decodeRune (a :: rest)).1 :: runesFrom fuel ((a :: rest).drop (decodeRune (a :: rest)).2)

/-- The text of some bytes, where each byte that is no UTF-8 counts as a character. -/
def runes (bytes : List UInt8) : Text := runesFrom bytes.length bytes

/-- The code of a character passes the checks of the decoder, if the encoding is not too long. -/
theorem checkedRune_toNat {least size : Nat} {c : Char} (h : least ≤ c.toNat) :
    checkedRune least c.toNat size = (c, size) := by
  rw [checkedRune, if_pos ⟨h, c.valid⟩, Char.ofNat_toNat]

/-- A byte below a power of two is its number. -/
theorem toNat_byte {n : Nat} (h : n < 256) : (UInt8.ofNat n).toNat = n := by
  rw [UInt8.toNat_ofNat']
  omega

/-- The decoder reads the character that was encoded, and takes all its bytes. -/
theorem decodeRune_utf8Char (c : Char) (rest : List UInt8) :
    decodeRune (utf8Char c ++ rest) = (c, (utf8Char c).length) := by
  have hMax : c.toNat < 1114112 := by
    rcases c.valid with h | h
    · have : c.toNat < 55296 := h
      omega
    · exact h.2
  have hVal : c.val.toNat = c.toNat := rfl
  rw [utf8Char_eq, String.utf8EncodeChar, hVal]
  -- every byte but the first has the mark of a continuation
  have hCont : ∀ n, n < 64 → isContinuation (UInt8.ofNat (n + 128)) = true := by
    intro n hn
    rw [isContinuation, toNat_byte (by omega), decide_eq_true_eq]
    omega
  -- one case for each length of an encoding, from one byte to four
  split_ifs with h1 h2 h3
  · -- one byte: the code itself
    simp only [List.cons_append, List.nil_append, decodeRune, toNat_byte (by omega : c.toNat < 256)]
    rw [if_pos (by omega), Char.ofNat_toNat]
    rfl
  · -- two bytes: five bits and six
    have hCode : (c.toNat / 64 % 32 + 192) % 32 * 64 + (c.toNat % 64 + 128) % 64 = c.toNat := by omega
    simp only [List.cons_append, List.nil_append, decodeRune,
      toNat_byte (by omega : c.toNat / 64 % 32 + 192 < 256),
      toNat_byte (by omega : c.toNat % 64 + 128 < 256), hCode]
    rw [if_neg (by omega), if_neg (by omega), if_pos (by omega), if_pos (hCont _ (by omega)),
      checkedRune_toNat (by omega)]
    rfl
  · -- three bytes: four bits, six and six
    have hCode : (c.toNat / 4096 % 16 + 224) % 16 * 4096 + (c.toNat / 64 % 64 + 128) % 64 * 64 +
        (c.toNat % 64 + 128) % 64 = c.toNat := by omega
    simp only [List.cons_append, List.nil_append, decodeRune,
      toNat_byte (by omega : c.toNat / 4096 % 16 + 224 < 256),
      toNat_byte (by omega : c.toNat / 64 % 64 + 128 < 256),
      toNat_byte (by omega : c.toNat % 64 + 128 < 256), hCode]
    rw [if_neg (by omega), if_neg (by omega), if_neg (by omega), if_pos (by omega),
      if_pos (by rw [hCont _ (by omega), hCont _ (by omega)]; rfl), checkedRune_toNat (by omega)]
    rfl
  · -- four bytes: three bits and three times six
    have hCode : (c.toNat / 262144 % 8 + 240) % 8 * 262144 + (c.toNat / 4096 % 64 + 128) % 64 * 4096 +
        (c.toNat / 64 % 64 + 128) % 64 * 64 + (c.toNat % 64 + 128) % 64 = c.toNat := by omega
    simp only [List.cons_append, List.nil_append, decodeRune,
      toNat_byte (by omega : c.toNat / 262144 % 8 + 240 < 256),
      toNat_byte (by omega : c.toNat / 4096 % 64 + 128 < 256),
      toNat_byte (by omega : c.toNat / 64 % 64 + 128 < 256),
      toNat_byte (by omega : c.toNat % 64 + 128 < 256), hCode]
    rw [if_neg (by omega), if_neg (by omega), if_neg (by omega), if_neg (by omega),
      if_pos (by omega),
      if_pos (by rw [hCont _ (by omega), hCont _ (by omega), hCont _ (by omega)]; rfl),
      checkedRune_toNat (by omega)]
    rfl

/-- Every character takes some byte. -/
theorem utf8Char_ne_nil (c : Char) : utf8Char c ≠ [] := by
  rw [utf8Char_eq, String.utf8EncodeChar]
  split_ifs <;> exact List.cons_ne_nil _ _

/-- Decoding a text takes it back character by character; its length in bytes is fuel enough. -/
theorem runesFrom_utf8 (t : Text) : ∀ fuel, (utf8 t).length ≤ fuel → runesFrom fuel (utf8 t) = t := by
  induction t with
  | nil => intro fuel _; cases fuel <;> rfl
  | cons c t ih =>
    intro fuel hFuel
    have hBytes : utf8 (c :: t) = utf8Char c ++ utf8 t := List.flatMap_cons
    obtain ⟨a, rest, hCons⟩ := List.exists_cons_of_ne_nil (utf8Char_ne_nil c)
    rw [hBytes, List.length_append, hCons, List.length_cons] at hFuel
    obtain ⟨fuel, rfl⟩ : ∃ n, fuel = n + 1 := ⟨fuel - 1, by omega⟩
    have hDecode := decodeRune_utf8Char c (utf8 t)
    have hDrop : (utf8Char c ++ utf8 t).drop (utf8Char c).length = utf8 t := List.drop_left
    rw [hBytes]
    rw [hCons] at hDecode hDrop ⊢
    rw [List.cons_append, runesFrom, ← List.cons_append, hDecode, hDrop, ih fuel (by omega)]

/-- So the runes of a text are its characters. -/
theorem runes_utf8 (t : Text) : runes (utf8 t) = t := runesFrom_utf8 t _ (Nat.le_refl _)

/-- And different texts have different bytes. -/
theorem utf8_injective : Function.Injective utf8 := Function.LeftInverse.injective runes_utf8

/-! ## Reading texts -/

/-- One fixed character. -/
def expect (c : Char) (l : List Char) : Option (List Char) :=
  match l with
  | d :: rest => if d = c then some rest else none
  | [] => none

@[simp] theorem expect_self (c : Char) (rest : List Char) : expect c (c :: rest) = some rest := by
  simp [expect]

/-- What was expected was there. -/
theorem expect_some {c : Char} {l rest : List Char} (h : expect c l = some rest) :
    l = c :: rest := by
  unfold expect at h
  split at h
  · rename_i d tail
    split at h
    · rename_i hd
      cases h
      rw [hd]
    · cases h
  · cases h

/-! ## Fixed-length patterns -/

/-- One character class for each position, and nothing else. -/
def matchesAll : List (Char → Bool) → List Char → Bool
  | [], [] => true
  | p :: ps, c :: cs => p c && matchesAll ps cs
  | _, _ => false

/-- A character is matched by the class at its position. -/
theorem matchesAll_cons (p : Char → Bool) (ps : List (Char → Bool)) (c : Char) (cs : List Char) :
    matchesAll (p :: ps) (c :: cs) = (p c && matchesAll ps cs) := rfl

def isDash (c : Char) : Bool := c == '-'

/-- A pattern matches texts of its own length. -/
theorem matchesAll_length {ps : List (Char → Bool)} {cs : List Char}
    (h : matchesAll ps cs = true) : cs.length = ps.length := by
  induction ps generalizing cs with
  | nil => cases cs with
    | nil => rfl
    | cons c cs => cases h
  | cons p ps ih => cases cs with
    | nil => cases h
    | cons c cs =>
      rw [matchesAll_cons, Bool.and_eq_true] at h
      rw [List.length_cons, List.length_cons, ih h.2]

/-- A pattern of one class asks for the length and the class. -/
theorem matchesAll_replicate {n : Nat} {p : Char → Bool} {cs : List Char} (hLength : cs.length = n)
    (h : ∀ c ∈ cs, p c = true) : matchesAll (List.replicate n p) cs = true := by
  subst hLength
  induction cs with
  | nil => rfl
  | cons c cs ih =>
    rw [List.length_cons, List.replicate_succ, matchesAll_cons, h c List.mem_cons_self,
      ih fun d hd => h d (List.mem_cons_of_mem _ hd)]
    rfl

/-- Every character of a match lies in every class that contains the pattern's
classes. -/
theorem matchesAll_forall {ps : List (Char → Bool)} {cs : List Char} {q : Char → Bool}
    (hq : ∀ p ∈ ps, ∀ c, p c = true → q c = true) (h : matchesAll ps cs = true) :
    ∀ c ∈ cs, q c = true := by
  induction ps generalizing cs with
  | nil => cases cs with
    | nil => simp
    | cons c cs => cases h
  | cons p ps ih => cases cs with
    | nil => cases h
    | cons c cs =>
      rw [matchesAll_cons, Bool.and_eq_true] at h
      intro d hd
      rcases List.mem_cons.mp hd with rfl | hd
      · exact hq p List.mem_cons_self d h.1
      · exact ih (fun p' hp' => hq p' (List.mem_cons_of_mem _ hp')) h.2 d hd

/-- A pattern of classes is kept by a map that keeps each class. -/
theorem matchesAll_map {ps qs : List (Char → Bool)} {cs : List Char} {f : Char → Char}
    (h : matchesAll ps cs = true)
    (hf : List.Forall₂ (fun p q => ∀ c, p c = true → q (f c) = true) ps qs) :
    matchesAll qs (cs.map f) = true := by
  induction hf generalizing cs with
  | nil => cases cs with
    | nil => rfl
    | cons c cs => cases h
  | cons hpq _ ih => cases cs with
    | nil => cases h
    | cons c cs =>
      rw [matchesAll_cons, Bool.and_eq_true] at h
      rw [List.map_cons, matchesAll_cons, Bool.and_eq_true]
      exact ⟨hpq c h.1, ih h.2⟩

/-- Patterns match in sequence. -/
theorem matchesAll_append {ps qs : List (Char → Bool)} {cs ds : List Char}
    (h : matchesAll ps cs = true) (h' : matchesAll qs ds = true) :
    matchesAll (ps ++ qs) (cs ++ ds) = true := by
  induction ps generalizing cs with
  | nil => cases cs with
    | nil => exact h'
    | cons c cs => cases h
  | cons p ps ih => cases cs with
    | nil => cases h
    | cons c cs =>
      rw [matchesAll_cons, Bool.and_eq_true] at h
      rw [List.cons_append, List.cons_append, matchesAll_cons, h.1, ih h.2]
      rfl

/-- A match of two patterns in a row splits into a match of each. -/
theorem matchesAll_split {ps qs : List (Char → Bool)} {cs : List Char}
    (h : matchesAll (ps ++ qs) cs = true) :
    ∃ as bs, cs = as ++ bs ∧ matchesAll ps as = true ∧ matchesAll qs bs = true := by
  induction ps generalizing cs with
  | nil => exact ⟨[], cs, rfl, rfl, h⟩
  | cons p ps ih => cases cs with
    | nil => cases h
    | cons c cs =>
      rw [List.cons_append, matchesAll_cons, Bool.and_eq_true] at h
      obtain ⟨as, bs, rfl, hAs, hBs⟩ := ih h.2
      exact ⟨c :: as, bs, rfl, by rw [matchesAll_cons, h.1, hAs]; rfl, hBs⟩

/-- Where the pattern has a dash, so has the text. -/
theorem matchesAll_dash {ps : List (Char → Bool)} {cs : List Char}
    (h : matchesAll (isDash :: ps) cs = true) : ∃ ds, cs = '-' :: ds ∧ matchesAll ps ds = true := by
  cases cs with
  | nil => cases h
  | cons c cs =>
    rw [matchesAll_cons, Bool.and_eq_true, isDash, beq_iff_eq] at h
    exact ⟨cs, by rw [h.1], h.2⟩

/-! ## Letter case and hexadecimal digits -/

/-- Lower-case every ASCII letter. -/
def lower (s : Text) : Text := s.map Char.toLower

/-- A digit of the class `[0-9a-f]`. -/
def isLowerHex (c : Char) : Bool := c.isDigit || (decide ('a' ≤ c) && decide (c ≤ 'f'))

/-- A digit of the class `[0-9a-fA-F]`. -/
def isHex (c : Char) : Bool := isLowerHex c || (decide ('A' ≤ c) && decide (c ≤ 'F'))

/-- What comes before an ASCII character is ASCII. -/
theorem isAscii_of_le {c d : Char} (h : c ≤ d) (hd : isAscii d = true) : isAscii c = true := by
  have hLe : c.toNat ≤ d.toNat := h
  simp only [isAscii, decide_eq_true_eq] at *
  omega

/-- Digits are ASCII. -/
theorem isAscii_of_isDigit {c : Char} (h : c.isDigit = true) : isAscii c = true := by
  simp only [Char.isDigit, Bool.and_eq_true, decide_eq_true_eq] at h
  exact isAscii_of_le (d := '9') h.2 rfl

/-- And so are hexadecimal digits. -/
theorem isAscii_of_isHex {c : Char} (h : isHex c = true) : isAscii c = true := by
  simp only [isHex, isLowerHex, Bool.or_eq_true, Bool.and_eq_true, decide_eq_true_eq] at h
  rcases h with (h | h) | h
  · exact isAscii_of_isDigit h
  · exact isAscii_of_le h.2 rfl
  · exact isAscii_of_le h.2 rfl

/-- What a check of the 128 ASCII characters shows holds of them all. -/
theorem forall_ascii {P : Char → Prop} (hAll : ∀ n < 128, P (Char.ofNat n)) {c : Char}
    (hc : isAscii c = true) : P c := by
  rw [← Char.ofNat_toNat c]
  exact hAll _ (by simpa [isAscii] using hc)

/-- What a check of the 256 bytes shows holds of them all. -/
theorem forall_byte {P : UInt8 → Prop} (hAll : ∀ n < 256, P (UInt8.ofNat n)) (b : UInt8) : P b := by
  rw [← UInt8.ofNat_toNat (x := b)]
  exact hAll _ b.toNat_lt

@[simp] theorem lower_lower (s : Text) : lower (lower s) = lower s := by
  have hChar : ∀ c : Char, c.toLower.toLower = c.toLower := by
    intro c
    by_cases hc : isAscii c = true
    · exact forall_ascii (P := fun c => c.toLower.toLower = c.toLower) (by decide) hc
    · have hNot : ¬ (c.val ≥ 'A'.val ∧ c.val ≤ 'Z'.val) := fun h =>
        hc (isAscii_of_le (d := 'Z') h.2 rfl)
      have hSelf : c.toLower = c := dif_neg hNot
      rw [hSelf, hSelf]
  rw [lower, lower, List.map_map]
  exact List.map_congr_left fun c _ => hChar c

/-- A hexadecimal digit in lower case. -/
theorem isLowerHex_toLower {c : Char} (h : isHex c = true) : isLowerHex c.toLower = true := by
  have hAll : ∀ n < 128, isHex (Char.ofNat n) = true → isLowerHex (Char.ofNat n).toLower = true := by
    decide
  exact forall_ascii (P := fun c => isHex c = true → isLowerHex c.toLower = true) hAll
    (isAscii_of_isHex h) h

/-- Small hexadecimal digits are hexadecimal digits. -/
theorem isHex_of_isLowerHex {c : Char} (h : isLowerHex c = true) : isHex c = true := by
  rw [isHex, h, Bool.true_or]

/-- Two lower-case digits for each byte. -/
def hexEncode (bytes : List UInt8) : Text :=
  bytes.flatMap fun b => [Nat.digitChar (b.toNat / 16), Nat.digitChar (b.toNat % 16)]

@[simp] theorem length_hexEncode (bytes : List UInt8) :
    (hexEncode bytes).length = 2 * bytes.length := by
  simp [hexEncode, List.length_flatMap, Nat.mul_comm]

/-- The digits that are written are small ones. -/
theorem isLowerHex_digitChar {n : Nat} (h : n < 16) : isLowerHex (Nat.digitChar n) = true := by
  have hAll : ∀ n < 16, isLowerHex (Nat.digitChar n) = true := by decide
  exact hAll n h

/-- So are those of an encoding. -/
theorem hexEncode_isLowerHex (bytes : List UInt8) : ∀ c ∈ hexEncode bytes, isLowerHex c = true := by
  intro c hc
  obtain ⟨b, -, hc⟩ := List.mem_flatMap.mp hc
  have hb := b.toNat_lt
  simp only [List.mem_cons, List.not_mem_nil, or_false] at hc
  rcases hc with rfl | rfl
  · exact isLowerHex_digitChar (by omega)
  · exact isLowerHex_digitChar (by omega)

/-- Different bytes are encoded differently: each digit tells its half of the byte. -/
theorem hexEncode_injective : Function.Injective hexEncode := by
  intro a b hDigits
  induction a generalizing b with
  | nil => cases b with
    | nil => rfl
    | cons y b => cases hDigits
  | cons x a ih => cases b with
    | nil => cases hDigits
    | cons y b =>
      simp only [hexEncode, List.flatMap_cons, List.cons_append, List.nil_append, List.cons.injEq] at hDigits
      obtain ⟨hHigh, hLow, hRest⟩ := hDigits
      have hInj : ∀ m < 16, ∀ n < 16, Nat.digitChar m = Nat.digitChar n → m = n := by decide
      have hx := x.toNat_lt
      have hy := y.toNat_lt
      have hHigh := hInj _ (by omega) _ (by omega) hHigh
      have hLow := hInj _ (by omega) _ (by omega) hLow
      rw [UInt8.toNat_inj.mp (by omega : x.toNat = y.toNat), ih hRest]

end Lib
