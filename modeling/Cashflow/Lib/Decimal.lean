import Mathlib.Data.Nat.Digits.Defs
import Mathlib.Data.Nat.Digits.Lemmas
import Mathlib.Data.List.TakeWhile
import Mathlib.Tactic.Ring

/-!
# Decimal numerals

Numerals as lists of digit characters, most significant first: the shortest
numeral of a number (`decimal`), numerals of a fixed width (`padded`), and the
value of a run of digits (`valueOf`). Reading back a numeral gives the number
it was written for (`valueOf_decimal`, `valueOf_padded`).
-/

namespace Lib

/-- The character of a decimal digit. -/
def digit (n : Nat) : Char := Char.ofNat (48 + n)

/-- The value of a run of digits. -/
def valueOf (l : List Char) : Nat := l.foldl (fun acc c => acc * 10 + (c.toNat - 48)) 0

/-- Digits are digits. -/
theorem digit_isDigit {n : Nat} (h : n < 10) : (digit n).isDigit = true := by
  interval_cases n <;> decide

/-- A digit has its value. -/
theorem toNat_digit {n : Nat} (h : n < 10) : (digit n).toNat - 48 = n := by
  interval_cases n <;> decide

/-- One digit more, as it is written. -/
theorem valueOf_append_digit (l : List Char) {n : Nat} (h : n < 10) :
    valueOf (l ++ [digit n]) = valueOf l * 10 + n := by
  simp [valueOf, toNat_digit h]

/-- One digit more, as it is read. -/
theorem valueOf_append (l : List Char) (c : Char) :
    valueOf (l ++ [c]) = valueOf l * 10 + (c.toNat - 48) := by
  simp [valueOf]

/-- A run of digits is below the power of its length. -/
theorem valueOf_lt {l : List Char} (h : ∀ c ∈ l, c.isDigit = true) : valueOf l < 10 ^ l.length := by
  induction l using List.reverseRecOn with
  | nil => exact Nat.one_pos
  | append_singleton l c ih =>
    have hc : c.isDigit = true := h c (List.mem_append_right l (List.mem_singleton_self c))
    simp only [Char.isDigit, Bool.and_eq_true, decide_eq_true_eq, ge_iff_le,
      UInt32.le_iff_toNat_le] at hc
    have hDigit : c.toNat ≤ 57 := hc.2
    have hRest := ih fun d hd => h d (List.mem_append_left [c] hd)
    rw [valueOf_append, List.length_append, List.length_singleton, pow_succ]
    omega

/-! ## Fixed width -/

/-- The last `w` digits of `n`. -/
def padded : Nat → Nat → List Char
  | 0, _ => []
  | w + 1, n => padded w (n / 10) ++ [digit (n % 10)]

@[simp] theorem length_padded (w n : Nat) : (padded w n).length = w := by
  induction w generalizing n with
  | zero => rfl
  | succ w ih => simp [padded, ih]

/-- A padded number is made of digits. -/
theorem padded_isDigit (w n : Nat) : ∀ c ∈ padded w n, c.isDigit = true := by
  induction w generalizing n with
  | zero => simp [padded]
  | succ w ih =>
    intro c hc
    rcases List.mem_append.mp hc with hc | hc
    · exact ih (n / 10) c hc
    · rw [List.mem_singleton.mp hc]
      exact digit_isDigit (Nat.mod_lt _ (by norm_num))

/-- A number that fits is read back. -/
theorem valueOf_padded (w n : Nat) (h : n < 10 ^ w) : valueOf (padded w n) = n := by
  induction w generalizing n with
  | zero => simp [padded, valueOf, show n = 0 by simpa using h]
  | succ w ih =>
    have hDiv : n / 10 < 10 ^ w := by
      rw [Nat.div_lt_iff_lt_mul (by norm_num)]
      rwa [pow_succ] at h
    rw [padded, valueOf_append_digit _ (Nat.mod_lt _ (by norm_num)), ih _ hDiv]
    omega

/-! ## Shortest numerals -/

/-- The shortest numeral of `n`. -/
def decimal (n : Nat) : List Char :=
  if n = 0 then [digit 0] else ((Nat.digits 10 n).reverse.map digit)

/-- A number is made of digits. -/
theorem decimal_isDigit (n : Nat) : ∀ c ∈ decimal n, c.isDigit = true := by
  intro c hc
  unfold decimal at hc
  split at hc
  · rw [List.mem_singleton.mp hc]
    exact digit_isDigit (by norm_num)
  · obtain ⟨d, hd, rfl⟩ := List.mem_map.mp hc
    exact digit_isDigit (Nat.digits_lt_base (by norm_num) (List.mem_reverse.mp hd))

/-- Every number has a digit. -/
theorem decimal_ne_nil (n : Nat) : decimal n ≠ [] := by
  unfold decimal
  split
  · simp
  · rename_i h
    simpa using Nat.digits_ne_nil_iff_ne_zero.mpr h

/-- The value of digits, least significant first. -/
theorem valueOf_map_digit (ds : List Nat) (h : ∀ d ∈ ds, d < 10) :
    valueOf (ds.reverse.map digit) = Nat.ofDigits 10 ds := by
  induction ds with
  | nil => rfl
  | cons d ds ih =>
    rw [List.reverse_cons, List.map_append, List.map_singleton,
      valueOf_append_digit _ (h d List.mem_cons_self),
      ih fun x hx => h x (List.mem_cons_of_mem _ hx), Nat.ofDigits_cons]
    ring

@[simp] theorem valueOf_decimal (n : Nat) : valueOf (decimal n) = n := by
  unfold decimal
  split
  · rename_i h
    rw [h]
    rfl
  · rw [valueOf_map_digit _ fun d hd => Nat.digits_lt_base (by norm_num) hd,
      Nat.ofDigits_digits]

/-- Different numbers are written differently. -/
theorem decimal_injective : Function.Injective decimal := fun a b h => by
  rw [← valueOf_decimal a, h, valueOf_decimal]

/-- No numeral of a positive number starts with a zero. -/
theorem head_decimal_ne_zero {n : Nat} (h : n ≠ 0) : (decimal n).head? ≠ some '0' := by
  have hNe : Nat.digits 10 n ≠ [] := Nat.digits_ne_nil_iff_ne_zero.mpr h
  have hLast := Nat.getLast_digit_ne_zero 10 h
  have hLt := Nat.digits_lt_base (b := 10) (by norm_num) (List.getLast_mem hNe)
  rw [decimal, if_neg h, List.head?_map, List.head?_reverse, List.getLast?_eq_some_getLast hNe]
  generalize (Nat.digits 10 n).getLast hNe = d at hLast hLt
  rw [Option.map_some, ne_eq, Option.some.injEq]
  interval_cases d
  · exact absurd rfl hLast
  all_goals decide

/-! ## Runs of digits -/

/-- The digits in front of a non-digit are exactly the run that was written. -/
theorem span_digits {ds rest : List Char} (h : ∀ c ∈ ds, c.isDigit = true)
    (hStop : ∀ c, rest.head? = some c → c.isDigit = false) :
    (ds ++ rest).span Char.isDigit = (ds, rest) := by
  induction ds with
  | nil =>
    cases rest with
    | nil => rfl
    | cons c rest =>
      rw [List.span_eq_takeWhile_dropWhile]
      simp [hStop c rfl]
  | cons d ds ih =>
    have ih := ih fun c hc => h c (List.mem_cons_of_mem _ hc)
    rw [List.span_eq_takeWhile_dropWhile, Prod.mk.injEq] at ih ⊢
    rw [List.cons_append, List.takeWhile_cons_of_pos (h d List.mem_cons_self),
      List.dropWhile_cons_of_pos (h d List.mem_cons_self), ih.1, ih.2]
    exact ⟨rfl, rfl⟩

/-! ## Signed numerals -/

/-- The numeral of `n`, filled up with zeros to `width` digits. -/
def zeroFilled (n width : Nat) : List Char :=
  if n < 10 ^ width then padded width n else decimal n

/-- A signed numeral of at least `width` digits. -/
def appendInt (x : Int) (width : Nat) : List Char :=
  (if x < 0 then ['-'] else []) ++ zeroFilled x.natAbs width

/-- A number filled with zeros is made of digits. -/
theorem zeroFilled_isDigit (n width : Nat) : ∀ c ∈ zeroFilled n width, c.isDigit = true := by
  unfold zeroFilled
  split
  · exact padded_isDigit width n
  · exact decimal_isDigit n

/-- And has its value. -/
theorem valueOf_zeroFilled (n width : Nat) : valueOf (zeroFilled n width) = n := by
  unfold zeroFilled
  split
  · rename_i h
    exact valueOf_padded width n h
  · exact valueOf_decimal n

/-- If it is no wider than asked for, it is below that power of ten. -/
theorem lt_of_length_zeroFilled {n width : Nat} (h : (zeroFilled n width).length ≤ width) :
    n < 10 ^ width := by
  unfold zeroFilled at h
  split at h
  · assumption
  · rename_i hLarge
    have hZero : n ≠ 0 := fun hZero => hLarge (by rw [hZero]; positivity)
    rw [decimal, if_neg hZero, List.length_map, List.length_reverse] at h
    calc n < 10 ^ (Nat.digits 10 n).length := Nat.lt_base_pow_length_digits (by norm_num)
      _ ≤ 10 ^ width := Nat.pow_le_pow_right (by norm_num) h

/-- It is not empty if any width is asked for. -/
theorem zeroFilled_ne_nil (n : Nat) {width : Nat} (h : 0 < width) : zeroFilled n width ≠ [] := by
  unfold zeroFilled
  split
  · exact List.ne_nil_of_length_pos (by simpa using h)
  · exact decimal_ne_nil n

/-- A zero-filled numeral in front of a dash determines the number and what
follows the dash. -/
theorem zeroFilled_dash_inj {m n width : Nat} {r r' : List Char}
    (h : zeroFilled m width ++ '-' :: r = zeroFilled n width ++ '-' :: r') : m = n ∧ r = r' := by
  have hStop : ∀ q : List Char, ∀ c, ('-' :: q).head? = some c → c.isDigit = false := by
    intro q c hc
    cases hc
    rfl
  have hm := span_digits (zeroFilled_isDigit m width) (hStop r)
  rw [h, span_digits (zeroFilled_isDigit n width) (hStop r'), Prod.mk.injEq] at hm
  refine ⟨?_, (List.cons.inj hm.2).2.symm⟩
  rw [← valueOf_zeroFilled m width, ← hm.1, valueOf_zeroFilled]

/-- A sign cannot be mistaken for the first digit of a numeral. -/
theorem zeroFilled_ne_dash (n : Nat) {width : Nat} (h : 0 < width) (l r : List Char) :
    '-' :: l ≠ zeroFilled n width ++ r := by
  obtain ⟨d, ds, hds⟩ := List.exists_cons_of_ne_nil (zeroFilled_ne_nil n h)
  have hd := zeroFilled_isDigit n width d (by rw [hds]; exact List.mem_cons_self)
  rw [hds, List.cons_append]
  intro hEq
  rw [← (List.cons.inj hEq).1] at hd
  cases hd

/-- A signed numeral in front of a dash determines the number and what follows
the dash. -/
theorem appendInt_dash_inj {x y : Int} {width : Nat} (hw : 0 < width) {r r' : List Char}
    (h : appendInt x width ++ '-' :: r = appendInt y width ++ '-' :: r') : x = y ∧ r = r' := by
  unfold appendInt at h
  by_cases hx : x < 0 <;> by_cases hy : y < 0
  · simp only [hx, hy, if_true, List.cons_append] at h
    obtain ⟨hAbs, hr⟩ := zeroFilled_dash_inj (List.cons.inj h).2
    exact ⟨by omega, hr⟩
  · simp only [hx, hy, if_true, if_false, List.cons_append,
      List.nil_append] at h
    exact absurd h (zeroFilled_ne_dash _ hw _ _)
  · simp only [hx, hy, if_true, if_false, List.cons_append,
      List.nil_append] at h
    exact absurd h.symm (zeroFilled_ne_dash _ hw _ _)
  · simp only [hx, hy, if_false, List.nil_append] at h
    obtain ⟨hAbs, hr⟩ := zeroFilled_dash_inj h
    exact ⟨by omega, hr⟩

end Lib
