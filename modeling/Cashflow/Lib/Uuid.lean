import Cashflow.Lib.Text

/-!
# UUID input

The texts a `UUID` column accepts as input: sixteen pairs of hexadecimal
digits in either case, an optional hyphen after every second pair, optional
braces. The value is written back in lower case with the usual hyphens.
-/

namespace Lib

/-- Read `n` pairs of hexadecimal digits, hyphens allowed between fours. -/
def uuidDigits : Nat → List Char → Option (List Char × List Char)
  | 0, l => some ([], l)
  | n + 1, a :: b :: rest =>
    if isHex a && isHex b then
      let rest := if n % 2 = 0 ∧ 0 < n ∧ rest.head? = some '-' then rest.tail else rest
      (uuidDigits n rest).map fun p => (a.toLower :: b.toLower :: p.1, p.2)
    else none
  | _ + 1, _ => none

/-- The usual grouping of 32 digits. -/
def hyphenated (digits : List Char) : List Char :=
  digits.take 8 ++ '-' :: ((digits.drop 8).take 4 ++ '-' :: ((digits.drop 12).take 4 ++
    '-' :: ((digits.drop 16).take 4 ++ '-' :: digits.drop 20)))

/-- The `UUID` a text stands for, as its canonical text. -/
def uuidIn (s : Text) : Option Text :=
  match s with
  | '{' :: rest =>
    match uuidDigits 16 rest with
    | some (digits, ['}']) => some (hyphenated digits)
    | _ => none
  | l =>
    match uuidDigits 16 l with
    | some (digits, []) => some (hyphenated digits)
    | _ => none

example : uuidIn "\x7bA0EEBC999C0B4EF8-BB6D6BB9BD380A11\x7d".toList =
    some "a0eebc99-9c0b-4ef8-bb6d-6bb9bd380a11".toList := by decide

/-- What starts with a hexadecimal digit does not start with a hyphen. -/
theorem head_ne_dash {l : List Char} (h : ∀ c ∈ l, isHex c = true) (hl : l ≠ [])
    (rest : List Char) : (l ++ rest).head? ≠ some '-' := by
  cases l with
  | nil => exact absurd rfl hl
  | cons c l =>
    intro hc
    cases hc
    exact absurd (h _ List.mem_cons_self) (by decide)

/-- Pairs of digits are read up to the hyphen or the end behind them. -/
theorem uuidDigits_pairs {rest : List Char} {n : Nat} (k : Nat) {digits : List Char}
    (hLength : digits.length = 2 * (k + 1)) (hHex : ∀ c ∈ digits, isHex c = true) :
    uuidDigits (n + (k + 1)) (digits ++ rest) =
      (uuidDigits n (if n % 2 = 0 ∧ 0 < n ∧ rest.head? = some '-' then rest.tail else rest)).map
        fun p => (lower digits ++ p.1, p.2) := by
  induction k generalizing digits with
  | zero =>
    -- the last pair: the hyphen behind it belongs to what follows
    obtain ⟨a, b, rfl⟩ := List.length_eq_two.mp hLength
    simp [uuidDigits, hHex a (by simp), hHex b (by simp), lower]
  | succ k ih =>
    rcases digits with _ | ⟨a, _ | ⟨b, digits⟩⟩
    · exact absurd hLength (by simp)
    · exact absurd hLength (by simp only [List.length_cons, List.length_nil]; omega)
    · -- no hyphen follows a pair that has another pair behind it
      have hMore : digits ≠ [] := by
        rintro rfl
        simp at hLength
      have hTail : ∀ c ∈ digits, isHex c = true := fun c hc => hHex c (by simp [hc])
      have hDash := head_ne_dash hTail hMore rest
      show uuidDigits (n + (k + 1) + 1) (a :: b :: (digits ++ rest)) = _
      rw [uuidDigits]
      simp only [hHex a (by simp), hHex b (by simp), hDash, Bool.and_self, and_false, if_true,
        if_false, ih (by simp at hLength; omega) hTail, Option.map_map]
      rfl

/-- A text in the usual grouping stands for itself in lower case. -/
theorem uuidIn_groups {a b c d e : List Char} (ha : matchesAll (List.replicate 8 isHex) a = true)
    (hb : matchesAll (List.replicate 4 isHex) b = true)
    (hc : matchesAll (List.replicate 4 isHex) c = true)
    (hd : matchesAll (List.replicate 4 isHex) d = true)
    (he : matchesAll (List.replicate 12 isHex) e = true) :
    uuidIn (a ++ '-' :: (b ++ '-' :: (c ++ '-' :: (d ++ '-' :: e)))) =
      some (lower (a ++ '-' :: (b ++ '-' :: (c ++ '-' :: (d ++ '-' :: e))))) := by
  have hHex : ∀ {n : Nat} {l : List Char}, matchesAll (List.replicate n isHex) l = true →
      l.length = n ∧ ∀ c ∈ l, isHex c = true := by
    intro n l h
    refine ⟨by simpa using matchesAll_length h, matchesAll_forall ?_ h⟩
    intro p hp c hpc
    rwa [(List.mem_replicate.mp hp).2] at hpc
  obtain ⟨⟨la, ha⟩, ⟨lb, hb⟩, ⟨lc, hc⟩, ⟨ld, hd⟩, ⟨le, he⟩⟩ := And.intro (hHex ha)
    (And.intro (hHex hb) (And.intro (hHex hc) (And.intro (hHex hd) (hHex he))))
  -- a hyphen may follow every second byte, and follows four of them here
  have hDigits : uuidDigits 16 (a ++ '-' :: (b ++ '-' :: (c ++ '-' :: (d ++ '-' :: e)))) =
      some (lower a ++ (lower b ++ (lower c ++ (lower d ++ lower e))), []) := by
    have hLast := @uuidDigits_pairs [] 0 5 e le he
    rw [List.append_nil] at hLast
    rw [show 16 = 12 + (3 + 1) from rfl, uuidDigits_pairs 3 la ha]
    simp only [List.head?_cons, List.tail_cons, Nat.reduceMod, Nat.reduceLT, and_self, if_true]
    rw [show 12 = 10 + (1 + 1) from rfl, uuidDigits_pairs 1 lb hb]
    simp only [List.head?_cons, List.tail_cons, Nat.reduceMod, Nat.reduceLT, and_self, if_true]
    rw [show 10 = 8 + (1 + 1) from rfl, uuidDigits_pairs 1 lc hc]
    simp only [List.head?_cons, List.tail_cons, Nat.reduceMod, Nat.reduceLT, and_self, if_true]
    rw [show 8 = 6 + (1 + 1) from rfl, uuidDigits_pairs 1 ld hd]
    simp only [List.head?_cons, List.tail_cons, Nat.reduceMod, Nat.reduceLT, and_self, if_true]
    rw [show 6 = 0 + (5 + 1) from rfl, hLast]
    simp [uuidDigits]
  have hHyphens : hyphenated (lower a ++ (lower b ++ (lower c ++ (lower d ++ lower e)))) =
      lower (a ++ '-' :: (b ++ '-' :: (c ++ '-' :: (d ++ '-' :: e)))) := by
    simp [hyphenated, lower, List.drop_append, la, lb, lc, ld, List.drop_eq_nil_of_le]
  unfold uuidIn
  split
  · rename_i rest hEq
    -- a text in braces does not start with a digit
    cases a with
    | nil => exact absurd la (by decide)
    | cons x a =>
      cases hEq
      exact absurd (ha '{' List.mem_cons_self) (by decide)
  · rw [hDigits]
    simp only [hHyphens]

/-- The shape `8-4-4-4-12` of hexadecimal digits in either case. -/
def uuidShape : List (Char → Bool) :=
  List.replicate 8 isHex ++ [isDash] ++ List.replicate 4 isHex ++ [isDash] ++
    List.replicate 4 isHex ++ [isDash] ++ List.replicate 4 isHex ++ [isDash] ++
    List.replicate 12 isHex

/-- A text in the standard shape is read, and written in small letters. -/
theorem uuidIn_shape {s : Text} (h : matchesAll uuidShape s = true) :
    uuidIn s = some (lower s) := by
  simp only [uuidShape, List.append_assoc, List.cons_append, List.nil_append] at h
  -- five groups of digits with hyphens between them
  obtain ⟨a, _, rfl, ha, h⟩ := matchesAll_split h
  obtain ⟨_, rfl, h⟩ := matchesAll_dash h
  obtain ⟨b, _, rfl, hb, h⟩ := matchesAll_split h
  obtain ⟨_, rfl, h⟩ := matchesAll_dash h
  obtain ⟨c, _, rfl, hc, h⟩ := matchesAll_split h
  obtain ⟨_, rfl, h⟩ := matchesAll_dash h
  obtain ⟨d, _, rfl, hd, h⟩ := matchesAll_split h
  obtain ⟨e, rfl, he⟩ := matchesAll_dash h
  exact uuidIn_groups ha hb hc hd he

end Lib
