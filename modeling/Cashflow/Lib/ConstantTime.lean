import Mathlib.Data.List.DropRight

/-!
# ConstantTime — comparing byte strings without branching on them

Go's `crypto/subtle`: `constantTimeCompare` folds the differences of two byte strings of one
length into one byte.  It decides equality (`constantTimeCompare_eq_one`).  Over lists filled
up with zeros to one width it decides less: equality up to the zeros at the end
(`zeroPadded_eq_iff`).
-/

namespace Lib

/-- `ConstantTimeByteEq` -/
def constantTimeByteEq (x y : UInt8) : UInt32 := ((x ^^^ y).toUInt32 - 1) >>> 31

/-- The loop `for i { v |= x[i] ^ y[i] }`. -/
def difference (v : UInt8) : List UInt8 → List UInt8 → UInt8
  | x :: xs, y :: ys => difference (v ||| (x ^^^ y)) xs ys
  | _, _ => v

/-- `ConstantTimeCompare` -/
def constantTimeCompare (x y : List UInt8) : UInt32 :=
  if x.length ≠ y.length then 0 else constantTimeByteEq (difference 0 x y) 0

/-- The last step answers one exactly on a difference of zero. -/
theorem constantTimeByteEq_zero (v : UInt8) : constantTimeByteEq v 0 = 1 ↔ v = 0 := by
  have hAll : ∀ n : Fin 256, constantTimeByteEq (UInt8.ofFin n) 0 = 1 ↔ UInt8.ofFin n = 0 := by
    decide +kernel
  exact hAll v.toFin

/-- Texts of one length differ in no bit exactly if they are equal. -/
theorem difference_eq_zero (xs : List UInt8) :
    ∀ (v : UInt8) (ys : List UInt8), xs.length = ys.length →
      (difference v xs ys = 0 ↔ v = 0 ∧ xs = ys) := by
  induction xs with
  | nil =>
    intro v ys hLength
    rw [List.length_eq_zero_iff.mp hLength.symm]
    simp [difference]
  | cons x xs ih =>
    intro v ys hLength
    cases ys with
    | nil => cases hLength
    | cons y ys =>
      rw [difference, ih _ ys (Nat.succ.inj hLength), UInt8.or_eq_zero_iff, UInt8.xor_eq_zero_iff,
        List.cons.injEq, and_assoc]

/-- The comparison answers one exactly on equal texts. -/
theorem constantTimeCompare_eq_one (x y : List UInt8) :
    constantTimeCompare x y = 1 ↔ x = y := by
  rw [constantTimeCompare]
  by_cases hLength : x.length = y.length
  · rw [if_neg (not_not.mpr hLength), constantTimeByteEq_zero, difference_eq_zero x 0 y hLength]
    simp
  · rw [if_pos hLength]
    constructor
    · intro h
      exact absurd h (by decide)
    · intro h
      exact absurd (congrArg List.length h) hLength

/-! ## Filling up with zeros -/

section ZeroPadded

variable {α : Type} (zero : α) {x y : List α} {width : Nat}

/-- A buffer of `width` zeros with the list copied to its front. -/
def zeroPadded (x : List α) (width : Nat) : List α :=
  x.take width ++ List.replicate (width - x.length) zero

/-- What is shorter than the width is filled up behind. -/
theorem zeroPadded_eq (h : x.length ≤ width) :
    zeroPadded zero x width = x ++ List.replicate (width - x.length) zero := by
  rw [zeroPadded, List.take_of_length_le h]

variable [DecidableEq α]

/-- The list without the zeros at its end. -/
def trimmed (x : List α) : List α := x.rdropWhile (fun a => decide (a = zero))

/-- Zeros behind are trimmed. -/
theorem trimmed_append (x : List α) (n : Nat) :
    trimmed zero (x ++ List.replicate n zero) = trimmed zero x := by
  induction n with
  | zero => rw [List.replicate_zero, List.append_nil]
  | succ n ih =>
    rw [List.replicate_succ', ← List.append_assoc, ← ih]
    exact List.rdropWhile_concat_pos _ _ zero (decide_eq_true rfl)

/-- And nothing else is. -/
theorem trimmed_append_zeros (x : List α) :
    x = trimmed zero x ++ List.replicate (x.length - (trimmed zero x).length) zero := by
  have hSplit : trimmed zero x ++ x.rtakeWhile (fun a => decide (a = zero)) = x :=
    List.rdropWhile_append_rtakeWhile
  have hZeros : x.rtakeWhile (fun a => decide (a = zero)) =
      List.replicate (x.length - (trimmed zero x).length) zero := by
    refine List.eq_replicate_iff.mpr ⟨?_, fun a ha => ?_⟩
    · have hLength := congrArg List.length hSplit
      rw [List.length_append] at hLength
      omega
    · have hZero := List.mem_rtakeWhile_imp ha
      exact of_decide_eq_true hZero
  rw [← hZeros]
  exact hSplit.symm

/-- Filled up to a width that holds both, two lists agree exactly when they differ in zeros at
the end only. -/
theorem zeroPadded_eq_iff (hx : x.length ≤ width) (hy : y.length ≤ width) :
    zeroPadded zero x width = zeroPadded zero y width ↔ trimmed zero x = trimmed zero y := by
  rw [zeroPadded_eq zero hx, zeroPadded_eq zero hy]
  constructor
  · intro h
    have hTrimmed := congrArg (trimmed zero) h
    rwa [trimmed_append, trimmed_append] at hTrimmed
  · intro h
    -- both are the trimmed list, filled up
    have hFilled : ∀ z : List α, z.length ≤ width →
        z ++ List.replicate (width - z.length) zero =
          trimmed zero z ++ List.replicate (width - (trimmed zero z).length) zero := by
      intro z hz
      have hShort : (trimmed zero z).length ≤ z.length :=
        (List.rdropWhile_prefix _ z).length_le
      conv_lhs => rw [trimmed_append_zeros zero z]
      rw [List.append_assoc, ← List.replicate_add]
      simp only [List.length_append, List.length_replicate]
      congr 2
      omega
    rw [hFilled x hx, hFilled y hy, h]

/-- Lists of one length that differ in zeros at the end only are equal. -/
theorem eq_of_trimmed (hLength : x.length = y.length)
    (h : trimmed zero x = trimmed zero y) : x = y := by
  rw [trimmed_append_zeros zero x, trimmed_append_zeros zero y, hLength, h]

end ZeroPadded

end Lib
