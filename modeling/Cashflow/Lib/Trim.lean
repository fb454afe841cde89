import Mathlib.Data.List.DropRight

/-!
# Trimming

A list without the elements of a kind at its two ends: `(l.dropWhile p).rdropWhile p`.

* `trim_trim` — trimming twice is trimming once;
* `trim_eq_nil_iff` — nothing is left of a list that is all of the kind;
* `rdropWhile_append_of_mem` — what stands before a list that is not all of the kind stays.
-/

namespace Lib

variable {α : Type} {p : α → Bool} {l l' : List α}

/-- What is all dropped does not hold up the dropping. -/
theorem rdropWhile_append_of_all (h : ∀ a ∈ l', p a = true) :
    (l ++ l').rdropWhile p = l.rdropWhile p := by
  have hEmpty : l'.reverse.dropWhile p = [] :=
    List.dropWhile_eq_nil_iff.mpr fun a ha => h a (List.mem_reverse.mp ha)
  rw [List.rdropWhile, List.rdropWhile, List.reverse_append, List.dropWhile_append, hEmpty]
  rfl

/-- What is kept does. -/
theorem rdropWhile_append_of_mem {a : α} (ha : a ∈ l') (hp : p a = false) :
    (l ++ l').rdropWhile p = l ++ l'.rdropWhile p := by
  have hEmpty : l'.reverse.dropWhile p ≠ [] := by
    intro hNil
    rw [List.dropWhile_eq_nil_iff.mp hNil a (List.mem_reverse.mpr ha)] at hp
    cases hp
  rw [List.rdropWhile, List.rdropWhile, List.reverse_append, List.dropWhile_append,
    if_neg (by simpa using hEmpty), List.reverse_append, List.reverse_reverse]

/-- Trimming the end leaves a front that is not of the kind. -/
theorem dropWhile_trim : ((l.dropWhile p).rdropWhile p).dropWhile p = (l.dropWhile p).rdropWhile p := by
  cases hFront : l.dropWhile p with
  | nil => rfl
  | cons a rest =>
    have hHead : p a = false := by
      have hNot := List.head_dropWhile_not p (l := l) (by rw [hFront]; exact List.cons_ne_nil a rest)
      simpa [hFront] using hNot
    -- the head is kept, so something is
    have hKept : (a :: rest).rdropWhile p ≠ [] := by
      intro hNil
      rw [List.rdropWhile_eq_nil_iff.mp hNil a List.mem_cons_self] at hHead
      cases hHead
    -- a nonempty prefix begins as the list does
    obtain ⟨tail, hTail⟩ := List.rdropWhile_prefix p (l := a :: rest)
    cases hShort : (a :: rest).rdropWhile p with
    | nil => exact absurd hShort hKept
    | cons b short =>
      rw [hShort, List.cons_append, List.cons.injEq] at hTail
      rw [hTail.1, List.dropWhile_cons_of_neg (by simp [hHead])]

/-- Trimming twice is trimming once. -/
theorem trim_trim :
    (((l.dropWhile p).rdropWhile p).dropWhile p).rdropWhile p = (l.dropWhile p).rdropWhile p := by
  rw [dropWhile_trim, List.rdropWhile_idempotent]

/-- Nothing is left exactly where everything is dropped. -/
theorem trim_eq_nil_iff : (l.dropWhile p).rdropWhile p = [] ↔ ∀ a ∈ l, p a = true := by
  rw [List.rdropWhile_eq_nil_iff]
  constructor
  · intro h
    rw [← List.dropWhile_eq_nil_iff]
    by_contra hSome
    have hHead := List.head_dropWhile_not p hSome
    rw [h _ (List.head_mem hSome)] at hHead
    cases hHead
  · intro h a ha
    exact h a (List.dropWhile_sublist p |>.subset ha)

/-- Where nothing is dropped, all is left. -/
theorem trim_of_none (h : ∀ a ∈ l, p a = false) : (l.dropWhile p).rdropWhile p = l := by
  have hFront : l.dropWhile p = l := by
    rw [List.dropWhile_eq_self_iff]
    intro hLength hFirst
    rw [h _ (List.getElem_mem hLength)] at hFirst
    cases hFirst
  rw [hFront, List.rdropWhile_eq_self_iff]
  intro hSome hLast
  rw [h _ (List.getLast_mem hSome)] at hLast
  cases hLast

/-- The end may be trimmed first. -/
theorem trim_rdropWhile :
    ((l.rdropWhile p).dropWhile p).rdropWhile p = (l.dropWhile p).rdropWhile p := by
  have hSplit := List.rdropWhile_append_rtakeWhile (p := p) (l := l)
  have hAll : ∀ a ∈ l.rtakeWhile p, p a = true := fun a ha => List.mem_rtakeWhile_imp ha
  cases hFront : (l.rdropWhile p).dropWhile p with
  | nil =>
    have hFirst : ∀ a ∈ l.rdropWhile p, p a = true := List.dropWhile_eq_nil_iff.mp hFront
    have hEvery : l.dropWhile p = [] := by
      rw [List.dropWhile_eq_nil_iff, ← hSplit]
      intro a ha
      exact (List.mem_append.mp ha).elim (hFirst a) (hAll a)
    rw [hEvery]
  | cons b rest =>
    rw [← hFront]
    conv_rhs => rw [← hSplit, List.dropWhile_append, if_neg (by simp [hFront]),
      rdropWhile_append_of_all hAll]

end Lib
