import Mathlib.Data.List.AList
import Mathlib.Data.List.Count
import Mathlib.Data.List.Nodup

/-!
# Tallies: counting occurrences in a map

A map from elements to how often they occur, built one increment at a time.
Main results: `tally_getD` and `mem_tally` read it back, and
`perm_iff_tally` says when a list is a duplicate-free list up to order by
looking only at its tally: nothing is missing, nothing is extra and nothing
occurs twice.
-/

namespace Lib

variable {α : Type*} [DecidableEq α]

/-- The statement `m[a]++`. -/
def increment (t : AList fun _ : α => Nat) (a : α) : AList fun _ : α => Nat :=
  t.insert a ((t.lookup a).getD 0 + 1)

/-- How often each element occurs. -/
def tally (l : List α) : AList fun _ : α => Nat := l.foldl increment ∅

/-- Counting on from a tally adds the occurrences in the list. -/
theorem foldl_increment_getD (l : List α) (t : AList fun _ : α => Nat) (a : α) :
    ((l.foldl increment t).lookup a).getD 0 = (t.lookup a).getD 0 + l.count a := by
  induction l generalizing t with
  | nil => simp
  | cons b l ih =>
    rw [List.foldl_cons, ih]
    by_cases hab : a = b
    · subst hab
      simp only [increment, AList.lookup_insert, Option.getD_some, List.count_cons_self]
      omega
    · rw [increment, AList.lookup_insert_ne hab, List.count_cons_of_ne (Ne.symm hab)]

/-- The tally of an element is how often it occurs. -/
theorem tally_getD (l : List α) (a : α) : ((tally l).lookup a).getD 0 = l.count a := by
  rw [tally, foldl_increment_getD, AList.lookup_empty]
  exact Nat.zero_add _

/-- The keys of a tally that is counted on. -/
theorem mem_foldl_increment {l : List α} {t : AList fun _ : α => Nat} {a : α} :
    a ∈ l.foldl increment t ↔ a ∈ t ∨ a ∈ l := by
  induction l generalizing t with
  | nil => simp
  | cons b l ih =>
    rw [List.foldl_cons, ih, increment, AList.mem_insert, List.mem_cons]
    tauto

/-- What is counted is what occurs. -/
theorem mem_tally {l : List α} {a : α} : a ∈ tally l ↔ a ∈ l := by
  rw [tally, mem_foldl_increment]
  simp

/-- The count an entry of a tally carries. -/
theorem tally_entry {l : List α} {a : α} {n : Nat} (h : ⟨a, n⟩ ∈ (tally l).entries) :
    n = l.count a := by
  have hLookup : (tally l).lookup a = some n := AList.mem_lookup_iff.mpr h
  rw [← tally_getD, hLookup]
  rfl

/-- What occurs has an entry with its count. -/
theorem exists_tally_entry {l : List α} {a : α} (h : a ∈ l) :
    ⟨a, l.count a⟩ ∈ (tally l).entries := by
  obtain ⟨n, hn⟩ := Option.isSome_iff_exists.mp (AList.lookup_isSome.mpr (mem_tally.mpr h))
  have hEntry := AList.mem_lookup_iff.mp hn
  rw [← tally_entry hEntry]
  exact hEntry

/-- A list is a duplicate-free one up to order exactly when each of the latter
occurs, nothing else does, and nothing occurs twice. -/
theorem perm_iff_tally {l keys : List α} (hKeys : keys.Nodup) :
    l.Perm keys ↔ (∀ a ∈ keys, ((tally l).lookup a).getD 0 ≠ 0) ∧
      (∀ a ∈ (tally l).keys, a ∈ keys) ∧ ∀ entry ∈ (tally l).entries, entry.2 ≤ 1 := by
  constructor
  · intro hPerm
    have hNodup : l.Nodup := hPerm.nodup_iff.mpr hKeys
    refine ⟨fun a ha => ?_, fun a ha => ?_, fun entry hEntry => ?_⟩
    · rw [tally_getD]
      exact Nat.pos_iff_ne_zero.mp (List.count_pos_iff.mpr (hPerm.mem_iff.mpr ha))
    · exact hPerm.mem_iff.mp (mem_tally.mp (AList.mem_keys.mpr ha))
    · rw [tally_entry (a := entry.1) hEntry]
      exact List.nodup_iff_count_le_one.mp hNodup entry.1
  · rintro ⟨hMissing, hExtra, hTwice⟩
    -- an element that were there twice would be counted twice
    have hNodup : l.Nodup := by
      refine List.nodup_iff_count_le_one.mpr fun a => ?_
      by_cases ha : a ∈ l
      · exact hTwice _ (exists_tally_entry ha)
      · rw [List.count_eq_zero_of_not_mem ha]
        exact Nat.zero_le 1
    -- lists without repetition are permutations if they have the same members
    refine (List.perm_ext_iff_of_nodup hNodup hKeys).mpr fun a => ⟨fun ha => ?_, fun ha => ?_⟩
    · exact hExtra a (AList.mem_keys.mp (mem_tally.mpr ha))
    · have hCount := hMissing a ha
      rw [tally_getD] at hCount
      exact List.count_pos_iff.mp (Nat.pos_of_ne_zero hCount)

end Lib
