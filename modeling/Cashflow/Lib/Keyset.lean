import Mathlib.Data.List.Sort

/-!
# Keyset pagination

Rows with distinct keys are read page by page in descending order of their
keys: the next page holds the first rows below the last key seen.

Main result: `select_behind`, that the pages cut the sorted rows; a page begins
where the one before it ended.
-/

namespace Lib

namespace Keyset

variable {α κ : Type*} [LinearOrder κ] (key : α → κ)

/-- The rows in descending order of their keys. -/
def sorted (rows : List α) : List α := rows.insertionSort fun a b => key b ≤ key a

/-- The rows below `after`. -/
def below (after : Option κ) (rows : List α) : List α :=
  rows.filter fun a => after.all fun k => decide (key a < k)

/-- The first rows below `after`, at most `n`. -/
def select (rows : List α) (after : Option κ) (n : Nat) : List α :=
  (sorted key (below key after rows)).take n

variable {key}

/-- Sorting keeps the rows. -/
theorem mem_sorted {rows : List α} {a : α} : a ∈ sorted key rows ↔ a ∈ rows := by
  simp [sorted]

/-- In some order, that is. -/
theorem sorted_perm (rows : List α) : (sorted key rows).Perm rows := List.perm_insertionSort _ _

/-- Distinct keys are strictly decreasing once sorted. -/
theorem sorted_pairwise {rows : List α} (h : (rows.map key).Nodup) :
    (sorted key rows).Pairwise fun a b => key b < key a := by
  have hTotal : Std.Total fun a b : α => key b ≤ key a := ⟨fun a b => le_total (key b) (key a)⟩
  have hTrans : IsTrans α fun a b : α => key b ≤ key a := ⟨fun _ _ _ hab hbc => hbc.trans hab⟩
  have hWeak : (sorted key rows).Pairwise fun a b => key b ≤ key a :=
    List.pairwise_insertionSort _ rows
  have hDistinct : (sorted key rows).Pairwise fun a b => key a ≠ key b := by
    have hNodup : ((sorted key rows).map key).Nodup := ((sorted_perm rows).map key).nodup_iff.mpr h
    exact List.pairwise_map.mp hNodup
  exact (hWeak.and hDistinct).imp fun hab => lt_of_le_of_ne hab.1 (Ne.symm hab.2)

/-- Sorting the rows below a key gives what is below it of the sorted rows. -/
theorem sorted_below {rows : List α} (h : (rows.map key).Nodup) (after : Option κ) :
    sorted key (below key after rows) = below key after (sorted key rows) := by
  have hBelow : ((below key after rows).map key).Nodup := h.sublist (List.filter_sublist.map key)
  have hPerm : (sorted key (below key after rows)).Perm (below key after (sorted key rows)) :=
    (sorted_perm _).trans ((sorted_perm rows).symm.filter _)
  refine hPerm.eq_of_pairwise ?_ (sorted_pairwise hBelow) ((sorted_pairwise h).filter _)
  intro a b _ _ hab hba
  exact absurd (lt_trans hab hba) (lt_irrefl _)

/-- What is selected behind the rows seen so far continues the sorted rows. -/
theorem select_behind {rows : List α} (h : (rows.map key).Nodup) {seen rest : List α}
    (hSplit : sorted key rows = seen ++ rest) (n : Nat) :
    select key rows (seen.getLast?.map key) n = rest.take n := by
  have hPairwise := sorted_pairwise h
  rw [hSplit, List.pairwise_append] at hPairwise
  rw [select, sorted_below h, hSplit, below, List.filter_append]
  congr 1
  -- the last row seen is not above any row seen, and above every row to come
  cases hLast : seen.getLast? with
  | none =>
    -- nothing was seen, so nothing is left out
    rw [List.getLast?_eq_none_iff.mp hLast]
    simp
  | some x =>
    obtain ⟨pre, rfl⟩ := List.getLast?_eq_some_iff.mp hLast
    have hSeen : (pre ++ [x]).filter (fun a => (Option.map key (some x)).all fun k =>
        decide (key a < k)) = [] := by
      rw [List.filter_eq_nil_iff]
      intro a ha
      rcases List.mem_append.mp ha with ha | ha
      · have hAbove := (List.pairwise_append.mp hPairwise.1).2.2 a ha x List.mem_cons_self
        simp [le_of_lt hAbove]
      · rw [List.mem_singleton.mp ha]
        simp
    have hRest : rest.filter (fun a => (Option.map key (some x)).all fun k =>
        decide (key a < k)) = rest := by
      rw [List.filter_eq_self]
      intro a ha
      simpa using hPairwise.2.2 x (List.mem_append_right _ List.mem_cons_self) a ha
    rw [hSeen, hRest]
    rfl

end Keyset

end Lib
