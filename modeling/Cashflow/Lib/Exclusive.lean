import Mathlib.Data.List.Basic

/-!
# Locks held by the members of a list

Several parties run side by side and are numbered by their place in a list; each
may hold a lock. `Exclusive` says that no lock has two holders. It is kept when a
party moves without taking a lock, when it takes one that nobody holds
(`Exclusive.modify`), and when a party joins (`Exclusive.concat`).
-/

namespace Lib

variable {α κ : Type} {held : α → Option κ} {l : List α}

/-- No lock is held at two places. -/
def Exclusive (held : α → Option κ) (l : List α) : Prop :=
  ∀ (i j : Nat) (a b : α) (k : κ), l[i]? = some a → l[j]? = some b →
    held a = some k → held b = some k → i = j

/-- Nobody holds anything. -/
theorem Exclusive.nil : Exclusive held [] := by
  intro i j a b k hi
  cases hi

/-- A newcomer that holds nothing is in nobody's way. -/
theorem Exclusive.concat (h : Exclusive held l) {a : α} (ha : held a = none) :
    Exclusive held (l ++ [a]) := by
  -- what holds something is one of the old members
  have hOld : ∀ {i : Nat} {b : α} {k : κ}, (l ++ [a])[i]? = some b → held b = some k →
      l[i]? = some b := by
    intro i b k hb hk
    rw [List.getElem?_append] at hb
    split at hb
    · exact hb
    · rw [List.getElem?_singleton] at hb
      split at hb
      · cases hb
        rw [ha] at hk
        cases hk
      · cases hb
  intro i j b c k hi hj hb hc
  exact h i j b c k (hOld hi hb) (hOld hj hc) hb hc

/-- The places of a list with one member changed. -/
theorem getElem?_modify_some {i j : Nat} {f : α → α} {b : α} (h : (l.modify i f)[j]? = some b) :
    (j = i ∧ ∃ a, l[i]? = some a ∧ b = f a) ∨ (j ≠ i ∧ l[j]? = some b) := by
  rw [List.getElem?_modify] at h
  by_cases hij : i = j
  · subst hij
    simp only [if_true, Option.map_eq_map, Option.map_eq_some_iff] at h
    obtain ⟨a, ha, rfl⟩ := h
    exact .inl ⟨rfl, a, ha, rfl⟩
  · refine .inr ⟨Ne.symm hij, ?_⟩
    simpa [hij] using h

/-- A member that changes holds nothing, what it held before, or what nobody
held. -/
theorem Exclusive.modify (h : Exclusive held l) {i : Nat} {f : α → α} {a : α} (hi : l[i]? = some a)
    (hf : held (f a) = none ∨ held (f a) = held a ∨
      ∀ b ∈ l, ∀ k, held (f a) = some k → held b ≠ some k) : Exclusive held (l.modify i f) := by
  -- what the changed member holds, no other member holds
  have hApart : ∀ j b k, j ≠ i → l[j]? = some b → held (f a) = some k → held b ≠ some k := by
    intro j b k hj hb hk hbk
    rcases hf with hNone | hSame | hFree
    · rw [hNone] at hk
      cases hk
    · exact hj (h j i b a k hb hi hbk (hSame ▸ hk))
    · exact hFree b (List.mem_of_getElem? hb) k hk hbk
  intro p q b c k hp hq hb hc
  rcases getElem?_modify_some hp with ⟨rfl, a', ha', rfl⟩ | ⟨hpi, hp'⟩
  · obtain rfl : a = a' := Option.some.inj (hi.symm.trans ha')
    rcases getElem?_modify_some hq with ⟨rfl, -⟩ | ⟨hqi, hq'⟩
    · rfl
    · exact absurd hc (hApart q c k hqi hq' hb)
  · rcases getElem?_modify_some hq with ⟨rfl, a', ha', rfl⟩ | ⟨hqi, hq'⟩
    · obtain rfl : a = a' := Option.some.inj (hi.symm.trans ha')
      exact absurd hb (hApart p b k hpi hp' hc)
    · exact h p q b c k hp' hq' hb hc

end Lib
