import Mathlib.Algebra.BigOperators.Group.List.Basic
import Mathlib.Order.Lattice
import Mathlib.Tactic.Abel

/-!
# Running balances over dated rows

Rows carry a date and an amount, in no particular order. The running balance
at `d` is the sum of the amounts dated at most `d`. Recomputing a running
balance from some day on needs only the balance of the last earlier row; the
lemmas here say why:

* `sumThrough_eq_add` — the running balance at `d` splits at any earlier day
  into what lies before that day and what lies from it through `d`;
* `sumBefore_eq_sumThrough` — what lies before a day is the running balance at
  the last earlier row, and zero when there is none
  (`sumBefore_eq_zero`).
-/

namespace Lib

section RunningBalance

variable {ρ δ M : Type*} [LinearOrder δ] [AddCommMonoid M]
variable (date : ρ → δ) (amount : ρ → M)

/-- The sum of the amounts dated at most `d`. -/
def sumThrough (rows : List ρ) (d : δ) : M :=
  ((rows.filter fun r => decide (date r ≤ d)).map amount).sum

/-- The sum of the amounts dated before `d`. -/
def sumBefore (rows : List ρ) (d : δ) : M :=
  ((rows.filter fun r => decide (date r < d)).map amount).sum

/-- The sum of the amounts dated from `a` through `d`. -/
def sumBetween (rows : List ρ) (a d : δ) : M :=
  ((rows.filter fun r => decide (a ≤ date r) && decide (date r ≤ d)).map amount).sum

/-- Through a date, row by row. -/
theorem sumThrough_cons (r : ρ) (rows : List ρ) (d : δ) :
    sumThrough date amount (r :: rows) d =
      (if date r ≤ d then amount r else 0) + sumThrough date amount rows d := by
  by_cases h : date r ≤ d <;> simp [sumThrough, h]

/-- Before a date, row by row. -/
theorem sumBefore_cons (r : ρ) (rows : List ρ) (d : δ) :
    sumBefore date amount (r :: rows) d =
      (if date r < d then amount r else 0) + sumBefore date amount rows d := by
  by_cases h : date r < d <;> simp [sumBefore, h]

/-- Between two dates, row by row. -/
theorem sumBetween_cons (r : ρ) (rows : List ρ) (a d : δ) :
    sumBetween date amount (r :: rows) a d =
      (if a ≤ date r ∧ date r ≤ d then amount r else 0) + sumBetween date amount rows a d := by
  by_cases h : a ≤ date r ∧ date r ≤ d
  · simp [sumBetween, h]
  · have hb : (decide (a ≤ date r) && decide (date r ≤ d)) = false := by
      simpa using h
    simp [sumBetween, hb, h]

/-- The sum of two lists of rows. -/
theorem sumThrough_append (rows more : List ρ) (d : δ) :
    sumThrough date amount (rows ++ more) d =
      sumThrough date amount rows d + sumThrough date amount more d := by
  simp [sumThrough]

/-- The running balance at `d` splits at any day up to `d`. -/
theorem sumThrough_eq_add (rows : List ρ) {a d : δ} (h : a ≤ d) :
    sumThrough date amount rows d =
      sumBefore date amount rows a + sumBetween date amount rows a d := by
  induction rows with
  | nil => simp [sumThrough, sumBefore, sumBetween]
  | cons r rows ih =>
    rw [sumThrough_cons, sumBefore_cons, sumBetween_cons, ih]
    -- the head row lies before `a`, from `a` through `d`, or after `d`
    rcases lt_or_ge (date r) a with hlt | hge
    · have hd : date r ≤ d := le_of_lt (lt_of_lt_of_le hlt h)
      have hna : ¬ a ≤ date r := not_le.mpr hlt
      simp only [hlt, hd, hna, if_true, false_and, if_false, zero_add]
      abel
    · have hnl : ¬ date r < a := not_lt.mpr hge
      simp only [hnl, hge, true_and, if_false, zero_add]
      abel

/-- What lies before `a` is the running balance at the last earlier row. -/
theorem sumBefore_eq_sumThrough {rows : List ρ} {a p : δ} (hp : p < a)
    (hLast : ∀ r ∈ rows, date r < a → date r ≤ p) :
    sumBefore date amount rows a = sumThrough date amount rows p := by
  have hEq : (rows.filter fun r => decide (date r < a)) =
      rows.filter fun r => decide (date r ≤ p) := by
    apply List.filter_congr
    intro r hr
    rw [decide_eq_decide]
    exact ⟨hLast r hr, fun hle => lt_of_le_of_lt hle hp⟩
  rw [sumBefore, sumThrough, hEq]

/-- With no earlier row there is nothing before `a`. -/
theorem sumBefore_eq_zero {rows : List ρ} {a : δ} (h : ∀ r ∈ rows, ¬ date r < a) :
    sumBefore date amount rows a = 0 := by
  have hEq : (rows.filter fun r => decide (date r < a)) = [] := by
    rw [List.filter_eq_nil_iff]
    intro r hr
    simpa using h r hr
  rw [sumBefore, hEq]
  rfl

/-- Running balances only see dates and amounts. -/
theorem sumThrough_map_congr {rows : List ρ} {f : ρ → ρ} {d : δ}
    (hDate : ∀ r ∈ rows, date (f r) = date r)
    (hAmount : ∀ r ∈ rows, date r ≤ d → amount (f r) = amount r) :
    sumThrough date amount (rows.map f) d = sumThrough date amount rows d := by
  induction rows with
  | nil => rfl
  | cons r rows ih =>
    rw [List.map_cons, sumThrough_cons, sumThrough_cons,
      ih (fun x hx => hDate x (List.mem_cons_of_mem _ hx))
        (fun x hx => hAmount x (List.mem_cons_of_mem _ hx)),
      hDate r List.mem_cons_self]
    by_cases h : date r ≤ d
    · rw [if_pos h, if_pos h, hAmount r List.mem_cons_self h]
    · rw [if_neg h, if_neg h]

/-- A range splits where a later day follows on an earlier one. -/
theorem sumBetween_split (rows : List ρ) {a b c d : δ} (hab : a ≤ b) (hbd : b ≤ d)
    (hNext : ∀ x, b < x ↔ c ≤ x) :
    sumBetween date amount rows a d =
      sumBetween date amount rows a b + sumBetween date amount rows c d := by
  induction rows with
  | nil => simp [sumBetween]
  | cons r rows ih =>
    rw [sumBetween_cons, sumBetween_cons, sumBetween_cons, ih]
    rcases le_or_gt (date r) b with hle | hgt
    · have hc : ¬ c ≤ date r := fun h => absurd ((hNext _).mpr h) (not_lt.mpr hle)
      simp only [hle, le_trans hle hbd, hc, and_true, if_false, zero_add]
      abel
    · have hc : c ≤ date r := (hNext _).mp hgt
      have ha : a ≤ date r := le_of_lt (lt_of_le_of_lt hab hgt)
      simp only [not_le.mpr hgt, hc, ha, and_false, true_and, if_false, zero_add]
      abel

end RunningBalance

end Lib
