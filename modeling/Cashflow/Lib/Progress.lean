import Cashflow.Lib.Machine

/-!
# Progress — machines that come to rest

An event that is not enabled changes nothing and can be repeated for ever, so a
bound on the length of a run counts the events that move the machine. They are
bounded by any measure that they decrease and no other event increases.
-/

namespace Lib

section Progress

variable {σ α : Type*} (exec : σ → α → σ) (moves : σ → α → Prop) [∀ s c, Decidable (moves s c)]

/-- How many calls of a run move the machine. -/
def moved : σ → List α → Nat
  | _, [] => 0
  | s, c :: calls => (if moves s c then 1 else 0) + moved (exec s c) calls

/-- The calls that move the machine are paid for by the measure. -/
theorem moved_le (Inv : σ → Prop) (measure : σ → Nat)
    (hInv : ∀ s c, Inv s → Inv (exec s c))
    (hMoves : ∀ s c, Inv s → moves s c → measure (exec s c) < measure s)
    (hRests : ∀ s c, Inv s → ¬ moves s c → measure (exec s c) ≤ measure s)
    (calls : List α) (s : σ) (hs : Inv s) :
    moved exec moves s calls + measure (run exec s calls) ≤ measure s := by
  induction calls generalizing s with
  | nil =>
    rw [moved, run_nil]
    omega
  | cons c calls ih =>
    have hRest := ih (exec s c) (hInv s c hs)
    rw [moved, run_cons]
    by_cases hMove : moves s c
    · have hLess := hMoves s c hs hMove
      rw [if_pos hMove]
      omega
    · have hKept := hRests s c hs hMove
      rw [if_neg hMove]
      omega

end Progress

end Lib
