import Mathlib.Order.Bounds.Basic
import Mathlib.Data.Int.Order.Basic
import Mathlib.Tactic.Linarith

/-!
# The contiguous prefix of a set of received positions

Positions arrive in any order; `contiguous` walks on from a position for as
long as the next one has been received and a bound is not reached. When the
bound dominates every received position, the walk ends at the largest position
all of whose predecessors were received (`contiguous_isGreatest`), whatever
part of the prefix it was started from.
-/

namespace Lib

/-- Walk from `p` at most `fuel` positions up, as long as the next position
has been received. -/
def contiguous (received : Int → Bool) : Nat → Int → Int
  | 0, p => p
  | fuel + 1, p => if received (p + 1) then contiguous received fuel (p + 1) else p

/-- Every position `1 … p` was received. -/
def Prefix (received : Int → Bool) (p : Int) : Prop :=
  0 ≤ p ∧ ∀ q, 1 ≤ q → q ≤ p → received q = true

/-- There is nothing to receive up to zero. -/
theorem prefix_zero (received : Int → Bool) : Prefix received 0 :=
  ⟨le_rfl, fun q h1 h2 => by omega⟩

variable {received : Int → Bool}

/-- The prefix grows with the next one that was received. -/
theorem Prefix.succ {p : Int} (h : Prefix received p) (hr : received (p + 1) = true) :
    Prefix received (p + 1) := by
  refine ⟨by have := h.1; omega, fun q h1 h2 => ?_⟩
  rcases eq_or_lt_of_le h2 with rfl | hlt
  · exact hr
  · exact h.2 q h1 (by omega)

/-- Walking on from a prefix ends at a prefix. -/
theorem prefix_contiguous (fuel : Nat) {p : Int} (h : Prefix received p) :
    Prefix received (contiguous received fuel p) := by
  induction fuel generalizing p with
  | zero => exact h
  | succ fuel ih =>
    rw [contiguous]
    split
    · rename_i hr
      exact ih (h.succ hr)
    · exact h

/-- The walk stops at a hole or at its bound. -/
theorem contiguous_stop (received : Int → Bool) (fuel : Nat) (p : Int) :
    contiguous received fuel p = p + fuel ∨
      received (contiguous received fuel p + 1) = false := by
  induction fuel generalizing p with
  | zero => left; simp [contiguous]
  | succ fuel ih =>
    rw [contiguous]
    split
    · -- one further, and then by the walk from there
      rcases ih (p + 1) with h | h
      · left
        rw [h]
        push_cast
        omega
      · right
        exact h
    · rename_i hr
      right
      simpa using hr

/-- Started anywhere on the prefix, with every received position within the
bound, the walk ends at the greatest position whose predecessors were all
received. -/
theorem contiguous_isGreatest {fuel : Nat} {p : Int} (h : Prefix received p)
    (hBound : ∀ q, received q = true → q ≤ p + fuel) :
    IsGreatest {q | Prefix received q} (contiguous received fuel p) := by
  refine ⟨prefix_contiguous fuel h, ?_⟩
  intro q hq
  by_contra hlt
  rw [not_le] at hlt
  have hPos := (prefix_contiguous fuel h).1
  -- the position after the stop is part of the longer prefix `q`
  have hNext : received (contiguous received fuel p + 1) = true :=
    hq.2 _ (by omega) (by omega)
  rcases contiguous_stop received fuel p with hEnd | hHole
  · have := hBound _ hNext
    omega
  · rw [hNext] at hHole
    cases hHole

end Lib
