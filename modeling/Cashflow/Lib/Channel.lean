import Mathlib.Data.List.Basic
import Mathlib.Order.Basic
import Mathlib.Tactic.Push

/-!
# Channel — loops that receive from a channel others send on and close

A buffered Go channel as its receiver sees it.  `poll` is a receive that does not block: a
closed channel is always ready and yields zero values once its buffer is empty.  `act` is what
the others do between two receives.

A loop around such receives runs against an unending schedule (`trajectory`).  It ends where a
measure decreases (`exists_left`) or where a fair choice takes the case that ends it
(`exists_left_of_fair`).
-/

namespace Lib

structure Channel (α : Type) where
  buffer : List α
  closed : Bool
deriving DecidableEq, Repr

/-- What a receive finds: a value with what is left, a closed channel, or nothing yet. -/
inductive Received (α : Type) where
  | value (a : α) (rest : Channel α)
  | closed
  | empty

namespace Channel

variable {α : Type}

def poll (c : Channel α) : Received α :=
  match c.buffer, c.closed with
  | a :: rest, closed => .value a ⟨rest, closed⟩
  | [], true => .closed
  | [], false => .empty

/-- A receive is ready, be it with a zero value. -/
def ready (c : Channel α) : Bool := !c.buffer.isEmpty || c.closed

/-- Values are sent, and then the channel may be closed; nothing is sent on a closed one. -/
def act (c : Channel α) (sent : List α) (closes : Bool) : Channel α :=
  if c.closed then c else ⟨c.buffer ++ sent, closes⟩

/-- A value that is received was the first in the buffer. -/
theorem poll_value {c rest : Channel α} {a : α} (h : c.poll = .value a rest) :
    c.buffer = a :: rest.buffer ∧ c.closed = rest.closed := by
  obtain ⟨buffer, closed⟩ := c
  cases buffer with
  | nil => cases closed <;> cases h
  | cons b buffer =>
    cases h
    exact ⟨rfl, rfl⟩

/-- A channel is seen closed once it is drained. -/
theorem poll_closed {c : Channel α} (h : c.poll = .closed) : c.buffer = [] ∧ c.closed = true := by
  obtain ⟨buffer, closed⟩ := c
  cases buffer with
  | nil =>
    cases closed with
    | true => exact ⟨rfl, rfl⟩
    | false => cases h
  | cons b buffer => cases h

/-- A channel that would block is open. -/
theorem poll_empty {c : Channel α} (h : c.poll = .empty) : c.closed = false := by
  obtain ⟨buffer, closed⟩ := c
  cases buffer with
  | nil =>
    cases closed with
    | true => cases h
    | false => rfl
  | cons b buffer => cases h

/-- Nothing is sent on a closed channel. -/
theorem act_of_closed {c : Channel α} (h : c.closed = true) (sent : List α) (closes : Bool) :
    c.act sent closes = c := by
  rw [act, if_pos h]

/-- The buffer grows by no more than what is sent. -/
theorem length_act_le (c : Channel α) (sent : List α) (closes : Bool) :
    (c.act sent closes).buffer.length ≤ c.buffer.length + sent.length := by
  rw [act]
  by_cases hClosed : c.closed = true
  · rw [if_pos hClosed]
    omega
  · rw [if_neg hClosed]
    exact Nat.le_of_eq List.length_append

end Channel

/-! ## Loops against a schedule -/

section Schedule

variable {σ ι : Type}

/-- The states of a machine that takes one step for each entry of an unending schedule. -/
def trajectory (step : σ → ι → σ) (s : σ) (schedule : Nat → ι) : Nat → σ
  | 0 => s
  | k + 1 => step (trajectory step s schedule k) (schedule k)

/-- What every step keeps holds all along the trajectory. -/
theorem trajectory_invariant {step : σ → ι → σ} {schedule : Nat → ι} (Inv : σ → Prop)
    (hStep : ∀ s k, Inv s → Inv (step s (schedule k))) {s : σ} (hs : Inv s) (n : Nat) :
    Inv (trajectory step s schedule n) := by
  induction n with
  | zero => exact hs
  | succ n ih => exact hStep _ n ih

/-- What is kept by every step from `n` on holds from there on. -/
theorem kept_from {state : Nat → σ} {P : σ → Prop} {n : Nat} (hNow : P (state n))
    (hStep : ∀ k ≥ n, P (state k) → P (state (k + 1))) : ∀ k ≥ n, P (state k) := by
  intro k hk
  obtain ⟨i, rfl⟩ := Nat.exists_eq_add_of_le hk
  induction i with
  | zero => exact hNow
  | succ i ih => exact hStep (n + i) (by omega) (ih (by omega))

/-- Steps that decrease a measure leave the region in which they do. -/
theorem exists_left {state : Nat → σ} (Region : σ → Prop) (measure : σ → Nat) (n : Nat)
    (hStep : ∀ k ≥ n, Region (state k) → Region (state (k + 1)) →
      measure (state (k + 1)) < measure (state k)) :
    ∃ k ≥ n, ¬ Region (state k) := by
  by_contra hNever
  push Not at hNever
  -- a measure that decreased for ever would fall below zero
  have hBound : ∀ i, measure (state (n + i)) + i ≤ measure (state n) := by
    intro i
    induction i with
    | zero => exact Nat.le_refl _
    | succ i ih =>
      have hLess := hStep (n + i) (by omega) (hNever _ (by omega)) (hNever _ (by omega))
      have hNext : n + (i + 1) = n + i + 1 := rfl
      rw [hNext]
      omega
  have hEnd := hBound (measure (state n) + 1)
  omega

/-- Every case is preferred again and again. -/
def Fair (pick : Nat → ι) : Prop := ∀ i n, ∃ k ≥ n, pick k = i

/-- A region is left by the fair choice of a case that, once ready, stays ready in it. -/
theorem exists_left_of_fair {pick : Nat → ι} (hFair : Fair pick) {state : Nat → σ}
    (Region Ready : σ → Prop) (i : ι) {n : Nat} (hNow : Ready (state n))
    (hKept : ∀ k ≥ n, Region (state k) → Ready (state k) → Ready (state (k + 1)))
    (hTaken : ∀ k ≥ n, Region (state k) → Ready (state k) → pick k = i →
      ¬ Region (state (k + 1))) :
    ∃ k ≥ n, ¬ Region (state k) := by
  by_contra hNever
  push Not at hNever
  have hReady : ∀ k ≥ n, Ready (state k) :=
    kept_from hNow fun k hk hReady => hKept k hk (hNever k hk) hReady
  obtain ⟨k, hk, hPick⟩ := hFair i n
  exact hTaken k hk (hNever k hk) (hReady k hk) hPick (hNever (k + 1) (by omega))

end Schedule

end Lib
