import Mathlib.Data.List.Basic

/-!
# Database programs

A program of a transaction is a tree of statements: each statement answers,
and the program goes on with the answer. A statement that fails ends the
program; the error it ends with is the program's to choose.

An `Engine` says what a statement answers on a snapshot and which rows it
writes. `exec` runs a whole program against one database, as when nothing else
is running; `Cashflow.Lib.Locking` runs several of them statement by statement.

Main results:

* `exec_bind_ok` — a sequence succeeds exactly when both halves do;
* `exec_call_ok` — what a successful statement did.
-/

namespace Lib

/-- How a commit ends. -/
inductive CommitOutcome
  | committed
  | rolledBack
  /-- the commit took effect, its acknowledgement did not arrive -/
  | unacknowledged
deriving DecidableEq, Repr

/-- A program with statements in `S` that answer in `R`, fail with `E`, and
end with an error in `ε` or a result in `α`. -/
inductive Prog (S : Type) (R : S → Type) (E ε α : Type) : Type where
  | done (r : Except ε α)
  | stmt (s : S) (fail : E → ε) (next : R s → Prog S R E ε α)

namespace Prog

variable {S : Type} {R : S → Type} {E ε α β : Type}

/-- Run `p`, then `f` on its result. -/
def bind : Prog S R E ε α → (α → Prog S R E ε β) → Prog S R E ε β
  | .done (.ok a), f => f a
  | .done (.error e), _ => .done (.error e)
  | .stmt s fail next, f => .stmt s fail fun r => (next r).bind f

instance : Monad (Prog S R E ε) where
  pure a := .done (.ok a)
  bind := bind

/-- One statement. -/
def call (s : S) (fail : E → ε) : Prog S R E ε (R s) := .stmt s fail fun r => .done (.ok r)

/-- Go on with a computation that makes no statement. -/
def lift (x : Except ε α) : Prog S R E ε α := .done x

end Prog

/-- What statements answer on a snapshot, and what a write does to one. -/
structure Engine (S : Type) (R : S → Type) (E D W : Type) where
  eval : (s : S) → D → Except E (R s × List W)
  apply : D → W → D

namespace Engine

variable {S : Type} {R : S → Type} {E ε α β D W : Type} (engine : Engine S R E D W)

/-- The snapshot with further writes on top. -/
def view (d : D) (ws : List W) : D := ws.foldl engine.apply d

/-- Writes in two batches are the writes of one. -/
theorem view_append (d : D) (ws vs : List W) :
    engine.view d (ws ++ vs) = engine.view (engine.view d ws) vs := List.foldl_append

/-- The same engine with statements that may be refused for reasons outside the
database. -/
def withFaults (fault : S → Option E) : Engine S R E D W :=
  { engine with
    eval := fun s d =>
      match fault s with
      | some e => .error e
      | none => engine.eval s d }

/-- Run a program from the first statement to the last. -/
def exec : Prog S R E ε α → D → Except ε (α × D)
  | .done (.ok a), d => .ok (a, d)
  | .done (.error e), _ => .error e
  | .stmt s fail next, d =>
    match engine.eval s d with
    | .error e => .error (fail e)
    | .ok (r, ws) => exec (next r) (engine.view d ws)

/-- A computation without statements leaves the database as it is. -/
theorem exec_lift_ok {x : Except ε α} {d d' : D} {a : α} :
    engine.exec (.lift x : Prog S R E ε α) d = .ok (a, d') ↔ x = .ok a ∧ d' = d := by
  cases x with
  | error e => simp [Prog.lift, exec]
  | ok b => simp [Prog.lift, exec, eq_comm]

/-- A statement that succeeds has answered on the database and put its writes on top. -/
theorem exec_call_ok {s : S} {fail : E → ε} {d d' : D} {r : R s} :
    engine.exec (.call s fail : Prog S R E ε (R s)) d = .ok (r, d') ↔
      ∃ ws, engine.eval s d = .ok (r, ws) ∧ d' = engine.view d ws := by
  simp only [Prog.call, exec]
  cases h : engine.eval s d with
  | error e => simp
  | ok p => simp only [Except.ok.injEq, Prod.ext_iff]; grind

/-- A sequence runs the first half, then the second on what it left. -/
theorem exec_bind (p : Prog S R E ε α) (f : α → Prog S R E ε β) (d : D) :
    engine.exec (p >>= f) d = (engine.exec p d).bind fun x => engine.exec (f x.1) x.2 := by
  show engine.exec (p.bind f) d = _
  induction p generalizing d with
  | done r => cases r <;> rfl
  | stmt s fail next ih =>
    simp only [Prog.bind, exec]
    cases engine.eval s d with
    | error e => rfl
    | ok q => exact ih q.1 _

/-- A sequence succeeds exactly when both halves do. -/
theorem exec_bind_ok {p : Prog S R E ε α} {f : α → Prog S R E ε β} {d d' : D} {b : β} :
    engine.exec (p >>= f) d = .ok (b, d') ↔
      ∃ a d₁, engine.exec p d = .ok (a, d₁) ∧ engine.exec (f a) d₁ = .ok (b, d') := by
  rw [exec_bind]
  cases engine.exec p d with
  | error e => simp [Except.bind]
  | ok x =>
    obtain ⟨a, d₁⟩ := x
    simp [Except.bind]

/-- A sequence that starts with a computation runs the rest on the same database. -/
theorem exec_lift_bind_ok {x : Except ε α} {f : α → Prog S R E ε β} {d d' : D} {b : β} :
    engine.exec (Prog.lift x >>= f) d = .ok (b, d') ↔
      ∃ a, x = .ok a ∧ engine.exec (f a) d = .ok (b, d') := by
  rw [exec_bind_ok]
  constructor
  · rintro ⟨a, d₁, hLift, h⟩
    obtain ⟨hx, rfl⟩ := (exec_lift_ok engine).mp hLift
    exact ⟨a, hx, h⟩
  · rintro ⟨a, hx, h⟩
    exact ⟨a, d, (exec_lift_ok engine).mpr ⟨hx, rfl⟩, h⟩

/-- A run that succeeds in spite of faults met none. -/
theorem exec_of_withFaults {fault : S → Option E} {p : Prog S R E ε α} {d d' : D} {a : α}
    (h : (engine.withFaults fault).exec p d = .ok (a, d')) : engine.exec p d = .ok (a, d') := by
  induction p generalizing d with
  | done r =>
    cases r with
    | error e => cases h
    | ok b => exact h
  | stmt s fail next ih =>
    rw [exec] at h ⊢
    cases hFault : fault s with
    | some e => simp only [withFaults, hFault] at h; cases h
    | none =>
      simp only [withFaults, hFault] at h
      cases hEval : engine.eval s d with
      | error e => rw [hEval] at h; cases h
      | ok q =>
        rw [hEval] at h
        exact ih q.1 h

end Engine

end Lib
