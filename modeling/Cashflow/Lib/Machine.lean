import Mathlib.Order.Basic
import Mathlib.Data.List.Basic

/-!
# Machines: fallible computations, runs and invariants

Three small rules every later module leans on:

* `peel` — a sequence of fallible steps that succeeded can be peeled
  apart one step at a time;
* `run_invariant` — what holds initially and is kept by every call whose
  guard holds, holds after every run whose calls all meet the guard;
* `Reachable.invariant` — the same rule for a step *relation*.
-/

namespace Lib

universe v

/-! ## Fallible computations -/

/-- A bind succeeds exactly when both halves do. -/
theorem peel {ε : Type*} {α β : Type v} {x : Except ε α} {next : α → Except ε β} {r : β} :
    x >>= next = Except.ok r ↔ ∃ a, x = Except.ok a ∧ next a = Except.ok r := by
  cases x with
  | error e =>
    constructor
    · intro h
      cases h
    · rintro ⟨a, h, -⟩
      cases h
  | ok a =>
    constructor
    · intro h
      exact ⟨a, rfl, h⟩
    · rintro ⟨a', h, hr⟩
      cases h
      exact hr

/-- Renaming the error changes no success. -/
theorem mapError_ok {ε ε' α : Type*} {f : ε → ε'} {x : Except ε α} {a : α} :
    x.mapError f = .ok a ↔ x = .ok a := by
  cases x <;> simp [Except.mapError]

/-- A computation that succeeds on every element succeeds on the list; what is
known of each result is known of the list of results. -/
theorem mapM_ok {ε α β γ : Type} {f : α → Except ε β} {g : β → γ} {g' : α → γ} {l : List α}
    (h : ∀ a ∈ l, ∃ b, f a = .ok b ∧ g b = g' a) :
    ∃ bs, l.mapM f = .ok bs ∧ bs.map g = l.map g' := by
  induction l with
  | nil => exact ⟨[], rfl, rfl⟩
  | cons a l ih =>
    obtain ⟨b, hb, hg⟩ := h a List.mem_cons_self
    obtain ⟨bs, hbs, hgs⟩ := ih fun a' ha' => h a' (List.mem_cons_of_mem _ ha')
    refine ⟨b :: bs, ?_, by rw [List.map_cons, List.map_cons, hg, hgs]⟩
    rw [List.mapM_cons, hb, hbs]
    rfl

/-- Every result comes from an element. -/
theorem mem_of_mapM {ε α β : Type} {f : α → Except ε β} {l : List α} {bs : List β}
    (h : l.mapM f = .ok bs) {b : β} (hb : b ∈ bs) : ∃ a ∈ l, f a = .ok b := by
  induction l generalizing bs with
  | nil =>
    cases h
    cases hb
  | cons a l ih =>
    rw [List.mapM_cons] at h
    obtain ⟨first, hFirst, h⟩ := peel.mp h
    obtain ⟨rest, hRest, h⟩ := peel.mp h
    cases h
    rcases List.mem_cons.mp hb with rfl | hb
    · exact ⟨a, List.mem_cons_self, hFirst⟩
    · obtain ⟨a', ha', hEq⟩ := ih hRest hb
      exact ⟨a', List.mem_cons_of_mem a ha', hEq⟩

/-! ## Where a computation ends -/

section Lands

variable {ε α β : Type} {E : ε → Prop} {P : α → Prop} {Q : β → Prop}

/-- The computation ends with a value of which `P` holds or with an error of which `E`
holds. -/
def Lands (E : ε → Prop) (P : α → Prop) : Except ε α → Prop
  | .ok a => P a
  | .error e => E e

/-- The two ends, as a disjunction. -/
theorem lands_iff {x : Except ε α} :
    Lands E P x ↔ (∃ a, x = .ok a ∧ P a) ∨ ∃ e, x = .error e ∧ E e := by
  cases x with
  | ok a => simp [Lands]
  | error e => simp [Lands]

/-- The rule for sequences. -/
theorem Lands.bind {x : Except ε α} {f : α → Except ε β} (h : Lands E P x)
    (hf : ∀ a, P a → Lands E Q (f a)) : Lands E Q (x >>= f) := by
  cases x with
  | ok a => exact hf a h
  | error e => exact h

/-- The rule for a result that is only transformed. -/
theorem Lands.map {x : Except ε α} {f : α → β} (h : Lands E P x) (hf : ∀ a, P a → Q (f a)) :
    Lands E Q (x.map f) := by
  cases x with
  | ok a => exact hf a h
  | error e => exact h

/-- The rule for lists, element by element. -/
theorem mapM_lands {f : α → Except ε β} (h : ∀ a, Lands E Q (f a)) (l : List α) :
    Lands E (fun bs => ∀ b ∈ bs, Q b) (l.mapM f) := by
  induction l with
  | nil => exact fun b hb => absurd hb List.not_mem_nil
  | cons a l ih =>
    rw [List.mapM_cons]
    refine (h a).bind fun b hb => ih.bind fun bs hbs => ?_
    exact List.forall_mem_cons.mpr ⟨hb, hbs⟩

/-- The rule for folds, with an invariant of what is accumulated. -/
theorem foldlM_lands {step : β → α → Except ε β} (h : ∀ b a, Q b → Lands E Q (step b a))
    (l : List α) : ∀ b, Q b → Lands E Q (l.foldlM step b) := by
  induction l with
  | nil => exact fun b hb => hb
  | cons a l ih =>
    intro b hb
    rw [List.foldlM_cons]
    exact (h b a hb).bind ih

end Lands

/-! ## Runs of a deterministic machine -/

section Run

variable {σ α : Type*} (exec : σ → α → σ)

/-- The state after executing `calls` from left to right. -/
def run (s : σ) (calls : List α) : σ := calls.foldl exec s

@[simp] theorem run_nil (s : σ) : run exec s [] = s := rfl

@[simp] theorem run_cons (s : σ) (c : α) (calls : List α) :
    run exec s (c :: calls) = run exec (exec s c) calls := rfl

/-- A run in two parts goes on where the first part ended. -/
theorem run_append (s : σ) (calls later : List α) :
    run exec s (calls ++ later) = run exec (run exec s calls) later := by
  simp [run]

/-- Every call of the run meets `guard` in the state it is executed in. -/
def Along (guard : σ → α → Prop) : σ → List α → Prop
  | _, [] => True
  | s, c :: calls => guard s c ∧ Along guard (exec s c) calls

instance decidableAlong (guard : σ → α → Prop) [∀ s c, Decidable (guard s c)] :
    ∀ (s : σ) (calls : List α), Decidable (Along exec guard s calls)
  | _, [] => isTrue trivial
  | s, c :: calls =>
    have : Decidable (Along exec guard (exec s c) calls) :=
      decidableAlong guard (exec s c) calls
    inferInstanceAs (Decidable (guard s c ∧ Along exec guard (exec s c) calls))

variable {exec}

/-- A guard that every call meets in any state holds along the run. -/
theorem along_of_forall {guard : σ → α → Prop} {calls : List α} (s : σ)
    (h : ∀ s, ∀ c ∈ calls, guard s c) : Along exec guard s calls := by
  induction calls generalizing s with
  | nil => trivial
  | cons c calls ih =>
    exact ⟨h s c List.mem_cons_self,
      ih (exec s c) fun s' c' hc' => h s' c' (List.mem_cons_of_mem _ hc')⟩

/-- A guard holds along a run in two parts if it holds along both, the second from where the first
ended. -/
theorem along_append {guard : σ → α → Prop} {s : σ} {calls later : List α} :
    Along exec guard s (calls ++ later) ↔
      Along exec guard s calls ∧ Along exec guard (run exec s calls) later := by
  induction calls generalizing s with
  | nil => exact ⟨fun h => ⟨trivial, h⟩, And.right⟩
  | cons c calls ih =>
    show guard s c ∧ Along exec guard (exec s c) (calls ++ later) ↔
      (guard s c ∧ Along exec guard (exec s c) calls) ∧ _
    rw [ih, and_assoc]
    rfl

/-- The invariant rule: an invariant kept by every guarded call is kept by
every run whose calls all meet the guard. -/
theorem run_invariant (Inv : σ → Prop) (guard : σ → α → Prop)
    (hStep : ∀ s c, Inv s → guard s c → Inv (exec s c)) :
    ∀ (calls : List α) (s : σ), Inv s → Along exec guard s calls →
      Inv (run exec s calls) := by
  intro calls
  induction calls with
  | nil => intro s hInv _; exact hInv
  | cons c calls ih =>
    intro s hInv hAlong
    exact ih (exec s c) (hStep s c hInv hAlong.1) hAlong.2

/-- The invariant rule for a machine without a guard. -/
theorem run_invariant' (Inv : σ → Prop) (hStep : ∀ s c, Inv s → Inv (exec s c))
    (calls : List α) (s : σ) (hInv : Inv s) : Inv (run exec s calls) := by
  induction calls generalizing s with
  | nil => exact hInv
  | cons c calls ih => exact ih (exec s c) (hStep s c hInv)

end Run

/-! ## Reachability in a transition system -/

section Reachable

variable {σ : Type*}

/-- The states a step relation reaches from `s₀`. -/
inductive Reachable (step : σ → σ → Prop) (s₀ : σ) : σ → Prop
  | start : Reachable step s₀ s₀
  | next {s t : σ} : Reachable step s₀ s → step s t → Reachable step s₀ t

/-- The invariant rule for a step relation. -/
theorem Reachable.invariant {step : σ → σ → Prop} {s₀ : σ} {Inv : σ → Prop}
    (hStart : Inv s₀) (hStep : ∀ s t, Inv s → step s t → Inv t) {s : σ}
    (h : Reachable step s₀ s) : Inv s := by
  induction h with
  | start => exact hStart
  | next _ hst ih => exact hStep _ _ ih hst

/-- Reachability composes. -/
theorem Reachable.trans {step : σ → σ → Prop} {s t u : σ} (h : Reachable step s t)
    (h' : Reachable step t u) : Reachable step s u := by
  induction h' with
  | start => exact h
  | next _ hStep ih => exact ih.next hStep

end Reachable

end Lib
