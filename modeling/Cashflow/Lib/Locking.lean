import Mathlib.Logic.Function.Basic
import Cashflow.Lib.Machine
import Cashflow.Lib.Transaction

/-!
# Transactions run statement by statement, under locks

Several transactions are in progress at once. Each statement reads the
committed database and the transaction's own writes, never the writes of
another transaction in progress; the locks a statement takes are kept until its
transaction ends, and a statement waits while one of them is held elsewhere. A
transaction may end without effect at any moment.

Locks make such a system behave as if transactions ran one after the other, at
the moment of their commit. What has to be known about the statements is a
relation `Agree h d d'`: `d'` is `d` after a transaction that held the locks `h`
has committed. A statement that needs none of these locks answers on `d'` as it
does on `d`.

Main result: `Frame.serializable`, every committed database is reached by whole
programs run one after the other. `Bench.schedule` runs a given schedule, and
`Bench.reachable_schedule` says that it is one of the possible ones.
-/

namespace Lib

section Locking

variable {S : Type} {R : S → Type} {E ε α D W L : Type}

/-- The locks of statements: `takes` are acquired with an answer and kept,
`needs` are the ones that have to be held for the answer to stay true. -/
structure Locks (S : Type) (R : S → Type) (L : Type) where
  takes : (s : S) → R s → List L
  needs : (s : S) → R s → List L

/-- A transaction in progress: the rest of its program, what it has written and
the locks it holds. -/
structure Session (S : Type) (R : S → Type) (E ε α W L : Type) where
  prog : Prog S R E ε α
  writes : List W
  held : List L

/-- The committed database and the transactions in progress. -/
structure World (S : Type) (R : S → Type) (E ε α D W L : Type) where
  db : D
  sessions : Nat → Option (Session S R E ε α W L)

variable (engine : Engine S R E D W) (locks : Locks S R L) (allowed : Prog S R E ε α → Prop)

/-- No other transaction holds a lock of the list. -/
def World.Free (w : World S R E ε α D W L) (i : Nat) (wanted : List L) : Prop :=
  ∀ j σ, j ≠ i → w.sessions j = some σ → ∀ l ∈ wanted, l ∉ σ.held

/-- One step of one transaction. -/
inductive World.Step : World S R E ε α D W L → World S R E ε α D W L → Prop where
  | begin {w : World S R E ε α D W L} (i : Nat) (p : Prog S R E ε α) (h : w.sessions i = none)
      (hAllowed : allowed p) :
      Step w { w with sessions := Function.update w.sessions i (some ⟨p, [], []⟩) }
  | statement {w : World S R E ε α D W L} (i : Nat) {s : S} {fail : E → ε}
      {next : R s → Prog S R E ε α} {writes δ : List W} {held : List L} {r : R s}
      (h : w.sessions i = some ⟨.stmt s fail next, writes, held⟩)
      (hEval : engine.eval s (engine.view w.db writes) = .ok (r, δ))
      (hFree : w.Free i (locks.takes s r)) :
      Step w { w with
        sessions := Function.update w.sessions i
          (some ⟨next r, writes ++ δ, held ++ locks.takes s r⟩) }
  | abort {w : World S R E ε α D W L} (i : Nat) :
      Step w { w with sessions := Function.update w.sessions i none }
  | commit {w : World S R E ε α D W L} (i : Nat) {a : α} {writes : List W} {held : List L}
      (h : w.sessions i = some ⟨.done (.ok a), writes, held⟩) :
      Step w ⟨engine.view w.db writes, Function.update w.sessions i none⟩

/-! ## Programs that hold the locks they need -/

/-- Whatever is answered, the program either ends in an error or holds what the
answer needs; and where it ends well, `Q` holds of its locks and its result. -/
def Prog.Guarded : Prog S R E ε α → List L → (List L → α → Prop) → Prop
  | .done (.ok a), held, Q => Q held a
  | .done (.error _), _, _ => True
  | .stmt s _ next, held, Q => ∀ r, (∃ e, next r = .done (.error e)) ∨
      (locks.needs s r ⊆ held ++ locks.takes s r ∧ (next r).Guarded (held ++ locks.takes s r) Q)

/-- The rule for sequences. -/
theorem Prog.Guarded.bind {β : Type} {p : Prog S R E ε α} {f : α → Prog S R E ε β}
    {held : List L} {Q : List L → β → Prop}
    (h : p.Guarded locks held fun held' a => (f a).Guarded locks held' Q) :
    (p >>= f).Guarded locks held Q := by
  show (Prog.bind p f).Guarded locks held Q
  induction p generalizing held with
  | done r =>
    cases r with
    | ok a => exact h
    | error e => trivial
  | stmt s fail next ih =>
    intro r
    rcases h r with ⟨e, hDead⟩ | ⟨hNeeds, hNext⟩
    · left
      exact ⟨e, by show (next r).bind f = _; rw [hDead]; rfl⟩
    · exact Or.inr ⟨hNeeds, ih r hNext⟩

/-- A program that holds what its answers need, whatever is held before it. -/
def Prog.Safe (p : Prog S R E ε α) : Prop := ∀ held : List L, p.Guarded locks held fun _ _ => True

/-- What holds at the end of a guarded program may be weakened. -/
theorem Prog.Guarded.mono {p : Prog S R E ε α} {held : List L} {P Q : List L → α → Prop}
    (h : p.Guarded locks held P) (hPQ : ∀ held' a, P held' a → Q held' a) :
    p.Guarded locks held Q := by
  induction p generalizing held with
  | done r =>
    cases r with
    | ok a => exact hPQ held a h
    | error e => trivial
  | stmt s fail next ih =>
    intro r
    exact (h r).imp_right fun ⟨hNeeds, hNext⟩ => ⟨hNeeds, ih r hNext⟩

/-- A sequence of safe programs is safe. -/
theorem Prog.Safe.bind {β : Type} {p : Prog S R E ε α} {f : α → Prog S R E ε β}
    (hp : p.Safe locks) (hf : ∀ a, (f a).Safe locks) : (p >>= f).Safe locks := fun held =>
  Prog.Guarded.bind locks ((hp held).mono locks fun held' a _ => hf a held')

/-- A computation without statements needs no locks. -/
theorem Prog.Safe.lift (x : Except ε α) : (Prog.lift x : Prog S R E ε α).Safe locks := fun held => by
  cases x <;> trivial

/-- A statement that takes what it needs. -/
theorem Prog.Safe.call {s : S} {fail : E → ε} (h : ∀ r, locks.needs s r ⊆ locks.takes s r) :
    (Prog.call s fail : Prog S R E ε (R s)).Safe locks := fun _ r =>
  Or.inr ⟨fun _ hl => List.mem_append_right _ (h r hl), trivial⟩

/-! ## Replaying a transaction -/

/-- Run alone on `d`, the program `p` comes to `q` with these writes and locks. -/
inductive Replays (d : D) (p : Prog S R E ε α) : List W → List L → Prog S R E ε α → Prop where
  | refl : Replays d p [] [] p
  | step {writes δ : List W} {held : List L} {s : S} {fail : E → ε} {next : R s → Prog S R E ε α}
      {r : R s} (h : Replays d p writes held (.stmt s fail next))
      (hEval : engine.eval s (engine.view d writes) = .ok (r, δ))
      (hNeeds : locks.needs s r ⊆ held ++ locks.takes s r) :
      Replays d p (writes ++ δ) (held ++ locks.takes s r) (next r)

variable {engine locks allowed}

/-- What is left of a replayed program does the rest of it. -/
theorem Replays.exec_eq {d : D} {p q : Prog S R E ε α} {writes : List W} {held : List L}
    (h : Replays engine locks d p writes held q) :
    engine.exec p d = engine.exec q (engine.view d writes) := by
  induction h with
  | refl => rfl
  | @step writes δ held s fail next r h hEval hNeeds ih =>
    rw [ih, Engine.exec, hEval, Engine.view_append]

/-- One whole program, run alone. -/
def Engine.Serial (engine : Engine S R E D W) (allowed : Prog S R E ε α → Prop) (d d' : D) : Prop :=
  ∃ p a, allowed p ∧ engine.exec p d = .ok (a, d')

/-- What the locks have to protect. `Agree h d d'` says that `d'` is `d` after a
transaction with the locks `h` has committed. -/
structure Frame (engine : Engine S R E D W) (locks : Locks S R L)
    (allowed : Prog S R E ε α → Prop) (init : D) (Agree : List L → D → D → Prop) : Prop where
  safe : ∀ p, allowed p → p.Safe locks
  answer : ∀ {h : List L} {d d' : D} {s : S} {r : R s} {δ : List W}, Agree h d d' →
    engine.eval s d = .ok (r, δ) → (∀ l ∈ locks.needs s r, l ∉ h) → engine.eval s d' = .ok (r, δ)
  write : ∀ {h : List L} {d d' : D} {s : S} {r : R s} {δ : List W}, Agree h d d' →
    engine.eval s d = .ok (r, δ) → engine.eval s d' = .ok (r, δ) →
    Agree h (engine.view d δ) (engine.view d' δ)
  commit : ∀ {d : D} {p q : Prog S R E ε α} {writes : List W} {held : List L},
    Reachable (engine.Serial allowed) init d → Replays engine locks d p writes held q →
    Agree held d (engine.view d writes)

/-- A transaction keeps its answers when another one commits, if the two hold no
lock in common. -/
theorem Frame.stable {init : D} {Agree : List L → D → D → Prop}
    (hFrame : Frame engine locks allowed init Agree) {h held : List L} {d d' : D}
    {p q : Prog S R E ε α} {writes : List W} (hAgree : Agree h d d')
    (hReplays : Replays engine locks d p writes held q) (hApart : ∀ l ∈ held, l ∉ h) :
    Replays engine locks d' p writes held q ∧
      Agree h (engine.view d writes) (engine.view d' writes) := by
  induction hReplays with
  | refl => exact ⟨.refl, hAgree⟩
  | @step writes δ held s fail next r hBefore hEval hNeeds ih =>
    obtain ⟨hReplays', hAgree'⟩ := ih fun l hl => hApart l (List.mem_append_left _ hl)
    have hEval' := hFrame.answer hAgree' hEval fun l hl => hApart l (hNeeds hl)
    refine ⟨hReplays'.step hEval' hNeeds, ?_⟩
    rw [Engine.view_append, Engine.view_append]
    exact hFrame.write hAgree' hEval hEval'

/-! ## Commit order is a serial order -/

/-- What holds of every reachable world: a transaction in progress is about to
fail, or its program replays on the committed database. -/
structure World.Inv (engine : Engine S R E D W) (locks : Locks S R L)
    (allowed : Prog S R E ε α → Prop) (init : D) (w : World S R E ε α D W L) : Prop where
  serial : Reachable (engine.Serial allowed) init w.db
  replays : ∀ i σ, w.sessions i = some σ → (∃ e, σ.prog = .done (.error e)) ∨
    (σ.prog.Guarded locks σ.held (fun _ _ => True) ∧
      ∃ p, allowed p ∧ Replays engine locks w.db p σ.writes σ.held σ.prog)
  apart : ∀ i j σ τ, i ≠ j → w.sessions i = some σ → w.sessions j = some τ →
    ∀ l ∈ σ.held, l ∉ τ.held

/-- The world before anything has begun. -/
def World.start (init : D) : World S R E ε α D W L := ⟨init, fun _ => none⟩

/-- Nothing is in progress at the start, and the database is the one given. -/
theorem World.start_db (init : D) : (World.start init : World S R E ε α D W L).db = init := rfl

variable {init : D} {Agree : List L → D → D → Prop}

/-- Replacing one session keeps the others. -/
theorem World.Inv.update {w : World S R E ε α D W L} (hInv : w.Inv engine locks allowed init)
    (i : Nat) (σ' : Option (Session S R E ε α W L))
    (hSession : ∀ σ, σ' = some σ → ((∃ e, σ.prog = .done (.error e)) ∨
      (σ.prog.Guarded locks σ.held (fun _ _ => True) ∧
        ∃ p, allowed p ∧ Replays engine locks w.db p σ.writes σ.held σ.prog)) ∧ w.Free i σ.held) :
    World.Inv engine locks allowed init
      { w with sessions := Function.update w.sessions i σ' } where
  serial := hInv.serial
  replays j σ hσ := by
    by_cases hj : j = i
    · -- the session that changed: what is asked of it
      subst hj
      exact (hSession σ (by simpa using hσ)).1
    · exact hInv.replays j σ (by simpa [hj] using hσ)
  -- one of the two may be the session that changed
  apart j k σ τ hjk hσ hτ := by
    by_cases hj : j = i
    · subst hj
      have hτ' : w.sessions k = some τ := by simpa [Ne.symm hjk] using hτ
      exact (hSession σ (by simpa using hσ)).2 k τ (Ne.symm hjk) hτ'
    · have hσ' : w.sessions j = some σ := by simpa [hj] using hσ
      by_cases hk : k = i
      · subst hk
        intro l hl hl'
        exact (hSession τ (by simpa using hτ)).2 j σ hjk hσ' l hl' hl
      · exact hInv.apart j k σ τ hjk hσ' (by simpa [hk] using hτ)

/-- Every step keeps the invariant. Only a commit changes the database, and the frame says that the
other transactions would have got the same answers on it. -/
theorem World.Inv.step (hFrame : Frame engine locks allowed init Agree)
    {w w' : World S R E ε α D W L} (hInv : w.Inv engine locks allowed init)
    (hStep : World.Step engine locks allowed w w') : w'.Inv engine locks allowed init := by
  cases hStep with
  | «begin» i p h hAllowed =>
    apply hInv.update
    rintro σ hσ
    cases hσ
    exact ⟨Or.inr ⟨hFrame.safe p hAllowed [], p, hAllowed, .refl⟩, fun j σ hj hσ l hl => by cases hl⟩
  | abort i =>
    apply hInv.update
    rintro σ hσ
    cases hσ
  | @«statement» i s fail next writes δ held r h hEval hFree =>
    apply hInv.update
    rintro σ hσ
    cases hσ
    refine ⟨?_, ?_⟩
    · -- a program that has failed makes no statement, and one that is guarded has the locks it
      -- needs
      rcases hInv.replays i _ h with ⟨e, hDead⟩ | ⟨hGuard, p, hAllowed, hReplays⟩
      · cases hDead
      · rcases hGuard r with hDead | ⟨hNeeds, hNext⟩
        · exact Or.inl hDead
        · exact Or.inr ⟨hNext, p, hAllowed, hReplays.step hEval hNeeds⟩
    · -- what the session held before was apart from the others, what it takes now is free
      intro j σ hj hσ l hl
      rcases List.mem_append.mp hl with hl | hl
      · exact hInv.apart i j _ σ (Ne.symm hj) h hσ l hl
      · exact hFree j σ hj hσ l hl
  | @commit i a writes held h =>
    obtain ⟨-, p, hAllowed, hReplays⟩ := (hInv.replays i _ h).resolve_left (by rintro ⟨e, he⟩; cases he)
    have hAgree := hFrame.commit hInv.serial hReplays
    have hExec := hReplays.exec_eq
    -- the committing transaction leaves, the others keep their answers
    refine ⟨hInv.serial.next ⟨p, a, hAllowed, hExec⟩, ?_, ?_⟩
    · -- the others replay on the new database too, for they hold no lock of the one that left
      intro j σ hσ
      have hj : j ≠ i := by
        rintro rfl
        simp at hσ
      have hσ' : w.sessions j = some σ := by simpa [hj] using hσ
      refine (hInv.replays j σ hσ').imp_right ?_
      rintro ⟨hGuard, p', hAllowed', hReplays'⟩
      refine ⟨hGuard, p', hAllowed', ?_⟩
      exact (hFrame.stable hAgree hReplays' (hInv.apart j i σ _ hj hσ' h)).1
    · intro j k σ τ hjk hσ hτ
      have hj : j ≠ i := by
        rintro rfl
        simp at hσ
      have hk : k ≠ i := by
        rintro rfl
        simp at hτ
      exact hInv.apart j k σ τ hjk (by simpa [hj] using hσ) (by simpa [hk] using hτ)

/-- Every committed database is reached by whole programs run one after the
other. -/
theorem Frame.serializable (hFrame : Frame engine locks allowed init Agree)
    {w : World S R E ε α D W L}
    (h : Reachable (World.Step engine locks allowed) (World.start init) w) :
    Reachable (engine.Serial allowed) init w.db := by
  have hInv : w.Inv engine locks allowed init := by
    refine Reachable.invariant ?_ (fun s t hInv hStep => hInv.step hFrame hStep) h
    exact ⟨.start, fun _ _ hσ => (nomatch hσ), fun _ _ _ _ _ hσ => (nomatch hσ)⟩
  exact hInv.serial

/-- A transaction that is left alone runs as its program does. -/
theorem World.reachable_alone {w₀ : World S R E ε α D W L} {d d' : D} {p : Prog S R E ε α} {a : α}
    {writes : List W} {held : List L}
    (h : Reachable (World.Step engine locks allowed) w₀
      ⟨d, Function.update (fun _ => none) 0 (some ⟨p, writes, held⟩)⟩)
    (hExec : engine.exec p (engine.view d writes) = .ok (a, d')) :
    Reachable (World.Step engine locks allowed) w₀ (World.start d') := by
  -- on the program; the writes and locks of its session grow with each statement
  induction p generalizing writes held with
  | done r =>
    cases r with
    | error e => cases hExec
    | ok b =>
      cases hExec
      have hStep : World.Step engine locks allowed
          ⟨d, Function.update (fun _ => none) 0 (some ⟨.done (.ok a), writes, held⟩)⟩ _ := .commit 0 rfl
      rw [Function.update_idem, Function.update_eq_self] at hStep
      exact h.next hStep
  | stmt s fail next ih =>
    rw [Engine.exec] at hExec
    cases hEval : engine.eval s (engine.view d writes) with
    | error e => rw [hEval] at hExec; cases hExec
    | ok q =>
      rw [hEval] at hExec
      -- there is no other session to wait for
      have hFree : World.Free ⟨d, Function.update (fun _ => none) 0
          (some ⟨.stmt s fail next, writes, held⟩)⟩ 0 (locks.takes s q.1) := by
        intro j σ hj hσ
        simp [hj] at hσ
      have hStep : World.Step engine locks allowed _ _ := .statement 0 rfl hEval hFree
      rw [Function.update_idem] at hStep
      refine ih q.1 (h.next hStep) ?_
      rw [Engine.view_append]
      exact hExec

/-! ## Running a schedule -/

/-- One turn of a schedule: begin the transaction of a request, run the next
statement of a transaction, commit it. -/
inductive Turn (ι : Type) where
  | begin (request : ι)
  | next (i : Nat)
  | commit (i : Nat)

/-- The committed database and the transactions in progress, numbered as they
began. -/
structure Bench (S : Type) (R : S → Type) (E ε α D W L : Type) where
  db : D
  sessions : List (Option (Session S R E ε α W L))

namespace Bench

def world (b : Bench S R E ε α D W L) : World S R E ε α D W L :=
  ⟨b.db, fun i => b.sessions[i]?.join⟩

/-- No other transaction holds a lock of the list. -/
def isFree [DecidableEq L] (b : Bench S R E ε α D W L) (i : Nat) (wanted : List L) : Bool :=
  (b.sessions.eraseIdx i).all fun σ => σ.all fun σ => wanted.all fun l => !σ.held.contains l

variable {ι : Type} (program : ι → Option (Prog S R E ε α))

/-- A turn that cannot be taken, because a lock is held elsewhere or there is
nothing to run or to commit, changes nothing. -/
def turn [DecidableEq L] (engine : Engine S R E D W) (locks : Locks S R L)
    (b : Bench S R E ε α D W L) : Turn ι → Bench S R E ε α D W L
  | .begin request =>
    match program request with
    | some p => { b with sessions := b.sessions ++ [some ⟨p, [], []⟩] }
    | none => b
  | .next i =>
    match b.sessions[i]?.join with
    | some ⟨.stmt s _ next, writes, held⟩ =>
      match engine.eval s (engine.view b.db writes) with
      | .ok (r, δ) =>
        if b.isFree i (locks.takes s r) then
          { b with
            sessions := b.sessions.set i
              (some ⟨next r, writes ++ δ, held ++ locks.takes s r⟩) }
        -- the lock is held elsewhere, and the session waits
        else b
      | .error _ => b
    | _ => b
  | .commit i =>
    match b.sessions[i]?.join with
    | some ⟨.done (.ok _), writes, _⟩ =>
      ⟨engine.view b.db writes, b.sessions.set i none⟩
    | _ => b

/-- A session that is appended is the one at the end. -/
theorem sessions_append (b : Bench S R E ε α D W L) (σ : Session S R E ε α W L) :
    (fun i => (b.sessions ++ [some σ])[i]?.join) =
      Function.update b.world.sessions b.sessions.length (some σ) := by
  funext i
  rcases Nat.lt_trichotomy i b.sessions.length with h | rfl | h
  · rw [Function.update_of_ne (Nat.ne_of_lt h), List.getElem?_append_left h]
    rfl
  · rw [Function.update_self, List.getElem?_append_right (Nat.le_refl _), Nat.sub_self]
    rfl
  · have hNone : b.sessions[i]? = none := List.getElem?_eq_none (Nat.le_of_lt h)
    rw [Function.update_of_ne (Nat.ne_of_gt h),
      List.getElem?_eq_none (by simp only [List.length_append, List.length_singleton]; omega)]
    exact congrArg Option.join hNone.symm

/-- A session that is replaced is the one at its place. -/
theorem sessions_set (b : Bench S R E ε α D W L) {i : Nat} (σ : Option (Session S R E ε α W L))
    (h : i < b.sessions.length) :
    (fun j => (b.sessions.set i σ)[j]?.join) = Function.update b.world.sessions i σ := by
  funext j
  by_cases hj : j = i
  · subst hj
    rw [Function.update_self, List.getElem?_set_self h]
    rfl
  · rw [Function.update_of_ne hj, List.getElem?_set_ne (Ne.symm hj)]
    rfl

/-- A session that is there has a place on the bench. -/
theorem lt_of_session {b : Bench S R E ε α D W L} {i : Nat} {σ : Session S R E ε α W L}
    (h : b.sessions[i]?.join = some σ) : i < b.sessions.length := by
  by_contra hNot
  rw [List.getElem?_eq_none (by omega)] at h
  cases h

/-- The check of a turn is sound: no other session holds what is wanted. -/
theorem free_of_isFree [DecidableEq L] {b : Bench S R E ε α D W L} {i : Nat} {wanted : List L}
    (h : b.isFree i wanted = true) : b.world.Free i wanted := by
  intro j σ hj hσ l hl hHeld
  have hMem : some σ ∈ b.sessions.eraseIdx i :=
    List.mem_eraseIdx_iff_getElem?.mpr ⟨j, hj, Option.join_eq_some_iff.mp hσ⟩
  have hOther := List.all_eq_true.mp h _ hMem
  rw [Option.all_some, List.all_eq_true] at hOther
  simpa [hHeld] using hOther l hl

/-- What a turn does, a step of the world does. -/
theorem reachable_turn [DecidableEq L] (hProgram : ∀ x p, program x = some p → allowed p)
    {w₀ : World S R E ε α D W L} {b : Bench S R E ε α D W L}
    (h : Reachable (World.Step engine locks allowed) w₀ b.world) (t : Turn ι) :
    Reachable (World.Step engine locks allowed) w₀ (b.turn program engine locks t).world := by
  cases t with
  | «begin» request =>
    simp only [turn]
    split
    · -- the new session gets the place behind the last one
      rename_i p hp
      have hFree : b.world.sessions b.sessions.length = none := by
        simp only [world, List.getElem?_eq_none (Nat.le_refl _)]
        rfl
      have hStep : World.Step engine locks allowed b.world _ :=
        .begin _ p hFree (hProgram request p hp)
      rw [← sessions_append] at hStep
      exact h.next hStep
    · exact h
  | next i =>
    simp only [turn]
    split
    · rename_i s fail next writes held hSession
      split
      · rename_i r δ hEval
        split_ifs with hFree
        · have hStep : World.Step engine locks allowed b.world _ :=
            .statement i (show b.world.sessions i = _ from hSession) hEval (free_of_isFree hFree)
          rw [← sessions_set _ _ (lt_of_session hSession)] at hStep
          exact h.next hStep
        · exact h
      · exact h
    · exact h
  | commit i =>
    simp only [turn]
    split
    · rename_i a writes held hSession
      have hStep : World.Step engine locks allowed b.world _ :=
        .commit i (show b.world.sessions i = _ from hSession)
      rw [← sessions_set _ _ (lt_of_session hSession)] at hStep
      exact h.next hStep
    · exact h

/-- The turns of a schedule, taken from a database where nothing is in progress. -/
def schedule [DecidableEq L] (engine : Engine S R E D W) (locks : Locks S R L) (d : D)
    (turns : List (Turn ι)) : Bench S R E ε α D W L :=
  run (turn program engine locks) ⟨d, []⟩ turns

/-- A schedule is one of the ways transactions can run between each other. -/
theorem reachable_schedule [DecidableEq L] (hProgram : ∀ x p, program x = some p → allowed p)
    (d : D) (turns : List (Turn ι)) :
    Reachable (World.Step engine locks allowed) (World.start d)
      (schedule program engine locks d turns).world := by
  refine run_invariant' (fun b : Bench S R E ε α D W L =>
    Reachable (World.Step engine locks allowed) (World.start d) b.world)
    (fun b t h => reachable_turn program hProgram h t) turns _ ?_
  exact .start

end Bench

end Locking

end Lib
