import Cashflow.Lib.Locking
import Cashflow.Ledger.Books

/-!
# Ledger — transactions that run at the same time

`Repository.Execute` runs its callback in a transaction at the isolation level
read committed: every statement sees what is committed when it
starts and the transaction's own writes. Here any number of `CreateEntry` and
`ReverseEntry` transactions run statement by statement between each other, and
each may be rolled back at any moment.

What keeps them apart are the locks of their rows and index entries: an
`INSERT` waits for an uncommitted row with one of its keys, the upsert of a
position for the row of its merchant, `FOR UPDATE` for the row it locks; the
foreign key of a reversal locks the original it refers to.

Main results: `frame`, that these locks are enough, and from it that whatever
transactions commit, in whatever interleaving, the ledger is one that requests
made one after the other would have left (`committed_reached`).
-/

namespace Cashflow.Ledger

open Lib

/-! ## Locks -/

inductive Lock where
  /-- `idempotency_record_scope_unique` -/
  | scope (s : UUID × Operation × List UInt8)
  | attempt (id : UUID)
  /-- the row of a merchant in `merchant_position` -/
  | position (merchantID : UUID)
  /-- the row of an entry -/
  | entry (id : UUID)
  /-- `ledger_entry_merchant_position_unique` -/
  | slot (merchantID : UUID) (position : Int64)
  | event (id : UUID)
  /-- `outbox_event_aggregate_type_unique` -/
  | announced (aggregateID : UUID) (eventType : Text)
deriving DecidableEq

/-- What the insertion of a record locks. -/
def IdempotencyRow.locks (r : IdempotencyRow) : List Lock := [.scope r.scope, .attempt r.attemptID]

/-- What the insertion of an entry locks, the original it refers to included. -/
def EntryRow.locks (r : EntryRow) : List Lock :=
  [.entry r.id, .slot r.merchantID r.position] ++ r.originalEntryID.toList.map .entry

/-- What the insertion of an event locks. -/
def OutboxRow.locks (r : OutboxRow) : List Lock :=
  [.event r.eventID, .announced r.aggregateID r.eventType]

/-- An insertion that gives way, and a read without `FOR UPDATE`, lock nothing.
That an entry has no reversal stays true only under the lock of its row. -/
def locks : Locks Stmt Stmt.Result Lock where
  takes
    -- what was inserted cannot be inserted by another until this one ends
    | .insertIdempotency row, claimed => if claimed = true then row.locks else []
    | .selectIdempotency _, _ => []
    | .updateIdempotency attemptID _ _ _, updated => if updated = true then [.attempt attemptID] else []
    | .upsertPosition merchantID _, _ => [.position merchantID]
    | .insertEntry row, _ => row.locks
    | .selectEntryForUpdate _ entryID, _ => [.entry entryID]
    | .existsReversal _, _ => []
    | .insertOutbox row, _ => row.locks
  needs
    -- what an outcome rests on has to stay as it is until the commit
    | .insertIdempotency row, claimed => if claimed = true then row.locks else []
    | .selectIdempotency _, _ => []
    | .updateIdempotency attemptID _ _ _, _ => [.attempt attemptID]
    | .upsertPosition merchantID _, _ => [.position merchantID]
    | .insertEntry row, _ => row.locks
    | .selectEntryForUpdate _ _, _ => []
    | .existsReversal entryID, _ => [.entry entryID]
    | .insertOutbox row, _ => row.locks

/-! ### Rows that clash share a lock -/

/-- Two records that clash share a lock. -/
theorem record_clash_lock {a b : IdempotencyRow} (h : idempotencySchema.clash a b = true) :
    ∃ l ∈ a.locks, l ∈ b.locks := by
  rcases of_decide_eq_true h with h | h
  · exact ⟨.attempt a.attemptID, by simp [IdempotencyRow.locks], by simp [IdempotencyRow.locks, h]⟩
  · exact ⟨.scope a.scope, by simp [IdempotencyRow.locks], by simp [IdempotencyRow.locks, h]⟩

/-- And so do two entries. -/
theorem entry_clash_lock {a b : EntryRow} (h : entrySchema.clash a b = true) :
    ∃ l ∈ a.locks, l ∈ b.locks := by
  rcases of_decide_eq_true h with h | ⟨hm, hp⟩ | ⟨hSome, hEq⟩
  · exact ⟨.entry a.id, by simp [EntryRow.locks], by simp [EntryRow.locks, h]⟩
  · exact ⟨.slot a.merchantID a.position, by simp [EntryRow.locks],
      by simp [EntryRow.locks, hm, hp]⟩
  · -- two reversals of one original
    obtain ⟨o, ho⟩ := Option.ne_none_iff_exists'.mp hSome
    exact ⟨.entry o, by simp [EntryRow.locks, ho], by simp [EntryRow.locks, ← hEq, ho]⟩

/-- And two events. -/
theorem event_clash_lock {a b : OutboxRow} (h : outboxSchema.clash a b = true) :
    ∃ l ∈ a.locks, l ∈ b.locks := by
  rcases of_decide_eq_true h with h | ⟨hId, hType⟩
  · exact ⟨.event a.eventID, by simp [OutboxRow.locks], by simp [OutboxRow.locks, h]⟩
  · exact ⟨.announced a.aggregateID a.eventType, by simp [OutboxRow.locks],
      by simp [OutboxRow.locks, hId, hType]⟩

/-! ## What a commit changes -/

/-- `d'` is `d` after a transaction that held the locks `h`: it has the rows of
`d`, and its other rows are locked. -/
structure Agree (h : List Lock) (d d' : Db) : Prop where
  positions : ∀ m, Lock.position m ∉ h → d'.position? m = d.position? m
  entries : d.entries.Grows (fun r => r.locks ⊆ h) d'.entries
  idempotency : d.idempotency.Grows (fun r => r.locks ⊆ h) d'.idempotency
  outbox : d.outbox.Grows (fun r => r.locks ⊆ h) d'.outbox

/-- A database agrees with itself. -/
theorem Agree.refl (h : List Lock) (d : Db) : Agree h d d :=
  ⟨fun _ _ => rfl, .refl _ _, .refl _ _, .refl _ _⟩

/-- More locks only say less. -/
theorem Agree.mono {h h' : List Lock} {d d' : Db} (hAgree : Agree h d d') (hLocks : h ⊆ h') :
    Agree h' d d' where
  positions m hm := hAgree.positions m fun hMem => hm (hLocks hMem)
  entries := hAgree.entries.mono fun _ hr => List.Subset.trans hr hLocks
  idempotency := hAgree.idempotency.mono fun _ hr => List.Subset.trans hr hLocks
  outbox := hAgree.outbox.mono fun _ hr => List.Subset.trans hr hLocks

section Frame

variable {jsonb : Json.Jsonb} {h : List Lock} {d d' : Db}

/-- A row whose locks are free clashes with no row that is locked. -/
theorem apart_of_locks {ρ : Type} {S : Schema ρ} {lockOf : ρ → List Lock} {r : ρ}
    (hClash : ∀ {a b : ρ}, S.clash a b = true → ∃ l ∈ lockOf a, l ∈ lockOf b)
    (hFree : ∀ l ∈ lockOf r, l ∉ h) (a : ρ) (ha : lockOf a ⊆ h) : S.clash a r = false := by
  rw [Bool.eq_false_iff]
  intro hBad
  obtain ⟨l, hl, hl'⟩ := hClash hBad
  exact hFree l hl' (ha hl)

/-! ### Answers stay the same -/

/-- An attempt whose locks are free is claimed on both sides, or on neither. -/
theorem answer_insertIdempotency {row : IdempotencyRow} {claimed : Bool} {ws : List Write}
    (hAgree : Agree h d d') (hEval : d.evalInsertIdempotency row = .ok (claimed, ws))
    (hFree : ∀ l ∈ (if claimed = true then row.locks else []), l ∉ h) :
    d'.evalInsertIdempotency row = .ok (claimed, ws) := by
  rw [evalInsertIdempotency_ok] at hEval ⊢
  rcases hEval with ⟨rfl, rfl, r, hr, hScope⟩ | ⟨rfl, rfl, t, ht⟩
  · exact Or.inl ⟨rfl, rfl, r, hAgree.idempotency.keeps r hr, hScope⟩
  · exact Or.inr ⟨rfl, rfl,
      hAgree.idempotency.exists_insert ht (apart_of_locks record_clash_lock hFree)⟩

/-- It is completed on both sides, or on neither. -/
theorem answer_updateIdempotency {attemptID entryID : UUID} {response : Text} {completedAt : Int}
    {updated : Bool} {ws : List Write} (hAgree : Agree h d d')
    (hEval : d.evalUpdateIdempotency jsonb attemptID entryID response completedAt =
      .ok (updated, ws)) (hFree : ∀ l ∈ [Lock.attempt attemptID], l ∉ h) :
    d'.evalUpdateIdempotency jsonb attemptID entryID response completedAt = .ok (updated, ws) := by
  rw [evalUpdateIdempotency_ok] at hEval ⊢
  obtain ⟨payload, hCast, ⟨rfl, rfl, hNone⟩ | ⟨rfl, rfl, r, hr, hAttempt, hOpen, e, he, hKey⟩⟩ := hEval
  · refine ⟨payload, hCast, Or.inl ⟨rfl, rfl, fun r hr hAttempt => ?_⟩⟩
    rcases hAgree.idempotency.new r hr with hOld | hNew
    · exact hNone r hOld hAttempt
    · have hLock : Lock.attempt r.attemptID ∈ h := hNew (by simp [IdempotencyRow.locks])
      rw [hAttempt] at hLock
      exact absurd hLock (hFree _ List.mem_cons_self)
  · exact ⟨payload, hCast, Or.inr ⟨rfl, rfl, r, hAgree.idempotency.keeps r hr, hAttempt, hOpen, e,
      hAgree.entries.keeps e he, hKey⟩⟩

/-- An entry whose locks are free is inserted on both sides. -/
theorem answer_insertEntry {row : EntryRow} {u : Unit} {ws : List Write} (hAgree : Agree h d d')
    (hEval : d.evalInsertEntry row = .ok (u, ws)) (hFree : ∀ l ∈ row.locks, l ∉ h) :
    d'.evalInsertEntry row = .ok (u, ws) := by
  rw [evalInsertEntry_ok] at hEval ⊢
  obtain ⟨rfl, ⟨t, ht⟩, hForeign⟩ := hEval
  refine ⟨rfl, hAgree.entries.exists_insert ht (apart_of_locks entry_clash_lock hFree), ?_⟩
  intro o ho
  obtain ⟨e, he, hKey⟩ := hForeign o ho
  exact ⟨e, hAgree.entries.keeps e he, hKey⟩

/-- And so is an event. -/
theorem answer_insertOutbox {row : OutboxRow} {u : Unit} {ws : List Write} (hAgree : Agree h d d')
    (hEval : d.evalInsertOutbox jsonb row = .ok (u, ws)) (hFree : ∀ l ∈ row.locks, l ∉ h) :
    d'.evalInsertOutbox jsonb row = .ok (u, ws) := by
  rw [evalInsertOutbox_ok] at hEval ⊢
  obtain ⟨payload, hCast, rfl, ⟨t, ht⟩, e, he, hKey⟩ := hEval
  exact ⟨payload, hCast, rfl,
    hAgree.outbox.exists_insert ht (apart_of_locks event_clash_lock hFree), e,
    hAgree.entries.keeps e he, hKey⟩

/-- Under the lock of an entry nobody else reverses it. -/
theorem answer_existsReversal {entryID : UUID} (hAgree : Agree h d d')
    (hFree : Lock.entry entryID ∉ h) :
    (d'.entries.rows.any fun r => decide (r.originalEntryID = some entryID)) =
      d.entries.rows.any fun r => decide (r.originalEntryID = some entryID) := by
  rw [Bool.eq_iff_iff, List.any_eq_true, List.any_eq_true]
  constructor
  · rintro ⟨r, hr, hRefers⟩
    rcases hAgree.entries.new r hr with hOld | hNew
    · exact ⟨r, hOld, hRefers⟩
    · have hLock : Lock.entry entryID ∈ h :=
        hNew (by simp [EntryRow.locks, of_decide_eq_true hRefers])
      exact absurd hLock hFree
  · rintro ⟨r, hr, hRefers⟩
    exact ⟨r, hAgree.entries.keeps r hr, hRefers⟩

/-- A statement whose locks are free is answered alike by two databases that differ only under
other locks. -/
theorem answer {s : Stmt} {r : s.Result} {δ : List Write} (hAgree : Agree h d d')
    (hEval : Db.eval jsonb s d = .ok (r, δ)) (hFree : ∀ l ∈ locks.needs s r, l ∉ h) :
    Db.eval jsonb s d' = .ok (r, δ) := by
  -- reads of committed rows see them on both sides; the other statements are covered by their
  -- locks
  cases s with
  | insertIdempotency row => exact answer_insertIdempotency hAgree hEval hFree
  | selectIdempotency scope =>
    obtain ⟨rfl, a, ha, hKey⟩ := evalSelectIdempotency_ok.mp hEval
    exact evalSelectIdempotency_ok.mpr ⟨rfl, a, hAgree.idempotency.keeps a ha, hKey⟩
  | updateIdempotency attemptID entryID response completedAt =>
    exact answer_updateIdempotency hAgree hEval hFree
  | upsertPosition merchantID now =>
    show d'.evalUpsertPosition merchantID now = _
    rw [Db.evalUpsertPosition, hAgree.positions merchantID (hFree _ List.mem_cons_self)]
    exact hEval
  | insertEntry row => exact answer_insertEntry hAgree hEval hFree
  | selectEntryForUpdate merchantID entryID =>
    obtain ⟨rfl, hr, hKey⟩ := evalSelectEntryForUpdate_ok.mp hEval
    exact evalSelectEntryForUpdate_ok.mpr ⟨rfl, hAgree.entries.keeps r hr, hKey⟩
  | existsReversal entryID =>
    rw [← hEval, Db.eval, Db.eval, answer_existsReversal hAgree (hFree _ List.mem_cons_self)]
  | insertOutbox row => exact answer_insertOutbox hAgree hEval hFree

/-! ### Writes keep the two sides together -/

/-- The position of a merchant after a row was put. -/
theorem position?_apply {row : PositionRow} {t : Table positionSchema}
    (hPut : d.putPosition row = .ok t) (m : UUID) :
    (d.apply (.position row)).position? m = if m = row.merchantID then some row else d.position? m := by
  rw [Db.apply, hPut]
  exact find?_putPosition hPut m

/-- A write that leaves the record's keys alone leaves its locks alone. -/
theorem complete_locks (attemptID entryID : UUID) (payload : Text) (completedAt : Int)
    (r : IdempotencyRow) :
    (if r.attemptID = attemptID then r.complete entryID payload completedAt else r).locks =
      r.locks := by
  split <;> rfl

/-- Statements that are answered alike leave databases that agree. -/
theorem agree_write {s : Stmt} {r : s.Result} {δ : List Write} (hAgree : Agree h d d')
    (hEval : Db.eval jsonb s d = .ok (r, δ)) (hEval' : Db.eval jsonb s d' = .ok (r, δ)) :
    Agree h ((engine jsonb).view d δ) ((engine jsonb).view d' δ) := by
  cases s with
  | insertIdempotency row =>
    rcases evalInsertIdempotency_ok.mp hEval with ⟨rfl, rfl, -⟩ | ⟨rfl, rfl, t, ht⟩
    · exact hAgree
    · obtain ⟨t', ht'⟩ : ∃ t', d'.idempotency.insert row = .ok t' := by
        -- the same answer on both sides, so that the same row is written
        rcases evalInsertIdempotency_ok.mp hEval' with ⟨hFalse, -⟩ | ⟨-, -, hInsert⟩
        · cases hFalse
        · exact hInsert
      refine { hAgree with idempotency := ?_ }
      simp only [view_one, Db.apply, orKeep_insert ht, orKeep_insert ht']
      exact hAgree.idempotency.insert ht ht'
  | selectIdempotency scope =>
    obtain ⟨rfl, -⟩ := evalSelectIdempotency_ok.mp hEval
    exact hAgree
  | updateIdempotency attemptID entryID response completedAt =>
    obtain ⟨payload, -, ⟨rfl, rfl, -⟩ | ⟨rfl, rfl, -⟩⟩ := evalUpdateIdempotency_ok.mp hEval
    · exact hAgree
    · obtain ⟨t, ht, hRows⟩ := completeRecord_ok d attemptID entryID payload completedAt
      obtain ⟨t', ht', hRows'⟩ := completeRecord_ok d' attemptID entryID payload completedAt
      refine { hAgree with idempotency := ?_ }
      simp only [view_one, Db.apply, ht, ht']
      refine hAgree.idempotency.map (fun r hr => ?_) hRows hRows'
      rw [complete_locks]
      exact hr
  | upsertPosition merchantID now =>
    obtain ⟨-, rfl, t, ht⟩ := evalUpsertPosition_ok hEval
    obtain ⟨-, -, t', ht'⟩ := evalUpsertPosition_ok hEval'
    refine { hAgree with positions := fun m hm => ?_ }
    rw [view_one, view_one, position?_apply ht, position?_apply ht', hAgree.positions m hm]
  | insertEntry row =>
    obtain ⟨rfl, ⟨t, ht⟩, -⟩ := evalInsertEntry_ok.mp hEval
    obtain ⟨-, ⟨t', ht'⟩, -⟩ := evalInsertEntry_ok.mp hEval'
    -- the same row goes into both tables
    refine { hAgree with entries := ?_ }
    simp only [view_one, Db.apply, orKeep_insert ht, orKeep_insert ht']
    exact hAgree.entries.insert ht ht'
  | selectEntryForUpdate merchantID entryID =>
    obtain ⟨rfl, -⟩ := evalSelectEntryForUpdate_ok.mp hEval
    exact hAgree
  | existsReversal entryID =>
    cases hEval
    exact hAgree
  | insertOutbox row =>
    obtain ⟨payload, hCast, rfl, ⟨t, ht⟩, -⟩ := evalInsertOutbox_ok.mp hEval
    obtain ⟨payload', hCast', -, ⟨t', ht'⟩, -⟩ := evalInsertOutbox_ok.mp hEval'
    rw [hCast] at hCast'
    cases hCast'
    refine { hAgree with outbox := ?_ }
    simp only [view_one, Db.apply, orKeep_insert ht, orKeep_insert ht']
    exact hAgree.outbox.insert ht ht'

/-! ### What a transaction writes is locked by it -/

/-- One statement of a transaction that began on a ledger without open records. -/
theorem agree_statement {s : Stmt} {r : s.Result} {δ : List Write}
    (hCompleted : ∀ a ∈ d.idempotency, a.completedAt ≠ none) (hAgree : Agree h d d')
    (hEval : Db.eval jsonb s d' = .ok (r, δ)) :
    Agree (h ++ locks.takes s r) d ((engine jsonb).view d' δ) := by
  -- a statement changes only what its locks cover
  have hMore := hAgree.mono (List.subset_append_left h (locks.takes s r))
  have hTaken : locks.takes s r ⊆ h ++ locks.takes s r := List.subset_append_right _ _
  cases s with
  | insertIdempotency row =>
    rcases evalInsertIdempotency_ok.mp hEval with ⟨rfl, rfl, -⟩ | ⟨rfl, rfl, t, ht⟩
    · exact hMore
    · refine { hMore with idempotency := ?_ }
      simp only [view_one, Db.apply, orKeep_insert ht]
      exact hMore.idempotency.insert_new ht hTaken
  | selectIdempotency scope =>
    obtain ⟨rfl, -⟩ := evalSelectIdempotency_ok.mp hEval
    exact hMore
  | updateIdempotency attemptID entryID response completedAt =>
    obtain ⟨payload, -, ⟨rfl, rfl, -⟩ | ⟨rfl, rfl, a, ha, hAttempt, hOpen, -⟩⟩ :=
      evalUpdateIdempotency_ok.mp hEval
    · exact hMore
    · obtain ⟨t, ht, hRows⟩ := completeRecord_ok d' attemptID entryID payload completedAt
      refine { hMore with idempotency := ?_ }
      simp only [view_one, Db.apply, ht]
      refine hMore.idempotency.map_new (fun b hb => if_neg fun hSame => ?_) (fun b hb => ?_) hRows
      · -- the record completed is open, those there before are not
        have hEq : b = a := Table.eq_of_clash (hAgree.idempotency.keeps b hb) ha
          (decide_eq_true (Or.inl (hSame.trans hAttempt.symm)))
        exact hCompleted b hb (hEq ▸ hOpen)
      · rw [complete_locks]
        exact hb
  | upsertPosition merchantID now =>
    obtain ⟨-, rfl, t, ht⟩ := evalUpsertPosition_ok hEval
    refine { hMore with positions := fun m hm => ?_ }
    have hOther : m ≠ merchantID := by
      rintro rfl
      exact hm (hTaken List.mem_cons_self)
    rw [view_one, position?_apply ht, if_neg hOther, hMore.positions m hm]
  | insertEntry row =>
    obtain ⟨rfl, ⟨t, ht⟩, -⟩ := evalInsertEntry_ok.mp hEval
    refine { hMore with entries := ?_ }
    simp only [view_one, Db.apply, orKeep_insert ht]
    exact hMore.entries.insert_new ht hTaken
  | selectEntryForUpdate merchantID entryID =>
    obtain ⟨rfl, -⟩ := evalSelectEntryForUpdate_ok.mp hEval
    exact hMore
  | existsReversal entryID =>
    cases hEval
    exact hMore
  | insertOutbox row =>
    obtain ⟨payload, -, rfl, ⟨t, ht⟩, -⟩ := evalInsertOutbox_ok.mp hEval
    refine { hMore with outbox := ?_ }
    simp only [view_one, Db.apply, orKeep_insert ht]
    exact hMore.outbox.insert_new ht hTaken

/-- A transaction under way differs from the committed database by the locks it holds. -/
theorem agree_replays {p q : Tx EntryResult} {writes : List Write} {held : List Lock}
    (hCompleted : ∀ a ∈ d.idempotency, a.completedAt ≠ none)
    (hReplays : Replays (engine jsonb) locks d p writes held q) :
    Agree held d ((engine jsonb).view d writes) := by
  induction hReplays with
  | refl => exact .refl _ _
  | step hBefore hEval hNeeds ih =>
    rw [Engine.view_append]
    exact agree_statement hCompleted ih hEval

end Frame

/-! ## Requests hold the locks they need -/

/-- Claiming a key takes the locks its answer depends on. -/
theorem safe_claimIdempotency (attempt : IdempotencyAttempt) :
    (claimIdempotency attempt).Safe locks := by
  refine .bind _ (.call _ fun _ _ hl => hl) fun claimed => ?_
  split
  · exact .lift _ _
  · exact .bind _ (.call _ fun _ _ hl => hl) fun _ => .lift _ _

/-- The row's lock is held before the ledger is searched for a reversal. -/
theorem safe_entryForUpdate (merchantID entryID : ID) :
    (entryForUpdate merchantID entryID).Safe locks := by
  intro held
  refine Prog.Guarded.bind _ fun row => Or.inr ⟨List.nil_subset _, ?_⟩
  refine Prog.Guarded.bind _ ?_
  cases (restoreEntry row).mapError (LedgerError.wrapped "lock ledger entry") with
  | error e => trivial
  | ok entry =>
    refine Prog.Guarded.bind _ fun reversed => Or.inr ⟨?_, ?_⟩
    · show [Lock.entry entryID.uuid] ⊆ (held ++ [Lock.entry entryID.uuid]) ++ []
      simp
    · cases reversed <;> trivial

/-- Where no row was updated the request fails. -/
theorem safe_completeIdempotency (attemptID entryID : ID) (response : Text) (completedAt : Int) :
    (completeIdempotency attemptID entryID response completedAt).Safe locks := by
  intro held updated
  cases updated with
  | false => exact Or.inl ⟨.attemptNotCompleted, rfl⟩
  | true => exact Or.inr ⟨List.subset_append_right _ _, trivial⟩

/-- The inserts of an entry and its event. -/
theorem safe_post (env : Env) (entry : Entry) (now : Int) (traceparent : Text) :
    Prog.Safe locks (do
      insertEntry entry
      insertOutbox env entry now traceparent
      pure (resultFromEntry entry) : Tx EntryResult) := by
  refine .bind _ (.call _ fun _ _ hl => hl) fun _ => .bind _ ?_ fun _ => .lift _ _
  exact .bind _ (.lift _ _) fun _ => .bind _ (.lift _ _) fun _ => .call _ fun _ _ hl => hl

/-- Creating an entry. -/
theorem safe_createTx (platform : Platform) (env : Env) (input : CreateEntryInput)
    (merchantID : ID) : (createTx platform env input merchantID).Safe locks := by
  refine .bind _ (.lift _ _) fun _ => .bind _ (.lift _ _) fun _ => .bind _ (.lift _ _) fun _ =>
    .bind _ (.lift _ _) fun _ => .bind _ (.lift _ _) fun _ => ?_
  refine .bind _ (.call _ fun _ _ hl => hl) fun _ => ?_
  exact .bind _ (.lift _ _) fun _ => .bind _ (.lift _ _) fun entry => safe_post env entry _ _

/-- Reversing one. -/
theorem safe_reverseTx (platform : Platform) (env : Env) (input : ReverseEntryInput)
    (merchantID originalID : ID) :
    (reverseTx platform env input merchantID originalID).Safe locks := by
  refine .bind _ (.lift _ _) fun _ => .bind _ (.lift _ _) fun _ =>
    .bind _ (safe_entryForUpdate _ _) fun original => ?_
  split
  · exact .lift _ _
  · refine .bind _ (.call _ fun _ _ hl => hl) fun _ => ?_
    exact .bind _ (.lift _ _) fun _ => .bind _ (.lift _ _) fun entry => safe_post env entry _ _

/-- Either body. -/
theorem safe_body {platform : Platform} {env : Env} {req : Request} {merchantID : ID}
    {create : Tx EntryResult} (h : req.body platform env merchantID = .ok create) :
    create.Safe locks := by
  cases req with
  | create input =>
    cases h
    exact safe_createTx platform env input merchantID
  | reverse input =>
    rw [Request.body, peel] at h
    obtain ⟨originalID, -, hTx⟩ := h
    cases hTx
    exact safe_reverseTx platform env input merchantID originalID

/-- The transactions requests run. -/
def OfRequest (platform : Platform) (tx : Tx EntryResult) : Prop :=
  ∃ env req attempt, Request.prepare platform env req = .ok (attempt, tx)

/-- And the request around it. -/
theorem safe_request {platform : Platform} {tx : Tx EntryResult} (h : OfRequest platform tx) :
    tx.Safe locks := by
  obtain ⟨env, req, attempt, hPrepare⟩ := h
  obtain ⟨-, create, hBody, rfl⟩ := prepare_ok hPrepare
  refine .bind _ (safe_claimIdempotency attempt) fun claim => ?_
  cases claim with
  | some record => exact .lift _ _
  | none =>
    refine .bind _ (safe_body hBody) fun _ => .bind _ (.lift _ _) fun _ => .bind _ (.lift _ _)
      fun _ => ?_
    exact .bind _ (safe_completeIdempotency _ _ _ _) fun _ => .lift _ _

/-! ## Every interleaving -/

/-- A transaction run alone posts an entry or changes nothing. -/
theorem reached_serial {platform : Platform} {d : Db}
    (h : Reachable ((engine platform.jsonb).Serial (OfRequest platform)) Db.empty d) :
    Reached platform d := by
  refine Reachable.invariant .start ?_ h
  rintro d d' hReached ⟨tx, result, ⟨env, req, attempt, hPrepare⟩, hExec⟩
  obtain ⟨hAttempts, create, hBody, rfl⟩ := prepare_ok hPrepare
  rcases idempotentTx_ok hBody hExec with ⟨rfl, -⟩ | ⟨p, rfl, -, hPosts, hMade, -⟩
  · exact hReached
  · exact hReached.next ⟨env, req, p, hAttempts, hPosts, hMade⟩

/-- The locks are enough for the requests of the ledger. -/
theorem frame (platform : Platform) :
    Frame (engine platform.jsonb) locks (OfRequest platform) Db.empty Agree where
  safe _ hTx := safe_request hTx
  answer hAgree hEval hFree := answer hAgree hEval hFree
  write hAgree hEval hEval' := agree_write hAgree hEval hEval'
  commit hSerial hReplays := by
    refine agree_replays (fun a ha hOpen => ?_) hReplays
    obtain ⟨-, -, -, -, -, hCompleted⟩ := (reached_booked (reached_serial hSerial)).completed ha
    rw [hOpen] at hCompleted
    cases hCompleted

/-- Transactions of requests in progress, over the ledger committed so far. -/
abbrev LedgerWorld := World Stmt Stmt.Result DbError LedgerError EntryResult Db Write Lock

/-- The worlds reached when any requests run, statement by statement, between
each other. -/
def Concurrent (platform : Platform) (w : LedgerWorld) : Prop :=
  Reachable (World.Step (engine platform.jsonb) locks (OfRequest platform)) (World.start Db.empty) w

/-- What is committed, requests made one after the other would have left too. -/
theorem committed_reached {platform : Platform} {w : LedgerWorld} (h : Concurrent platform w) :
    Reached platform w.db :=
  reached_serial ((frame platform).serializable h)

end Cashflow.Ledger
