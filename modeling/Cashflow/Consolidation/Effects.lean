import Cashflow.Consolidation.Store
import Cashflow.Lib.Machine

/-!
# Consolidation — what a call of the store can do

A call either leaves the tables alone, applies one new event, or recomputes
one block of a pending job. `exec_cases` says so once, with everything each of
the three writes; the invariants of the later modules are case analyses over
it.
-/

namespace Cashflow.Consolidation

open Lib

variable {env : Env} {s s' : Store} {event : EntryConfirmed}

/-! ## Peeling the statements -/

/-- No statement fails for a reason of its own, and the commit is acknowledged. -/
structure Env.Healthy (env : Env) : Prop where
  fault : ∀ statement, env.fault statement = false
  commit : env.commit = .committed

/-- In a healthy environment no statement fails. -/
theorem Env.Healthy.attempt (h : env.Healthy) (statement : Statement) (operation : String) :
    env.attempt statement operation = .ok () := by
  rw [Env.attempt, h.fault]
  rfl

/-- A statement succeeds when it does not fail. -/
theorem attempt_ok {statement : Statement} {operation : String} {u : Unit} :
    env.attempt statement operation = .ok u ↔ env.fault statement = false := by
  unfold Env.attempt
  cases env.fault statement <;> simp

/-- A result that is classified is the result. -/
theorem classified_ok {α : Type} {operation : String} {result : Except Violation α} {a : α} :
    classified operation result = .ok a ↔ result = .ok a :=
  mapError_ok

/-! ## One block of a job -/

/-- What recomputing the block of `job` writes. -/
structure BlockDone (job : Continuation) (attemptIncrement : Int) (s s' : Store) : Prop where
  inbox : s'.inbox = s.inbox
  receipts : s'.receipts = s.receipts
  progress : s'.progress = s.progress
  balances : s'.balances.rows =
    (materialize s.balances job.merchantID job.next job.blockThrough).rows.map
      (setClosing (materialize s.balances job.merchantID job.next job.blockThrough)
        job.merchantID job.next job.blockThrough)
  jobs : s'.jobs.rows = s.jobs.rows.map (advanceJob job attemptIncrement)

/-- What a block that succeeds has done. -/
theorem processRecomputeBlock_ok {job : Continuation} {inc : Bool} {r : RecomputeResult}
    (h : processRecomputeBlock env s job inc = .ok (r, s')) :
    BlockDone job (if inc then 1 else 0) s s' := by
  simp only [processRecomputeBlock, peel, attempt_ok, classified_ok, Except.ok.injEq,
    Prod.mk.injEq] at h
  obtain ⟨_, _, _, _, balances, hBalances, _, _, jobs, hJobs, _, rfl⟩ := h
  exact ⟨rfl, rfl, rfl, (Table.update_eq_ok.mp hBalances).2, (Table.update_eq_ok.mp hJobs).2⟩

/-! ## A new event -/

/-- The job `Apply` creates for a new event. -/
def newJob (env : Env) (event : EntryConfirmed) (through : Int) : RecomputeJob :=
  ⟨env.jobID, event.eventID, event.merchantID, event.businessDate, through,
    some event.businessDate, .pending, 1⟩

def newContinuation (env : Env) (event : EntryConfirmed) (through : Int) : Continuation :=
  ⟨env.jobID, event.merchantID, through, event.businessDate⟩

/-- What applying a new event writes: the inbox row and the receipt, the totals
of its day, a job whose first block is recomputed at once, and the progress. -/
structure Applied (env : Env) (event : EntryConfirmed) (s s' : Store) : Prop where
  free : s.inbox.conflicts (InboxEvent.of event) = false
  inbox : s'.inbox.rows = s.inbox.rows ++ [InboxEvent.of event]
  receipts : s'.receipts.rows = s.receipts.rows ++ [event.receipt]
  block : ∃ mid through, upsertBalance s.balances event = .ok mid.balances ∧
    maxBusinessDate mid.balances event.merchantID = some through ∧
    mid.jobs.rows = s.jobs.rows ++ [newJob env event through] ∧
    ∃ done, BlockDone (newContinuation env event through) 0 mid done ∧
      s'.balances = done.balances ∧ s'.jobs = done.jobs
  progress : ∃ row ∈ progressFor s event.merchantID env.now, row.merchantID = event.merchantID ∧
    s'.progress.rows = (progressFor s event.merchantID env.now).rows.map
      (setProgress (advanced s'.receipts event env.now row))

/-- A receipt is appended. -/
theorem insertReceipt_ok (h : insertReceipt env s event = .ok s') : ∃ receipts,
    s' = { s with receipts } ∧ receipts.rows = s.receipts.rows ++ [event.receipt] := by
  simp only [insertReceipt, peel, attempt_ok, classified_ok, Except.ok.injEq] at h
  obtain ⟨_, _, receipts, hInsert, rfl⟩ := h
  exact ⟨receipts, rfl, (Table.insert_eq_ok.mp hInsert).2.2⟩

/-- The totals are upserted. -/
theorem updateTotals_ok (h : updateTotals env s event = .ok s') : ∃ balances,
    s' = { s with balances } ∧ upsertBalance s.balances event = .ok balances := by
  simp only [updateTotals, peel, attempt_ok, classified_ok, Except.ok.injEq] at h
  obtain ⟨_, _, balances, hUpsert, rfl⟩ := h
  exact ⟨balances, rfl, hUpsert⟩

/-- The merchant's progress row is advanced over the receipts. -/
theorem advanceProgress_ok {r : ProjectionResult} (h : advanceProgress env s event = .ok (r, s')) :
    ∃ row ∈ s.progress, row.merchantID = event.merchantID ∧ ∃ progress,
      s' = { s with progress } ∧ r.duplicate = false ∧
      progress.rows = s.progress.rows.map (setProgress (advanced s.receipts event env.now row)) := by
  simp only [advanceProgress, peel, attempt_ok] at h
  obtain ⟨_, _, h⟩ := h
  split at h
  · cases h
  · rename_i row hRow
    obtain ⟨hMem, hKey⟩ := Table.find?_some hRow
    simp only [peel, attempt_ok, mapError_ok, Except.ok.injEq, Prod.mk.injEq] at h
    obtain ⟨_, _, _, _, progress, hUpdate, rfl, rfl⟩ := h
    exact ⟨row, hMem, beq_iff_eq.mp hKey, progress, rfl, rfl, (Table.update_eq_ok.mp hUpdate).2⟩

/-- An event is inserted exactly if its keys are free. -/
theorem insertInbox_ok {inserted : Bool} (h : insertInbox env s event = .ok (inserted, s')) :
    inserted = !s.inbox.conflicts (InboxEvent.of event) ∧ ∃ hCheck,
      s' = { s with inbox := s.inbox.insertOrIgnore (InboxEvent.of event) hCheck } := by
  simp only [insertInbox, peel, attempt_ok] at h
  obtain ⟨_, _, h⟩ := h
  split at h
  · rename_i hCheck
    cases h
    exact ⟨rfl, hCheck, rfl⟩
  · cases h

/-- The part of the transaction after the inbox accepted the event. -/
theorem applyNew_ok {r : ProjectionResult} {s₀ : Store} {inbox : Table inboxSchema}
    (hFree : s₀.inbox.conflicts (InboxEvent.of event) = false)
    (hInbox : inbox.rows = s₀.inbox.rows ++ [InboxEvent.of event])
    (h : applyNew env
      { s₀ with progress := progressFor s₀ event.merchantID env.now, inbox := inbox } event =
        .ok (r, s')) :
    r.duplicate = false ∧ Applied env event s₀ s' := by
  simp only [applyNew, peel] at h
  obtain ⟨s₁, hReceipt, s₂, hTotals, h⟩ := h
  obtain ⟨receipts, rfl, hReceipts⟩ := insertReceipt_ok hReceipt
  obtain ⟨balances, rfl, hUpsert⟩ := updateTotals_ok hTotals
  -- the date was formatted by the code itself, so it parses to itself
  split at h
  · cases h
  rename_i first hFirst
  cases eq_of_parseDate_formatDate hFirst
  simp only [peel, attempt_ok] at h
  obtain ⟨_, _, h⟩ := h
  split at h
  · cases h
  rename_i through hThrough
  simp only [peel, attempt_ok, classified_ok] at h
  -- from here on: the job, its first block, the progress, the pending flag
  obtain ⟨_, _, jobs, hJobs, ⟨recompute, s₃⟩, hBlock, ⟨result, s₄⟩, hAdvance, pending, _, h⟩ := h
  simp only [Except.ok.injEq, Prod.mk.injEq] at h
  obtain ⟨rfl, rfl⟩ := h
  have hDone := processRecomputeBlock_ok hBlock
  obtain ⟨row, hRow, hKey, progress, rfl, hDuplicate, hProgress⟩ := advanceProgress_ok hAdvance
  rw [hDone.progress] at hRow hProgress
  refine ⟨hDuplicate, hFree, ?_, ?_, ?_, row, hRow, hKey, hProgress⟩
  · rw [← hInbox]
    exact congrArg Table.rows hDone.inbox
  · rw [← hReceipts]
    exact congrArg Table.rows hDone.receipts
  · exact ⟨_, through, hUpsert, hThrough, (Table.insert_eq_ok.mp hJobs).2.2, _, hDone, rfl, rfl⟩

/-! ## The transaction of `Apply` -/

/-- The inbox holds the event: same merchant, position and fingerprint. -/
structure Persisted (s : Store) (event : EntryConfirmed) (row : InboxEvent) : Prop where
  mem : row ∈ s.inbox
  merchantID : row.event.merchantID = event.merchantID
  merchantPosition : row.event.merchantPosition = event.merchantPosition
  fingerprint : row.payloadFingerprint = event.fingerprint

/-- The row found for a duplicate is one of the inbox. -/
theorem persistedRow_mem {row : InboxEvent} (h : persistedRow s event = some row) :
    row ∈ s.inbox := by
  rcases Option.or_eq_some_iff.mp h with h | ⟨-, h⟩
  · exact (Table.find?_some h).1
  · exact (Table.find?_some h).1

/-- A duplicate has a stored row of the same content. -/
theorem resolveDuplicate_ok {r : ProjectionResult} (h : resolveDuplicate env s event = .ok r) :
    r.duplicate = true ∧ ∃ row, Persisted s event row := by
  simp only [resolveDuplicate, peel, attempt_ok] at h
  obtain ⟨_, _, h⟩ := h
  split at h
  · cases h
  · rename_i row hRow
    split at h
    · cases h
    · rename_i hSame
      simp only [Bool.or_eq_true, bne_iff_ne, not_or, not_not] at hSame
      simp only [peel, Except.ok.injEq] at h
      obtain ⟨_, _, _, _, rfl⟩ := h
      exact ⟨rfl, row, persistedRow_mem hRow, hSame.1.1, hSame.1.2, hSame.2⟩

/-- A transaction of `Apply` that reaches its commit either found the event in
the inbox or applied it. -/
theorem applyTx_ok {r : ProjectionResult} (h : applyTx env s event = .ok (r, s')) :
    event.Valid ∧
      ((r.duplicate = true ∧ (∃ row, Persisted s event.canonical row) ∧
          s' = { s with progress := progressFor s event.canonical.merchantID env.now }) ∨
        (r.duplicate = false ∧ Applied env event.canonical s s')) := by
  simp only [applyTx, peel, attempt_ok, mapError_ok] at h
  obtain ⟨_, hValid, _, _, _, _, s₁, hInit, ⟨inserted, s₂⟩, hInbox, h⟩ := h
  refine ⟨(validate_iff event).mp hValid, ?_⟩
  simp only [initializeProgress, peel, attempt_ok, Except.ok.injEq] at hInit
  obtain ⟨_, _, rfl⟩ := hInit
  obtain ⟨rfl, hCheck, rfl⟩ := insertInbox_ok hInbox
  cases hConflict : s.inbox.conflicts (InboxEvent.of event.canonical) with
  | false =>
    -- new
    simp only [hConflict, Bool.not_false, if_true] at h
    exact .inr (applyNew_ok hConflict (Table.rows_insertOrIgnore_of_free hConflict) h)
  | true =>
    -- its keys are taken
    simp only [hConflict, Bool.not_true, Bool.false_eq_true, if_false, peel, Except.ok.injEq,
      Prod.mk.injEq, Table.insertOrIgnore_of_conflict hConflict] at h
    obtain ⟨result, hResolve, rfl, rfl⟩ := h
    obtain ⟨hDuplicate, row, hRow⟩ := resolveDuplicate_ok hResolve
    exact .inl ⟨hDuplicate, ⟨row, hRow.mem, hRow.merchantID, hRow.merchantPosition,
      hRow.fingerprint⟩, rfl⟩

/-! ## The transaction of `ResumeNext` -/

/-- The block a pending job is at. -/
structure JobAt (s : Store) (job : RecomputeJob) (next : Int) : Prop where
  mem : job ∈ s.jobs
  status : job.status = .pending
  nextDate : job.nextDate = some next

def RecomputeJob.continuation (job : RecomputeJob) (next : Int) : Continuation :=
  ⟨job.id, job.merchantID, job.throughDate, next⟩

/-- The job to resume is a pending one of the merchant. -/
theorem nextJob_mem {merchantID : Text} {job : RecomputeJob}
    (h : nextJob s merchantID = some job) :
    job ∈ s.jobs ∧ job.merchantID = merchantID ∧ job.status = .pending := by
  have hMem := List.mem_filter.mp (List.argmin_mem h)
  simp only [Bool.and_eq_true, beq_iff_eq] at hMem
  exact hMem

/-- Resuming advances a pending job by one block, or finds none. -/
theorem resumeNextTx_ok {merchantID : Text} {r : RecomputeResult}
    (h : resumeNextTx env s merchantID = .ok (r, s')) :
    s' = s ∨ ∃ job next, JobAt s job next ∧ BlockDone (job.continuation next) 1 s s' := by
  simp only [resumeNextTx, peel, attempt_ok] at h
  obtain ⟨_, _, _, _, _, _, h⟩ := h
  split at h
  · cases h
  split at h
  · cases h
    exact .inl rfl
  rename_i job hJob
  obtain ⟨hMem, -, hStatus⟩ := nextJob_mem hJob
  split at h
  · cases h
  rename_i next hNext
  exact .inr ⟨job, next, ⟨hMem, hStatus, hNext⟩, processRecomputeBlock_ok h⟩

/-! ## A call -/

/-- What a commit leaves: the tables of before, or those of the transaction. -/
theorem commit_snd {α : Type} (env : Env) (s : Store) (operation : α → String)
    (outcome : Except StoreError (α × Store)) :
    (commit env s operation outcome).2 = s ∨
      ∃ r s', outcome = .ok (r, s') ∧ (commit env s operation outcome).2 = s' := by
  unfold commit
  cases outcome with
  | error e => exact .inl rfl
  | ok p =>
    cases env.commit with
    | committed => exact .inr ⟨p.1, p.2, rfl, rfl⟩
    | rolledBack => exact .inl rfl
    | unacknowledged => exact .inr ⟨p.1, p.2, rfl, rfl⟩

/-- A rejected transaction leaves every table as it was. -/
theorem apply_of_error {error : StoreError} (h : applyTx env s event = .error error) :
    apply env s event = (.error error, s) := by
  rw [apply, h, commit]

/-- What is reported is the transaction's result, whatever became of the commit. -/
theorem apply_of_ok {r : ProjectionResult} (h : applyTx env s event = .ok (r, s')) :
    ((apply env s event).2 = s ∨ (apply env s event).2 = s') ∧
      ∀ r', (apply env s event).1 = .ok r' → r' = r := by
  rw [apply, h, commit]
  cases env.commit with
  | committed => exact ⟨.inr rfl, fun r' hr' => (Except.ok.inj hr').symm⟩
  | rolledBack => exact ⟨.inl rfl, fun r' hr' => by cases hr'⟩
  | unacknowledged => exact ⟨.inr rfl, fun r' hr' => by cases hr'⟩

/-- Every merchant with an event in the inbox has a progress row. -/
def Store.Tracked (s : Store) : Prop :=
  ∀ r ∈ s.inbox, ∃ p ∈ s.progress, p.merchantID = r.event.merchantID

/-- A merchant that has a progress row keeps it. -/
theorem progressFor_of_mem {p : MerchantProgress} (hp : p ∈ s.progress) (now : Int) :
    progressFor s p.merchantID now = s.progress :=
  Table.insertOrIgnore_of_conflict
    (Table.conflicts_eq_true.mpr ⟨p, hp, beq_self_eq_true p.merchantID⟩)

/-- What a call can do. -/
theorem exec_cases (hTracked : s.Tracked) (c : Call) :
    s.exec c = s ∨
    (∃ env event, c = .apply env event ∧ event.Valid ∧
      Applied env event.canonical s (s.exec c)) ∨
    (∃ job next, JobAt s job next ∧ BlockDone (job.continuation next) 1 s (s.exec c)) := by
  cases c with
  | apply env event =>
    rcases commit_snd env s _ (applyTx env s event) with h | ⟨r, s', hTx, h⟩
    · -- rolled back
      exact .inl h
    · rw [Store.exec, apply, h]
      obtain ⟨hValid, ⟨-, ⟨row, hRow⟩, rfl⟩ | ⟨-, hApplied⟩⟩ := applyTx_ok hTx
      · -- the merchant of a stored event has its progress row already
        obtain ⟨p, hp, hKey⟩ := hTracked row hRow.mem
        rw [hRow.merchantID] at hKey
        rw [← hKey, progressFor_of_mem hp]
        exact .inl rfl
      · exact .inr (.inl ⟨env, event, rfl, hValid, hApplied⟩)
  | resumeNext env merchantID =>
    rcases commit_snd env s _ (resumeNextTx env s merchantID) with h | ⟨r, s', hTx, h⟩
    · exact .inl h
    · rw [Store.exec, resumeNext, h]
      rcases resumeNextTx_ok hTx with rfl | hBlock
      · exact .inl rfl
      · exact .inr (.inr hBlock)

/-- An applied event is in the inbox, with those of before. -/
theorem Applied.mem_inbox (h : Applied env event s s') {r : InboxEvent} :
    r ∈ s'.inbox ↔ r ∈ s.inbox ∨ r = InboxEvent.of event := by
  rw [Table.mem_def, h.inbox, List.mem_append, List.mem_singleton, Table.mem_def]

/-- No merchant loses its progress row. -/
theorem setProgress_mem (row : MerchantProgress) {p : MerchantProgress}
    {rows : List MerchantProgress} (hp : p ∈ rows) :
    ∃ q ∈ rows.map (setProgress row), q.merchantID = p.merchantID :=
  ⟨setProgress row p, List.mem_map_of_mem hp, setProgress_key row p⟩

/-- Every call leaves a progress row to each merchant with events. -/
theorem exec_tracked (hTracked : s.Tracked) (c : Call) : (s.exec c).Tracked := by
  rcases exec_cases hTracked c with h | ⟨env, event, -, -, h⟩ | ⟨job, next, -, h⟩
  · -- nothing changed
    rw [h]
    exact hTracked
  · obtain ⟨row, hRow, hKey, hProgress⟩ := h.progress
    intro r hr
    -- the progress table only gains rows, and the event's own merchant has one
    obtain ⟨p, hp, hpKey⟩ : ∃ p ∈ progressFor s event.canonical.merchantID env.now,
        p.merchantID = r.event.merchantID := by
      rcases h.mem_inbox.mp hr with hr | rfl
      · obtain ⟨p, hp, hpKey⟩ := hTracked r hr
        exact ⟨p, Table.mem_insertOrIgnore.mpr (.inl hp), hpKey⟩
      · exact ⟨row, hRow, hKey⟩
    obtain ⟨q, hq, hqKey⟩ := setProgress_mem _ hp
    exact ⟨q, by rw [Table.mem_def, hProgress]; exact hq, hqKey.trans hpKey⟩
  · intro r hr
    rw [h.inbox] at hr
    rw [h.progress]
    exact hTracked r hr

/-! ## Runs -/

/-- The tables after a run from the freshly migrated database. -/
def Store.after (calls : List Call) : Store := run Store.exec Store.empty calls

/-- And so does every run. -/
theorem after_tracked (calls : List Call) : (Store.after calls).Tracked :=
  run_invariant' Store.Tracked (fun _ c hTracked => exec_tracked hTracked c) calls Store.empty
    fun r hr => absurd hr (Table.not_mem_empty r)

/-- The invariant rule for runs of the store: it is enough to look at a new
event and at a block of a pending job, in a call that meets the guard. -/
theorem after_invariant (Inv : Store → Prop) (guard : Store → Call → Prop)
    (hEmpty : Inv Store.empty)
    (hApplied : ∀ {s s' env event}, Inv s → event.Valid → guard s (.apply env event) →
      Applied env event.canonical s s' → Inv s')
    (hBlock : ∀ {s s' job next}, Inv s → JobAt s job next →
      BlockDone (job.continuation next) 1 s s' → Inv s')
    (calls : List Call) (hAlong : Along Store.exec guard Store.empty calls) :
    Inv (Store.after calls) := by
  have hBoth : Inv (Store.after calls) ∧ (Store.after calls).Tracked := by
    refine run_invariant (fun s => Inv s ∧ s.Tracked) guard ?_ calls Store.empty
      ⟨hEmpty, fun r hr => absurd hr (Table.not_mem_empty r)⟩ hAlong
    intro s c hInv hGuard
    refine ⟨?_, exec_tracked hInv.2 c⟩
    rcases exec_cases hInv.2 c with h | ⟨env, event, rfl, hValid, h⟩ | ⟨job, next, hAt, h⟩
    · rw [h]
      exact hInv.1
    · exact hApplied hInv.1 hValid hGuard h
    · exact hBlock hInv.1 hAt h
  exact hBoth.1

end Cashflow.Consolidation
