import Cashflow.Consolidation.Fingerprint
import Cashflow.Lib.Contiguous
import Cashflow.Lib.RunningBalance
import Cashflow.Lib.Table
import Cashflow.Lib.Transaction
import Cashflow.Lib.Uuid
import Mathlib.Data.List.MinMax
import Mathlib.Data.Prod.Lex
import Mathlib.Order.ConditionallyCompleteLattice.Basic

/-!
# Consolidation — the projection store

The tables of `services/consolidation/migrations` and the transactions of
`services/consolidation/internal/adapters/outbound/postgres/store.go`: `Apply`
and `ResumeNext`, statement by statement.

Each transaction is one step on the tables. What the database decides is an
input (`Env`): the identity handed to a new job, the clock, which statement
fails for a reason outside the model, and how the commit ends. A statement
that fails rolls the transaction back; a commit whose acknowledgement is lost
reports an error although its writes stay.

Audit columns that no modelled statement reads (`received_at`, `gap_detected_at`,
`started_at`, `completed_at`, `last_error_code` and the `updated_at` of a balance)
are left out; the `version` of a balance is kept, because `version + 1` reads it and
may leave the range of its column.
-/

namespace Cashflow.Consolidation

open Lib

/-! ## The tables -/

/-- A value a `BIGINT` column can hold. -/
def isBigint (n : Int) : Bool :=
  decide (-9223372036854775808 ≤ n) && decide (n ≤ 9223372036854775807)

/-- A row of `inbox_event`: the columns of the event and its fingerprint. -/
structure InboxEvent where
  event : EntryConfirmed
  payloadFingerprint : Text
deriving DecidableEq, Repr

/-- A `TIMESTAMPTZ` keeps whole microseconds. -/
def microseconds (t : Int) : Int := t / 1000 * 1000

/-- The row `insertInbox` writes for an event. -/
def InboxEvent.of (e : EntryConfirmed) : InboxEvent where
  event :=
    { e with occurredAt := microseconds e.occurredAt, confirmedAt := microseconds e.confirmedAt }
  payloadFingerprint := e.fingerprint

def inboxSchema : Schema InboxEvent where
  -- the `CHECK` constraints of the table
  check r :=
    r.event.eventType == entryConfirmedV1 &&
      matchesAll (List.replicate 64 isLowerHex) r.payloadFingerprint &&
      decide (0 < r.event.merchantPosition) &&
      (r.event.entryType == entryCredit || r.event.entryType == entryDebit) &&
      decide (0 < r.event.amountMinor) && r.event.currency == currencyBRL
  -- its primary key, and the key of a merchant's positions
  clash a b :=
    a.event.eventID == b.event.eventID ||
      (a.event.merchantID == b.event.merchantID &&
        a.event.merchantPosition == b.event.merchantPosition)
  symm a b := by
    simp only [BEq.comm (a := a.event.eventID), BEq.comm (a := a.event.merchantID),
      BEq.comm (a := a.event.merchantPosition)]

structure PositionReceipt where
  merchantID : Text
  position : Int64
  eventID : Text
deriving DecidableEq, Repr

def EntryConfirmed.receipt (e : EntryConfirmed) : PositionReceipt :=
  ⟨e.merchantID, e.merchantPosition, e.eventID⟩

def receiptSchema : Schema PositionReceipt where
  check r := decide (0 < r.position)
  clash a b :=
    (a.merchantID == b.merchantID && a.position == b.position) || a.eventID == b.eventID
  symm a b := by
    simp only [BEq.comm (a := a.eventID), BEq.comm (a := a.merchantID), BEq.comm (a := a.position)]

structure DailyBalance where
  merchantID : Text
  businessDate : Int
  creditsMinor : Int
  debitsMinor : Int
  netMinor : Int
  entryCount : Int
  closingBalanceMinor : Int
  version : Int
deriving DecidableEq, Repr

def balanceSchema : Schema DailyBalance where
  check r :=
    decide (0 ≤ r.creditsMinor) && decide (0 ≤ r.debitsMinor) && decide (0 ≤ r.entryCount) &&
      -- the net is stored beside what it comes from
      decide (r.netMinor = r.creditsMinor - r.debitsMinor) &&
      isBigint r.creditsMinor && isBigint r.debitsMinor && isBigint r.netMinor &&
      isBigint r.entryCount && isBigint r.closingBalanceMinor &&
      decide (0 < r.version) && isBigint r.version
  clash a b := a.merchantID == b.merchantID && a.businessDate == b.businessDate
  symm a b := by
    simp only [BEq.comm (a := a.merchantID), BEq.comm (a := a.businessDate)]

/-- A row of `merchant_progress`. A `CHECK` that evaluates to NULL passes, so
the constraint on `first_gap` says nothing when it is NULL. -/
structure MerchantProgress where
  merchantID : Text
  sourcePosition : Int
  appliedPosition : Int
  firstGap : Option Int
  updatedAt : Int
deriving DecidableEq, Repr

def progressSchema : Schema MerchantProgress where
  check r :=
    decide (0 ≤ r.sourcePosition) && decide (0 ≤ r.appliedPosition) &&
      r.firstGap.all (fun g => decide (0 < g)) &&
      decide (r.appliedPosition ≤ r.sourcePosition) &&
      r.firstGap.all (fun g => g == r.appliedPosition + 1)
  clash a b := a.merchantID == b.merchantID
  symm a b := by simp only [BEq.comm (a := a.merchantID)]

inductive JobStatus
  | pending
  | running
  | completed
  | failed
deriving DecidableEq, Repr

structure RecomputeJob where
  id : Int
  eventID : Text
  merchantID : Text
  fromDate : Int
  throughDate : Int
  nextDate : Option Int
  status : JobStatus
  attempts : Int
deriving DecidableEq, Repr

/-- The statuses `readPendingRecompute` looks for. -/
def RecomputeJob.isPending (j : RecomputeJob) : Bool :=
  j.status == .pending || j.status == .running

def jobSchema : Schema RecomputeJob where
  check j :=
    decide (j.fromDate ≤ j.throughDate) && decide (0 < j.attempts) &&
      decide (j.attempts ≤ 2147483647) &&
      (if j.isPending then
        j.nextDate.all fun d => decide (j.fromDate ≤ d) && decide (d ≤ j.throughDate)
      else j.nextDate == none)
  clash a b := a.id == b.id
  symm a b := by simp only [BEq.comm (a := a.id)]

/-- The tables of the consolidation schema that the projection writes. -/
structure Store where
  inbox : Table inboxSchema
  receipts : Table receiptSchema
  balances : Table balanceSchema
  progress : Table progressSchema
  jobs : Table jobSchema
deriving DecidableEq

/-- The freshly migrated database. -/
def Store.empty : Store := ⟨Table.empty, Table.empty, Table.empty, Table.empty, Table.empty⟩

/-! ## What a call returns -/

inductive StoreError
  | validation (error : ValidationError)
  | conflict (reason : String)
  | persistence (operation : String)
deriving DecidableEq, Repr

structure ProjectionResult where
  duplicate : Bool := false
  sourcePosition : Int := 0
  appliedPosition : Int := 0
  firstGap : Option Int := none
  recomputedFrom : Int := zeroDate
  recomputedThrough : Int := zeroDate
  recomputePending : Bool := false
deriving DecidableEq, Repr

structure RecomputeResult where
  processed : Bool := false
  jobID : Int := 0
  merchantID : Text := []
  fromDate : Int := zeroDate
  throughDate : Int := zeroDate
  pending : Bool := false
deriving DecidableEq, Repr

/-- The codes of a broken constraint (22003, 23505, 23514) are all conflicts. -/
def classifyPersistenceError (operation : String) (_ : Violation) : StoreError :=
  .conflict (operation ++ " violates a financial invariant")

/-! ## The environment of a transaction -/

/-- The statements of the two transactions. -/
inductive Statement
  | begin
  | lockMerchant
  | initializeProgress
  | insertInbox
  | resolveDuplicate
  | insertReceipt
  | updateTotals
  | findRange
  | createJob
  | materialize
  | recompute
  | advanceJob
  | readForAdvance
  | contiguous
  | persistProgress
  | readProgress
  | readPending
  | selectJob
deriving DecidableEq, Repr

/-- What the database decides in one transaction. -/
structure Env where
  fault : Statement → Bool
  jobID : Int
  now : Int
  commit : CommitOutcome

/-- A statement that may fail, with the text its error is wrapped in. -/
def Env.attempt (env : Env) (statement : Statement) (operation : String) :
    Except StoreError Unit :=
  if env.fault statement then .error (.persistence operation) else .ok ()

/-- A statement whose broken constraints are classified. -/
def classified {α : Type} (operation : String) (result : Except Violation α) :
    Except StoreError α :=
  result.mapError (classifyPersistenceError operation)

/-! ## The statements -/

/-- The rows of a merchant. -/
def merchantRows (balances : Table balanceSchema) (merchantID : Text) : List DailyBalance :=
  balances.rows.filter (·.merchantID == merchantID)

def onDay (merchantID : Text) (date : Int) (r : DailyBalance) : Bool :=
  r.merchantID == merchantID && r.businessDate == date

def initialProgress (merchantID : Text) (now : Int) : MerchantProgress :=
  ⟨merchantID, 0, 0, none, now⟩

/-- The first progress row of a merchant passes the checks. -/
theorem initialProgress_check (merchantID : Text) (now : Int) :
    progressSchema.check (initialProgress merchantID now) = true := rfl

/-- The progress table with a row for the merchant. -/
def progressFor (s : Store) (merchantID : Text) (now : Int) : Table progressSchema :=
  s.progress.insertOrIgnore (initialProgress merchantID now) (initialProgress_check merchantID now)

/-- Initialize the merchant's progress unless it exists. -/
def initializeProgress (env : Env) (s : Store) (merchantID : Text) : Except StoreError Store := do
  env.attempt .initializeProgress "initialize merchant progress"
  .ok { s with progress := progressFor s merchantID env.now }

/-- Record the event in the inbox; `false` when a unique key was taken. -/
def insertInbox (env : Env) (s : Store) (event : EntryConfirmed) :
    Except StoreError (Bool × Store) := do
  env.attempt .insertInbox "record inbox event"
  -- `ON CONFLICT DO NOTHING` gives way to a taken key, not to a failed check
  if h : inboxSchema.check (InboxEvent.of event) = true then
    .ok (!s.inbox.conflicts (InboxEvent.of event),
      { s with inbox := s.inbox.insertOrIgnore (InboxEvent.of event) h })
  else .error (classifyPersistenceError "record inbox event" .check)

def readProgress (env : Env) (s : Store) (merchantID : Text) :
    Except StoreError MerchantProgress := do
  env.attempt .readProgress "read merchant progress"
  match s.progress.find? (·.merchantID == merchantID) with
  | some row => .ok row
  | none => .error (.persistence "read merchant progress")

def hasPendingJob (s : Store) (merchantID : Text) : Bool :=
  s.jobs.rows.any fun j => j.merchantID == merchantID && j.isPending

def readPendingRecompute (env : Env) (s : Store) (merchantID : Text) : Except StoreError Bool := do
  env.attempt .readPending "read recompute pending state"
  .ok (hasPendingJob s merchantID)

/-- The row with the event's id if there is one, else the row at its position. -/
def persistedRow (s : Store) (event : EntryConfirmed) : Option InboxEvent :=
  (s.inbox.find? fun r => r.event.eventID == event.eventID).or
    (s.inbox.find? fun r => r.event.merchantID == event.merchantID &&
      r.event.merchantPosition == event.merchantPosition)

def reusedContent : String := "event_id or merchant position was reused with different content"

def resolveDuplicate (env : Env) (s : Store) (event : EntryConfirmed) :
    Except StoreError ProjectionResult := do
  env.attempt .resolveDuplicate "resolve inbox uniqueness conflict"
  match persistedRow s event with
  | none => .error (.persistence "resolve inbox uniqueness conflict")
  | some row =>
    -- a key of the event is taken, by this event or by another one
    if row.event.merchantID != event.merchantID ||
        row.event.merchantPosition != event.merchantPosition ||
        row.payloadFingerprint != event.fingerprint then
      .error (.conflict reusedContent)
    else do
      let progress ← readProgress env s event.merchantID
      let pending ← readPendingRecompute env s event.merchantID
      .ok { duplicate := true, sourcePosition := progress.sourcePosition,
            appliedPosition := progress.appliedPosition, firstGap := progress.firstGap,
            recomputePending := pending }

def insertReceipt (env : Env) (s : Store) (event : EntryConfirmed) : Except StoreError Store := do
  env.attempt .insertReceipt "record merchant position"
  let receipts ← classified "record merchant position"
    (s.receipts.insert event.receipt)
  .ok { s with receipts }

/-- Add the event's effect to the row of its day. -/
def addEffect (event : EntryConfirmed) (r : DailyBalance) : DailyBalance :=
  if onDay event.merchantID event.businessDate r then
    { r with
      creditsMinor := r.creditsMinor + event.financialEffect.creditsMinor
      debitsMinor := r.debitsMinor + event.financialEffect.debitsMinor
      netMinor := r.netMinor + event.financialEffect.netMinor
      entryCount := r.entryCount + 1
      version := r.version + 1 }
  else r

/-- The row `INSERT` would write for the event's day. -/
def firstBalance (event : EntryConfirmed) : DailyBalance :=
  let effect := event.financialEffect
  ⟨event.merchantID, event.businessDate, effect.creditsMinor, effect.debitsMinor,
    effect.netMinor, 1, effect.netMinor, 1⟩

/-- Adding an effect keeps merchant and day. -/
theorem addEffect_key (event : EntryConfirmed) (r : DailyBalance) :
    (addEffect event r).merchantID = r.merchantID ∧
      (addEffect event r).businessDate = r.businessDate := by
  unfold addEffect
  split <;> exact ⟨rfl, rfl⟩

/-- The statement `INSERT … ON CONFLICT (merchant_id, business_date) DO UPDATE`. -/
def upsertBalance (balances : Table balanceSchema) (event : EntryConfirmed) :
    Except Violation (Table balanceSchema) :=
  if balances.rows.any (onDay event.merchantID event.businessDate) then
    balances.update (addEffect event) fun a b => by
      simp only [balanceSchema, addEffect_key]
  else balances.insert (firstBalance event)

def updateTotals (env : Env) (s : Store) (event : EntryConfirmed) : Except StoreError Store := do
  env.attempt .updateTotals "update daily totals"
  let balances ← classified "update daily totals" (upsertBalance s.balances event)
  .ok { s with balances }

/-! ## Recomputing closing balances -/

def maxRecomputeSpanDays : Int := 31

def zeroBalance (merchantID : Text) (date : Int) : DailyBalance :=
  ⟨merchantID, date, 0, 0, 0, 0, 0, 1⟩

/-- An empty balance row passes the checks. -/
theorem zeroBalance_check (merchantID : Text) (date : Int) :
    balanceSchema.check (zeroBalance merchantID date) = true := rfl

/-- The days from `first` through `last`, as `generate_series` lists them. -/
def days (first last : Int) : List Int :=
  (List.range (last - first + 1).toNat).map fun i : Nat => first + i

/-- A row for every day of the block. -/
def materialize (balances : Table balanceSchema) (merchantID : Text) (first last : Int) :
    Table balanceSchema :=
  (days first last).foldl (fun t d =>
    t.insertOrIgnore (zeroBalance merchantID d) (zeroBalance_check merchantID d)) balances

-- The order `argmax` and `argmin` compare dates by, named so that the definitions below stay
-- computable whichever orders on `Int` are in scope.
instance datePreorder : Preorder Int := Int.instLinearOrder.toPartialOrder.toPreorder

/-- The closing balance of the merchant's last row before `date`, or zero. -/
def baseline (balances : Table balanceSchema) (merchantID : Text) (date : Int) : Int :=
  match ((merchantRows balances merchantID).filter (·.businessDate < date)).argmax
      DailyBalance.businessDate with
  | some row => row.closingBalanceMinor
  | none => 0

/-- Write a closing balance into a row that has another one
(`closing_balance_minor IS DISTINCT FROM`). -/
def DailyBalance.withClosing (r : DailyBalance) (closing : Int) : DailyBalance :=
  if r.closingBalanceMinor = closing then r
  else { r with closingBalanceMinor := closing, version := r.version + 1 }

/-- Rewrite the closing balance of a row of the block. -/
def setClosing (balances : Table balanceSchema) (merchantID : Text) (first last : Int)
    (r : DailyBalance) : DailyBalance :=
  if r.merchantID = merchantID ∧ first ≤ r.businessDate ∧ r.businessDate ≤ last then
    r.withClosing (baseline balances merchantID first +
      sumBetween DailyBalance.businessDate DailyBalance.netMinor
        (merchantRows balances merchantID) first r.businessDate)
  else r

section WithClosing

variable (r : DailyBalance) (closing : Int)

/-- A closing balance is written beside the columns of the day's entries. -/
@[simp] theorem withClosing_merchantID : (r.withClosing closing).merchantID = r.merchantID := by
  unfold DailyBalance.withClosing
  split <;> rfl

@[simp] theorem withClosing_businessDate : (r.withClosing closing).businessDate = r.businessDate := by
  unfold DailyBalance.withClosing
  split <;> rfl

@[simp] theorem withClosing_creditsMinor : (r.withClosing closing).creditsMinor = r.creditsMinor := by
  unfold DailyBalance.withClosing
  split <;> rfl

@[simp] theorem withClosing_debitsMinor : (r.withClosing closing).debitsMinor = r.debitsMinor := by
  unfold DailyBalance.withClosing
  split <;> rfl

@[simp] theorem withClosing_netMinor : (r.withClosing closing).netMinor = r.netMinor := by
  unfold DailyBalance.withClosing
  split <;> rfl

@[simp] theorem withClosing_entryCount : (r.withClosing closing).entryCount = r.entryCount := by
  unfold DailyBalance.withClosing
  split <;> rfl

@[simp] theorem withClosing_closingBalanceMinor :
    (r.withClosing closing).closingBalanceMinor = closing := by
  unfold DailyBalance.withClosing
  split
  · assumption
  · rfl

end WithClosing

/-- Setting a closing keeps them, too. -/
theorem setClosing_key (balances : Table balanceSchema) (merchantID : Text) (first last : Int)
    (r : DailyBalance) :
    (setClosing balances merchantID first last r).merchantID = r.merchantID ∧
      (setClosing balances merchantID first last r).businessDate = r.businessDate := by
  unfold setClosing
  split
  · exact ⟨withClosing_merchantID _ _, withClosing_businessDate _ _⟩
  · exact ⟨rfl, rfl⟩

def recomputeClosing (balances : Table balanceSchema) (merchantID : Text) (first last : Int) :
    Except Violation (Table balanceSchema) :=
  balances.update (setClosing balances merchantID first last) fun a b => by
    simp only [balanceSchema, setClosing_key]

/-- The columns of a job that a block needs. -/
structure Continuation where
  id : Int
  merchantID : Text
  through : Int
  next : Int

def Continuation.blockThrough (job : Continuation) : Int :=
  min (job.next + (maxRecomputeSpanDays - 1)) job.through

/-- Advance the job past its block. -/
def advanceJob (job : Continuation) (attemptIncrement : Int) (j : RecomputeJob) : RecomputeJob :=
  if j.id = job.id then
    -- the block was not the last one
    if job.blockThrough < job.through then
      { j with
        status := .pending
        nextDate := some (job.blockThrough + 1)
        attempts := j.attempts + attemptIncrement }
    else
      { j with
        status := .completed
        nextDate := none
        attempts := j.attempts + attemptIncrement }
  else j

/-- Advancing keeps the identifiers. -/
theorem advanceJob_id (job : Continuation) (n : Int) (j : RecomputeJob) :
    (advanceJob job n j).id = j.id := by
  unfold advanceJob
  split_ifs <;> rfl

def processRecomputeBlock (env : Env) (s : Store) (job : Continuation) (incrementAttempts : Bool) :
    Except StoreError (RecomputeResult × Store) := do
  let blockThrough := job.blockThrough
  -- days without a row get one, so that the running sum has no holes
  env.attempt .materialize "materialize projection calendar block"
  let balances := materialize s.balances job.merchantID job.next blockThrough
  env.attempt .recompute "recompute closing balance block"
  let balances ← classified "recompute closing balance block"
    (recomputeClosing balances job.merchantID job.next blockThrough)
  env.attempt .advanceJob "advance recompute continuation"
  let jobs ← classified "advance recompute continuation"
    (s.jobs.update (advanceJob job (if incrementAttempts then 1 else 0)) fun a b => by
      simp only [jobSchema, advanceJob_id])
  .ok ({ processed := true, jobID := job.id, merchantID := job.merchantID, fromDate := job.next,
         throughDate := blockThrough, pending := decide (blockThrough < job.through) },
    { s with balances, jobs })

/-! ## Advancing the positions -/

/-- A receipt exists for the position. -/
def received (receipts : Table receiptSchema) (merchantID : Text) (position : Int) : Bool :=
  receipts.rows.any fun r => r.merchantID == merchantID && r.position.toInt == position

/-- The progress row after the event's position was received. -/
def advanced (receipts : Table receiptSchema) (event : EntryConfirmed) (now : Int)
    (row : MerchantProgress) : MerchantProgress :=
  -- positions may arrive in any order
  let source := max row.sourcePosition event.merchantPosition.toInt
  let applied := contiguous (received receipts event.merchantID)
    (source - row.appliedPosition).toNat row.appliedPosition
  { row with
    sourcePosition := source
    appliedPosition := applied
    -- the first position that is missing
    firstGap := if applied < source then some (applied + 1) else none
    updatedAt := now }

/-- Replace the columns of the merchant's row. -/
def setProgress (row r : MerchantProgress) : MerchantProgress :=
  if r.merchantID = row.merchantID then row else r

/-- And so does setting the progress. -/
theorem setProgress_key (row r : MerchantProgress) :
    (setProgress row r).merchantID = r.merchantID := by
  unfold setProgress
  split_ifs with h
  · exact h.symm
  · rfl

def advanceProgress (env : Env) (s : Store) (event : EntryConfirmed) :
    Except StoreError (ProjectionResult × Store) := do
  env.attempt .readForAdvance "read merchant progress for advance"
  match s.progress.find? (·.merchantID == event.merchantID) with
  -- the row was written at the start of the transaction
  | none => .error (.persistence "read merchant progress for advance")
  | some row => do
    env.attempt .contiguous "calculate contiguous position"
    let row' := advanced s.receipts event env.now row
    env.attempt .persistProgress "persist merchant progress"
    let progress ← (s.progress.update (setProgress row') fun a b => by
      simp only [progressSchema, setProgress_key]).mapError
        fun _ => .persistence "persist merchant progress"
    .ok ({ sourcePosition := row'.sourcePosition, appliedPosition := row'.appliedPosition,
           firstGap := row'.firstGap }, { s with progress })

/-! ## The transactions -/

/-- The latest business date of the merchant. -/
def maxBusinessDate (balances : Table balanceSchema) (merchantID : Text) : Option Int :=
  ((merchantRows balances merchantID).map DailyBalance.businessDate).max?

/-- The part of `Apply` after the inbox accepted the event. -/
def applyNew (env : Env) (s : Store) (event : EntryConfirmed) :
    Except StoreError (ProjectionResult × Store) := do
  let s ← insertReceipt env s event
  let s ← updateTotals env s event
  -- the date is written and parsed again on its way to the range
  match parseDate (formatDate event.businessDate) with
  | none => .error (.validation ⟨"business_date", "must use YYYY-MM-DD"⟩)
  | some first => do
    env.attempt .findRange "find recompute range"
    -- the totals have just written a row, so there is one
    match maxBusinessDate s.balances event.merchantID with
    | none => .error (.persistence "find recompute range")
    | some through => do
      env.attempt .createJob "create recompute continuation"
      let jobs ← classified "create recompute continuation"
        (s.jobs.insert ⟨env.jobID, event.eventID, event.merchantID, first, through, some first,
          .pending, 1⟩)
      -- the first block is part of the transaction; the others are resumed
      let (recompute, s) ← processRecomputeBlock env { s with jobs }
        ⟨env.jobID, event.merchantID, through, first⟩ false
      let (result, s) ← advanceProgress env s event
      let pending ← readPendingRecompute env s event.merchantID
      .ok ({ result with
        recomputedFrom := recompute.fromDate
        recomputedThrough := recompute.throughDate
        recomputePending := pending }, s)

/-- The transaction of `Apply`, up to its commit. -/
def applyTx (env : Env) (s : Store) (event : EntryConfirmed) :
    Except StoreError (ProjectionResult × Store) := do
  event.validate.mapError .validation
  let event := event.canonical
  env.attempt .begin "begin projection transaction"
  -- the advisory lock, under which a merchant's events are applied one at a time
  env.attempt .lockMerchant "lock merchant projection"
  let s ← initializeProgress env s event.merchantID
  let (inserted, s) ← insertInbox env s event
  if inserted then applyNew env s event
  -- the keys are taken: a repetition, or a conflict
  else do
    let result ← resolveDuplicate env s event
    .ok (result, s)

/-- Choose the pending job with the earliest next date, then the least id. -/
def nextJob (s : Store) (merchantID : Text) : Option RecomputeJob :=
  (s.jobs.rows.filter fun j => j.merchantID == merchantID && j.status == .pending).argmin
    fun j => toLex (j.nextDate.elim (⊤ : WithTop Int) (↑), j.id)

/-- The transaction of `ResumeNext`, up to its commit. -/
def resumeNextTx (env : Env) (s : Store) (merchantID : Text) :
    Except StoreError (RecomputeResult × Store) := do
  let merchantID := lower merchantID
  env.attempt .begin "begin recompute continuation"
  env.attempt .lockMerchant "lock merchant recompute continuation"
  env.attempt .selectJob "select recompute continuation"
  match uuidIn merchantID with
  | none => .error (.persistence "select recompute continuation")
  | some merchantID =>
    match nextJob s merchantID with
    | none => .ok ({}, s)
    | some job =>
      match job.nextDate with
      -- a NULL does not scan into a date
      | none => .error (.persistence "select recompute continuation")
      | some next =>
        processRecomputeBlock env s ⟨job.id, job.merchantID, job.throughDate, next⟩ true

/-- Commit the outcome of a transaction: a failed one leaves the tables as
they were, and so does a commit that is rolled back. -/
def commit {α : Type} (env : Env) (s : Store) (operation : α → String)
    (outcome : Except StoreError (α × Store)) : Except StoreError α × Store :=
  match outcome with
  | .error e => (.error e, s)
  | .ok (result, s') =>
    match env.commit with
    | .committed => (.ok result, s')
    | .rolledBack => (.error (.persistence (operation result)), s)
    | .unacknowledged => (.error (.persistence (operation result)), s')

def apply (env : Env) (s : Store) (event : EntryConfirmed) :
    Except StoreError ProjectionResult × Store :=
  commit env s
    (fun result => if result.duplicate then "commit duplicate projection" else "commit projection")
    (applyTx env s event)

def resumeNext (env : Env) (s : Store) (merchantID : Text) :
    Except StoreError RecomputeResult × Store :=
  commit env s
    (fun result => if result.processed then "commit recompute continuation"
      else "commit empty recompute continuation")
    (resumeNextTx env s merchantID)

/-! ## Runs -/

/-- A call of the store. -/
inductive Call
  | apply (env : Env) (event : EntryConfirmed)
  | resumeNext (env : Env) (merchantID : Text)

/-- The tables after a call. -/
def Store.exec (s : Store) : Call → Store
  | .apply env event => (Consolidation.apply env s event).2
  | .resumeNext env merchantID => (Consolidation.resumeNext env s merchantID).2

end Cashflow.Consolidation
