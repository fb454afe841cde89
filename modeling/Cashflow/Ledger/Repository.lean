import Cashflow.Lib.Json
import Cashflow.Lib.Table
import Cashflow.Lib.Transaction
import Cashflow.Ledger.Domain

/-!
# Ledger — tables, statements and repository

The schema of `services/ledger/migrations` and the transaction methods of
`internal/adapters/outbound/postgres/repository.go`. Every SQL statement is a
`Stmt`; `engine` says what it answers on a snapshot of the database and which
rows it writes. The repository's methods are programs over these statements,
so that the same code can be run alone (`Engine.exec`) and statement by
statement between other transactions (`Cashflow.Ledger.Interleaving`).

`uuid` columns hold a `UUID`, dates are day numbers and instants are
nanoseconds, always whole microseconds. `idempotency_record.created_at` is
written and never read, so it is left out.

Main result: `restoreEntry_row`, an entry read back is the entry that was
inserted, with its identifiers in lower case.
-/

namespace Cashflow.Ledger

open Lib

/-! ## Tables -/

structure PositionRow where
  merchantID : UUID
  lastPosition : Int64
  updatedAt : Int
deriving DecidableEq, Repr

/-- `merchant_position` -/
def positionSchema : Schema PositionRow where
  check r := decide (0 ≤ r.lastPosition)
  clash a b := decide (a.merchantID = b.merchantID)
  symm a b := by simp [eq_comm]

structure EntryRow where
  id : UUID
  merchantID : UUID
  position : Int64
  entryType : EntryType
  amountMinor : Int64
  currency : Text
  businessDate : Int
  description : Option Text
  confirmedAt : Int
  originalEntryID : Option UUID
deriving DecidableEq, Repr

/-- `ledger_entry`: the primary key, the position of a merchant, and the
partial index that lets an original have one reversal. A `text` column takes no
NUL character. -/
def entrySchema : Schema EntryRow where
  -- the `CHECK` constraints of the table
  check r := decide (0 < r.position) && decide (0 < r.amountMinor) && r.currency == currencyBRL &&
    r.description.all (fun d => decide (d.length ≤ 500) && Json.nulFree d) &&
    r.originalEntryID != some r.id
  -- its primary key, a merchant's positions, and one reversal for each entry
  clash a b := decide (a.id = b.id ∨ (a.merchantID = b.merchantID ∧ a.position = b.position) ∨
    (a.originalEntryID ≠ none ∧ a.originalEntryID = b.originalEntryID))
  symm a b := by
    simp only [decide_eq_decide]
    constructor
    all_goals
      rintro (h | h | h)
      · exact Or.inl h.symm
      · exact Or.inr (Or.inl ⟨h.1.symm, h.2.symm⟩)
      · exact Or.inr (Or.inr ⟨h.2 ▸ h.1, h.2.symm⟩)

inductive Operation where
  | create
  | reverse
deriving DecidableEq, Repr

structure IdempotencyRow where
  attemptID : UUID
  merchantID : UUID
  operation : Operation
  keyHash : List UInt8
  requestHash : List UInt8
  entryID : Option UUID
  responsePayload : Option Text
  completedAt : Option Int
deriving DecidableEq, Repr

/-- The scope of an idempotency key. -/
def IdempotencyRow.scope (r : IdempotencyRow) : UUID × Operation × List UInt8 :=
  (r.merchantID, r.operation, r.keyHash)

/-- `idempotency_record` -/
def idempotencySchema : Schema IdempotencyRow where
  check r := r.keyHash.length == 32 && r.requestHash.length == 32 &&
    r.entryID.isSome == r.responsePayload.isSome && r.entryID.isSome == r.completedAt.isSome
  clash a b := decide (a.attemptID = b.attemptID ∨ a.scope = b.scope)
  symm a b := by simp [eq_comm]

structure OutboxRow where
  eventID : UUID
  aggregateID : UUID
  merchantID : UUID
  merchantPosition : Int64
  eventType : Text
  payload : Text
  occurredAt : Int
  createdAt : Int
  availableAt : Int
  publishedAt : Option Int
  attempts : Int
  lastError : Option Text
  leaseOwner : Option Text
  leaseUntil : Option Int
deriving DecidableEq, Repr

/-- `outbox_event` -/
def outboxSchema : Schema OutboxRow where
  check r := decide (0 < r.merchantPosition) && decide (0 ≤ r.attempts) &&
    r.leaseOwner.isSome == r.leaseUntil.isSome
  clash a b := decide (a.eventID = b.eventID ∨
    (a.aggregateID = b.aggregateID ∧ a.eventType = b.eventType))
  symm a b := by simp [eq_comm]

/-- The schema `ledger`. -/
structure Db where
  positions : Table positionSchema
  entries : Table entrySchema
  idempotency : Table idempotencySchema
  outbox : Table outboxSchema
deriving DecidableEq

def Db.empty : Db := ⟨.empty, .empty, .empty, .empty⟩

/-! ## Statements -/

/-- One SQL statement with its parameters. -/
inductive Stmt where
  | insertIdempotency (row : IdempotencyRow)
  | selectIdempotency (scope : UUID × Operation × List UInt8)
  | updateIdempotency (attemptID entryID : UUID) (response : Text) (completedAt : Int)
  | upsertPosition (merchantID : UUID) (now : Int)
  | insertEntry (row : EntryRow)
  | selectEntryForUpdate (merchantID entryID : UUID)
  | existsReversal (entryID : UUID)
  | insertOutbox (row : OutboxRow)

/-- What a statement answers: the rows affected, or the row read. -/
@[reducible]
def Stmt.Result : Stmt → Type
  | .insertIdempotency _ => Bool
  | .selectIdempotency _ => List UInt8 × Option Text
  | .updateIdempotency .. => Bool
  | .upsertPosition .. => Int64
  | .insertEntry _ => Unit
  | .selectEntryForUpdate .. => EntryRow
  | .existsReversal _ => Bool
  | .insertOutbox _ => Unit

/-- One row version written. -/
inductive Write where
  | position (row : PositionRow)
  | entry (row : EntryRow)
  | record (row : IdempotencyRow)
  | complete (attemptID entryID : UUID) (response : Text) (completedAt : Int)
  | outbox (row : OutboxRow)

def IdempotencyRow.complete (entryID : UUID) (response : Text) (completedAt : Int)
    (r : IdempotencyRow) : IdempotencyRow :=
  { r with entryID := some entryID, responsePayload := some response, completedAt := some completedAt }

namespace Db

/-- The row of a merchant in `merchant_position`. -/
def position? (d : Db) (merchantID : UUID) : Option PositionRow :=
  d.positions.find? fun r => r.merchantID = merchantID

/-- The unique index an entry that clashes is reported for: PostgreSQL checks
them in the order of their creation. -/
def brokenUnique (d : Db) (row : EntryRow) : String :=
  if d.entries.rows.any fun r => r.id = row.id then "ledger_entry_pkey"
  else if d.entries.rows.any fun r => r.merchantID = row.merchantID ∧ r.position = row.position then
    "ledger_entry_merchant_position_unique"
  else "ledger_entry_one_reversal_per_original"

/-- `ON CONFLICT (merchant_id, operation, key_hash) DO NOTHING` gives way to a row
of the same scope only; a clash of the primary key is an error. -/
def evalInsertIdempotency (d : Db) (row : IdempotencyRow) : Except DbError (Bool × List Write) :=
  if d.idempotency.rows.any fun r => r.scope = row.scope then .ok (false, [])
  else
    match d.idempotency.insert row with
    | .ok _ => .ok (true, [.record row])
    | .error .unique => .error (.unique "idempotency_record_pkey")
    | .error .check => .error .check

def evalSelectIdempotency (d : Db) (scope : UUID × Operation × List UInt8) :
    Except DbError ((List UInt8 × Option Text) × List Write) :=
  match d.idempotency.find? fun r => r.scope = scope with
  | some r => .ok ((r.requestHash, r.responsePayload), [])
  | none => .error .noRows

/-- `WHERE attempt_id = $1 AND completed_at IS NULL`; the foreign key asks for an
entry of the same merchant. -/
def evalUpdateIdempotency (jsonb : Json.Jsonb) (d : Db) (attemptID entryID : UUID) (response : Text)
    (completedAt : Int) : Except DbError (Bool × List Write) :=
  match jsonb.cast response with
  | none => .error .invalidText
  | some payload =>
    match d.idempotency.find? fun r => r.attemptID = attemptID ∧ r.completedAt = none with
    -- completed already, or never claimed: no row is written
    | none => .ok (false, [])
    | some r =>
      if d.entries.rows.any fun e => e.merchantID = r.merchantID ∧ e.id = entryID then
        .ok (true, [.complete attemptID entryID payload completedAt])
      else .error .foreignKey

def evalUpsertPosition (d : Db) (merchantID : UUID) (now : Int) :
    Except DbError (Int64 × List Write) :=
  match d.position? merchantID with
  | none => .ok (1, [.position ⟨merchantID, 1, now⟩])
  | some r =>
    -- one more than the largest `BIGINT` is an error, not a negative position
    if r.lastPosition = Int64.maxValue then .error .outOfRange
    else .ok (r.lastPosition + 1, [.position ⟨merchantID, r.lastPosition + 1, now⟩])

def evalInsertEntry (d : Db) (row : EntryRow) : Except DbError (Unit × List Write) :=
  match d.entries.insert row with
  | .error .check => .error .check
  | .error .unique => .error (.unique (d.brokenUnique row))
  | .ok _ =>
    -- the foreign key on `(merchant_id, original_entry_id)`
    if row.originalEntryID.all fun o =>
        d.entries.rows.any fun e => e.merchantID = row.merchantID ∧ e.id = o then
      .ok ((), [.entry row])
    else .error .foreignKey

def evalSelectEntryForUpdate (d : Db) (merchantID entryID : UUID) :
    Except DbError (EntryRow × List Write) :=
  match d.entries.find? fun r => r.merchantID = merchantID ∧ r.id = entryID with
  | some r => .ok (r, [])
  | none => .error .noRows

def evalInsertOutbox (jsonb : Json.Jsonb) (d : Db) (row : OutboxRow) :
    Except DbError (Unit × List Write) :=
  match jsonb.cast row.payload with
  | none => .error .invalidText
  | some payload =>
    match d.outbox.insert { row with payload } with
    | .error .check => .error .check
    | .error .unique => .error (.unique "outbox_event")
    | .ok _ =>
      -- the foreign key on the entry, its merchant and its position
      if d.entries.rows.any fun e =>
          e.merchantID = row.merchantID ∧ e.id = row.aggregateID ∧ e.position = row.merchantPosition then
        .ok ((), [.outbox { row with payload }])
      else .error .foreignKey

/-- The answer of a statement on a snapshot, and the row versions it writes. -/
def eval (jsonb : Json.Jsonb) : (s : Stmt) → Db → Except DbError (s.Result × List Write)
  | .insertIdempotency row, d => d.evalInsertIdempotency row
  | .selectIdempotency scope, d => d.evalSelectIdempotency scope
  | .updateIdempotency attemptID entryID response completedAt, d =>
    d.evalUpdateIdempotency jsonb attemptID entryID response completedAt
  | .upsertPosition merchantID now, d => d.evalUpsertPosition merchantID now
  | .insertEntry row, d => d.evalInsertEntry row
  | .selectEntryForUpdate merchantID entryID, d => d.evalSelectEntryForUpdate merchantID entryID
  | .existsReversal entryID, d =>
    .ok (d.entries.rows.any fun r => r.originalEntryID = some entryID, [])
  | .insertOutbox row, d => d.evalInsertOutbox jsonb row

/-- Complete the record of an attempt. -/
def completeRecord (d : Db) (attemptID entryID : UUID) (response : Text) (completedAt : Int) :
    Except Violation (Table idempotencySchema) :=
  d.idempotency.update
    (fun r => if r.attemptID = attemptID then r.complete entryID response completedAt else r)
    fun a b => by
      simp only [idempotencySchema]
      split <;> split <;> rfl

/-- Put the row of a merchant. -/
def putPosition (d : Db) (row : PositionRow) : Except Violation (Table positionSchema) :=
  if (d.position? row.merchantID).isSome then
    d.positions.update (fun r => if r.merchantID = row.merchantID then row else r) fun a b => by
      simp only [positionSchema, decide_eq_decide]
      split <;> split <;> simp_all
  else d.positions.insert row

/-- A snapshot with one more row version. -/
def apply (d : Db) : Write → Db
  | .position row => { d with positions := d.positions.orKeep (d.putPosition row) }
  | .entry row => { d with entries := d.entries.orKeep (d.entries.insert row) }
  | .record row => { d with idempotency := d.idempotency.orKeep (d.idempotency.insert row) }
  | .complete attemptID entryID response completedAt =>
    { d with
      idempotency := d.idempotency.orKeep (d.completeRecord attemptID entryID response completedAt) }
  | .outbox row => { d with outbox := d.outbox.orKeep (d.outbox.insert row) }

end Db

/-- The database engine; `jsonb` is what PostgreSQL does with a `jsonb` text. -/
def engine (jsonb : Json.Jsonb) : Engine Stmt Stmt.Result DbError Db Write := ⟨Db.eval jsonb, Db.apply⟩

/-! ## The methods of a transaction -/

/-- A program over the ledger's statements. -/
abbrev Tx := Prog Stmt Stmt.Result DbError LedgerError

/-- One statement, and the error its failure is reported as. -/
def call (s : Stmt) (fail : DbError → LedgerError) : Tx s.Result := Prog.call s fail

structure IdempotencyAttempt where
  attemptID : ID
  merchantID : ID
  operation : Operation
  keyHash : List UInt8
  requestHash : List UInt8

/-- What an earlier request left under a key. -/
structure IdempotencyRecord where
  requestHash : List UInt8
  responsePayload : Option Text

def IdempotencyAttempt.row (a : IdempotencyAttempt) : IdempotencyRow where
  attemptID := a.attemptID.uuid
  merchantID := a.merchantID.uuid
  operation := a.operation
  keyHash := a.keyHash
  requestHash := a.requestHash
  entryID := none
  responsePayload := none
  completedAt := none

/-- `ClaimIdempotency`: `none` when the key was free and is now claimed. -/
def claimIdempotency (attempt : IdempotencyAttempt) : Tx (Option IdempotencyRecord) := do
  let claimed : Bool ← call (.insertIdempotency attempt.row) (.database "claim idempotency")
  if claimed = true then pure none
  else do
    let found : List UInt8 × Option Text ←
      call (.selectIdempotency attempt.row.scope) (.database "read idempotency")
    pure (some ⟨found.1, found.2⟩)

def completeIdempotency (attemptID entryID : ID) (response : Text) (completedAt : Int) : Tx Unit := do
  let updated : Bool ← call (.updateIdempotency attemptID.uuid entryID.uuid response completedAt)
    (.database "complete idempotency")
  if updated = true then pure () else .lift (.error .attemptNotCompleted)

def nextPosition (merchantID : ID) (now : Int) : Tx Int64 :=
  call (.upsertPosition merchantID.uuid now) (.database "advance merchant position")

/-- The row of an entry; an empty description is `NULL`. -/
def Entry.row (e : Entry) : EntryRow where
  id := e.id.uuid
  merchantID := e.merchantID.uuid
  position := e.position
  entryType := e.entryType
  amountMinor := e.money.minor
  currency := currencyBRL
  businessDate := e.businessDate
  description := if e.description = [] then none else some e.description
  confirmedAt := e.confirmedAt
  originalEntryID := e.originalEntryID.map ID.uuid

def insertEntry (entry : Entry) : Tx Unit :=
  call (.insertEntry entry.row) fun
    -- two reversals that raced: the second one finds the index taken
    | .unique "ledger_entry_one_reversal_per_original" => .alreadyReversed
    | cause => .database "insert ledger entry" cause

/-- An optional identifier of a row. -/
def parseOptionalID : Option UUID → Except LedgerError (Option ID)
  | none => .ok none
  | some u => do
    let id ← parseID u.text
    pure (some id)

/-- `restoreEntry`: a row read back goes through the same checks again. -/
def restoreEntry (row : EntryRow) : Except LedgerError Entry := do
  let id ← parseID row.id.text
  let merchantID ← parseID row.merchantID.text
  let entryType ← parseEntryType row.entryType.text
  let money ← newMoney row.amountMinor row.currency
  let date ← parseBusinessDate (formatDate row.businessDate)
  let originalID ← parseOptionalID row.originalEntryID
  newEntry ⟨id, merchantID, row.position, entryType, money, date, row.description.getD [],
    row.confirmedAt, originalID⟩

/-- `EntryForUpdate` -/
def entryForUpdate (merchantID entryID : ID) : Tx Entry := do
  let row : EntryRow ← call (.selectEntryForUpdate merchantID.uuid entryID.uuid) fun
    | .noRows => .entryNotFound
    | cause => .database "lock ledger entry" cause
  let entry ← .lift ((restoreEntry row).mapError (.wrapped "lock ledger entry"))
  -- the row is locked by now, so that no reversal of it can come in between
  let reversed : Bool ← call (.existsReversal entryID.uuid) (.database "check existing reversal")
  if reversed = true then .lift (.error .alreadyReversed) else pure entry

structure OutboxEvent where
  eventID : ID
  entryID : ID
  merchantID : ID
  position : Int64
  eventType : Text
  occurredAt : Int
  payload : Text

/-- The row of an event; `dbNow` is `clock_timestamp()`. -/
def OutboxEvent.row (event : OutboxEvent) (dbNow : Int) : OutboxRow where
  eventID := event.eventID.uuid
  aggregateID := event.entryID.uuid
  merchantID := event.merchantID.uuid
  merchantPosition := event.position
  eventType := event.eventType
  payload := event.payload
  occurredAt := event.occurredAt
  createdAt := event.occurredAt
  -- free to be claimed at once, by the clock of the database
  availableAt := dbNow
  publishedAt := none
  attempts := 0
  lastError := none
  leaseOwner := none
  leaseUntil := none

/-- `InsertOutbox` -/
def insertOutboxRow (event : OutboxEvent) (dbNow : Int) : Tx Unit :=
  call (.insertOutbox (event.row dbNow)) (.database "insert outbox event")

/-! ## Reading back an entry -/

/-- The entry as the database gives it back. -/
def Entry.stored (e : Entry) : Entry :=
  { e with
    id := e.id.uuid.id
    merchantID := e.merchantID.uuid.id
    originalEntryID := e.originalEntryID.map fun o => o.uuid.id }

theorem parseOptionalID_map (o : Option ID) :
    parseOptionalID (o.map ID.uuid) = .ok (o.map fun o => o.uuid.id) := by
  cases o with
  | none => rfl
  | some id =>
    rw [Option.map_some, parseOptionalID, parseID_uuid]
    rfl

/-- An entry dated in the years 0 to 9999 is read back as it was inserted. -/
theorem restoreEntry_row {e : Entry} (h0 : 0 ≤ (Civil.ofDays e.businessDate).year)
    (h1 : (Civil.ofDays e.businessDate).year ≤ 9999) : restoreEntry e.row = .ok e.stored := by
  have hDate : parseBusinessDate (formatDate e.businessDate) = .ok e.businessDate := by
    rw [parseBusinessDate, parseDate_formatDate h0 h1]
  have hDescription :
      (if e.description = [] then none else some e.description).getD [] = e.description := by
    split
    · rename_i hNil
      rw [hNil]
      rfl
    · rfl
  simp only [restoreEntry, Entry.row, parseID_uuid, parseEntryType_text, newMoney_minor, hDate,
    parseOptionalID_map, hDescription, bind, Except.bind]
  exact newEntry_ok.mpr rfl

end Cashflow.Ledger
