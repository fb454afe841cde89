import Cashflow.Ledger.Service
import Cashflow.Ledger.Statements

/-!
# Ledger — what a transaction does

One lemma for each method of a transaction says what a successful call read
and wrote; from them `idempotentTx_ok` says what a whole request did. Either
the key was claimed before and nothing changed, or the request added one entry,
one outbox event and one completed record, and advanced its merchant's position
by one (`Db.Posts`). Everything later about the ledger is derived from this.
-/

namespace Cashflow.Ledger

open Lib

variable {jsonb : Json.Jsonb}

/-! ## The statements -/

/-- A key is claimed for the attempt, or the record that holds it is found. -/
theorem claimIdempotency_ok {attempt : IdempotencyAttempt} {claim : Option IdempotencyRecord}
    {d d' : Db} (h : (engine jsonb).exec (claimIdempotency attempt) d = .ok (claim, d')) :
    (claim = none ∧ ∃ t, d.idempotency.insert attempt.row = .ok t ∧ d' = { d with idempotency := t }) ∨
    (∃ r ∈ d.idempotency, r.scope = attempt.row.scope ∧
      claim = some ⟨r.requestHash, r.responsePayload⟩ ∧ d' = d) := by
  rw [claimIdempotency, Engine.exec_bind_ok] at h
  obtain ⟨claimed, d₁, hInsert, h⟩ := h
  obtain ⟨ws, hEval, rfl⟩ := (Engine.exec_call_ok _).mp hInsert
  rcases evalInsertIdempotency_ok.mp hEval with ⟨rfl, rfl, -⟩ | ⟨rfl, rfl, t, hTable⟩
  · -- the scope is taken: the record is read
    right
    rw [if_neg (by decide), Engine.exec_bind_ok] at h
    obtain ⟨found, d₂, hSelect, h⟩ := h
    obtain ⟨ws, hEval, rfl⟩ := (Engine.exec_call_ok _).mp hSelect
    obtain ⟨rfl, r, hr, hScope, rfl⟩ := evalSelectIdempotency_ok.mp hEval
    cases h
    exact ⟨r, hr, hScope, rfl, rfl⟩
  · left
    rw [if_pos rfl] at h
    cases h
    refine ⟨rfl, t, hTable, ?_⟩
    rw [view_one, Db.apply, orKeep_insert hTable]

/-! ### Positions -/

/-- The position is the merchant's last plus one, and is written. -/
theorem nextPosition_ok {merchantID : ID} {now : Int} {position : Int64} {d d' : Db}
    (h : (engine jsonb).exec (nextPosition merchantID now) d = .ok (position, d')) :
    position.toInt = (d.lastPosition merchantID.uuid).toInt + 1 ∧
    ∃ t : Table positionSchema, d' = { d with positions := t } ∧
      ∀ m, d'.lastPosition m = if m = merchantID.uuid then position else d.lastPosition m := by
  obtain ⟨ws, hEval, rfl⟩ := (Engine.exec_call_ok _).mp h
  obtain ⟨hPosition, rfl, t, ht⟩ := evalUpsertPosition_ok hEval
  have hView : (engine jsonb).view d [.position ⟨merchantID.uuid, position, now⟩] =
      { d with positions := t } := by
    rw [view_one, Db.apply, ht]
    rfl
  rw [hView]
  refine ⟨hPosition, t, rfl, ?_⟩
  intro m
  show ((t.find? fun r => r.merchantID = m).map PositionRow.lastPosition).getD 0 = _
  rw [find?_putPosition ht]
  split
  · rfl
  · rfl

/-! ### Entries -/

/-- The entry's row is inserted. -/
theorem insertEntry_ok {entry : Entry} {u : Unit} {d d' : Db}
    (h : (engine jsonb).exec (insertEntry entry) d = .ok (u, d')) :
    ∃ t, d.entries.insert entry.row = .ok t ∧ d' = { d with entries := t } := by
  obtain ⟨ws, hEval, rfl⟩ := (Engine.exec_call_ok _).mp h
  obtain ⟨rfl, ⟨t, hTable⟩, -⟩ := evalInsertEntry_ok.mp hEval
  exact ⟨t, hTable, by rw [view_one, Db.apply, orKeep_insert hTable]⟩

/-- The original is read as it was stored, and nothing reverses it. -/
theorem entryForUpdate_ok {merchantID entryID : ID} {entry : Entry} {d d' : Db}
    (h : (engine jsonb).exec (entryForUpdate merchantID entryID) d = .ok (entry, d')) :
    d' = d ∧ ∃ row ∈ d.entries, row.merchantID = merchantID.uuid ∧ row.id = entryID.uuid ∧
      restoreEntry row = .ok entry ∧ ∀ r ∈ d.entries, r.originalEntryID ≠ some entryID.uuid := by
  rw [entryForUpdate, Engine.exec_bind_ok] at h
  obtain ⟨row, d₁, hSelect, h⟩ := h
  obtain ⟨ws, hEval, rfl⟩ := (Engine.exec_call_ok _).mp hSelect
  obtain ⟨rfl, hr, hMerchant, hId⟩ := evalSelectEntryForUpdate_ok.mp hEval
  -- the row is restored before the reversal is looked for
  rw [Engine.exec_lift_bind_ok] at h
  obtain ⟨entry', hRestore, h⟩ := h
  rw [Engine.exec_bind_ok] at h
  obtain ⟨reversed, d₃, hExists, h⟩ := h
  obtain ⟨ws, hEval, rfl⟩ := (Engine.exec_call_ok _).mp hExists
  cases hEval
  -- refused if there is one
  split at h
  · cases h
  · rename_i hNot
    cases h
    refine ⟨rfl, row, hr, hMerchant, hId, mapError_ok.mp hRestore, ?_⟩
    intro r hr hOriginal
    exact hNot (List.any_eq_true.mpr ⟨r, hr, decide_eq_true hOriginal⟩)

/-! ### Outbox events -/

/-- The event's row is inserted, with its payload as the column stores it. -/
theorem insertOutboxRow_ok {event : OutboxEvent} {dbNow : Int} {u : Unit} {d d' : Db}
    (h : (engine jsonb).exec (insertOutboxRow event dbNow) d = .ok (u, d')) :
    ∃ payload t, jsonb.cast event.payload = some payload ∧
      d.outbox.insert { event.row dbNow with payload } = .ok t ∧ d' = { d with outbox := t } := by
  obtain ⟨ws, hEval, rfl⟩ := (Engine.exec_call_ok _).mp h
  obtain ⟨payload, hCast, rfl, ⟨t, hTable⟩, -⟩ := evalInsertOutbox_ok.mp hEval
  exact ⟨payload, t, hCast, hTable, by rw [view_one, Db.apply, orKeep_insert hTable]⟩

/-- The event has a fresh identifier and tells the entry. -/
theorem insertOutbox_ok {env : Env} {entry : Entry} {now : Int} {traceparent : Text} {u : Unit}
    {d d' : Db} (h : (engine jsonb).exec (insertOutbox env entry now traceparent) d = .ok (u, d')) :
    ∃ eventID text payload t, newUUIDv7 now env.eventEntropy = .ok eventID ∧
      marshalEvent eventID now entry traceparent = .ok text ∧ jsonb.cast text = some payload ∧
      d.outbox.insert (OutboxEvent.row ⟨eventID, entry.id, entry.merchantID, entry.position,
        entryEventType, now, payload⟩ env.dbNow) = .ok t ∧
      d' = { d with outbox := t } := by
  rw [insertOutbox, Engine.exec_lift_bind_ok] at h
  obtain ⟨eventID, hID, h⟩ := h
  rw [Engine.exec_lift_bind_ok] at h
  obtain ⟨text, hText, h⟩ := h
  obtain ⟨payload, t, hCast, hTable, rfl⟩ := insertOutboxRow_ok h
  exact ⟨eventID, text, payload, t, hID, hText, hCast, hTable, rfl⟩

/-! ### Completing the record -/

/-- The attempt's record, which is open, gets the response. -/
theorem completeIdempotency_ok {attemptID entryID : ID} {response : Text} {completedAt : Int}
    {u : Unit} {d d' : Db}
    (h : (engine jsonb).exec (completeIdempotency attemptID entryID response completedAt) d =
      .ok (u, d')) :
    ∃ payload t, jsonb.cast response = some payload ∧ d' = { d with idempotency := t } ∧
      t.rows = d.idempotency.rows.map fun r =>
        if r.attemptID = attemptID.uuid then r.complete entryID.uuid payload completedAt else r := by
  rw [completeIdempotency, Engine.exec_bind_ok] at h
  obtain ⟨updated, d₁, hUpdate, h⟩ := h
  obtain ⟨ws, hEval, rfl⟩ := (Engine.exec_call_ok _).mp hUpdate
  obtain ⟨payload, hCast, ⟨rfl, rfl, -⟩ | ⟨rfl, rfl, -⟩⟩ := evalUpdateIdempotency_ok.mp hEval
  · cases h
  · cases h
    obtain ⟨t, ht, hRows⟩ := completeRecord_ok d attemptID.uuid entryID.uuid payload completedAt
    refine ⟨payload, t, hCast, ?_, hRows⟩
    rw [view_one, Db.apply, ht]
    rfl

/-! ## Creating an entry -/

/-- What the callback of a request did when it succeeded: the entry it made was
inserted at the next position of its merchant, with the event that announces
it. -/
structure Created (jsonb : Json.Jsonb) (env : Env) (traceparent : Text) (d d' : Db) (entry : Entry)
    (event : OutboxRow) : Prop where
  id : newUUIDv7 env.createdAt.nanos env.entryEntropy = .ok entry.id
  confirmedAt : entry.confirmedAt = env.createdAt.nanos
  next : entry.position.toInt = (d.lastPosition entry.merchantID.uuid).toInt + 1
  positions : ∀ m, d'.lastPosition m =
    if m = entry.merchantID.uuid then entry.position else d.lastPosition m
  entries : d'.entries.rows = d.entries.rows ++ [entry.row]
  outbox : d'.outbox.rows = d.outbox.rows ++ [event]
  idempotency : d'.idempotency = d.idempotency
  event : ∃ eventID text payload, newUUIDv7 env.createdAt.nanos env.eventEntropy = .ok eventID ∧
    marshalEvent eventID env.createdAt.nanos entry traceparent = .ok text ∧
    jsonb.cast text = some payload ∧
    event = OutboxEvent.row ⟨eventID, entry.id, entry.merchantID, entry.position, entryEventType,
      env.createdAt.nanos, payload⟩ env.dbNow

/-- The part both callbacks end with. -/
theorem created_of_exec {env : Env} {traceparent : Text} {merchantID : ID} {entry : Entry}
    {position : Int64} {result : EntryResult} {d d₁ d' : Db}
    (hPosition : (engine jsonb).exec (nextPosition merchantID env.createdAt.nanos) d =
      .ok (position, d₁))
    (hID : newUUIDv7 env.createdAt.nanos env.entryEntropy = .ok entry.id)
    (hConfirmed : entry.confirmedAt = env.createdAt.nanos) (hEntry : entry.position = position)
    (hMerchant : entry.merchantID.uuid = merchantID.uuid)
    (h : (engine jsonb).exec (do
        insertEntry entry
        insertOutbox env entry env.createdAt.nanos traceparent
        pure (resultFromEntry entry)) d₁ = .ok (result, d')) :
    result = resultFromEntry entry ∧ ∃ event, Created jsonb env traceparent d d' entry event := by
  -- position, entry and event, each statement on what the one before left
  obtain ⟨hNext, t, rfl, hLast⟩ := nextPosition_ok hPosition
  rw [Engine.exec_bind_ok] at h
  obtain ⟨u, d₂, hInsert, h⟩ := h
  obtain ⟨t₂, hTable, rfl⟩ := insertEntry_ok hInsert
  rw [Engine.exec_bind_ok] at h
  obtain ⟨u', d₃, hOutbox, h⟩ := h
  obtain ⟨eventID, text, payload, t₃, hEventID, hText, hCast, hEvent, rfl⟩ := insertOutbox_ok hOutbox
  cases h
  refine ⟨rfl, _, ⟨hID, hConfirmed, ?_, ?_, (Table.insert_eq_ok.mp hTable).2.2,
    (Table.insert_eq_ok.mp hEvent).2.2, rfl, eventID, text, payload, hEventID, hText, hCast, rfl⟩⟩
  · rw [hEntry, hMerchant, hNext]
  · intro m
    rw [hMerchant, hEntry]
    exact hLast m

/-- Dates from 0000-01-01 through 9999-12-31, the ones that can be written. -/
def Writable (date : Int) : Prop := -719528 ≤ date ∧ date ≤ 2932896

/-- A business date that was resolved has a year of four digits. -/
theorem resolve_writable {z : Zone} {t : Instant} {requested : Option Int} {date : Int}
    (h : z.resolve t.nanos requested = .ok date) : Writable date := by
  have hRange := t.inRange
  -- instants are stored in microseconds
  have hSeconds : t.nanos / nanosPerSecond = t.micros / 1000000 := by
    unfold Instant.nanos nanosPerSecond
    omega
  have hOffset := z.bounded (t.micros / 1000000)
  -- no zone is more than a day away from UTC
  have hToday : -719163 ≤ z.today t.nanos ∧ z.today t.nanos ≤ 2932532 := by
    rw [Zone.today, hSeconds]
    omega
  have hBack : maximumBackdateDays = 30 := rfl
  unfold Zone.resolve at h
  unfold Writable
  split at h
  · cases h
    omega
  · split at h
    · cases h
    · cases h
      omega

/-- The date a calendar resolves at the moment of the request. -/
def Dates (platform : Platform) (env : Env) (timeZone : Text) (date : Int) : Prop :=
  ∃ z requested, newCalendar platform.zones timeZone = .ok z ∧
    z.resolve env.createdAt.nanos requested = .ok date

/-- And so has the date of an entry. -/
theorem Dates.writable {platform : Platform} {env : Env} {timeZone : Text} {date : Int}
    (h : Dates platform env timeZone date) : Writable date := by
  obtain ⟨z, requested, -, hDate⟩ := h
  exact resolve_writable hDate

/-- The entry a `CreateEntry` makes. -/
structure CreateEntryInput.Makes (input : CreateEntryInput) (merchantID : ID) (entry : Entry) :
    Prop where
  merchantID : entry.merchantID = merchantID
  originalEntryID : entry.originalEntryID = none
  entryType : parseEntryType input.type = .ok entry.entryType
  money : newMoney input.amountMinor input.currency = .ok entry.money
  description : entry.description = input.description

/-- What the transaction that creates an entry has done. -/
theorem createTx_ok {platform : Platform} {env : Env} {input : CreateEntryInput} {merchantID : ID}
    {result : EntryResult} {d d' : Db}
    (h : (engine jsonb).exec (createTx platform env input merchantID) d = .ok (result, d')) :
    ∃ entry event, result = resultFromEntry entry ∧ input.Makes merchantID entry ∧
      Dates platform env input.timeZone entry.businessDate ∧
      Created jsonb env input.traceparent d d' entry event := by
  simp only [createTx, Engine.exec_lift_bind_ok] at h
  obtain ⟨entryType, hType, money, hMoney, requested, -, calendar, hCalendar, date, hDate, h⟩ := h
  rw [Engine.exec_bind_ok] at h
  obtain ⟨position, d₁, hPosition, h⟩ := h
  simp only [Engine.exec_lift_bind_ok] at h
  obtain ⟨entryID, hID, entry, hEntry, h⟩ := h
  rw [newEntry_ok, Entry.data, EntryData.mk.injEq] at hEntry
  obtain ⟨rfl, rfl, rfl, rfl, rfl, rfl, hDescription, hNow, hOriginal⟩ := hEntry
  obtain ⟨hResult, event, hCreated⟩ := created_of_exec hPosition hID hNow.symm rfl rfl h
  exact ⟨entry, event, hResult, ⟨rfl, hOriginal.symm, hType, hMoney, hDescription.symm⟩,
    ⟨calendar, requested, hCalendar, hDate⟩, hCreated⟩

/-- The entry a `ReverseEntry` makes, and the row it reverses. -/
structure Reverses (d : Db) (row : EntryRow) (entry : Entry) : Prop where
  mem : row ∈ d.entries
  root : row.originalEntryID = none
  unreversed : ∀ r ∈ d.entries, r.originalEntryID ≠ some row.id
  merchantID : entry.merchantID = row.merchantID.id
  originalEntryID : entry.originalEntryID = some row.id.id
  entryType : entry.entryType = row.entryType.opposite
  amountMinor : entry.money.minor = row.amountMinor
  description : entry.description = []

/-- What a row read back has in common with the row. -/
theorem restoreEntry_ok {row : EntryRow} {e : Entry} (h : restoreEntry row = .ok e) :
    e.id = row.id.id ∧ e.merchantID = row.merchantID.id ∧ e.entryType = row.entryType ∧
      e.money.minor = row.amountMinor ∧
      e.originalEntryID = row.originalEntryID.map UUID.id := by
  simp only [restoreEntry, peel, parseID_uuid, parseEntryType_text] at h
  obtain ⟨_, ⟨⟩, _, ⟨⟩, _, ⟨⟩, money, hMoney, date, -, original, hOriginal, hEntry⟩ := h
  rw [newEntry_ok, Entry.data, EntryData.mk.injEq] at hEntry
  obtain ⟨hId, hMerchant, -, hType, rfl, -, -, -, rfl⟩ := hEntry
  refine ⟨hId.symm, hMerchant.symm, hType.symm, ?_, ?_⟩
  · unfold newMoney at hMoney
    split_ifs at hMoney
    rw [← Except.ok.inj hMoney]
  · cases hRow : row.originalEntryID with
    | none =>
      rw [hRow] at hOriginal
      exact (Except.ok.inj hOriginal).symm
    | some o =>
      rw [hRow, parseOptionalID, parseID_uuid] at hOriginal
      exact (Except.ok.inj hOriginal).symm

/-- What the one that reverses an entry has done. -/
theorem reverseTx_ok {platform : Platform} {env : Env} {input : ReverseEntryInput}
    {merchantID originalID : ID} {result : EntryResult} {d d' : Db}
    (h : (engine jsonb).exec (reverseTx platform env input merchantID originalID) d =
      .ok (result, d')) :
    ∃ entry event row, result = resultFromEntry entry ∧ Reverses d row entry ∧
      row.merchantID = merchantID.uuid ∧ row.id = originalID.uuid ∧
      Dates platform env input.timeZone entry.businessDate ∧
      Created jsonb env input.traceparent d d' entry event := by
  simp only [reverseTx, Engine.exec_lift_bind_ok] at h
  obtain ⟨calendar, hCalendar, date, hDate, h⟩ := h
  rw [Engine.exec_bind_ok] at h
  obtain ⟨original, d₁, hOriginal, h⟩ := h
  -- the original is read and locked, and nothing reverses it yet
  obtain ⟨rfl, row, hRow, hMerchant, hId, hRestore, hFree⟩ := entryForUpdate_ok hOriginal
  -- a reversal is not reversed
  split at h
  · cases h
  · rename_i hRoot
    rw [Engine.exec_bind_ok] at h
    obtain ⟨position, d₂, hPosition, h⟩ := h
    simp only [Engine.exec_lift_bind_ok] at h
    obtain ⟨entryID, hID, entry, hEntry, h⟩ := h
    rw [newReversal, if_neg hRoot, newEntry_ok, Entry.data, EntryData.mk.injEq] at hEntry
    obtain ⟨rfl, hEntryMerchant, rfl, hType, hMoney, rfl, hDescription, hNow, hLink⟩ := hEntry
    obtain ⟨hRowId, hRowMerchant, hRowType, hRowMoney, hRowOriginal⟩ := restoreEntry_ok hRestore
    have hEntryUuid : entry.merchantID.uuid = merchantID.uuid := by
      rw [← hEntryMerchant, hRowMerchant, uuid_id, hMerchant]
    obtain ⟨hResult, event, hCreated⟩ := created_of_exec hPosition hID hNow.symm rfl hEntryUuid h
    refine ⟨entry, event, row, hResult, ⟨hRow, ?_, ?_, ?_, ?_, ?_, ?_, hDescription.symm⟩, hMerchant,
      hId, ⟨calendar, none, hCalendar, hDate⟩, hCreated⟩
    · -- the original is no reversal itself
      rw [hRowOriginal, not_not, Option.map_eq_none_iff] at hRoot
      exact hRoot
    · rw [hId]
      exact hFree
    · rw [← hEntryMerchant, hRowMerchant]
    · rw [← hLink, hRowId]
    · rw [← hType, hRowType]
    · rw [← hMoney, hRowMoney]

/-- How the entry of a request came about. -/
def Request.Makes (req : Request) (d : Db) (merchantID : ID) (entry : Entry) : Prop :=
  match req with
  | .create input => input.Makes merchantID entry
  | .reverse input => ∃ row, Reverses d row entry ∧ row.merchantID = merchantID.uuid ∧
      row.id.text = lower input.originalEntryID

/-- The entry belongs to the merchant of the request. -/
theorem Request.Makes.merchant {req : Request} {d : Db} {merchantID : ID} {entry : Entry}
    (h : req.Makes d merchantID entry) : merchantID.uuid = entry.merchantID.uuid := by
  cases req with
  | create input =>
    have hMakes : input.Makes merchantID entry := h
    rw [hMakes.merchantID]
  | reverse input =>
    obtain ⟨row, hReverses, hMerchant, -⟩ := h
    rw [hReverses.merchantID, uuid_id, hMerchant]

/-- Only the entries matter for what a request makes. -/
theorem Request.Makes.congr {req : Request} {d d' : Db} {merchantID : ID} {entry : Entry}
    (h : req.Makes d merchantID entry) (hEntries : d'.entries = d.entries) :
    req.Makes d' merchantID entry := by
  cases req with
  | create input => exact h
  | reverse input =>
    obtain ⟨row, hReverses, hRow⟩ := h
    refine ⟨row, { hReverses with mem := ?_, unreversed := ?_ }, hRow⟩
    · rw [hEntries]
      exact hReverses.mem
    · rw [hEntries]
      exact hReverses.unreversed

def Request.timeZone : Request → Text
  | .create input => input.timeZone
  | .reverse input => input.timeZone

/-- The same for either request. -/
theorem body_ok {platform : Platform} {env : Env} {req : Request} {merchantID : ID}
    {create : Tx EntryResult} {result : EntryResult} {d d' : Db}
    (hBody : req.body platform env merchantID = .ok create)
    (h : (engine jsonb).exec create d = .ok (result, d')) :
    ∃ entry event, result = resultFromEntry entry ∧ req.Makes d merchantID entry ∧
      Dates platform env req.timeZone entry.businessDate ∧
      Created jsonb env req.traceparent d d' entry event := by
  cases req with
  | create input =>
    cases hBody
    exact createTx_ok h
  | reverse input =>
    rw [Request.body, peel] at hBody
    obtain ⟨originalID, hID, hTx⟩ := hBody
    cases hTx
    obtain ⟨entry, event, row, hResult, hReverses, hMerchant, hRow, hDate, hCreated⟩ :=
      reverseTx_ok h
    refine ⟨entry, event, hResult, ⟨row, hReverses, hMerchant, ?_⟩, hDate, hCreated⟩
    rw [hRow, ← parseID_ok.mp hID]
    rfl

/-! ## A whole request -/

/-- What a request that created an entry left behind. -/
structure Posting where
  attempt : IdempotencyAttempt
  entry : Entry
  event : OutboxRow
  response : Text
  completedAt : Int

/-- The completed record of a posting. -/
def Posting.record (p : Posting) : IdempotencyRow :=
  p.attempt.row.complete p.entry.id.uuid p.response p.completedAt

/-- One entry, one event and one completed record more, and the merchant's
position advanced by one. -/
structure Db.Posts (d d' : Db) (p : Posting) : Prop where
  merchant : p.attempt.merchantID.uuid = p.entry.merchantID.uuid
  next : p.entry.position.toInt = (d.lastPosition p.entry.merchantID.uuid).toInt + 1
  positions : ∀ m, d'.lastPosition m =
    if m = p.entry.merchantID.uuid then p.entry.position else d.lastPosition m
  entries : d'.entries.rows = d.entries.rows ++ [p.entry.row]
  idempotency : d'.idempotency.rows = d.idempotency.rows ++ [p.record]
  outbox : d'.outbox.rows = d.outbox.rows ++ [p.event]

/-- A posting made by a request. -/
structure Posting.MadeBy (p : Posting) (jsonb : Json.Jsonb) (env : Env) (req : Request) (d : Db) :
    Prop where
  makes : req.Makes d p.attempt.merchantID p.entry
  writable : Writable p.entry.businessDate
  id : newUUIDv7 env.createdAt.nanos env.entryEntropy = .ok p.entry.id
  confirmedAt : p.entry.confirmedAt = env.createdAt.nanos
  event : ∃ eventID text payload, newUUIDv7 env.createdAt.nanos env.eventEntropy = .ok eventID ∧
    marshalEvent eventID env.createdAt.nanos p.entry req.traceparent = .ok text ∧
    jsonb.cast text = some payload ∧
    p.event = OutboxEvent.row ⟨eventID, p.entry.id, p.entry.merchantID, p.entry.position,
      entryEventType, env.createdAt.nanos, payload⟩ env.dbNow
  response : EntryResult.unmarshal p.response = some (resultFromEntry p.entry)

/-- An identifier has no NUL. -/
theorem nulFree_id (id : ID) : Json.nulFree id.text = true := by
  have hClass : ∀ p ∈ idPattern, ∀ c, p c = true → (c != '\x00') = true := by
    intro p hp c hpc
    rcases idPattern_class hp with rfl | rfl
    · refine bne_iff_ne.mpr ?_
      rintro rfl
      cases hpc
    · rw [beq_iff_eq.mp hpc]
      rfl
  exact List.all_eq_true.mpr
    (matchesAll_forall hClass (Bool.and_eq_true_iff.mp id.wellFormed).1)

/-- Nor has the response of an entry that the table accepted. -/
theorem nulFree_result {entry : Entry} (h : entrySchema.check entry.row = true) :
    (resultFromEntry entry).NulFree where
  id := nulFree_id entry.id
  merchantID := nulFree_id entry.merchantID
  type := by
    show Json.nulFree entry.entryType.text = true
    cases entry.entryType <;> rfl
  currency := rfl
  businessDate := formatDate_noNul _
  description := by
    -- the column has accepted it, unless it was empty
    show Json.nulFree entry.description = true
    by_cases hNil : entry.description = []
    · rw [hNil]
      rfl
    · simp only [entrySchema, Entry.row, if_neg hNil, Option.all_some, Bool.and_eq_true] at h
      exact h.1.2.2
  originalEntryID := by
    show Json.nulFree ((entry.originalEntryID.map ID.text).getD []) = true
    cases entry.originalEntryID with
    | none => rfl
    | some o => exact nulFree_id o
  reversalEntryID := rfl
  state := rfl

/-- What a transaction that succeeded did: it found the key claimed and changed
nothing, or it posted an entry. -/
theorem idempotentTx_ok {platform : Platform} {env : Env} {req : Request}
    {attempt : IdempotencyAttempt} {create : Tx EntryResult} {result : EntryResult} {d d' : Db}
    (hBody : req.body platform env attempt.merchantID = .ok create)
    (h : (engine jsonb).exec (idempotentTx env attempt create) d = .ok (result, d')) :
    (d' = d ∧ ∃ r ∈ d.idempotency, r.scope = attempt.row.scope ∧
      replay ⟨r.requestHash, r.responsePayload⟩ attempt.requestHash = .ok result) ∨
    (∃ p : Posting, p.attempt = attempt ∧ result = resultFromEntry p.entry ∧ d.Posts d' p ∧
      p.MadeBy jsonb env req d ∧ Dates platform env req.timeZone p.entry.businessDate) := by
  rw [idempotentTx, Engine.exec_bind_ok] at h
  obtain ⟨claim, d₁, hClaim, h⟩ := h
  -- the key was free: the body runs, and its response completes the record
  rcases claimIdempotency_ok hClaim with ⟨rfl, t, hTable, rfl⟩ | ⟨r, hr, hScope, rfl, rfl⟩
  · right
    rw [Engine.exec_bind_ok] at h
    obtain ⟨result', d₂, hCreate, h⟩ := h
    obtain ⟨entry, event, rfl, hMakes, hDate, hCreated⟩ := body_ok hBody hCreate
    simp only [Engine.exec_lift_bind_ok] at h
    obtain ⟨response, hMarshal, entryID, hEntryID, h⟩ := h
    rw [Engine.exec_bind_ok] at h
    obtain ⟨u, d₃, hComplete, h⟩ := h
    obtain ⟨payload, t₃, hCast, rfl, hRows⟩ := completeIdempotency_ok hComplete
    cases h
    have hID : entryID = entry.id := ID.ext (parseID_ok.mp hEntryID)
    have hCheck : entrySchema.check entry.row = true := by
      apply d₂.entries.checked
      rw [hCreated.entries]
      exact List.mem_append_right _ List.mem_cons_self
    obtain ⟨-, hFree, hInserted⟩ := Table.insert_eq_ok.mp hTable
    -- only the record just inserted bears the attempt's identifier
    have hOld : ∀ r ∈ d.idempotency.rows, r.attemptID ≠ attempt.attemptID.uuid := by
      intro r hr hEq
      have hClash := Table.conflicts_eq_false.mp hFree r hr
      rw [idempotencySchema, decide_eq_false_iff_not] at hClash
      exact hClash (Or.inl hEq)
    refine ⟨⟨attempt, entry, event, payload, env.completedAt.nanos⟩, rfl, rfl, ?_, ?_, hDate⟩
    · refine ⟨?_, hCreated.next, hCreated.positions, hCreated.entries, ?_, hCreated.outbox⟩
      · exact hMakes.merchant
      · -- the record inserted first is the one completed last, and no other is touched
        show t₃.rows = d.idempotency.rows ++ [_]
        rw [hRows, hCreated.idempotency]
        show t.rows.map _ = _
        rw [hInserted, List.map_append, List.map_singleton,
          if_pos (show attempt.row.attemptID = attempt.attemptID.uuid from rfl), hID]
        congr 1
        conv_rhs => rw [← List.map_id d.idempotency.rows]
        exact List.map_congr_left fun r hr => if_neg (hOld r hr)
    · exact ⟨hMakes.congr rfl, hDate.writable, hCreated.id, hCreated.confirmedAt, hCreated.event,
        unmarshal_marshal jsonb hMarshal (nulFree_result hCheck) hCast⟩
  · -- the key was taken: the stored response is replayed
    left
    obtain ⟨hReplay, rfl⟩ := (Engine.exec_lift_ok _).mp h
    exact ⟨rfl, r, hr, hScope, hReplay⟩

/-- The attempt a request makes once it has passed the checks in front of its
transaction. -/
structure Request.Attempts (req : Request) (env : Env) (attempt : IdempotencyAttempt) : Prop where
  attemptID : newUUIDv7 env.claimedAt.nanos env.attemptEntropy = .ok attempt.attemptID
  merchantID : attempt.merchantID.text = req.merchantID
  operation : attempt.operation = req.operation
  keyHash : attempt.keyHash = sha256 (utf8 req.key)
  requestHash : attempt.requestHash = req.hash
  key : req.key ≠ []
  traceparent : validateTraceparent req.traceparent = .ok ()

/-- A request that is prepared runs its body under its idempotency key. -/
theorem prepare_ok {platform : Platform} {env : Env} {req : Request} {attempt : IdempotencyAttempt}
    {tx : Tx EntryResult} (h : req.prepare platform env = .ok (attempt, tx)) :
    req.Attempts env attempt ∧ ∃ create, req.body platform env attempt.merchantID = .ok create ∧
      tx = idempotentTx env attempt create := by
  rw [Request.prepare, peel] at h
  obtain ⟨merchantID, hMerchant, h⟩ := h
  rw [peel] at h
  obtain ⟨create, hBody, h⟩ := h
  split at h
  · cases h
  · rename_i hKey
    rw [peel] at h
    obtain ⟨u, hTrace, h⟩ := h
    rw [peel] at h
    obtain ⟨attemptID, hAttempt, h⟩ := h
    cases h
    exact ⟨⟨hAttempt, parseID_ok.mp (mapError_ok.mp hMerchant), rfl, rfl, rfl, hKey,
      mapError_ok.mp hTrace⟩, create, hBody, rfl⟩

/-- A request either leaves the database as it was or posts one entry. -/
theorem run_cases (platform : Platform) (env : Env) (req : Request) (d : Db) :
    (req.run platform env d).2 = d ∨
    ∃ p : Posting, req.Attempts env p.attempt ∧ d.Posts (req.run platform env d).2 p ∧
      p.MadeBy platform.jsonb env req d ∧ Dates platform env req.timeZone p.entry.businessDate := by
  unfold Request.run
  split
  · -- refused before the transaction
    exact Or.inl rfl
  · rename_i attempt tx hPrepare
    obtain ⟨hAttempts, create, hBody, rfl⟩ := prepare_ok hPrepare
    unfold execute
    split
    · -- the transaction did not begin
      exact Or.inl rfl
    · split
      · -- it failed
        exact Or.inl rfl
      · rename_i result d' hExec
        rcases idempotentTx_ok hBody (Engine.exec_of_withFaults _ hExec) with
          ⟨rfl, -⟩ | ⟨p, rfl, -, hPosts, hMade, hDates⟩
        · -- it replayed a response
          split <;> exact Or.inl rfl
        · split
          · exact Or.inr ⟨p, hAttempts, hPosts, hMade, hDates⟩
          · -- it was rolled back
            exact Or.inl rfl
          · exact Or.inr ⟨p, hAttempts, hPosts, hMade, hDates⟩

end Cashflow.Ledger
