import Cashflow.Consolidation.Store
import Cashflow.Consolidation.Wire
import Cashflow.Pipeline.Message

/-!
# Consolidation — consuming a delivery and reprocessing dead letters

`processDelivery` of
`services/consolidation/internal/adapters/inbound/rabbitmq/consumer.go` with the
tables it keeps its failures in (`pending_store.go`), and `Reprocess` of
`services/consolidation/internal/reconciliation/dlq.go`, which applies what those
tables hold.

The JSON schema is a parameter. Which statements fail for a reason outside the
model is an input. Columns nobody reads (`first_failed_at`, `last_failed_at`,
`next_attempt_at`, `recorded_at` and the audit of a reprocess run) are left out.
-/

namespace Cashflow.Consolidation

open Lib Pipeline

/-! ## The tables -/

inductive FailureClass where
  | retry
  | dlq
deriving DecidableEq, Repr

inductive ErrorCode where
  | unsupportedEventType
  | schemaViolation
  | domainValidation
  | identityMismatch
  | financialConflict
  | retryAttemptsExhausted
  | transientApplyError
deriving DecidableEq, Repr

/-- A row of `event_pending`. -/
structure PendingEvent where
  eventID : Text
  merchantID : Option Text
  businessDate : Option Int
  failureClass : FailureClass
  attempts : Int
  errorCode : ErrorCode
deriving DecidableEq, Repr

def pendingSchema : Schema PendingEvent where
  check r := decide (0 < r.attempts) && decide (r.attempts ≤ 2147483647)
  clash a b := decide (a.eventID = b.eventID)
  symm a b := by simp [eq_comm]

/-- A row of `dead_letter_event`; the payload is what the column gives back. -/
structure DeadLetter where
  eventID : Option Text
  merchantID : Option Text
  businessDate : Option Int
  eventType : Text
  payload : Text
  errorCode : ErrorCode
deriving DecidableEq, Repr

/-- The schema `consolidation`. -/
structure Projection where
  store : Store
  pending : Table pendingSchema
  deadLetters : List DeadLetter

def Projection.empty : Projection := ⟨Store.empty, .empty, []⟩

/-! ## Recording failures -/

/-- The row `RecordPending` leaves for an event that is pending already. -/
def PendingEvent.again (merchantID : Option Text) (businessDate : Option Int)
    (failureClass : FailureClass) (errorCode : ErrorCode) (r : PendingEvent) : PendingEvent :=
  { r with
    merchantID := r.merchantID.or merchantID
    businessDate := r.businessDate.or businessDate
    failureClass := failureClass
    attempts := r.attempts + 1
    errorCode := errorCode }

/-- `RecordPending`, with the attempts it returns; `none` is an error. -/
def recordPending (p : Projection) (eventID : Text) (merchantID : Option Text)
    (businessDate : Option Int) (failureClass : FailureClass) (errorCode : ErrorCode) :
    Option (Int × Projection) := do
  -- both identifiers are cast by the database
  let eventID ← uuidIn eventID
  let merchantID ← merchantID.mapM uuidIn
  match p.pending.find? fun r => decide (r.eventID = eventID) with
  | none =>
    -- the first failure of the event
    let pending ← (p.pending.insert
      ⟨eventID, merchantID, businessDate, failureClass, 1, errorCode⟩).toOption
    some (1, { p with pending })
  | some old =>
    -- `ON CONFLICT`: one more attempt
    let pending ← (p.pending.update (fun r => if r.eventID = eventID then
        r.again merchantID businessDate failureClass errorCode else r)
      (fun a b => by
        have hKey : ∀ r : PendingEvent, (if r.eventID = eventID then
            r.again merchantID businessDate failureClass errorCode else r).eventID = r.eventID := by
          intro r
          split <;> rfl
        simp [pendingSchema, hKey])).toOption
    some (old.attempts + 1, { p with pending })

/-- What `RecordDeadLetter` stores of a body: one that is no JSON as a JSON
string. -/
def deadLetterText (body : Text) : Text :=
  if (Json.parse body).isSome then body else Json.quote body

/-- `RecordDeadLetter`; `none` is an error. -/
def recordDeadLetter (jsonb : Json.Jsonb) (p : Projection) (eventID merchantID : Option Text)
    (businessDate : Option Int) (eventType body : Text) (errorCode : ErrorCode) :
    Option Projection := do
  if body = [] then none
  -- a text column takes no zero character
  else if Json.nulFree eventType = false then none
  else
    let payload ← jsonb.cast (deadLetterText body)
    let eventID ← eventID.mapM uuidIn
    let merchantID ← merchantID.mapM uuidIn
    some { p with
      deadLetters :=
        p.deadLetters ++ [⟨eventID, merchantID, businessDate, eventType, payload, errorCode⟩] }

/-- `ClearPending` -/
def clearPending (p : Projection) (eventID : Text) : Projection :=
  match uuidIn eventID with
  | none => p
  | some eventID => { p with pending := p.pending.delete fun r => decide (r.eventID = eventID) }

/-! ## Deciding -/

inductive Action where
  | ack
  | requeue
  | deadLetter
deriving DecidableEq, Repr

structure ProcessingResult where
  action : Action
  eventID : Text
  duplicate : Bool := false
deriving DecidableEq, Repr

structure ConsumerConfig where
  schema : Json → Bool
  jsonb : Json.Jsonb
  maxAttempts : Int

/-- One processing: the transaction of `Apply`, and which of the other
statements fail; an event is recorded as pending once for a retry and once when it
is given up. -/
structure ConsumerEnv where
  apply : Env
  deadLetterFails : Bool
  retryFails : Bool
  pendingFails : Bool
  clearFails : Bool

/-- `identityPointer` -/
def identityPointer (value : Text) : Option Text := if isUUID value then some value else none

/-- The header of that name prints as expected. -/
def headerIs (delivery : Message) (name : String) (expected : Option HeaderValue) : Bool :=
  decide (sprint (delivery.header name.toList) = sprint expected)

def validateDeliveryIdentity (delivery : Message) (event : EntryConfirmed) : Bool :=
  decide (delivery.messageID = event.eventID) && decide (delivery.type = event.eventType) &&
    decide (delivery.correlationID = event.entryID) &&
    headerIs delivery "event_id" (some (.text event.eventID)) &&
    headerIs delivery "event_type" (some (.text event.eventType)) &&
    headerIs delivery "merchant_id" (some (.text event.merchantID)) &&
    headerIs delivery "merchant_position" (some (.int event.merchantPosition)) &&
    headerIs delivery "entry_id" (some (.text event.entryID)) &&
    headerIs delivery "traceparent" (some (.text event.traceparent))

/-- What is known of a delivery that is not handed to the applier. -/
structure Isolation where
  eventID : Option Text
  merchantID : Option Text
  businessDate : Option Int
  errorCode : ErrorCode
deriving DecidableEq, Repr

/-- The checks of `processDelivery` before it calls the applier. -/
def checkDelivery (config : ConsumerConfig) (delivery : Message) : Except Isolation EntryConfirmed :=
  -- until the body is parsed, the message's own identifier is all there is
  let unread := Isolation.mk (identityPointer delivery.messageID) none none
  if delivery.type ≠ entryConfirmedV1 then .error (unread .unsupportedEventType)
  else
    match Json.parse delivery.body with
    | none => .error (unread .schemaViolation)
    | some value =>
      if config.schema value = false then .error (unread .schemaViolation)
      else
        match parseEntryConfirmed delivery.body with
        | .error _ => .error (unread .domainValidation)
        | .ok event =>
          -- from here on the event is known by its body
          if validateDeliveryIdentity delivery event then .ok event
          else .error ⟨some event.eventID, some event.merchantID, some event.businessDate,
            .identityMismatch⟩

/-- `escalate`: both records are attempted, and neither failure changes what
becomes of the delivery. -/
def escalate (config : ConsumerConfig) (env : ConsumerEnv) (p : Projection)
    (isolation : Isolation) (eventType body : Text) : ProcessingResult × Projection :=
  let p := if env.deadLetterFails then p else
    (recordDeadLetter config.jsonb p isolation.eventID isolation.merchantID
      isolation.businessDate eventType body isolation.errorCode).getD p
  match isolation.eventID with
  -- without an event there is nothing to count
  | none => (⟨.deadLetter, [], false⟩, p)
  | some eventID =>
    let p := if env.pendingFails then p else
      ((recordPending p eventID isolation.merchantID isolation.businessDate .dlq
        isolation.errorCode).map Prod.snd).getD p
    (⟨.deadLetter, eventID, false⟩, p)

/-- The map `mustMarshalEvent` writes: the members of a Go map are written in the
order of their names. -/
def wireMembers (event : EntryConfirmed) : List (Text × Json.Scalar) :=
  [("amount_minor".toList, .int event.amountMinor.toInt),
    ("business_date".toList, .text (formatDate event.businessDate)),
    ("confirmed_at".toList, .text (formatRFC3339Nano event.confirmedAt)),
    ("currency".toList, .text event.currency), ("entry_id".toList, .text event.entryID),
    ("entry_type".toList, .text event.entryType), ("event_id".toList, .text event.eventID),
    ("event_type".toList, .text event.eventType), ("merchant_id".toList, .text event.merchantID),
    ("merchant_position".toList, .int event.merchantPosition.toInt),
    ("occurred_at".toList, .text (formatRFC3339Nano event.occurredAt)),
    ("original_entry_id".toList, (event.originalEntryID.map fun o => .text o).getD .null),
    ("traceparent".toList, .text event.traceparent)]

/-- `mustMarshalEvent` -/
def mustMarshalEvent (event : EntryConfirmed) : Text := Json.renderObject (wireMembers event)

/-- `Projector.Apply` -/
def Projector.apply (env : Env) (s : Store) (event : EntryConfirmed) :
    Except StoreError ProjectionResult × Store :=
  match event.validate with
  | .error e => (.error (.validation e), s)
  | .ok () => Consolidation.apply env s event.canonical

/-- `Projector.ApplyPayload` -/
def Projector.applyPayload (env : Env) (s : Store) (payload : Text) :
    Except StoreError ProjectionResult × Store :=
  match parseEntryConfirmed payload with
  | .error e => (.error (.validation e), s)
  | .ok event => Projector.apply env s event

def classifyFailure : StoreError → FailureClass
  | .validation _ => .dlq
  | .conflict _ => .dlq
  | .persistence _ => .retry

/-- The record of another attempt, with the attempts so far; a failure counts as
none. -/
def recordRetry (env : ConsumerEnv) (p : Projection) (event : EntryConfirmed) : Int × Projection :=
  if env.retryFails then (0, p) else
    (recordPending p event.eventID (some event.merchantID) (some event.businessDate) .retry
      .transientApplyError).getD (0, p)

def classifyApplyFailure (config : ConsumerConfig) (env : ConsumerEnv) (p : Projection)
    (event : EntryConfirmed) (applyErr : StoreError) : ProcessingResult × Projection :=
  let parsed := Isolation.mk (some event.eventID) (some event.merchantID) (some event.businessDate)
  match classifyFailure applyErr with
  -- this delivery is made up of a body alone, the one below has a type as well
  | .dlq => escalate config env p (parsed .financialConflict) [] (mustMarshalEvent event)
  | .retry =>
    let (attempts, p) := recordRetry env p event
    -- a count that could not be written is zero, so the event is put back
    if config.maxAttempts ≤ attempts then
      escalate config env p (parsed .retryAttemptsExhausted) event.eventType
        (mustMarshalEvent event)
    else (⟨.requeue, event.eventID, false⟩, p)

def processDelivery (config : ConsumerConfig) (env : ConsumerEnv) (p : Projection)
    (delivery : Message) : ProcessingResult × Projection :=
  match checkDelivery config delivery with
  | .error isolation => escalate config env p isolation delivery.type delivery.body
  | .ok event =>
    let (outcome, store) := Projector.apply env.apply p.store event
    let p := { p with store }
    match outcome with
    | .error applyErr => classifyApplyFailure config env p event applyErr
    | .ok result =>
      -- an event that was applied is not pending any more, if that can be written
      let p := if env.clearFails then p else clearPending p event.eventID
      (⟨.ack, event.eventID, result.duplicate⟩, p)

/-! ## Reprocessing -/

/-- The rows `Reprocess` reads: dead letters of events that are pending as dead
letters, in the order of their identifiers. -/
def dlqItems (p : Projection) : List (Text × DeadLetter) :=
  (p.deadLetters.filterMap fun d => do
    let eventID ← d.eventID
    if p.pending.rows.any fun r => decide (r.eventID = eventID) && decide (r.failureClass = .dlq)
      then some (eventID, d) else none).insertionSort fun a b => a.1 ≤ b.1

structure ItemEnv where
  apply : Env
  deletePendingFails : Bool
  deleteDeadLetterFails : Bool

/-- One turn of the loop of `Reprocess`: what it counts, and the tables. -/
def reprocessItem (env : ItemEnv) (p : Projection) (item : Text × DeadLetter) :
    Bool × Projection :=
  let (outcome, store) := Projector.applyPayload env.apply p.store item.2.payload
  let p := { p with store }
  match outcome with
  -- what fails again stays a dead letter
  | .error _ => (false, p)
  | .ok _ =>
    -- applied, and still listed: the next run finds it a duplicate
    if env.deletePendingFails then (false, p)
    else
      let p := { p with
        pending := p.pending.delete fun r =>
          decide (r.eventID = item.1) && decide (r.failureClass = .dlq) }
      if env.deleteDeadLetterFails then (false, p)
      else
        (true, { p with
          deadLetters := p.deadLetters.filter fun d => decide (d.eventID ≠ some item.1) })

structure ReprocessResult where
  reprocessed : Nat
  failed : Nat
deriving DecidableEq, Repr

/-- The loop of `Reprocess`; the environment is that of each item in turn. -/
def reprocessItems (env : Nat → ItemEnv) (p : Projection) :
    List (Text × DeadLetter) → ReprocessResult × Projection
  | [] => (⟨0, 0⟩, p)
  | item :: items =>
    let (ok, p) := reprocessItem (env 0) p item
    let (result, p) := reprocessItems (fun i => env (i + 1)) p items
    (if ok then { result with reprocessed := result.reprocessed + 1 }
      else { result with failed := result.failed + 1 }, p)

def reprocess (env : Nat → ItemEnv) (p : Projection) : ReprocessResult × Projection :=
  reprocessItems env p (dlqItems p)

end Cashflow.Consolidation
