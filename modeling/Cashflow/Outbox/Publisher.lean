import Cashflow.Ledger.Service
import Cashflow.Pipeline.Message

/-!
# Outbox — checking and wrapping an event

`validateEnvelope`, `publishingForEvent` and `validatePublishingIdentity` of
`services/ledger/internal/outbox/rabbitmq.go`: before an event is sent its
payload is compared with the row it was claimed from.
-/

namespace Cashflow.Outbox

open Lib Pipeline

/-- `EventType` -/
def eventType : Text := "ledger.entry.confirmed.v1".toList

/-- An event as `Claim` returns it. -/
structure Event where
  eventID : Text
  aggregateID : Text
  merchantID : Text
  merchantPosition : Int64
  eventType : Text
  payload : Text
  occurredAt : Int
  createdAt : Int
  attempts : Int
  leaseOwner : Text
  leaseUntil : Int
deriving DecidableEq, Repr

inductive PublishError where
  | unsupportedEventType (type : Text)
  | decodePayload
  | schemaViolation
  | decodeEnvelope
  | prohibitedField (name : Text)
  | decodeTypedEnvelope
  | identityMismatch
  | headerMismatch (name : Text)
  | propertyMismatch
  | unavailable
  | notConfirmed
  | unroutable
  | timeout
  | interrupted
deriving DecidableEq, Repr

/-! ## Sensitive fields -/

def prohibitedPayloadFields : List Text :=
  ["authorization", "cardnumber", "credential", "credentials", "cvv", "cvv2", "description", "jwt",
    "pan", "password", "secret", "clientsecret", "token", "accesstoken", "refreshtoken",
    "apikey"].map String.toList

def prohibitedPayloadFamilies : List Text :=
  ["authorization", "cardnumber", "credential", "cvv", "description", "password", "secret", "token",
    "apikey"].map String.toList

/-- Letters in lower case and digits; anything else is dropped. -/
def normalizePayloadField (name : Text) : Text :=
  name.filterMap fun c =>
    if 'A' ≤ c ∧ c ≤ 'Z' then some c.toLower
    else if ('a' ≤ c ∧ c ≤ 'z') ∨ ('0' ≤ c ∧ c ≤ '9') then some c
    else none

def prohibitedName (name : Text) : Bool :=
  let normalized := normalizePayloadField name
  prohibitedPayloadFields.contains normalized ||
    prohibitedPayloadFamilies.any fun family => decide (family <:+: normalized)

mutual

/-- The name of a prohibited field at any depth. Go ranges over maps, so which of
several is reported is not fixed there; a later member replaces an earlier one of
the same name. -/
def prohibitedField : Json → Option Text
  | .obj ms => prohibitedMembers ms
  | .arr elems => prohibitedElems elems
  | _ => none

def prohibitedMembers : List (Text × Json) → Option Text
  | [] => none
  | (name, value) :: ms =>
    if ms.any fun m => m.1 = name then prohibitedMembers ms
    else if prohibitedName name then some name
    else (prohibitedField value).or (prohibitedMembers ms)

def prohibitedElems : List Json → Option Text
  | [] => none
  | e :: es => (prohibitedField e).or (prohibitedElems es)

end

/-! ## The envelope -/

structure EventEnvelope where
  eventID : Text
  eventType : Text
  occurredAt : Int
  merchantID : Text
  merchantPosition : Int64
  entryID : Text
  confirmedAt : Int
  traceparent : Text
deriving DecidableEq, Repr

def EventEnvelope.ofMembers (ms : List (Text × Json)) : Option EventEnvelope := do
  let eventID ← (Json.field "event_id".toList ms).foldlM Json.decodeText []
  let eventType ← (Json.field "event_type".toList ms).foldlM Json.decodeText []
  let occurredAt ← (Json.field "occurred_at".toList ms).foldlM Ledger.decodeTime zeroTime
  let merchantID ← (Json.field "merchant_id".toList ms).foldlM Json.decodeText []
  let merchantPosition ← (Json.field "merchant_position".toList ms).foldlM Json.decodeInt64 0
  let entryID ← (Json.field "entry_id".toList ms).foldlM Json.decodeText []
  let confirmedAt ← (Json.field "confirmed_at".toList ms).foldlM Ledger.decodeTime zeroTime
  let traceparent ← (Json.field "traceparent".toList ms).foldlM Json.decodeText []
  some { eventID, eventType, occurredAt, merchantID, merchantPosition, entryID, confirmedAt,
         traceparent }

/-- The payload says what the row says. -/
def EventEnvelope.matchesRow (envelope : EventEnvelope) (event : Event) : Bool :=
  envelope.eventID == event.eventID && envelope.eventType == event.eventType &&
    envelope.merchantID == event.merchantID &&
    envelope.merchantPosition == event.merchantPosition &&
    envelope.entryID == event.aggregateID && envelope.occurredAt == event.occurredAt &&
    envelope.confirmedAt == event.occurredAt

def validateEnvelope (event : Event) : Except PublishError EventEnvelope := do
  -- decoded twice: into a map for the names, then into the fields
  let members ←
    match Json.parse event.payload with
    | some (.obj ms) => .ok ms
    | some .null => .ok []
    | _ => .error .decodeEnvelope
  match prohibitedMembers members with
  | some name => .error (.prohibitedField name)
  | none =>
    match EventEnvelope.ofMembers members with
    | none => .error .decodeTypedEnvelope
    | some envelope =>
      if envelope.matchesRow event then .ok envelope else .error .identityMismatch

/-! ## The message -/

def publishingForEvent (event : Event) (envelope : EventEnvelope) : Message where
  headers :=
    [("event_id".toList, .text event.eventID), ("event_type".toList, .text event.eventType),
      ("merchant_id".toList, .text event.merchantID),
      ("merchant_position".toList, .int event.merchantPosition),
      ("entry_id".toList, .text envelope.entryID),
      ("traceparent".toList, .text envelope.traceparent),
      ("occurred_at".toList, .text (formatRFC3339Nano event.occurredAt)),
      ("confirmed_at".toList, .text (formatRFC3339Nano envelope.confirmedAt))]
  contentType := "application/json".toList
  -- survives a restart of the broker
  persistent := true
  messageID := event.eventID
  correlationID := event.aggregateID
  timestamp := event.occurredAt
  type := event.eventType
  appID := "outbox-publisher".toList
  body := event.payload

/-- The headers `validatePublishingIdentity` expects. -/
def wantHeaders (event : Event) (envelope : EventEnvelope) : List (Text × HeaderValue) :=
  [("event_id".toList, .text event.eventID), ("event_type".toList, .text event.eventType),
    ("merchant_id".toList, .text event.merchantID),
    ("merchant_position".toList, .int event.merchantPosition),
    ("entry_id".toList, .text envelope.entryID),
    ("traceparent".toList, .text envelope.traceparent),
    ("occurred_at".toList, .text (formatRFC3339Nano event.occurredAt)),
    ("confirmed_at".toList, .text (formatRFC3339Nano envelope.confirmedAt))]

/-- `validatePublishingIdentity`. Go ranges over a map, so which of several
headers is reported is not fixed there. -/
def validatePublishingIdentity (publishing : Message) (event : Event)
    (envelope : EventEnvelope) : Except PublishError Unit :=
  match (wantHeaders event envelope).find? fun want =>
      -- headers are compared as they print
      decide (sprint (publishing.header want.1) ≠ sprint (some want.2)) with
  | some want => .error (.headerMismatch want.1)
  | none =>
    if publishing.messageID ≠ event.eventID ∨ publishing.correlationID ≠ event.aggregateID ∨
        publishing.type ≠ event.eventType ∨ publishing.timestamp ≠ event.occurredAt ∨
        publishing.persistent = false ∨ publishing.contentType ≠ "application/json".toList ∨
        publishing.appID ≠ "outbox-publisher".toList then
      .error .propertyMismatch
    else .ok ()

/-- What `Publish` sends for an event, after its checks. -/
def publication (schema : Json → Bool) (event : Event) : Except PublishError Message := do
  if event.eventType ≠ eventType then .error (.unsupportedEventType event.eventType)
  else
    match Json.parse event.payload with
    | none => .error .decodePayload
    | some value =>
      -- the schema, and then what the schema cannot say
      if schema value = false then .error .schemaViolation
      else
        let envelope ← validateEnvelope event
        validatePublishingIdentity (publishingForEvent event envelope) event envelope
        .ok (publishingForEvent event envelope)

/-- What is sent is the message of an accepted envelope. -/
theorem publication_ok {schema : Json → Bool} {event : Event} {m : Message}
    (h : publication schema event = .ok m) :
    ∃ envelope, validateEnvelope event = .ok envelope ∧ m = publishingForEvent event envelope := by
  unfold publication at h
  split at h
  · cases h
  split at h
  · cases h
  split at h
  · cases h
  simp only [peel, Except.ok.injEq] at h
  obtain ⟨envelope, hEnvelope, _, -, rfl⟩ := h
  exact ⟨envelope, hEnvelope, rfl⟩

end Cashflow.Outbox
