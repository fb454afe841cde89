import Cashflow.Lib.Json
import Cashflow.Consolidation.Event

/-!
# Consolidation — the event on the wire

`ParseEntryConfirmed` of `services/consolidation/internal/domain/event.go`: one
JSON value is decoded into the fields of the event, times and dates are parsed,
the result is validated and brought into canonical form. Bodies are texts; the
decoder reads a byte that is no UTF-8 as the replacement character, which
`Lib.runes` has done before.

Main result: `parseEntryConfirmed_valid`.
-/

namespace Cashflow.Consolidation

open Lib

/-- The fields of the JSON object; `originalEntryID` is absent, or the value it
was given. -/
structure EventWire where
  eventID : Text
  eventType : Text
  occurredAt : Text
  merchantID : Text
  merchantPosition : Int64
  entryID : Text
  entryType : Text
  amountMinor : Int64
  currency : Text
  businessDate : Text
  confirmedAt : Text
  originalEntryID : Option Json
  traceparent : Text

def EventWire.ofMembers (ms : List (Text × Json)) : Option EventWire := do
  -- a later member of the same name overwrites an earlier one
  let eventID ← (Json.field "event_id".toList ms).foldlM Json.decodeText []
  let eventType ← (Json.field "event_type".toList ms).foldlM Json.decodeText []
  let occurredAt ← (Json.field "occurred_at".toList ms).foldlM Json.decodeText []
  let merchantID ← (Json.field "merchant_id".toList ms).foldlM Json.decodeText []
  let merchantPosition ← (Json.field "merchant_position".toList ms).foldlM Json.decodeInt64 0
  let entryID ← (Json.field "entry_id".toList ms).foldlM Json.decodeText []
  let entryType ← (Json.field "entry_type".toList ms).foldlM Json.decodeText []
  let amountMinor ← (Json.field "amount_minor".toList ms).foldlM Json.decodeInt64 0
  let currency ← (Json.field "currency".toList ms).foldlM Json.decodeText []
  let businessDate ← (Json.field "business_date".toList ms).foldlM Json.decodeText []
  let confirmedAt ← (Json.field "confirmed_at".toList ms).foldlM Json.decodeText []
  let traceparent ← (Json.field "traceparent".toList ms).foldlM Json.decodeText []
  -- the original is decoded later, as it may be `null`
  some { eventID, eventType, occurredAt, merchantID, merchantPosition, entryID, entryType,
         amountMinor, currency, businessDate, confirmedAt,
         originalEntryID := (Json.field "original_entry_id".toList ms).getLast?, traceparent }

/-- The decoder takes an object, and `null` as one without members. -/
def EventWire.ofJson : Json → Option EventWire
  | .obj ms => ofMembers ms
  | .null => ofMembers []
  | _ => none

/-- Nothing but white space may follow the value. -/
def ensureSingleJSONValue (rest : Text) : Except ValidationError Unit :=
  if Json.skipSpace rest = [] then .ok ()
  else if (Json.parseValue (rest.length + 1) rest).isSome then
    .error ⟨"payload", "must contain one JSON object"⟩
  else .error ⟨"payload", "contains trailing invalid data"⟩

def parseTime (field : String) (value : Text) : Except ValidationError Int :=
  match parseRFC3339 value with
  | some t => .ok t
  | none => .error ⟨field, "must be an RFC3339 timestamp"⟩

def parseOriginal : Option Json → Except ValidationError (Option Text)
  | none => .error ⟨"original_entry_id", "is required (use null when absent)"⟩
  | some .null => .ok none
  | some (.str s) => .ok (some s)
  | some _ => .error ⟨"original_entry_id", "must be null or a UUID"⟩

/-- The event the fields stand for, before validation. -/
def EventWire.event (w : EventWire) : Except ValidationError EntryConfirmed := do
  let occurredAt ← parseTime "occurred_at" w.occurredAt
  let confirmedAt ← parseTime "confirmed_at" w.confirmedAt
  let businessDate ←
    match parseDate w.businessDate with
    | some d => .ok d
    | none => .error ⟨"business_date", "must use YYYY-MM-DD"⟩
  let originalEntryID ← parseOriginal w.originalEntryID
  .ok { eventID := w.eventID
        eventType := w.eventType
        occurredAt
        merchantID := w.merchantID
        merchantPosition := w.merchantPosition
        entryID := w.entryID
        entryType := w.entryType
        amountMinor := w.amountMinor
        currency := w.currency
        businessDate
        confirmedAt
        originalEntryID
        traceparent := w.traceparent }

def parseEntryConfirmed (payload : Text) : Except ValidationError EntryConfirmed :=
  match Json.parseValue (payload.length + 1) payload with
  | none => .error ⟨"payload", "must be valid JSON"⟩
  | some (value, rest) =>
    match EventWire.ofJson value with
    | none => .error ⟨"payload", "must be valid JSON"⟩
    | some wire => do
      -- nothing may follow the object
      ensureSingleJSONValue rest
      let event ← wire.event
      event.validate
      .ok event.canonical

/-- A payload that is one JSON object. -/
theorem parseEntryConfirmed_obj {payload : Text} {ms : List (Text × Json)}
    (h : Json.parse payload = some (.obj ms)) {wire : EventWire}
    (hWire : EventWire.ofMembers ms = some wire) :
    parseEntryConfirmed payload = (do
      let event ← wire.event
      event.validate
      .ok event.canonical) := by
  unfold Json.parse at h
  split at h
  · rename_i value rest hValue
    split at h
    · rename_i hRest
      rw [Option.some.injEq] at h
      subst h
      have hOf : EventWire.ofJson (.obj ms) = some wire := hWire
      simp only [parseEntryConfirmed, hValue, hOf, ensureSingleJSONValue, hRest, if_true]
      rfl
    · cases h
  · cases h

/-- What is accepted is valid and canonical. -/
theorem parseEntryConfirmed_valid {payload : Text} {e : EntryConfirmed}
    (h : parseEntryConfirmed payload = .ok e) : e.Valid ∧ e.canonical = e := by
  unfold parseEntryConfirmed at h
  split at h
  · cases h
  · split at h
    · cases h
    · rw [peel] at h
      obtain ⟨_, -, h⟩ := h
      rw [peel] at h
      obtain ⟨event, -, h⟩ := h
      rw [peel] at h
      obtain ⟨_, hValid, h⟩ := h
      cases h
      exact ⟨canonical_valid ((validate_iff event).mp hValid), canonical_canonical event⟩

end Cashflow.Consolidation
