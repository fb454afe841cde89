import Cashflow.Lib.Machine
import Cashflow.Lib.Sha256
import Cashflow.Ledger.Repository

/-!
# Ledger — creating and reversing entries

`CreateEntry`, `ReverseEntry` and `executeIdempotent` of
`services/ledger/internal/application/service.go`. A request is first checked
outside the database (`prepare`); what is left is a program over the ledger's
statements, which `execute` runs in one transaction. Everything a request takes
from outside comes with it in an `Env`: the clock readings, the random bytes,
the faults of the database and the outcome of the commit.

Main result: `unmarshal_marshal`, the response stored for a request is read
back as the result it was made from.
-/

namespace Cashflow.Ledger

open Lib

/-! ## The surroundings of a request -/

/-- A reading of the system clock, in whole microseconds. The machine's clock is
taken to be in the years 1 to 9998. -/
structure Instant where
  micros : Int
  inRange : -62135596800000000 ≤ micros ∧ micros < 253370764800000000
deriving DecidableEq, Repr

def Instant.nanos (t : Instant) : Int := t.micros * 1000

/-- What the service runs on: the time zone database and the `jsonb` type. -/
structure Platform where
  zones : Text → Option Zone
  jsonb : Json.Jsonb

/-- What one request takes from outside. -/
structure Env where
  /-- the clock when the attempt is made, inside `create`, and at completion -/
  claimedAt : Instant
  createdAt : Instant
  completedAt : Instant
  /-- the random bytes of the attempt, the entry and the event -/
  attemptEntropy : Option (Nat → UInt8)
  entryEntropy : Option (Nat → UInt8)
  eventEntropy : Option (Nat → UInt8)
  /-- the clock of the database -/
  dbNow : Int
  begins : Option DbError
  fault : Stmt → Option DbError
  commit : CommitOutcome

/-! ## Inputs and results -/

structure CreateEntryInput where
  merchantID : Text
  idempotencyKey : Text
  type : Text
  amountMinor : Int64
  currency : Text
  businessDate : Option Text
  description : Text
  timeZone : Text
  traceparent : Text
deriving DecidableEq, Repr

structure ReverseEntryInput where
  merchantID : Text
  originalEntryID : Text
  idempotencyKey : Text
  timeZone : Text
  traceparent : Text
deriving DecidableEq, Repr

structure EntryResult where
  id : Text
  merchantID : Text
  position : Int64
  type : Text
  amountMinor : Int64
  currency : Text
  businessDate : Text
  description : Text
  confirmedAt : Int
  originalEntryID : Text
  reversalEntryID : Text
  state : Text
deriving DecidableEq, Repr

def entryStateConfirmed : Text := "confirmed".toList
def entryStateReversed : Text := "reversed".toList
def entryEventType : Text := "ledger.entry.confirmed.v1".toList

def resultFromEntry (entry : Entry) : EntryResult where
  id := entry.id.text
  merchantID := entry.merchantID.text
  position := entry.position
  type := entry.entryType.text
  amountMinor := entry.money.minor
  currency := currencyBRL
  businessDate := formatDate entry.businessDate
  description := entry.description
  confirmedAt := entry.confirmedAt
  -- an original that is absent is the empty text
  originalEntryID := (entry.originalEntryID.map ID.text).getD []
  reversalEntryID := []
  state := entryStateConfirmed

/-! ## JSON -/

/-- `time.Time` marshals in the years 0 to 9999 only. -/
def marshalTime (t : Int) : Except LedgerError Json.Scalar :=
  if 0 ≤ yearOf t ∧ yearOf t ≤ 9999 then .ok (.text (formatRFC3339Nano t)) else .error .encoding

/-- A field with the option `omitempty`. -/
def omitEmpty (name value : Text) : List (Text × Json.Scalar) :=
  if value = [] then [] else [(name, .text value)]

/-- The members of a result, in the order of its fields. -/
def EntryResult.members (r : EntryResult) (confirmedAt : Json.Scalar) : List (Text × Json.Scalar) :=
  [("entry_id".toList, .text r.id), ("merchant_id".toList, .text r.merchantID),
    ("position".toList, .int r.position.toInt), ("entry_type".toList, .text r.type),
    ("amount_minor".toList, .int r.amountMinor.toInt), ("currency".toList, .text r.currency),
    ("business_date".toList, .text r.businessDate)] ++
  omitEmpty "description".toList r.description ++
  [("confirmed_at".toList, confirmedAt)] ++
  omitEmpty "original_entry_id".toList r.originalEntryID ++
  omitEmpty "reversal_entry_id".toList r.reversalEntryID ++
  [("state".toList, .text r.state)]

def EntryResult.marshal (r : EntryResult) : Except LedgerError Text := do
  let confirmedAt ← marshalTime r.confirmedAt
  .ok (Json.renderObject (r.members confirmedAt))

/-- A field of type `time.Time`. -/
def decodeTime (old : Int) : Json → Option Int
  | .null => some old
  | .str s => parseRFC3339 s
  | _ => none

/-- A result from the members of an object. -/
def EntryResult.ofMembers (ms : List (Text × Json)) : Option EntryResult := do
  -- a later member of the same name overwrites an earlier one
  let id ← (Json.field "entry_id".toList ms).foldlM Json.decodeText []
  let merchantID ← (Json.field "merchant_id".toList ms).foldlM Json.decodeText []
  let position ← (Json.field "position".toList ms).foldlM Json.decodeInt64 0
  let type ← (Json.field "entry_type".toList ms).foldlM Json.decodeText []
  let amountMinor ← (Json.field "amount_minor".toList ms).foldlM Json.decodeInt64 0
  let currency ← (Json.field "currency".toList ms).foldlM Json.decodeText []
  let businessDate ← (Json.field "business_date".toList ms).foldlM Json.decodeText []
  let description ← (Json.field "description".toList ms).foldlM Json.decodeText []
  let confirmedAt ← (Json.field "confirmed_at".toList ms).foldlM decodeTime zeroTime
  let originalEntryID ← (Json.field "original_entry_id".toList ms).foldlM Json.decodeText []
  let reversalEntryID ← (Json.field "reversal_entry_id".toList ms).foldlM Json.decodeText []
  let state ← (Json.field "state".toList ms).foldlM Json.decodeText []
  some { id, merchantID, position, type, amountMinor, currency, businessDate, description,
         confirmedAt, originalEntryID, reversalEntryID, state }

/-- `json.Unmarshal` into an empty result; `null` changes nothing. -/
def EntryResult.unmarshal (t : Text) : Option EntryResult :=
  match Json.parse t with
  | some (.obj ms) => ofMembers ms
  | some .null => ofMembers []
  | _ => none

/-! ### The stored response is read back -/

/-- A field that is left out when it is empty. -/
theorem field_omitEmpty (key value : Text) :
    Json.field key (Json.members (omitEmpty key value)) =
      if value ≠ [] then [.str value] else [] := by
  by_cases hValue : value = [] <;>
    simp [omitEmpty, hValue, Json.members, Json.field, Json.Scalar.toJson]

theorem field_omitEmpty_other {name key : Text} (value : Text)
    (h : key.map Json.foldChar ≠ name.map Json.foldChar) :
    Json.field name (Json.members (omitEmpty key value)) = [] := by
  by_cases hValue : value = [] <;>
    simp [omitEmpty, hValue, Json.members, Json.field, h]

/-- An omitted field is empty, as it was. -/
theorem decode_omitted (value : Text) :
    (if value ≠ [] then [Json.str value] else []).foldlM Json.decodeText [] = some value := by
  split
  · rfl
  · rename_i h
    rw [not_not.mp h]
    rfl

/-- Where a field of a result is found among its members. -/
theorem field_result (r : EntryResult) (c : Json.Scalar) (name : Text) :
    Json.field name (Json.members (r.members c)) =
      Json.field name (Json.members
        [("entry_id".toList, .text r.id), ("merchant_id".toList, .text r.merchantID),
          ("position".toList, .int r.position.toInt), ("entry_type".toList, .text r.type),
          ("amount_minor".toList, .int r.amountMinor.toInt), ("currency".toList, .text r.currency),
          ("business_date".toList, .text r.businessDate)]) ++
      Json.field name (Json.members (omitEmpty "description".toList r.description)) ++
      Json.field name (Json.members [("confirmed_at".toList, c)]) ++
      Json.field name (Json.members (omitEmpty "original_entry_id".toList r.originalEntryID)) ++
      Json.field name (Json.members (omitEmpty "reversal_entry_id".toList r.reversalEntryID)) ++
      Json.field name (Json.members [("state".toList, .text r.state)]) := by
  simp only [EntryResult.members, Json.members_append, Json.field_append]

/-- The members of a result, in any order, give the result back. -/
theorem ofMembers_members {r : EntryResult} (h0 : 0 ≤ yearOf r.confirmedAt)
    (h1 : yearOf r.confirmedAt ≤ 9999) {ms : List (Text × Json)}
    (hPerm : ms.Perm (Json.members (r.members (.text (formatRFC3339Nano r.confirmedAt))))) :
    EntryResult.ofMembers ms = some r := by
  -- an integer and a time are read back from what was written
  have hInt : ∀ x : Int64, (Json.parseInt64 (Json.intLiteral x.toInt)).bind some = some x :=
    fun x => by rw [Json.parseInt64_intLiteral]; rfl
  have hTime : (parseRFC3339 (formatRFC3339Nano r.confirmedAt)).bind some = some r.confirmedAt := by
    rw [parseRFC3339_format h0 h1]
    rfl
  -- a field is decoded from the one member of its name, wherever that stands
  have hMoved : ∀ {name : Text} {vs : List Json}, vs.length ≤ 1 →
      Json.field name (Json.members (r.members (.text (formatRFC3339Nano r.confirmedAt)))) = vs →
      Json.field name ms = vs := fun hLength hField => by
    rw [Json.field_eq_of_perm hPerm (by rw [hField]; exact hLength), hField]
  -- the names that may be left out are none of the others
  have hPlain : ∀ {name : Text} {v : Json},
      "description".toList.map Json.foldChar ≠ name.map Json.foldChar ∧
      "original_entry_id".toList.map Json.foldChar ≠ name.map Json.foldChar ∧
      "reversal_entry_id".toList.map Json.foldChar ≠ name.map Json.foldChar →
      Json.field name (Json.members
        [("entry_id".toList, .text r.id), ("merchant_id".toList, .text r.merchantID),
          ("position".toList, .int r.position.toInt), ("entry_type".toList, .text r.type),
          ("amount_minor".toList, .int r.amountMinor.toInt), ("currency".toList, .text r.currency),
          ("business_date".toList, .text r.businessDate)]) ++
        Json.field name (Json.members
          [("confirmed_at".toList, .text (formatRFC3339Nano r.confirmedAt))]) ++
        Json.field name (Json.members [("state".toList, .text r.state)]) = [v] →
      Json.field name ms = [v] := fun hOther hField => by
    apply hMoved (le_refl 1)
    rw [field_result, field_omitEmpty_other _ hOther.1, field_omitEmpty_other _ hOther.2.1,
      field_omitEmpty_other _ hOther.2.2, List.append_nil, List.append_nil, List.append_nil, hField]
  have hOmitted : ∀ value : Text, (if value ≠ [] then [Json.str value] else []).length ≤ 1 := by
    intro value
    split
    · exact le_refl 1
    · exact Nat.zero_le 1
  -- the three that may be
  have hDescription : Json.field "description".toList ms =
      if r.description ≠ [] then [.str r.description] else [] := by
    apply hMoved (hOmitted _)
    rw [field_result, field_omitEmpty, field_omitEmpty_other _ (by decide),
      field_omitEmpty_other _ (by decide), List.append_nil, List.append_nil]
    exact (List.append_nil _).trans (List.append_nil _)
  have hOriginal : Json.field "original_entry_id".toList ms =
      if r.originalEntryID ≠ [] then [.str r.originalEntryID] else [] := by
    apply hMoved (hOmitted _)
    rw [field_result, field_omitEmpty, field_omitEmpty_other _ (by decide),
      field_omitEmpty_other _ (by decide), List.append_nil]
    exact List.append_nil _
  have hReversal : Json.field "reversal_entry_id".toList ms =
      if r.reversalEntryID ≠ [] then [.str r.reversalEntryID] else [] := by
    apply hMoved (hOmitted _)
    rw [field_result, field_omitEmpty, field_omitEmpty_other _ (by decide),
      field_omitEmpty_other _ (by decide)]
    exact List.append_nil _
  unfold EntryResult.ofMembers
  rw [hDescription, hOriginal, hReversal, decode_omitted, decode_omitted, decode_omitted,
    hPlain (v := .str r.id) (by decide) rfl,
    hPlain (v := .str r.merchantID) (by decide) rfl,
    hPlain (v := .num (Json.intLiteral r.position.toInt)) (by decide) rfl,
    hPlain (v := .str r.type) (by decide) rfl,
    hPlain (v := .num (Json.intLiteral r.amountMinor.toInt)) (by decide) rfl,
    hPlain (v := .str r.currency) (by decide) rfl,
    hPlain (v := .str r.businessDate) (by decide) rfl,
    hPlain (v := .str (formatRFC3339Nano r.confirmedAt)) (by decide) rfl,
    hPlain (v := .str r.state) (by decide) rfl]
  simp only [List.foldlM_cons, List.foldlM_nil, Json.decodeText, Json.decodeInt64, decodeTime,
    Option.pure_def, Option.bind_eq_bind, hInt, hTime, Option.bind_some]

/-- A time is written if its year has four digits. -/
theorem marshalTime_ok {t : Int} {v : Json.Scalar} :
    marshalTime t = .ok v ↔
      (0 ≤ yearOf t ∧ yearOf t ≤ 9999) ∧ v = .text (formatRFC3339Nano t) := by
  unfold marshalTime
  split
  · rename_i h
    simp [h, eq_comm]
  · rename_i h
    simp [h]

/-- No text of the result holds a NUL character. -/
structure EntryResult.NulFree (r : EntryResult) : Prop where
  id : Json.nulFree r.id = true
  merchantID : Json.nulFree r.merchantID = true
  type : Json.nulFree r.type = true
  currency : Json.nulFree r.currency = true
  businessDate : Json.nulFree r.businessDate = true
  description : Json.nulFree r.description = true
  originalEntryID : Json.nulFree r.originalEntryID = true
  reversalEntryID : Json.nulFree r.reversalEntryID = true
  state : Json.nulFree r.state = true

/-- What is left out has no NUL. -/
theorem omitEmpty_nulFree {name value : Text} (h : Json.nulFree value = true) :
    ∀ m ∈ omitEmpty name value, m.2.nulFree = true := by
  intro m hm
  unfold omitEmpty at hm
  split at hm
  · cases hm
  · rw [List.mem_singleton.mp hm]
    exact h

/-- The members of a response without a NUL have none. -/
theorem members_nulFree {r : EntryResult} (h : r.NulFree) (t : Int) :
    ∀ m ∈ r.members (.text (formatRFC3339Nano t)), m.2.nulFree = true := by
  intro m hm
  simp only [EntryResult.members, List.mem_append] at hm
  rcases hm with ((((hm | hm) | hm) | hm) | hm) | hm
  · simp only [List.mem_cons, List.not_mem_nil, or_false] at hm
    rcases hm with rfl | rfl | rfl | rfl | rfl | rfl | rfl
    · exact h.id
    · exact h.merchantID
    · rfl
    · exact h.type
    · rfl
    · exact h.currency
    · exact h.businessDate
  · exact omitEmpty_nulFree h.description m hm
  · rw [List.mem_singleton.mp hm]
    exact formatRFC3339Nano_noNul t
  · exact omitEmpty_nulFree h.originalEntryID m hm
  · exact omitEmpty_nulFree h.reversalEntryID m hm
  · rw [List.mem_singleton.mp hm]
    exact h.state

/-- The names a result is written under, some of which may be omitted. -/
theorem members_names (r : EntryResult) (c : Json.Scalar) : ((r.members c).map Prod.fst).Sublist
    ["entry_id".toList, "merchant_id".toList, "position".toList, "entry_type".toList,
      "amount_minor".toList, "currency".toList, "business_date".toList, "description".toList,
      "confirmed_at".toList, "original_entry_id".toList, "reversal_entry_id".toList,
      "state".toList] := by
  have hOmit : ∀ name value : Text, ((omitEmpty name value).map Prod.fst).Sublist [name] := by
    intro name value
    unfold omitEmpty
    split
    · exact List.nil_sublist _
    · exact List.Sublist.refl _
  simp only [EntryResult.members, List.map_append]
  exact (((((List.Sublist.refl _).append (hOmit _ _)).append (List.Sublist.refl _)).append
    (hOmit _ _)).append (hOmit _ _)).append (List.Sublist.refl _)

/-- No name is written twice. -/
theorem members_nodup (r : EntryResult) (c : Json.Scalar) :
    ((r.members c).map Prod.fst).Nodup :=
  List.Nodup.sublist (members_names r c) (by decide)

theorem names_nulFree (r : EntryResult) (c : Json.Scalar) :
    ((r.members c).map Prod.fst).all Json.nulFree = true := by
  refine List.all_eq_true.mpr fun name hName => ?_
  exact List.all_eq_true.mp (by decide) name ((members_names r c).subset hName)

/-- The response stored for a request is read back as the result it was made
from. -/
theorem unmarshal_marshal (jsonb : Json.Jsonb) {r : EntryResult} {t t' : Text}
    (hMarshal : r.marshal = .ok t) (hNul : r.NulFree) (hCast : jsonb.cast t = some t') :
    EntryResult.unmarshal t' = some r := by
  rw [EntryResult.marshal, peel] at hMarshal
  obtain ⟨v, hTime, hText⟩ := hMarshal
  obtain ⟨⟨h0, h1⟩, rfl⟩ := marshalTime_ok.mp hTime
  cases hText
  obtain ⟨t'', ms, hCast', hParse, hPerm⟩ := jsonb.reads _ _ (Json.parse_renderObject _)
    (members_nodup r _) (names_nulFree r _) (members_nulFree hNul r.confirmedAt)
  rw [hCast] at hCast'
  cases hCast'
  rw [EntryResult.unmarshal, hParse]
  exact ofMembers_members h0 h1 (hPerm.map _)

/-! ## The transactions -/

/-- The event of an entry, as it goes into the outbox. -/
def eventMembers (eventID : ID) (entry : Entry) (occurredAt confirmedAt : Json.Scalar)
    (traceparent : Text) : List (Text × Json.Scalar) :=
  [("event_id".toList, .text eventID.text), ("event_type".toList, .text entryEventType),
    ("occurred_at".toList, occurredAt), ("merchant_id".toList, .text entry.merchantID.text),
    ("merchant_position".toList, .int entry.position.toInt),
    ("entry_id".toList, .text entry.id.text), ("entry_type".toList, .text entry.entryType.text),
    ("amount_minor".toList, .int entry.money.minor.toInt), ("currency".toList, .text currencyBRL),
    ("business_date".toList, .text (formatDate entry.businessDate)),
    ("confirmed_at".toList, confirmedAt),
    ("original_entry_id".toList, (entry.originalEntryID.map fun o => .text o.text).getD .null),
    ("traceparent".toList, .text traceparent)]

def marshalEvent (eventID : ID) (now : Int) (entry : Entry) (traceparent : Text) :
    Except LedgerError Text := do
  let occurredAt ← marshalTime now
  let confirmedAt ← marshalTime entry.confirmedAt
  .ok (Json.renderObject (eventMembers eventID entry occurredAt confirmedAt traceparent))

def insertOutbox (env : Env) (entry : Entry) (now : Int) (traceparent : Text) : Tx Unit := do
  let eventID ← .lift (newUUIDv7 now env.eventEntropy)
  let payload ← .lift (marshalEvent eventID now entry traceparent)
  insertOutboxRow ⟨eventID, entry.id, entry.merchantID, entry.position, entryEventType, now, payload⟩
    env.dbNow

def optionalDate : Option Text → Except LedgerError (Option Int)
  | none => .ok none
  | some value => do
    let date ← parseBusinessDate value
    .ok (some date)

/-- The callback of `CreateEntry`. -/
def createTx (platform : Platform) (env : Env) (input : CreateEntryInput) (merchantID : ID) :
    Tx EntryResult := do
  -- the input is checked inside the transaction, under the claimed key
  let entryType ← .lift (parseEntryType input.type)
  let money ← .lift (newMoney input.amountMinor input.currency)
  let requestedDate ← .lift (optionalDate input.businessDate)
  let calendar ← .lift (newCalendar platform.zones input.timeZone)
  let now := env.createdAt.nanos
  let businessDate ← .lift (calendar.resolve now requestedDate)
  -- the merchant's row is locked from here to the commit
  let position ← nextPosition merchantID now
  let entryID ← .lift (newUUIDv7 now env.entryEntropy)
  let entry ← .lift (newEntry ⟨entryID, merchantID, position, entryType, money, businessDate,
    input.description, now, none⟩)
  insertEntry entry
  -- the event is written in the transaction of its entry
  insertOutbox env entry now input.traceparent
  pure (resultFromEntry entry)

/-- The callback of `ReverseEntry`. -/
def reverseTx (platform : Platform) (env : Env) (input : ReverseEntryInput)
    (merchantID originalID : ID) : Tx EntryResult := do
  let calendar ← .lift (newCalendar platform.zones input.timeZone)
  let now := env.createdAt.nanos
  -- a reversal is dated today
  let businessDate ← .lift (calendar.resolve now none)
  -- the original is locked, so that no other reversal of it slips in
  let original ← entryForUpdate merchantID originalID
  -- a reversal is not reversed
  if original.originalEntryID ≠ none then .lift (.error .reversalNotAllowed)
  else do
    let position ← nextPosition merchantID now
    let reversalID ← .lift (newUUIDv7 now env.entryEntropy)
    let reversal ← .lift (newReversal reversalID position original businessDate now)
    insertEntry reversal
    insertOutbox env reversal now input.traceparent
    pure (resultFromEntry reversal)

/-- The answer to a request whose key was claimed before. -/
def replay (record : IdempotencyRecord) (requestHash : List UInt8) :
    Except LedgerError EntryResult :=
  -- the same key for something else
  if record.requestHash ≠ requestHash then .error .idempotencyConflict
  else
    match record.responsePayload.bind EntryResult.unmarshal with
    | some result => .ok result
    | none => .error .noCompletedResponse

/-- The callback of `executeIdempotent`. -/
def idempotentTx (env : Env) (attempt : IdempotencyAttempt) (create : Tx EntryResult) :
    Tx EntryResult := do
  let claim ← claimIdempotency attempt
  match claim with
  -- the key was taken: no entry is made
  | some record => .lift (replay record attempt.requestHash)
  | none => do
    let result ← create
    let response ← .lift result.marshal
    let entryID ← .lift (parseID result.id)
    -- the response is stored for the requests to come
    completeIdempotency attempt.attemptID entryID response env.completedAt.nanos
    pure result

/-! ## Requests -/

inductive Request where
  | create (input : CreateEntryInput)
  | reverse (input : ReverseEntryInput)
deriving DecidableEq, Repr

def parseMerchant (value : Text) : Except LedgerError ID :=
  (parseID value).mapError fun _ => .invalidMerchant

/-- The fields of a request that its hash covers. -/
def Request.hashed : Request → List (Text × Json.Scalar)
  | .create input =>
    [("type".toList, .text input.type), ("amount_minor".toList, .int input.amountMinor.toInt),
      ("currency".toList, .text input.currency),
      ("business_date".toList, (input.businessDate.map .text).getD .null),
      ("description".toList, .text input.description)]
  | .reverse input => [("original_entry_id".toList, .text input.originalEntryID)]

/-- `hashJSON` of the request. -/
def Request.hash (req : Request) : List UInt8 := sha256 (utf8 (Json.renderObject req.hashed))

def Request.merchantID : Request → Text
  | .create input => input.merchantID
  | .reverse input => input.merchantID

def Request.key : Request → Text
  | .create input => input.idempotencyKey
  | .reverse input => input.idempotencyKey

def Request.traceparent : Request → Text
  | .create input => input.traceparent
  | .reverse input => input.traceparent

def Request.operation : Request → Operation
  | .create _ => .create
  | .reverse _ => .reverse

/-- The checks in front of the transaction, and the callback of the request. A
reversal has one more identifier to parse, after the merchant's. -/
def Request.body (platform : Platform) (env : Env) (req : Request) (merchantID : ID) :
    Except LedgerError (Tx EntryResult) :=
  match req with
  | .create input => .ok (createTx platform env input merchantID)
  | .reverse input => do
    let originalID ← parseID input.originalEntryID
    .ok (reverseTx platform env input merchantID originalID)

/-- What a request does before its transaction begins; the attempt it makes and
the transaction. -/
def Request.prepare (platform : Platform) (env : Env) (req : Request) :
    Except LedgerError (IdempotencyAttempt × Tx EntryResult) := do
  let merchantID ← parseMerchant req.merchantID
  let create ← req.body platform env merchantID
  if req.key = [] then .error (.wrapped "idempotency key" .invalidArgument)
  else do
    (validateTraceparent req.traceparent).mapError (.wrapped "traceparent")
    let attemptID ← newUUIDv7 env.claimedAt.nanos env.attemptEntropy
    let attempt : IdempotencyAttempt :=
      -- of the key only its hash is kept
      ⟨attemptID, merchantID, req.operation, sha256 (utf8 req.key), req.hash⟩
    .ok (attempt, idempotentTx env attempt create)

/-- `Repository.Execute`: a callback that fails is rolled back. -/
def execute {α : Type} (jsonb : Json.Jsonb) (env : Env) (callback : Tx α) (d : Db) :
    Except LedgerError α × Db :=
  match env.begins with
  | some cause => (.error (.database "begin ledger transaction" cause), d)
  | none =>
    match ((engine jsonb).withFaults env.fault).exec callback d with
    | .error e => (.error e, d)
    | .ok (result, d') =>
      match env.commit with
      | .committed => (.ok result, d')
      | .rolledBack => (.error (.database "commit ledger transaction" .unavailable), d)
      -- committed, although the answer got lost
      | .unacknowledged => (.error (.database "commit ledger transaction" .unavailable), d')

/-- `CreateEntry` and `ReverseEntry` -/
def Request.run (platform : Platform) (env : Env) (req : Request) (d : Db) :
    Except LedgerError EntryResult × Db :=
  match req.prepare platform env with
  | .error e => (.error e, d)
  | .ok (_, tx) => execute platform.jsonb env tx d

/-- The ledger that a request leaves. -/
def Request.after (platform : Platform) (env : Env) (req : Request) (d : Db) : Db :=
  (req.run platform env d).2

end Cashflow.Ledger
