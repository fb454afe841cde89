import Cashflow.Consolidation.Marshal
import Cashflow.Ledger.Pagination
import Cashflow.Outbox.Store
import Cashflow.Pipeline.Mirror

/-!
# Pipeline — what the ledger writes, the publisher sends and the consumer accepts

The ledger, the outbox publisher and the consumer each check an event by their
own rules. For the event of every entry a request posts:

* `event_agrees_iff` — the publisher accepts the row, the consumer accepts the
  payload and the message, and the event it reads says what the entry says,
  exactly when the merchant identifier of the entry is in lower case and has a
  version and a variant the consumer knows;
* `upper_case_merchant_unpublishable` — a merchant identifier in capital letters
  posts an entry whose event is never published.
-/

namespace Cashflow.Pipeline

open Lib Ledger Outbox Consolidation

/-! ## Identifiers -/

theorem toLower_lowerHex {c : Char} (h : isLowerHex c = true) : c.toLower = c := by
  have hAll : ∀ n < 128, isLowerHex (Char.ofNat n) = true →
      (Char.ofNat n).toLower = Char.ofNat n := by decide
  exact forall_ascii (P := fun c => isLowerHex c = true → c.toLower = c) hAll
    (isAscii_of_isHex (isHex_of_isLowerHex h)) h

/-- A generated identifier is in lower case. -/
theorem lower_v7 {s : Text} (h : matchesAll uuidV7Pattern s = true) : lower s = s := by
  -- every class of the pattern holds lower-case digits and hyphens only
  have hClass : ∀ p ∈ uuidV7Pattern, ∀ c, p c = true → (isLowerHex c || isDash c) = true := by
    intro p hp c hpc
    have hCases : p = isLowerHex ∨ p = isDash ∨ p = (fun c => c == '7') ∨
        p = (fun c => c == '8' || c == '9' || c == 'a' || c == 'b') := by
      simp only [uuidV7Pattern, List.mem_append, List.mem_replicate, List.mem_singleton] at hp
      tauto
    rcases hCases with rfl | rfl | rfl | rfl
    · rw [hpc]
      rfl
    · rw [hpc, Bool.or_true]
    · rw [beq_iff_eq.mp hpc]
      rfl
    · simp only [Bool.or_eq_true, beq_iff_eq] at hpc
      rcases hpc with ((rfl | rfl) | rfl) | rfl <;> rfl
  have hChar : ∀ c ∈ s, c.toLower = c := by
    intro c hc
    have hEither := matchesAll_forall hClass h c hc
    rw [Bool.or_eq_true] at hEither
    rcases hEither with hHex | hDash
    · exact toLower_lowerHex hHex
    · rw [beq_iff_eq.mp hDash]
      rfl
  exact (List.map_congr_left hChar).trans (List.map_id s)

/-- A generated identifier has the shape the consumer asks for. -/
theorem isUUID_v7 {s : Text} (h : matchesAll uuidV7Pattern s = true) : isUUID s = true := by
  rw [isUUID, ← List.map_id s]
  apply matchesAll_map h
  simp only [uuidV7Pattern, uuidPattern, List.replicate, List.cons_append, List.nil_append]
  repeat' apply List.Forall₂.cons
  all_goals first
    | exact List.Forall₂.nil
    | exact fun c hc => isHex_of_isLowerHex hc
    | exact fun c hc => hc
    | (intro c hc
       simp only [Bool.or_eq_true, beq_iff_eq] at hc
       rcases hc with ((rfl | rfl) | rfl) | rfl <;> rfl)

/-- A dash, and what follows it. -/
theorem drop_dash {value : Text} {i : Nat} (h : value[i]? = some '-') :
    value.drop i = '-' :: value.drop (i + 1) := by
  obtain ⟨hi, hDash⟩ := List.getElem?_eq_some_iff.mp h
  rw [List.drop_eq_getElem_cons hi, hDash]

/-- What the ledger accepts as a trace context, the consumer accepts. -/
theorem isTraceparent_of_validate {value : Text} (h : validateTraceparent value = .ok ()) :
    isTraceparent value = true := by
  simp only [validateTraceparent] at h
  split at h
  · cases h
  rename_i hShape
  split at h
  · cases h
  rename_i hDigits
  simp only [not_or, not_not] at hShape
  obtain ⟨hLength, hDash₁, hDash₂, hDash₃⟩ := hShape
  simp only [Bool.or_eq_true, Bool.not_eq_true', not_or, Bool.not_eq_false] at hDigits
  obtain ⟨⟨⟨⟨⟨⟨⟨hVersion, hTrace⟩, hParent⟩, hFlags⟩, -⟩, -⟩, -⟩, -⟩ := hDigits
  have hHex : ∀ {n : Nat} {l : Text}, l.length = n → lowerHex l = true →
      matchesAll (List.replicate n isLowerHex) l = true :=
    fun hLen hLower => matchesAll_replicate hLen (List.all_eq_true.mp hLower)
  -- four groups of digits with dashes between them
  have hSplit : value = value.take 2 ++ ['-'] ++ (value.drop 3).take 32 ++ ['-'] ++
      (value.drop 36).take 16 ++ ['-'] ++ (value.drop 53).take 2 := by
    have hEnd : (value.drop 53).take 2 = value.drop 53 :=
      List.take_of_length_le (by rw [List.length_drop]; omega)
    calc value = value.take 2 ++ value.drop 2 := (List.take_append_drop 2 value).symm
      _ = value.take 2 ++ '-' :: value.drop 3 := by rw [drop_dash hDash₁]
      _ = value.take 2 ++ '-' :: ((value.drop 3).take 32 ++ value.drop 35) := by
        rw [← List.drop_drop (i := 32), List.take_append_drop]
      _ = value.take 2 ++ '-' :: ((value.drop 3).take 32 ++ '-' :: ((value.drop 36).take 16 ++
          value.drop 52)) := by
        rw [drop_dash hDash₂, ← List.drop_drop (i := 16) (j := 36), List.take_append_drop]
      _ = _ := by
        rw [drop_dash hDash₃, hEnd]
        simp
  rw [isTraceparent, hSplit]
  exact matchesAll_append (matchesAll_append (matchesAll_append (matchesAll_append
    (matchesAll_append (matchesAll_append
      (hHex (by simp [hLength]) hVersion) rfl) (hHex (by simp [hLength]) hTrace)) rfl)
      (hHex (by simp [hLength]) hParent)) rfl) (hHex (by simp [hLength]) hFlags)

/-! ## The payload -/

section Payload

variable {eventID : ID} {entry : Entry} {now : Int} {traceparent : Text}

/-- The members of a payload, with its times written out. -/
def payloadMembers (eventID : ID) (entry : Entry) (now : Int) (traceparent : Text) :
    List (Text × Json.Scalar) :=
  eventMembers eventID entry (.text (formatRFC3339Nano now))
    (.text (formatRFC3339Nano entry.confirmedAt)) traceparent

/-- The names of the members are different, and a column can keep them. -/
theorem payload_names :
    ((payloadMembers eventID entry now traceparent).map Prod.fst).Nodup ∧
      ((payloadMembers eventID entry now traceparent).map Prod.fst).all Json.nulFree = true ∧
      ∀ name ∈ (payloadMembers eventID entry now traceparent).map Prod.fst,
        prohibitedName name = false := by
  simp only [payloadMembers, eventMembers, List.map_cons, List.map_nil]
  decide +kernel

/-- A field is decoded from the one member of its name, wherever that stands. -/
theorem field_payload {ms : List (Text × Json)}
    (hPerm : ms.Perm (Json.members (payloadMembers eventID entry now traceparent)))
    {name : Text} {v : Json}
    (h : Json.field name (Json.members (payloadMembers eventID entry now traceparent)) = [v]) :
    Json.field name ms = [v] := by
  rw [Json.field_eq_of_perm hPerm (by rw [h]; exact Nat.le_refl 1), h]

/-- What the publisher reads of a payload. -/
def payloadEnvelope (eventID : ID) (entry : Entry) (now : Int) (traceparent : Text) :
    EventEnvelope where
  eventID := eventID.text
  eventType := entryEventType
  occurredAt := now
  merchantID := entry.merchantID.text
  merchantPosition := entry.position
  entryID := entry.id.text
  confirmedAt := entry.confirmedAt
  traceparent := traceparent

/-- The event that says what the entry says, with identifiers in the letters of
the entry. -/
def entryEvent (eventID : ID) (entry : Entry) (now : Int) (traceparent : Text) :
    EntryConfirmed where
  eventID := eventID.text
  eventType := entryEventType
  occurredAt := now
  merchantID := entry.merchantID.text
  merchantPosition := entry.position
  entryID := entry.id.text
  entryType := entry.entryType.text
  amountMinor := entry.money.minor
  currency := Ledger.currencyBRL
  businessDate := entry.businessDate
  confirmedAt := entry.confirmedAt
  originalEntryID := entry.originalEntryID.map ID.text
  traceparent := traceparent

theorem envelope_payload {ms : List (Text × Json)}
    (hPerm : ms.Perm (Json.members (payloadMembers eventID entry now traceparent)))
    (hNow : 0 ≤ yearOf now ∧ yearOf now ≤ 9999)
    (hConfirmed : 0 ≤ yearOf entry.confirmedAt ∧ yearOf entry.confirmedAt ≤ 9999) :
    EventEnvelope.ofMembers ms = some (payloadEnvelope eventID entry now traceparent) := by
  -- what was written is read back
  have hInt : ∀ x : Int64, (Json.parseInt64 (Json.intLiteral x.toInt)).bind some = some x :=
    fun x => by rw [Json.parseInt64_intLiteral]; rfl
  have hTime : ∀ {t : Int}, 0 ≤ yearOf t ∧ yearOf t ≤ 9999 →
      (parseRFC3339 (formatRFC3339Nano t)).bind some = some t :=
    fun h => by rw [parseRFC3339_format h.1 h.2]; rfl
  unfold EventEnvelope.ofMembers
  rw [field_payload hPerm (v := .str eventID.text) rfl,
    field_payload hPerm (v := .str entryEventType) rfl,
    field_payload hPerm (v := .str (formatRFC3339Nano now)) rfl,
    field_payload hPerm (v := .str entry.merchantID.text) rfl,
    field_payload hPerm (v := .num (Json.intLiteral entry.position.toInt)) rfl,
    field_payload hPerm (v := .str entry.id.text) rfl,
    field_payload hPerm (v := .str (formatRFC3339Nano entry.confirmedAt)) rfl,
    field_payload hPerm (v := .str traceparent) rfl]
  simp only [List.foldlM_cons, List.foldlM_nil, Json.decodeText, Json.decodeInt64, decodeTime,
    Option.pure_def, Option.bind_eq_bind, hInt, hTime hNow, hTime hConfirmed, Option.bind_some]
  rfl

/-- The ledger writes the members of that event in another order. -/
theorem payload_perm : (payloadMembers eventID entry now traceparent).Perm
    (wireMembers (entryEvent eventID entry now traceparent)) := by
  have hLeft : (payloadMembers eventID entry now traceparent).Nodup :=
    List.Nodup.of_map Prod.fst payload_names.1
  have hOriginal : (((entry.originalEntryID.map ID.text).map fun o => Json.Scalar.text o).getD .null) =
      (entry.originalEntryID.map fun o => Json.Scalar.text o.text).getD .null := by
    rw [Option.map_map]
    rfl
  refine (List.subperm_of_subset hLeft ?_).perm_of_length_le (Nat.le_refl 13)
  intro m hm
  simp only [payloadMembers, eventMembers, List.mem_cons, List.not_mem_nil, or_false] at hm
  simp only [wireMembers, entryEvent, hOriginal, List.mem_cons]
  rcases hm with rfl | rfl | rfl | rfl | rfl | rfl | rfl | rfl | rfl | rfl | rfl | rfl | rfl <;>
    simp only [true_or, or_true]

/-- No member of a payload has a prohibited name. -/
theorem prohibited_payload {ms : List (Text × Json)}
    (hPerm : ms.Perm (Json.members (payloadMembers eventID entry now traceparent))) :
    prohibitedMembers ms = none := by
  -- the names are fixed, and scalars have no members
  have hNames : ∀ m ∈ Json.members (payloadMembers eventID entry now traceparent),
      prohibitedName m.1 = false ∧ prohibitedField m.2 = none := by
    intro m hm
    obtain ⟨⟨name, v⟩, hMem, rfl⟩ := List.mem_map.mp hm
    constructor
    · exact payload_names.2.2 name (List.mem_map_of_mem (f := Prod.fst) hMem)
    · cases v <;> simp [Json.Scalar.toJson, prohibitedField]
  have hNone : ∀ l : List (Text × Json),
      (∀ m ∈ l, prohibitedName m.1 = false ∧ prohibitedField m.2 = none) →
        prohibitedMembers l = none := by
    intro l
    induction l with
    | nil => exact fun _ => rfl
    | cons m l ih =>
      intro h
      obtain ⟨hName, hValue⟩ := h m List.mem_cons_self
      have hRest := ih fun m' hm' => h m' (List.mem_cons_of_mem _ hm')
      obtain ⟨name, value⟩ := m
      simp only [prohibitedMembers, hName, hValue, hRest, Bool.false_eq_true, if_false,
        Option.none_or, ite_self]
  exact hNone ms fun m hm => hNames m (hPerm.mem_iff.mp hm)

theorem payload_nulFree (hTrace : isTraceparent traceparent = true) :
    ∀ m ∈ payloadMembers eventID entry now traceparent, m.2.nulFree = true := by
  intro m hm
  simp only [payloadMembers, eventMembers, List.mem_cons, List.not_mem_nil, or_false] at hm
  rcases hm with rfl | rfl | rfl | rfl | rfl | rfl | rfl | rfl | rfl | rfl | rfl | rfl | rfl
  · -- the members in the order in which they are written
    exact nulFree_id eventID
  · rfl
  · exact formatRFC3339Nano_noNul now
  · exact nulFree_id entry.merchantID
  · rfl
  · exact nulFree_id entry.id
  · show Json.nulFree entry.entryType.text = true
    cases entry.entryType <;> rfl
  · rfl
  · rfl
  · exact formatDate_noNul _
  · exact formatRFC3339Nano_noNul entry.confirmedAt
  · show ((entry.originalEntryID.map fun o => Json.Scalar.text o.text).getD .null).nulFree = true
    cases entry.originalEntryID with
    | none => rfl
    | some o => exact nulFree_id o
  · exact nulFree_traceparent hTrace

/-- What the payload column gives back. -/
theorem read_payload {jsonb : Json.Jsonb} {text payload : Text}
    (hMarshal : marshalEvent eventID now entry traceparent = .ok text)
    (hCast : jsonb.cast text = some payload) (hTrace : isTraceparent traceparent = true) :
    ∃ ms : List (Text × Json), Json.parse payload = some (.obj ms) ∧
      ms.Perm (Json.members (payloadMembers eventID entry now traceparent)) ∧
      (0 ≤ yearOf now ∧ yearOf now ≤ 9999) ∧
      (0 ≤ yearOf entry.confirmedAt ∧ yearOf entry.confirmedAt ≤ 9999) := by
  -- the event was written, so both of its times have a year of four digits
  rw [marshalEvent, peel] at hMarshal
  obtain ⟨occurredAt, hOccurred, hMarshal⟩ := hMarshal
  rw [peel] at hMarshal
  obtain ⟨confirmedAt, hConfirmed, hText⟩ := hMarshal
  obtain ⟨hNow, rfl⟩ := marshalTime_ok.mp hOccurred
  obtain ⟨hThen, rfl⟩ := marshalTime_ok.mp hConfirmed
  cases hText
  obtain ⟨hNodup, hNames, -⟩ := @payload_names eventID entry now traceparent
  -- the column keeps the members, not their order
  obtain ⟨payload', ms, hCast', hParse, hPerm⟩ := jsonb.reads _ _
    (Json.parse_renderObject (payloadMembers eventID entry now traceparent)) hNodup
    hNames (payload_nulFree hTrace)
  rw [show Json.renderObject (payloadMembers eventID entry now traceparent) = _ from rfl,
    payloadMembers, hCast] at hCast'
  cases hCast'
  exact ⟨Json.members ms, hParse, hPerm.map _, hNow, hThen⟩

/-- Everything the consumer asks of an event holds of the event of an entry,
except perhaps what it asks of the merchant identifier. -/
theorem validate_entryEvent (hEvent : matchesAll uuidV7Pattern eventID.text = true)
    (hEntry : matchesAll uuidV7Pattern entry.id.text = true)
    (hOriginal : ∀ o, entry.originalEntryID = some o → matchesAll uuidV7Pattern o.text = true)
    (hTrace : isTraceparent traceparent = true) (hNow : now ≠ zeroTime) :
    (entryEvent eventID entry now traceparent).validate = .ok () ↔
      isUUID entry.merchantID.text = true := by
  rw [validate_iff]
  constructor
  · exact fun hValid => hValid.merchantID
  · intro hMerchant
    -- identifiers the code made are of version 7; the constructors of an entry checked the rest
    refine ⟨isUUID_v7 hEvent, hMerchant, isUUID_v7 hEntry, ?_, rfl, ?_, ?_, ?_, rfl, hNow,
      entry.confirmed, entry.dated, hTrace⟩
    · show (entry.originalEntryID.map ID.text).all isUUID = true
      cases hSome : entry.originalEntryID with
      | none => rfl
      | some o => exact isUUID_v7 (hOriginal o hSome)
    · have hPositive := Int64.lt_iff_toInt_lt.mp entry.positive
      exact Int64.le_iff_toInt_le.mpr hPositive
    · show entry.entryType.text = _ ∨ entry.entryType.text = _
      cases entry.entryType with
      | credit => exact .inl rfl
      | debit => exact .inr rfl
    · have hPositive := Int64.lt_iff_toInt_lt.mp entry.money.positive
      exact Int64.le_iff_toInt_le.mpr hPositive

end Payload

/-! ## Agreement -/

/-- The publisher accepts the row, the consumer reads this event from its payload,
and accepts the message the publisher makes of the row as that event's. -/
def Agrees (row : Outbox.Event) (event : EntryConfirmed) : Prop :=
  ∃ envelope, validateEnvelope row = .ok envelope ∧
    parseEntryConfirmed row.payload = .ok event ∧
    validateDeliveryIdentity (publishingForEvent row envelope) event = true

theorem validateEnvelope_obj {row : Outbox.Event} {ms : List (Text × Json)}
    {envelope : EventEnvelope} (hParse : Json.parse row.payload = some (.obj ms))
    (hNames : prohibitedMembers ms = none) (hFields : EventEnvelope.ofMembers ms = some envelope) :
    validateEnvelope row =
      if envelope.matchesRow row then .ok envelope else .error .identityMismatch := by
  simp only [validateEnvelope, hParse, bind, Except.bind, hNames, hFields]

section Posting

variable {eventID : ID} {entry : Entry} {now dbNow : Int} {traceparent payload owner : Text}
  {leaseUntil : Int}

/-- The row of an event as `Claim` reads it. -/
def claimedRow (eventID : ID) (entry : Entry) (now dbNow : Int) (payload owner : Text)
    (leaseUntil : Int) : Outbox.Event :=
  Event.ofRow (leased owner leaseUntil (OutboxEvent.row
    ⟨eventID, entry.id, entry.merchantID, entry.position, entryEventType, now, payload⟩ dbNow))

/-- The columns say what the payload says, except perhaps for the letters of the
merchant identifier. -/
theorem matchesRow_claimed (hEvent : matchesAll uuidV7Pattern eventID.text = true)
    (hEntry : matchesAll uuidV7Pattern entry.id.text = true)
    (hConfirmed : entry.confirmedAt = now) :
    (payloadEnvelope eventID entry now traceparent).matchesRow
        (claimedRow eventID entry now dbNow payload owner leaseUntil) = true ↔
      lower entry.merchantID.text = entry.merchantID.text := by
  have hEventID : (claimedRow eventID entry now dbNow payload owner leaseUntil).eventID =
      eventID.text := lower_v7 hEvent
  have hEntryID : (claimedRow eventID entry now dbNow payload owner leaseUntil).aggregateID =
      entry.id.text := lower_v7 hEntry
  have hMerchant : (claimedRow eventID entry now dbNow payload owner leaseUntil).merchantID =
      lower entry.merchantID.text := rfl
  simp only [EventEnvelope.matchesRow, hEventID, hEntryID, hMerchant, payloadEnvelope,
    Bool.and_eq_true, beq_iff_eq, hConfirmed]
  constructor
  · rintro ⟨⟨⟨⟨⟨⟨-, -⟩, h⟩, -⟩, -⟩, -⟩, -⟩
    exact h.symm
  · exact fun h => ⟨⟨⟨⟨⟨⟨trivial, rfl⟩, h.symm⟩, rfl⟩, trivial⟩, rfl⟩, rfl⟩

/-- The consumer accepts the message of a row whose payload it accepts. -/
theorem identity_claimed (hEvent : matchesAll uuidV7Pattern eventID.text = true)
    (hEntry : matchesAll uuidV7Pattern entry.id.text = true) :
    validateDeliveryIdentity
      (publishingForEvent (claimedRow eventID entry now dbNow payload owner leaseUntil)
        (payloadEnvelope eventID entry now traceparent))
      (entryEvent eventID entry now traceparent).canonical = true := by
  -- identifiers of version 7 are already in the case the consumer makes of them
  have hEventID : (entryEvent eventID entry now traceparent).canonical.eventID = eventID.text :=
    lower_v7 hEvent
  have hEntryID : (entryEvent eventID entry now traceparent).canonical.entryID = entry.id.text :=
    lower_v7 hEntry
  have hRowEvent : (claimedRow eventID entry now dbNow payload owner leaseUntil).eventID =
      eventID.text := lower_v7 hEvent
  have hRowEntry : (claimedRow eventID entry now dbNow payload owner leaseUntil).aggregateID =
      entry.id.text := lower_v7 hEntry
  have hHeader : ∀ (name : String) (value : HeaderValue),
      (publishingForEvent (claimedRow eventID entry now dbNow payload owner leaseUntil)
        (payloadEnvelope eventID entry now traceparent)).header name.toList = some value →
      headerIs (publishingForEvent (claimedRow eventID entry now dbNow payload owner leaseUntil)
        (payloadEnvelope eventID entry now traceparent)) name (some value) = true := by
    intro name value h
    rw [headerIs, h]
    simp
  simp only [validateDeliveryIdentity, Bool.and_eq_true, decide_eq_true_eq, hEventID, hEntryID]
  refine ⟨⟨⟨⟨⟨⟨⟨⟨hRowEvent, rfl⟩, hRowEntry⟩, hHeader _ _ ?_⟩, hHeader _ _ rfl⟩, hHeader _ _ rfl⟩,
    hHeader _ _ rfl⟩, hHeader _ _ rfl⟩, hHeader _ _ rfl⟩
  rw [← hRowEvent]
  rfl

/-- The three agree on the event of an entry exactly when the merchant
identifier is in lower case and of a version and variant the consumer knows. -/
theorem claimed_agrees_iff {jsonb : Json.Jsonb} {text : Text}
    (hEvent : matchesAll uuidV7Pattern eventID.text = true)
    (hEntry : matchesAll uuidV7Pattern entry.id.text = true)
    (hOriginal : ∀ o, entry.originalEntryID = some o → matchesAll uuidV7Pattern o.text = true)
    (hTrace : isTraceparent traceparent = true) (hDate : Writable entry.businessDate)
    (hConfirmed : entry.confirmedAt = now)
    (hMarshal : marshalEvent eventID now entry traceparent = .ok text)
    (hCast : jsonb.cast text = some payload) :
    Agrees (claimedRow eventID entry now dbNow payload owner leaseUntil)
        (entryEvent eventID entry now traceparent).canonical ↔
      lower entry.merchantID.text = entry.merchantID.text ∧
        isUUID entry.merchantID.text = true := by
  obtain ⟨ms, hParse, hPerm, hYear, hYear'⟩ := read_payload hMarshal hCast hTrace
  have hEnvelope := @validateEnvelope_obj
    (claimedRow eventID entry now dbNow payload owner leaseUntil) ms
    (payloadEnvelope eventID entry now traceparent) hParse (prohibited_payload hPerm)
    (envelope_payload hPerm hYear hYear')
  have hRow := @matchesRow_claimed eventID entry now dbNow traceparent payload owner leaseUntil
    hEvent hEntry hConfirmed
  have hNow : now ≠ zeroTime := hConfirmed ▸ entry.confirmed
  have hValidate := validate_entryEvent hEvent hEntry hOriginal hTrace hNow
  -- the consumer reads the entry back, whatever order the column gave it
  have hEventOf : parseEntryConfirmed payload = (do
      (entryEvent eventID entry now traceparent).validate
      .ok (entryEvent eventID entry now traceparent).canonical) := by
    exact parseEntryConfirmed_members hParse (hPerm.trans (payload_perm.map _))
      ⟨hYear, hYear', hDate.year⟩
  constructor
  · rintro ⟨envelope, hAccepted, hRead, -⟩
    constructor
    · rw [hEnvelope] at hAccepted
      split at hAccepted
      · exact hRow.mp ‹_›
      · cases hAccepted
    · have hRead' : parseEntryConfirmed payload =
          .ok (entryEvent eventID entry now traceparent).canonical := hRead
      rw [hEventOf, peel] at hRead'
      obtain ⟨_, hValid, -⟩ := hRead'
      exact hValidate.mp hValid
  · rintro ⟨hLower, hUUID⟩
    refine ⟨payloadEnvelope eventID entry now traceparent, ?_, ?_, identity_claimed hEvent hEntry⟩
    · rw [hEnvelope, if_pos (hRow.mpr hLower)]
    · show parseEntryConfirmed payload = _
      rw [hEventOf, hValidate.mpr hUUID]
      rfl

end Posting

/-! ## Every posting -/

/-- Every identifier of a reachable ledger was generated. -/
theorem reached_v7 {platform : Platform} {d : Db} (h : Reached platform d) :
    ∀ e ∈ d.entries, matchesAll uuidV7Pattern e.id.text = true := by
  refine @Reachable.invariant _ _ _
    (fun d : Db => ∀ e ∈ d.entries, matchesAll uuidV7Pattern e.id.text = true) ?_ ?_ d h
  · intro e he
    cases he
  · rintro d d' hRows ⟨env, req, p, -, hPosts, hMade⟩ e he
    rcases hPosts.mem_entries.mp he with he | rfl
    · exact hRows e he
    · have hV7 := newUUIDv7_rfc hMade.id
      show matchesAll uuidV7Pattern (lower p.entry.id.text) = true
      rwa [lower_v7 hV7]

theorem original_v7 {d : Db} {req : Request} {merchantID : ID} {entry : Entry}
    (hRows : ∀ e ∈ d.entries, matchesAll uuidV7Pattern e.id.text = true)
    (hMakes : req.Makes d merchantID entry) {o : ID} (ho : entry.originalEntryID = some o) :
    matchesAll uuidV7Pattern o.text = true := by
  cases req with
  | create input =>
    have hMakes' : input.Makes merchantID entry := hMakes
    rw [hMakes'.originalEntryID] at ho
    cases ho
  | reverse input =>
    obtain ⟨row, hReverses, -⟩ := hMakes
    rw [hReverses.originalEntryID] at ho
    cases ho
    exact hRows row hReverses.mem

/-- A request on a reachable ledger changes nothing or posts an entry. The row of
its event is then accepted by the publisher, its payload by the consumer as the
event that says what the entry says, and the message made of it as that event's,
if and only if the merchant identifier of the entry is in lower case and has the
version and variant of a UUID. -/
theorem event_agrees_iff {platform : Platform} {d : Db} (hReached : Reached platform d)
    (env : Ledger.Env) (req : Request) :
    (req.run platform env d).2 = d ∨
      ∃ (p : Posting) (eventID : ID), req.Attempts env p.attempt ∧
        d.Posts (req.run platform env d).2 p ∧ p.MadeBy platform.jsonb env req d ∧
        p.event.eventID = eventID.uuid ∧
        ∀ (owner : Text) (leaseUntil : Int),
          Agrees (Event.ofRow (leased owner leaseUntil p.event))
              (entryEvent eventID p.entry p.entry.confirmedAt req.traceparent).canonical ↔
            lower p.entry.merchantID.text = p.entry.merchantID.text ∧
              isUUID p.entry.merchantID.text = true := by
  rcases run_cases platform env req d with hSame | ⟨p, hAttempts, hPosts, hMade, -⟩
  · exact .inl hSame
  · -- the event of a posting is the one its entry gives rise to
    obtain ⟨eventID, text, payload, hID, hMarshal, hCast, hEvent⟩ := hMade.event
    refine .inr ⟨p, eventID, hAttempts, hPosts, hMade, by rw [hEvent]; rfl,
      fun owner leaseUntil => ?_⟩
    rw [hEvent, hMade.confirmedAt]
    exact claimed_agrees_iff (newUUIDv7_rfc hID) (newUUIDv7_rfc hMade.id)
      (fun o ho => original_v7 (reached_v7 hReached) hMade.makes ho)
      (isTraceparent_of_validate hAttempts.traceparent) hMade.writable hMade.confirmedAt hMarshal
      hCast

/-- The sale of a merchant whose identifier is given in these letters. -/
def saleOf (merchantID : Text) : Request := .create
  { merchantID
    idempotencyKey := "sale-1".toList
    type := "credit".toList
    amountMinor := 100
    currency := Ledger.currencyBRL
    businessDate := none
    description := []
    timeZone := "UTC".toList
    traceparent := "00-0af7651916cd43dd8448eb211c80319c-b7ad6b7169203331-01".toList }

/-- The event of a sale is published and consumed. -/
theorem event_agrees_iff_sale :
    let req := saleOf sampleMerchant.text
    let d := (req.run utcPlatform (calmEnv newYear 0) Db.empty).2
    ∃ (p : Posting) (eventID : ID), Db.empty.Posts d p ∧
      Agrees (Event.ofRow (leased "worker".toList 0 p.event))
        (entryEvent eventID p.entry p.entry.confirmedAt req.traceparent).canonical := by
  intro req d
  rcases @event_agrees_iff utcPlatform _ Reachable.start (calmEnv newYear 0) req with
    hSame | ⟨p, eventID, hAttempts, hPosts, hMade, -, hAgrees⟩
  · exact absurd (congrArg (fun d : Db => d.entries.rows.length) hSame) (by decide +kernel)
  · have hMakes : CreateEntryInput.Makes _ p.attempt.merchantID p.entry := hMade.makes
    have hMerchant : p.entry.merchantID.text = sampleMerchant.text := by
      rw [hMakes.merchantID]
      exact hAttempts.merchantID
    refine ⟨p, eventID, hPosts, (hAgrees "worker".toList 0).mpr ?_⟩
    rw [hMerchant]
    decide

/-- A merchant identifier in capital letters: the sale is committed, and the
publisher refuses its event. One of an unknown version: the consumer refuses
it. -/
theorem upper_case_merchant_unpublishable :
    let sold := fun merchantID : String =>
      ((saleOf merchantID.toList).run utcPlatform (calmEnv newYear 0) Db.empty).2
    ((sold "0B2D5C9E-8F1A-4D3B-9C6E-7A8B9C0D1E2F").entries.rows.length = 1 ∧
      (sold "0B2D5C9E-8F1A-4D3B-9C6E-7A8B9C0D1E2F").outbox.rows.map
        (fun r => validateEnvelope (Event.ofRow r)) = [.error .identityMismatch]) ∧
    ((sold "0b2d5c9e-8f1a-0d3b-9c6e-7a8b9c0d1e2f").entries.rows.length = 1 ∧
      (sold "0b2d5c9e-8f1a-0d3b-9c6e-7a8b9c0d1e2f").outbox.rows.map
        (fun r => parseEntryConfirmed r.payload) = [.error ⟨"merchant_id", "must be a UUID"⟩]) := by
  decide +kernel

end Cashflow.Pipeline
