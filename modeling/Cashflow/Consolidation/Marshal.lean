import Cashflow.Consolidation.Consumer
import Cashflow.Consolidation.Totals

/-!
# Consolidation — events written out and read again

`mustMarshalEvent` of
`services/consolidation/internal/adapters/inbound/rabbitmq/consumer.go` writes the
payload of a dead letter with another encoder than the producer's. What it writes,
`ParseEntryConfirmed` reads as the same event, also after a `jsonb` column has
reordered it.

* `parseEntryConfirmed_members` — an object with the members of an event, in any
  order, is read as that event;
* `marshalled_event_reparses` — a parsed event survives being written, stored and
  read, so that reprocessing an applied one finds a duplicate.
-/

namespace Cashflow.Consolidation

open Lib

/-! ## The members of an event -/

/-- No name is written twice. -/
theorem nodup_wireMembers (event : EntryConfirmed) :
    ((wireMembers event).map Prod.fst).Nodup := by
  simp only [wireMembers, List.map_cons, List.map_nil]
  decide

/-- And none has a NUL in it. -/
theorem nulFree_wireNames (event : EntryConfirmed) :
    ((wireMembers event).map Prod.fst).all Json.nulFree = true := by
  simp only [wireMembers, List.map_cons, List.map_nil]
  decide

section Members

variable {event : EntryConfirmed} {ms : List (Text × Json)}

/-- A field is decoded from the one member of its name, wherever that stands. -/
theorem field_members (hPerm : ms.Perm (Json.members (wireMembers event))) {name : Text} {v : Json}
    (h : Json.field name (Json.members (wireMembers event)) = [v]) : Json.field name ms = [v] := by
  rw [Json.field_eq_of_perm hPerm (by rw [h]; exact Nat.le_refl 1), h]

/-- The fields of the wire format. -/
def wireOf (event : EntryConfirmed) : EventWire where
  eventID := event.eventID
  eventType := event.eventType
  occurredAt := formatRFC3339Nano event.occurredAt
  merchantID := event.merchantID
  merchantPosition := event.merchantPosition
  entryID := event.entryID
  entryType := event.entryType
  amountMinor := event.amountMinor
  currency := event.currency
  businessDate := formatDate event.businessDate
  confirmedAt := formatRFC3339Nano event.confirmedAt
  originalEntryID := some ((event.originalEntryID.map fun o => Json.Scalar.text o).getD .null).toJson
  traceparent := event.traceparent

/-- The members are read back in any order. -/
theorem ofMembers_wire (hPerm : ms.Perm (Json.members (wireMembers event))) :
    EventWire.ofMembers ms = some (wireOf event) := by
  -- an integer is read back from its own digits
  have hInt : ∀ x : Int64, (Json.parseInt64 (Json.intLiteral x.toInt)).bind some = some x :=
    fun x => by rw [Json.parseInt64_intLiteral]; rfl
  unfold EventWire.ofMembers
  rw [field_members hPerm (v := .str event.eventID) rfl,
    field_members hPerm (v := .str event.eventType) rfl,
    field_members hPerm (v := .str (formatRFC3339Nano event.occurredAt)) rfl,
    field_members hPerm (v := .str event.merchantID) rfl,
    field_members hPerm (v := .num (Json.intLiteral event.merchantPosition.toInt)) rfl,
    field_members hPerm (v := .str event.entryID) rfl,
    field_members hPerm (v := .str event.entryType) rfl,
    field_members hPerm (v := .num (Json.intLiteral event.amountMinor.toInt)) rfl,
    field_members hPerm (v := .str event.currency) rfl,
    field_members hPerm (v := .str (formatDate event.businessDate)) rfl,
    field_members hPerm (v := .str (formatRFC3339Nano event.confirmedAt)) rfl,
    field_members hPerm (v := .str event.traceparent) rfl,
    field_members hPerm
      (v := ((event.originalEntryID.map fun o => Json.Scalar.text o).getD .null).toJson) rfl]
  simp only [List.foldlM_cons, List.foldlM_nil, Json.decodeText, Json.decodeInt64,
    Option.pure_def, Option.bind_eq_bind, hInt, Option.bind_some]
  rfl

/-- The times and the date of the event are of years that are written with four
digits. -/
structure EntryConfirmed.Writable (event : EntryConfirmed) : Prop where
  occurredAt : 0 ≤ yearOf event.occurredAt ∧ yearOf event.occurredAt ≤ 9999
  confirmedAt : 0 ≤ yearOf event.confirmedAt ∧ yearOf event.confirmedAt ≤ 9999
  businessDate : 0 ≤ (Civil.ofDays event.businessDate).year ∧
    (Civil.ofDays event.businessDate).year ≤ 9999

/-- And give the event again, if its times can be written. -/
theorem event_wireOf (h : event.Writable) : (wireOf event).event = .ok event := by
  have hOriginal : parseOriginal (wireOf event).originalEntryID = .ok event.originalEntryID := by
    unfold wireOf
    cases event.originalEntryID <;> rfl
  have hTime : ∀ {t : Int} {field : String}, 0 ≤ yearOf t ∧ yearOf t ≤ 9999 →
      parseTime field (formatRFC3339Nano t) = .ok t := by
    intro t field h
    rw [parseTime, parseRFC3339_format h.1 h.2]
  unfold EventWire.event
  rw [hOriginal, show (wireOf event).occurredAt = formatRFC3339Nano event.occurredAt from rfl,
    hTime h.occurredAt,
    show (wireOf event).confirmedAt = formatRFC3339Nano event.confirmedAt from rfl,
    hTime h.confirmedAt, show (wireOf event).businessDate = formatDate event.businessDate from rfl,
    parseDate_formatDate h.businessDate.1 h.businessDate.2]
  rfl

/-- An object with the members of an event, in any order, is read as that event. -/
theorem parseEntryConfirmed_members {payload : Text} (hParse : Json.parse payload = some (.obj ms))
    (hPerm : ms.Perm (Json.members (wireMembers event))) (h : event.Writable) :
    parseEntryConfirmed payload = (do
      event.validate
      .ok event.canonical) := by
  rw [parseEntryConfirmed_obj hParse (ofMembers_wire hPerm), event_wireOf h]
  rfl

end Members

/-! ## Texts a column can keep -/

/-- An identifier has no NUL. -/
theorem nulFree_of_isUUID {s : Text} (h : isUUID s = true) : Json.nulFree s = true := by
  refine List.all_eq_true.mpr (matchesAll_forall (fun p hp c hpc => bne_iff_ne.mpr ?_) h)
  rintro rfl
  rcases uuidPattern_class hp with rfl | rfl | rfl | rfl <;> cases hpc

/-- Nor has a traceparent. -/
theorem nulFree_traceparent {s : Text} (h : isTraceparent s = true) : Json.nulFree s = true := by
  refine List.all_eq_true.mpr (matchesAll_forall (fun p hp c hpc => bne_iff_ne.mpr ?_) h)
  have hCases : p = isLowerHex ∨ p = isDash := by
    simp only [traceparentPattern, List.mem_append, List.mem_replicate, List.mem_singleton] at hp
    tauto
  rintro rfl
  rcases hCases with rfl | rfl <;> cases hpc

/-- So a valid event can be stored in a jsonb column. -/
theorem EntryConfirmed.Valid.nulFree {event : EntryConfirmed} (h : event.Valid) :
    ∀ m ∈ wireMembers event, m.2.nulFree = true := by
  intro m hm
  simp only [wireMembers, List.mem_cons, List.not_mem_nil, or_false] at hm
  -- member by member, in the order they are written
  rcases hm with rfl | rfl | rfl | rfl | rfl | rfl | rfl | rfl | rfl | rfl | rfl | rfl | rfl
  · rfl
  · exact formatDate_noNul _
  · exact formatRFC3339Nano_noNul _
  · show Json.nulFree event.currency = true
    rw [h.currency]
    rfl
  · exact nulFree_of_isUUID h.entryID
  · show Json.nulFree event.entryType = true
    rcases h.entryType with hType | hType <;> rw [hType] <;> rfl
  · exact nulFree_of_isUUID h.eventID
  · show Json.nulFree event.eventType = true
    rw [h.eventType]
    rfl
  · exact nulFree_of_isUUID h.merchantID
  · rfl
  · exact formatRFC3339Nano_noNul _
  · show ((event.originalEntryID.map fun o => Json.Scalar.text o).getD .null).nulFree = true
    have hOriginal := h.originalEntryID
    cases hCase : event.originalEntryID with
    | none => rfl
    | some o =>
      rw [hCase, Option.all_some] at hOriginal
      exact nulFree_of_isUUID hOriginal
  · exact nulFree_traceparent h.traceparent

/-! ## Written, stored and read -/

/-- A date that is accepted is written with four digits of year. -/
theorem parseEntryConfirmed_year {payload : Text} {e : EntryConfirmed}
    (h : parseEntryConfirmed payload = .ok e) :
    0 ≤ (Civil.ofDays e.businessDate).year ∧ (Civil.ofDays e.businessDate).year ≤ 9999 := by
  unfold parseEntryConfirmed at h
  split at h
  · cases h
  · split at h
    · cases h
    · rename_i wire _
      simp only [peel] at h
      obtain ⟨_, -, event, hEvent, _, -, h⟩ := h
      cases h
      -- the date was parsed from a text with four digits for the year
      simp only [EventWire.event, peel] at hEvent
      obtain ⟨_, -, _, -, hEvent⟩ := hEvent
      split at hEvent
      · rename_i hParse
        simp only [peel] at hEvent
        obtain ⟨_, hDate, _, -, hEvent⟩ := hEvent
        cases hDate
        cases hEvent
        exact parseDate_year hParse
      · cases hEvent

/-- What is read of an object with the members of a valid canonical event. -/
theorem reads_valid {event : EntryConfirmed} {payload : Text} {ms : List (Text × Json)}
    (hValid : event.Valid) (hCanonical : event.canonical = event) (hWritable : event.Writable)
    (hParse : Json.parse payload = some (.obj ms))
    (hPerm : ms.Perm (Json.members (wireMembers event))) :
    parseEntryConfirmed payload = .ok event := by
  rw [parseEntryConfirmed_members hParse hPerm hWritable, (validate_iff event).mpr hValid,
    hCanonical]
  rfl

/-! ## Duplicates, whatever the database does -/

/-- The only errors are those of the database. -/
def Transient {α : Type} (x : Except StoreError α) : Prop :=
  ∀ e, x = .error e → ∃ operation, e = .persistence operation

/-- Nothing but transient failures, one step after another. -/
theorem Transient.bind {α β : Type} {x : Except StoreError α} {f : α → Except StoreError β}
    (hx : Transient x) (hf : ∀ a, x = .ok a → Transient (f a)) : Transient (x >>= f) := by
  cases x with
  | error e =>
    intro e' he'
    have hSame : (.error e : Except StoreError β) = .error e' := he'
    cases hSame
    exact hx e rfl
  | ok a => exact hf a rfl

/-- A success is no failure. -/
theorem transient_ok {α : Type} (a : α) : Transient (.ok a : Except StoreError α) := nofun

/-- A failure of the database is transient. -/
theorem transient_persistence {α : Type} (operation : String) :
    Transient (.error (.persistence operation) : Except StoreError α) := by
  intro e he
  cases he
  exact ⟨operation, rfl⟩

/-- And that is all a statement can fail with. -/
theorem transient_attempt (env : Env) (statement : Statement) (operation : String) :
    Transient (env.attempt statement operation) := by
  unfold Env.attempt
  split
  · exact transient_persistence operation
  · exact transient_ok ()

/-- Reading the progress can fail with nothing else. -/
theorem transient_readProgress (env : Env) (s : Store) (merchantID : Text) :
    Transient (readProgress env s merchantID) := by
  refine (transient_attempt _ _ _).bind fun _ _ => ?_
  split
  · exact transient_ok _
  · exact transient_persistence _

/-- Nor can recognising an event that is stored. -/
theorem transient_resolveDuplicate {env : Env} {s : Store} {event : EntryConfirmed}
    (hStored : InboxEvent.of event ∈ s.inbox) : Transient (resolveDuplicate env s event) := by
  refine (transient_attempt _ _ _).bind fun _ _ => ?_
  rw [persistedRow_of_mem hStored]
  -- the row is that of the event itself
  simp only [InboxEvent.of, bne_self_eq_false, Bool.or_false, Bool.false_eq_true, if_false]
  exact (transient_readProgress _ _ _).bind fun _ _ =>
    ((transient_attempt _ _ _).bind fun _ _ => transient_ok _).bind fun _ _ => transient_ok _

/-- Nor can applying it again. -/
theorem transient_applyTx {env : Env} {s : Store} {event : EntryConfirmed} (hValid : event.Valid)
    (hStored : InboxEvent.of event.canonical ∈ s.inbox) : Transient (applyTx env s event) := by
  unfold applyTx
  rw [(validate_iff event).mpr hValid]
  refine (transient_ok ()).bind fun _ _ => ?_
  refine (transient_attempt _ _ _).bind fun _ _ => ?_
  refine (transient_attempt _ _ _).bind fun _ _ => ?_
  refine ((transient_attempt _ _ _).bind fun _ _ => transient_ok _).bind fun s₁ hInit => ?_
  simp only [peel, attempt_ok, Except.ok.injEq] at hInit
  obtain ⟨_, -, rfl⟩ := hInit
  have hCheck := inbox_check (canonical_valid hValid)
  have hInsert : Transient (insertInbox env
      { s with progress := progressFor s event.canonical.merchantID env.now } event.canonical) := by
    refine (transient_attempt _ _ _).bind fun _ _ => ?_
    rw [dif_pos hCheck]
    exact transient_ok _
  -- the event is stored, so that the insert finds it and nothing else is written
  refine hInsert.bind fun ⟨inserted, s₂⟩ hInbox => ?_
  obtain ⟨rfl, -, rfl⟩ := insertInbox_ok hInbox
  have hConflict : s.inbox.conflicts (InboxEvent.of event.canonical) = true :=
    conflicts_of_mem hStored
  simp only [hConflict, Bool.not_true, Bool.false_eq_true, if_false,
    Table.insertOrIgnore_of_conflict]
  exact (transient_resolveDuplicate
    (s := { s with progress := progressFor s event.canonical.merchantID env.now })
    hStored).bind fun _ _ => transient_ok _

/-- So a stored event is never answered with a conflict. -/
theorem apply_stored_no_conflict {env : Env} {s : Store} {event : EntryConfirmed}
    (hValid : event.Valid) (hStored : InboxEvent.of event.canonical ∈ s.inbox) (reason : String) :
    (apply env s event).1 ≠ .error (.conflict reason) := by
  intro hConflict
  have hTransient : Transient (applyTx env s event) := transient_applyTx hValid hStored
  cases hTx : applyTx env s event with
  | error e =>
    obtain ⟨operation, rfl⟩ := hTransient e hTx
    rw [apply_of_error hTx] at hConflict
    cases hConflict
  | ok outcome =>
    rw [apply, hTx, commit] at hConflict
    cases hCommit : env.commit <;> rw [hCommit] at hConflict <;> cases hConflict

/-! ## Dead letters of parsed events -/

/-- An event that was parsed, with times of four-digit years: what `mustMarshalEvent`
writes of it is parsed as the same event, and so is what a `jsonb` column gives back
of it; and where the event has been applied, reprocessing that payload changes
nothing and finds a duplicate, never a conflict, whatever the database does. -/
theorem marshalled_event_reparses (jsonb : Json.Jsonb) (payload : Text) (e : EntryConfirmed)
    (hParsed : parseEntryConfirmed payload = .ok e)
    (hOccurred : 0 ≤ yearOf e.occurredAt ∧ yearOf e.occurredAt ≤ 9999)
    (hConfirmed : 0 ≤ yearOf e.confirmedAt ∧ yearOf e.confirmedAt ≤ 9999) :
    parseEntryConfirmed (mustMarshalEvent e) = .ok e ∧
      ∃ stored, jsonb.cast (mustMarshalEvent e) = some stored ∧
        parseEntryConfirmed stored = .ok e ∧
        ∀ calls : List Call, InboxEvent.of e ∈ (Store.after calls).inbox → ∀ env,
          (Projector.applyPayload env (Store.after calls) stored).2 = Store.after calls ∧
          (∀ r, (Projector.applyPayload env (Store.after calls) stored).1 = .ok r →
            r.duplicate = true) ∧
          (∀ reason, (Projector.applyPayload env (Store.after calls) stored).1 ≠
            .error (.conflict reason)) ∧
          -- what was written, and what the column makes of it, both parse to the members
          (env.Healthy → ∃ r, (Projector.applyPayload env (Store.after calls) stored).1 = .ok r ∧
            r.duplicate = true) := by
  obtain ⟨hValid, hCanonical⟩ := parseEntryConfirmed_valid hParsed
  have hWritable : e.Writable := ⟨hOccurred, hConfirmed, parseEntryConfirmed_year hParsed⟩
  have hWritten := Json.parse_renderObject (wireMembers e)
  obtain ⟨stored, ms, hCast, hParse, hPerm⟩ := jsonb.reads _ _ hWritten (nodup_wireMembers e)
    (nulFree_wireNames e) hValid.nulFree
  have hStored : parseEntryConfirmed stored = .ok e :=
    reads_valid hValid hCanonical hWritable hParse (hPerm.map _)
  refine ⟨reads_valid hValid hCanonical hWritable hWritten (List.Perm.refl _), stored, hCast,
    hStored, ?_⟩
  intro calls hMem env
  -- the parsed event is handed to `Apply` as it is
  have hApply : Projector.applyPayload env (Store.after calls) stored =
      apply env (Store.after calls) e := by
    simp only [Projector.applyPayload, Projector.apply, hStored, (validate_iff e).mpr hValid,
      hCanonical]
  have hMem' : InboxEvent.of e.canonical ∈ (Store.after calls).inbox := by rwa [hCanonical]
  obtain ⟨hSame, hDuplicate, hHealthy⟩ :=
    @apply_stored env _ e (after_tracked calls) hValid hMem'
  rw [hApply]
  exact ⟨hSame, hDuplicate, apply_stored_no_conflict hValid hMem', hHealthy⟩

/-- A credit that was applied is found again in the text of a column that has moved
its members. -/
theorem marshalled_event_reparses_credit :
    let e := sampleCredit '1' 1 0 100
    ∃ stored, Json.Jsonb.sorted.cast (mustMarshalEvent e) = some stored ∧
      stored ≠ mustMarshalEvent e ∧
      ∃ r, (Projector.applyPayload (steady 2) (Store.after [.apply (steady 1) e]) stored).1 = .ok r ∧
        r.duplicate = true := by
  intro e
  obtain ⟨-, stored, hCast, -, hDuplicate⟩ := marshalled_event_reparses .sorted
    (mustMarshalEvent e) e (by decide +kernel) (by decide +kernel) (by decide +kernel)
  -- the identifiers come first: they have the shortest names
  have hMoved : Json.Jsonb.sorted.cast (mustMarshalEvent e) ≠ some (mustMarshalEvent e) := by
    decide +kernel
  refine ⟨stored, hCast, ?_, ?_⟩
  · rintro rfl
    exact hMoved hCast
  · exact (hDuplicate [.apply (steady 1) e] (by decide +kernel) (steady 2)).2.2.2
      (steady_healthy 2)

end Cashflow.Consolidation
