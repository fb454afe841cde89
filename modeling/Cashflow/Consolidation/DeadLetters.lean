import Cashflow.Consolidation.Isolation

/-!
# Consolidation — what becomes of a dead letter

The two ends of a dead letter's life. `Reprocess` of
`services/consolidation/internal/reconciliation/dlq.go` reads a join of
`dead_letter_event` and `event_pending`, but deletes by the event identifier
alone; `escalate` of the consumer writes both tables, and takes the message off
the queue whether or not they were written.

* `failed_rows_kept_iff` — a reprocess run keeps every row whose payload failed
  exactly when no event has both a row that was applied and one that was not;
* `dead_letter_held_iff` — a delivery that is dead-lettered is found by the next
  run exactly when both records were taken or were there already.
-/

namespace Cashflow.Consolidation

open Lib Pipeline

/-! ## The turns of a reprocess run -/

/-- The payload of the item is applied on its turn. -/
def applies (env : ItemEnv) (p : Projection) (item : Text × DeadLetter) : Bool :=
  (Projector.applyPayload env.apply p.store item.2.payload).1.isOk

/-- The rows a run reads, each with whether its payload was applied. -/
def turns (env : Nat → ItemEnv) (p : Projection) :
    List (Text × DeadLetter) → List ((Text × DeadLetter) × Bool)
  | [] => []
  | item :: items => (item, applies (env 0) p item) ::
      turns (fun i => env (i + 1)) (reprocessItem (env 0) p item).2 items

/-- Each item has its turn. -/
theorem map_fst_turns (items : List (Text × DeadLetter)) :
    ∀ (env : Nat → ItemEnv) (p : Projection), (turns env p items).map Prod.fst = items := by
  induction items with
  | nil => exact fun _ _ => rfl
  | cons item items ih =>
    intro env p
    rw [turns, List.map_cons, ih]

/-- Every delete of the run succeeds. -/
def Deletes (env : Nat → ItemEnv) : Prop :=
  ∀ i, (env i).deletePendingFails = false ∧ (env i).deleteDeadLetterFails = false

/-- If deletions succeed, those of the later items do. -/
theorem Deletes.tail {env : Nat → ItemEnv} (h : Deletes env) : Deletes fun i => env (i + 1) :=
  fun i => h (i + 1)

/-- What one turn does when its deletes succeed. -/
theorem reprocessItem_deletes {env : ItemEnv} (hPending : env.deletePendingFails = false)
    (hLetter : env.deleteDeadLetterFails = false) (p : Projection) (item : Text × DeadLetter) :
    (reprocessItem env p item).1 = applies env p item ∧
      (∀ d, d ∈ (reprocessItem env p item).2.deadLetters ↔
        d ∈ p.deadLetters ∧ (applies env p item = true → d.eventID ≠ some item.1)) ∧
      ∀ r, r ∈ (reprocessItem env p item).2.pending.rows ↔ r ∈ p.pending.rows ∧
        (applies env p item = true → ¬(r.eventID = item.1 ∧ r.failureClass = .dlq)) := by
  simp only [reprocessItem, applies]
  cases hApply : (Projector.applyPayload env.apply p.store item.2.payload).1 with
  | error e => simp [Except.isOk, Except.toBool]
  | ok result => simp [Except.isOk, Except.toBool, hPending, hLetter, Table.delete, imp_iff_not_or]

/-- A dead letter outlives the run unless a row of its event was applied. -/
theorem mem_deadLetters_reprocessItems (items : List (Text × DeadLetter)) :
    ∀ (env : Nat → ItemEnv) (p : Projection), Deletes env → ∀ d,
      d ∈ (reprocessItems env p items).2.deadLetters ↔ d ∈ p.deadLetters ∧
        ∀ turn ∈ turns env p items, turn.2 = true → d.eventID ≠ some turn.1.1 := by
  induction items with
  | nil => simp [reprocessItems, turns]
  | cons item items ih =>
    intro env p hDeletes d
    have hStep := (reprocessItem_deletes (hDeletes 0).1 (hDeletes 0).2 p item).2.1
    rw [reprocessItems, turns, List.forall_mem_cons, ← and_assoc, ← hStep]
    exact ih _ _ hDeletes.tail d

/-- A pending row stays unless it is a dead letter whose item was applied. -/
theorem mem_pending_reprocessItems (items : List (Text × DeadLetter)) :
    ∀ (env : Nat → ItemEnv) (p : Projection), Deletes env → ∀ r,
      r ∈ (reprocessItems env p items).2.pending.rows ↔ r ∈ p.pending.rows ∧
        ∀ turn ∈ turns env p items, turn.2 = true →
          ¬(r.eventID = turn.1.1 ∧ r.failureClass = .dlq) := by
  induction items with
  | nil => simp [reprocessItems, turns]
  | cons item items ih =>
    intro env p hDeletes r
    have hStep := (reprocessItem_deletes (hDeletes 0).1 (hDeletes 0).2 p item).2.2
    rw [reprocessItems, turns, List.forall_mem_cons, ← and_assoc, ← hStep]
    exact ih _ _ hDeletes.tail r

/-- The run counts as reprocessed what was applied, and the rest as failed. -/
theorem reprocessItems_counts (items : List (Text × DeadLetter)) :
    ∀ (env : Nat → ItemEnv) (p : Projection), Deletes env →
      (reprocessItems env p items).1 =
        ⟨(turns env p items).countP fun turn => turn.2,
          (turns env p items).countP fun turn => !turn.2⟩ := by
  induction items with
  | nil => exact fun _ _ _ => rfl
  | cons item items ih =>
    intro env p hDeletes
    have hStep := (reprocessItem_deletes (hDeletes 0).1 (hDeletes 0).2 p item).1
    rw [reprocessItems, turns]
    simp only [hStep, ih _ _ hDeletes.tail, List.countP_cons]
    cases applies (env 0) p item <;> rfl

/-! ## What a reprocess run keeps -/

/-- Whatever failed is still there for the next run, whatever was applied is
gone, and every row read is counted. -/
structure KeepsFailures (env : Nat → ItemEnv) (p : Projection) (items : List (Text × DeadLetter)) :
    Prop where
  failed : ∀ item, (item, false) ∈ turns env p items →
    item.2 ∈ (reprocessItems env p items).2.deadLetters ∧
      item ∈ dlqItems (reprocessItems env p items).2
  applied : ∀ item, (item, true) ∈ turns env p items →
    (∀ d ∈ (reprocessItems env p items).2.deadLetters, d.eventID ≠ some item.1) ∧
      ∀ r ∈ (reprocessItems env p items).2.pending.rows, r.eventID ≠ item.1
  counted : (reprocessItems env p items).1 =
      ⟨(turns env p items).countP fun turn => turn.2,
        (turns env p items).countP fun turn => !turn.2⟩ ∧
    (reprocessItems env p items).1.reprocessed + (reprocessItems env p items).1.failed =
      items.length

section Reprocess

variable {env : Nat → ItemEnv} {p : Projection} {items : List (Text × DeadLetter)}

/-- The items of the turns are rows the run has read. -/
theorem mem_dlqItems_of_turn (hRead : items.Perm (dlqItems p)) {item : Text × DeadLetter}
    {ok : Bool} (h : (item, ok) ∈ turns env p items) : item ∈ dlqItems p := by
  rw [← hRead.mem_iff, ← map_fst_turns items env p]
  exact List.mem_map_of_mem h

/-- An item that was applied leaves neither a letter nor a pending row. -/
theorem reprocessItems_applied_removed (hRead : items.Perm (dlqItems p)) (hDeletes : Deletes env)
    {item : Text × DeadLetter} (h : (item, true) ∈ turns env p items) :
    (∀ d ∈ (reprocessItems env p items).2.deadLetters, d.eventID ≠ some item.1) ∧
      ∀ r ∈ (reprocessItems env p items).2.pending.rows, r.eventID ≠ item.1 := by
  constructor
  · intro d hd
    exact ((mem_deadLetters_reprocessItems items env p hDeletes d).mp hd).2 _ h rfl
  · intro r hr hID
    obtain ⟨hOld, hKept⟩ := (mem_pending_reprocessItems items env p hDeletes r).mp hr
    -- an event is pending once, so the row that was read is this one
    obtain ⟨-, -, read, hMem, hReadID, hClass⟩ := mem_dlqItems.mp (mem_dlqItems_of_turn hRead h)
    have hSame : r = read := Table.eq_of_clash hOld hMem (by simp [pendingSchema, hID, hReadID])
    exact hKept _ h rfl ⟨hID, hSame ▸ hClass⟩

/-- One that failed keeps both, unless another letter of the event was applied. -/
theorem reprocessItems_failed_kept (hRead : items.Perm (dlqItems p)) (hDeletes : Deletes env)
    {item : Text × DeadLetter} (h : (item, false) ∈ turns env p items)
    (hApart : ∀ other, (other, true) ∈ turns env p items → other.1 ≠ item.1) :
    item.2 ∈ (reprocessItems env p items).2.deadLetters ∧
      item ∈ dlqItems (reprocessItems env p items).2 := by
  obtain ⟨hMem, hID, read, hRow, hReadID, hClass⟩ :=
    mem_dlqItems.mp (mem_dlqItems_of_turn hRead h)
  have hLetter : item.2 ∈ (reprocessItems env p items).2.deadLetters := by
    refine (mem_deadLetters_reprocessItems items env p hDeletes item.2).mpr ⟨hMem, ?_⟩
    rintro ⟨other, ok⟩ hOther rfl hSame
    rw [hID, Option.some.injEq] at hSame
    exact hApart other hOther hSame.symm
  have hPending : read ∈ (reprocessItems env p items).2.pending.rows := by
    refine (mem_pending_reprocessItems items env p hDeletes read).mpr ⟨hRow, ?_⟩
    rintro ⟨other, ok⟩ hOther rfl ⟨hSame, -⟩
    exact hApart other hOther (hSame.symm.trans hReadID)
  exact ⟨hLetter, mem_dlqItems.mpr ⟨hLetter, hID, read, hPending, hReadID, hClass⟩⟩

end Reprocess

/-- For every content of the two tables, in whatever order the rows of one event
are read, and every outcome of the payloads: as the deletes succeed, the run keeps
what failed, removes what it counts as reprocessed and counts every row, exactly
when no event has both a row that was applied and a row that failed. -/
theorem failed_rows_kept_iff (env : Nat → ItemEnv) (p : Projection)
    (items : List (Text × DeadLetter)) (hRead : items.Perm (dlqItems p)) (hDeletes : Deletes env) :
    KeepsFailures env p items ↔ ∀ item other, (item, false) ∈ turns env p items →
      (other, true) ∈ turns env p items → other.1 ≠ item.1 := by
  constructor
  · intro hKeeps item other hFailed hApplied hSame
    -- the delete for the row that was applied takes the failed row with it
    obtain ⟨-, hID, -⟩ := mem_dlqItems.mp (mem_dlqItems_of_turn hRead hFailed)
    exact (hKeeps.applied other hApplied).1 item.2 (hKeeps.failed item hFailed).1
      (by rw [hID, hSame])
  · intro hApart
    have hCounts := reprocessItems_counts items env p hDeletes
    have hLength : (turns env p items).length = items.length := by
      rw [← List.length_map, map_fst_turns]
    refine ⟨fun item h => ?_, fun item h => ?_, hCounts, ?_⟩
    · exact reprocessItems_failed_kept hRead hDeletes h fun other => hApart item other h
    · exact reprocessItems_applied_removed hRead hDeletes h
    · rw [hCounts, ← hLength, List.length_eq_countP_add_countP fun turn => turn.2]
      simp

/-- Two dead letters under one identifier: the payload of the first is an event,
that of the second is not. -/
def twoLetters : Projection where
  store := Store.empty
  pending := ⟨[⟨sampleID '1', none, none, .dlq, 1, .schemaViolation⟩], by decide,
    List.pairwise_singleton _ _⟩
  deadLetters :=
    [⟨some (sampleID '1'), none, none, entryConfirmedV1,
      mustMarshalEvent (sampleCredit '1' 1 0 100), .schemaViolation⟩,
     ⟨some (sampleID '1'), none, none, entryConfirmedV1, ['0'], .schemaViolation⟩]

/-- One of the two letters is applied and the other fails; neither table keeps
anything of the event. -/
theorem failed_row_deleted :
    (turns quietReprocess twoLetters (dlqItems twoLetters)).map Prod.snd = [true, false] ∧
      (reprocess quietReprocess twoLetters).1 = ⟨1, 1⟩ ∧
      (reprocess quietReprocess twoLetters).2.deadLetters = [] ∧
      dlqItems (reprocess quietReprocess twoLetters).2 = [] := by
  decide +kernel

/-- Three events with a dead letter each: the payload of the second is not an event. -/
def lettersApart : Projection where
  store := Store.empty
  pending := ⟨[⟨sampleID '1', none, none, .dlq, 1, .schemaViolation⟩,
      ⟨sampleID '2', none, none, .dlq, 4, .schemaViolation⟩,
      ⟨sampleID '3', none, none, .dlq, 1, .schemaViolation⟩], by decide, by decide⟩
  deadLetters :=
    [⟨some (sampleID '1'), none, none, entryConfirmedV1,
      mustMarshalEvent (sampleCredit '1' 1 0 100), .schemaViolation⟩,
     ⟨some (sampleID '2'), none, none, entryConfirmedV1, ['0'], .schemaViolation⟩,
     ⟨some (sampleID '3'), none, none, entryConfirmedV1,
      mustMarshalEvent (sampleCredit '3' 2 0 40), .schemaViolation⟩]

/-- The letter that fails is kept between the two that are applied. -/
theorem failed_rows_kept_iff_letters_apart :
    let env := fun i : Nat => ItemEnv.mk (steady (i + 1)) false false
    let items := dlqItems lettersApart
    (turns env lettersApart items).map Prod.snd = [true, false, true] ∧
      (reprocess env lettersApart).1 = ⟨2, 1⟩ ∧ KeepsFailures env lettersApart items := by
  intro env items
  obtain ⟨hTurns, hCounts, hApart⟩ :
      (turns env lettersApart items).map Prod.snd = [true, false, true] ∧
      (reprocess env lettersApart).1 = ⟨2, 1⟩ ∧
      ∀ turn ∈ turns env lettersApart items, ∀ turn' ∈ turns env lettersApart items,
        turn.2 = false → turn'.2 = true → turn'.1.1 ≠ turn.1.1 := by
    decide +kernel
  refine ⟨hTurns, hCounts, (failed_rows_kept_iff env lettersApart items (List.Perm.refl _)
    fun _ => ⟨rfl, rfl⟩).mpr ?_⟩
  exact fun item other hFailed hApplied => hApart _ hFailed _ hApplied rfl rfl

/-! ## What an escalation records -/

/-- The consumer's shape of an identifier is one a `uuid` column accepts. -/
theorem uuidIn_of_isUUID {s : Text} (h : isUUID s = true) : uuidIn s = some (lower s) := by
  apply uuidIn_shape
  rw [← List.map_id s]
  apply matchesAll_map h
  have hVersion : ∀ c, isVersion c = true → isHex c = true := by
    intro c hc
    simp only [isVersion, Bool.and_eq_true, decide_eq_true_eq] at hc
    have hAscii : isAscii c = true := isAscii_of_le hc.2 rfl
    exact forall_ascii (P := fun c => ('1' ≤ c ∧ c ≤ '8') → isHex c = true) (by decide) hAscii hc
  have hVariant : ∀ c, isVariant c = true → isHex c = true := by
    intro c hc
    simp only [isVariant, Bool.or_eq_true, beq_iff_eq] at hc
    rcases hc with ((((rfl | rfl) | rfl) | rfl) | rfl) | rfl <;> rfl
  simp only [uuidPattern, uuidShape, List.replicate, List.cons_append, List.nil_append]
  repeat' apply List.Forall₂.cons
  all_goals first
    | exact List.Forall₂.nil
    | exact fun c hc => hc
    | exact hVersion
    | exact hVariant

/-- A valid identifier is read in lower case. -/
theorem mapM_uuidIn {o : Option Text} (h : o.all isUUID = true) :
    o.mapM uuidIn = some (o.map lower) := by
  cases o with
  | none => rfl
  | some s =>
    rw [Option.all_some] at h
    simp [uuidIn_of_isUUID h]

/-- A row of that event is pending as a dead letter. -/
def PendingAsDlq (p : Projection) (eventID : Text) : Prop :=
  ∃ r ∈ p.pending.rows, r.eventID = lower eventID ∧ r.failureClass = .dlq

/-- A dead letter of that event with that payload. -/
def HasLetter (config : ConsumerConfig) (p : Projection) (eventID body : Text) : Prop :=
  ∃ d ∈ p.deadLetters, d.eventID = some (lower eventID) ∧
    config.jsonb.cast (deadLetterText body) = some d.payload

/-- The next reprocess run reads that payload under that event. -/
def Held (config : ConsumerConfig) (p : Projection) (eventID body : Text) : Prop :=
  ∃ d, (lower eventID, d) ∈ dlqItems p ∧
    config.jsonb.cast (deadLetterText body) = some d.payload

/-- An event is held if it has its letter and its pending row. -/
theorem held_iff {config : ConsumerConfig} {p : Projection} {eventID body : Text} :
    Held config p eventID body ↔ HasLetter config p eventID body ∧ PendingAsDlq p eventID := by
  simp only [Held, HasLetter, PendingAsDlq, mem_dlqItems]
  constructor
  · rintro ⟨d, ⟨hMem, hID, hPending⟩, hPayload⟩
    exact ⟨⟨d, hMem, hID, hPayload⟩, hPending⟩
  · rintro ⟨⟨d, hMem, hID, hPayload⟩, hPending⟩
    exact ⟨d, ⟨hMem, hID, hPending⟩, hPayload⟩

/-- No row of the event has used up the range of its counter. -/
def Countable (p : Projection) (eventID : Text) : Prop :=
  ∀ r ∈ p.pending.rows, r.eventID = lower eventID → r.attempts < 2147483647

/-- `RecordDeadLetter` takes a body that is there, of a type without zero
characters, if the column accepts it. -/
theorem hasLetter_recordDeadLetter {config : ConsumerConfig} {p : Projection} {eventID : Text}
    {merchantID : Option Text} {businessDate : Option Int} {eventType body : Text}
    {errorCode : ErrorCode} (hID : isUUID eventID = true)
    (hMerchant : merchantID.all isUUID = true) :
    HasLetter config ((recordDeadLetter config.jsonb p (some eventID) merchantID businessDate
        eventType body errorCode).getD p) eventID body ↔
      (body ≠ [] ∧ Json.nulFree eventType = true ∧
        (config.jsonb.cast (deadLetterText body)).isSome = true) ∨
      HasLetter config p eventID body := by
  have hEventID : (some eventID).mapM uuidIn = some (some (lower eventID)) :=
    mapM_uuidIn (o := some eventID) hID
  unfold recordDeadLetter
  split
  · -- an empty body is not recorded
    rename_i hEmpty
    simp [hEmpty]
  · rename_i hBody
    split
    · -- nor is an event type with a NUL in it
      rename_i hNul
      simp [hNul]
    · rename_i hNul
      rw [Bool.not_eq_false] at hNul
      -- the column refuses a body that is no JSON text it can hold
      cases hCast : config.jsonb.cast (deadLetterText body) with
      | none => simp
      | some payload =>
        simp only [hEventID, mapM_uuidIn hMerchant, Option.bind_eq_bind, Option.bind_some,
          Option.getD_some, hBody, hNul, Option.isSome_some, ne_eq, not_false_eq_true, and_self,
          true_or, iff_true]
        exact ⟨_, List.mem_append_right _ (List.mem_singleton_self _), rfl, hCast⟩

/-- A row recorded again keeps its key. -/
theorem clash_again (eventID : Text) (merchantID : Option Text) (businessDate : Option Int)
    (errorCode : ErrorCode) (a b : PendingEvent) :
    pendingSchema.clash
        (if a.eventID = eventID then a.again merchantID businessDate .dlq errorCode else a)
        (if b.eventID = eventID then b.again merchantID businessDate .dlq errorCode else b) =
      pendingSchema.clash a b := by
  have hKey : ∀ r : PendingEvent, (if r.eventID = eventID then
      r.again merchantID businessDate .dlq errorCode else r).eventID = r.eventID := by
    intro r
    split <;> rfl
  simp [pendingSchema, hKey]

/-- The check of the column lets every row be recorded again exactly when the
counter of the event's row is not used up. -/
theorem checked_again_iff (p : Projection) (eventID : Text) (merchantID : Option Text)
    (businessDate : Option Int) (errorCode : ErrorCode) :
    (∀ r ∈ p.pending, pendingSchema.check (if r.eventID = lower eventID then
        r.again merchantID businessDate .dlq errorCode else r) = true) ↔ Countable p eventID := by
  constructor
  · intro hAll r hr hrID
    have hChecked := hAll r hr
    rw [if_pos hrID] at hChecked
    simp only [pendingSchema, PendingEvent.again, Bool.and_eq_true, decide_eq_true_eq] at hChecked
    omega
  · intro hCount r hr
    have hChecked := p.pending.checked r hr
    simp only [pendingSchema, Bool.and_eq_true, decide_eq_true_eq] at hChecked ⊢
    split
    · rename_i hrID
      have hLimit := hCount r hr hrID
      simp only [PendingEvent.again]
      omega
    · exact hChecked

/-- `RecordPending` leaves a row of the class it is given, unless the counter of
the row that is there is used up. -/
theorem pendingAsDlq_recordPending {p : Projection} {eventID : Text} {merchantID : Option Text}
    {businessDate : Option Int} {errorCode : ErrorCode} (hID : isUUID eventID = true)
    (hMerchant : merchantID.all isUUID = true) :
    PendingAsDlq (((recordPending p eventID merchantID businessDate .dlq errorCode).map
        Prod.snd).getD p) eventID ↔ Countable p eventID ∨ PendingAsDlq p eventID := by
  simp only [recordPending, uuidIn_of_isUUID hID, mapM_uuidIn hMerchant, Option.bind_eq_bind,
    Option.bind_some]
  cases hFind : p.pending.find? fun r => decide (r.eventID = lower eventID) with
  | none =>
    -- the event has no row yet
    have hAbsent : ∀ r ∈ p.pending.rows, r.eventID ≠ lower eventID := by
      intro r hr
      simpa using Table.find?_none.mp hFind r hr
    have hFree : p.pending.conflicts ⟨lower eventID, merchantID.map lower, businessDate, .dlq, 1,
        errorCode⟩ = false :=
      Table.conflicts_eq_false.mpr fun r hr => by simpa [pendingSchema] using hAbsent r hr
    rw [Table.insert_of_free rfl hFree]
    constructor
    · exact fun _ => .inl fun r hr h => absurd h (hAbsent r hr)
    · exact fun _ => ⟨_, List.mem_append_right _ (List.mem_singleton_self _), rfl, rfl⟩
  | some old =>
    -- it has one, whose count goes up
    obtain ⟨hOld, hOldID⟩ := Table.find?_some hFind
    rw [decide_eq_true_eq] at hOldID
    dsimp only
    by_cases hCount : Countable p eventID
    · -- every row passes the check, and the row of the event is now a dead letter
      obtain ⟨pending, hUpdate, hRows⟩ := Table.exists_update
        (clash_again (lower eventID) (merchantID.map lower) businessDate errorCode)
        ((checked_again_iff p eventID _ _ _).mpr hCount)
      rw [hUpdate]
      have hMem : old.again (merchantID.map lower) businessDate .dlq errorCode ∈ pending.rows := by
        rw [hRows]
        exact List.mem_map.mpr ⟨old, hOld, if_pos hOldID⟩
      exact iff_of_true ⟨_, hMem, hOldID, rfl⟩ (.inl hCount)
    · -- the row that is there cannot count further, and the statement fails
      cases hUpdate : p.pending.update (fun r => if r.eventID = lower eventID then
          r.again (merchantID.map lower) businessDate .dlq errorCode else r)
          (clash_again (lower eventID) (merchantID.map lower) businessDate errorCode) with
      | error e => simp [hCount, Except.toOption]
      | ok pending =>
        have hChecked := (Table.update_eq_ok.mp hUpdate).1
        exact absurd ((checked_again_iff p eventID _ _ _).mp hChecked) hCount

/-- Recording a letter leaves the pending rows. -/
theorem pending_recordDeadLetter (jsonb : Json.Jsonb) (p : Projection)
    (eventID merchantID : Option Text) (businessDate : Option Int) (eventType body : Text)
    (errorCode : ErrorCode) :
    ((recordDeadLetter jsonb p eventID merchantID businessDate eventType body
      errorCode).getD p).pending = p.pending := by
  cases hRecord : recordDeadLetter jsonb p eventID merchantID businessDate eventType body
      errorCode with
  | none => rfl
  | some recorded =>
    unfold recordDeadLetter at hRecord
    split at hRecord
    · cases hRecord
    · split at hRecord
      · cases hRecord
      · simp only [Option.bind_eq_bind, Option.bind_eq_some_iff, Option.some.injEq] at hRecord
        obtain ⟨_, -, _, -, _, -, rfl⟩ := hRecord
        rfl

/-- What an escalation records of an event, whichever of its two writes fail. -/
theorem held_escalate_iff {config : ConsumerConfig} {env : ConsumerEnv} {p : Projection}
    {isolation : Isolation} {eventType body eventID : Text}
    (hID : isolation.eventID = some eventID) (hUUID : isUUID eventID = true)
    (hMerchant : isolation.merchantID.all isUUID = true) :
    Held config (escalate config env p isolation eventType body).2 eventID body ↔
      ((env.deadLetterFails = false ∧ body ≠ [] ∧ Json.nulFree eventType = true ∧
          (config.jsonb.cast (deadLetterText body)).isSome = true) ∨
        HasLetter config p eventID body) ∧
      ((env.pendingFails = false ∧ Countable p eventID) ∨ PendingAsDlq p eventID) := by
  -- after the dead letter, before the pending row
  obtain ⟨p', hp'⟩ : ∃ p', p' = if env.deadLetterFails then p else
      (recordDeadLetter config.jsonb p (some eventID) isolation.merchantID
        isolation.businessDate eventType body isolation.errorCode).getD p := ⟨_, rfl⟩
  have hLetter : HasLetter config p' eventID body ↔
      (env.deadLetterFails = false ∧ body ≠ [] ∧ Json.nulFree eventType = true ∧
          (config.jsonb.cast (deadLetterText body)).isSome = true) ∨
        HasLetter config p eventID body := by
    subst hp'
    cases env.deadLetterFails with
    | true => simp
    | false => simp [hasLetter_recordDeadLetter hUUID hMerchant]
  have hPending : p'.pending = p.pending := by
    subst hp'
    split
    · rfl
    · exact pending_recordDeadLetter _ _ _ _ _ _ _ _
  have hTaken : PendingAsDlq p' eventID ↔ PendingAsDlq p eventID := by
    simp only [PendingAsDlq, hPending]
  have hCount : Countable p' eventID ↔ Countable p eventID := by
    simp only [Countable, hPending]
  simp only [escalate, hID, ← hp', held_iff]
  cases env.pendingFails with
  | true => simp [hLetter, hTaken]
  | false =>
    have hOnly : (((recordPending p' eventID isolation.merchantID isolation.businessDate .dlq
        isolation.errorCode).map Prod.snd).getD p').deadLetters = p'.deadLetters := by
      cases hRecord : recordPending p' eventID isolation.merchantID isolation.businessDate .dlq
          isolation.errorCode with
      | none => rfl
      | some recorded => exact (recordPending_some hRecord).2
    -- counting the event leaves the letters
    have hSame : ∀ q : Projection, q.deadLetters = p'.deadLetters →
        (HasLetter config q eventID body ↔ HasLetter config p' eventID body) := by
      intro q hq
      simp only [HasLetter, hq]
    rw [if_neg Bool.false_ne_true, hSame _ hOnly, hLetter,
      pendingAsDlq_recordPending hUUID hMerchant, hTaken, hCount]
    simp

/-! ## What a dead-lettered delivery leaves -/

/-- The identifier a delivery is isolated under: that of the parsed event, or a
message identifier that is a UUID. -/
def usableID (config : ConsumerConfig) (delivery : Message) : Option Text :=
  match checkDelivery config delivery with
  | .error isolation => isolation.eventID
  | .ok event => some event.eventID

/-- The payload that is kept of a delivery: its body, or the event that could not
be applied, written anew. -/
def keptBody (config : ConsumerConfig) (delivery : Message) : Text :=
  match checkDelivery config delivery with
  | .error _ => delivery.body
  | .ok event => mustMarshalEvent event

/-- The projection a delivery is escalated in: nothing has happened yet, or the
failed `Apply` has, and the record of its attempt. -/
def escalatedFrom (config : ConsumerConfig) (env : ConsumerEnv) (p : Projection)
    (delivery : Message) : Projection :=
  match checkDelivery config delivery with
  | .error _ => p
  | .ok event =>
    let (outcome, store) := Projector.apply env.apply p.store event
    let p := { p with store }
    match outcome with
    | .ok _ => p
    | .error applyErr =>
      match classifyFailure applyErr with
      | .dlq => p
      | .retry => (recordRetry env p event).2

/-- The dead letter is taken, or one like it is there. -/
def LetterTaken (config : ConsumerConfig) (env : ConsumerEnv) (p : Projection)
    (delivery : Message) (eventID : Text) : Prop :=
  (env.deadLetterFails = false ∧
    (∀ isolation, checkDelivery config delivery = .error isolation →
      delivery.body ≠ [] ∧ Json.nulFree delivery.type = true) ∧
    (config.jsonb.cast (deadLetterText (keptBody config delivery))).isSome = true) ∨
  HasLetter config p eventID (keptBody config delivery)

/-- The event is recorded as pending, or it is pending as a dead letter already. -/
def PendingTaken (config : ConsumerConfig) (env : ConsumerEnv) (p : Projection)
    (delivery : Message) (eventID : Text) : Prop :=
  (env.pendingFails = false ∧ Countable (escalatedFrom config env p delivery) eventID) ∨
  PendingAsDlq (escalatedFrom config env p delivery) eventID

/-- Until a delivery is escalated there are no new letters. -/
theorem deadLetters_escalatedFrom (config : ConsumerConfig) (env : ConsumerEnv) (p : Projection)
    (delivery : Message) :
    (escalatedFrom config env p delivery).deadLetters = p.deadLetters := by
  unfold escalatedFrom
  split
  · rfl
  · dsimp only
    split
    · rfl
    · split
      · rfl
      · exact (recordRetry_onlyPending env _ _).2

/-- What is isolated has well-formed identifiers. -/
theorem checkDelivery_isolation {config : ConsumerConfig} {delivery : Message}
    {isolation : Isolation} (h : checkDelivery config delivery = .error isolation) :
    isolation.eventID.all isUUID = true ∧ isolation.merchantID.all isUUID = true := by
  -- before the body is parsed, only the message identifier is known
  have hUnread : (identityPointer delivery.messageID).all isUUID = true := by
    unfold identityPointer
    split
    · rename_i hUUID
      rw [Option.all_some, hUUID]
    · rfl
  unfold checkDelivery at h
  dsimp only at h
  split at h
  · cases h
    exact ⟨hUnread, rfl⟩
  · split at h
    · cases h
      exact ⟨hUnread, rfl⟩
    · split at h
      · cases h
        exact ⟨hUnread, rfl⟩
      · split at h
        · cases h
          exact ⟨hUnread, rfl⟩
        · rename_i event hParse
          obtain ⟨hValid, -⟩ := parseEntryConfirmed_valid hParse
          split at h
          · cases h
          · cases h
            exact ⟨hValid.eventID, hValid.merchantID⟩

/-- A delivery that passes has a valid event. -/
theorem checkDelivery_valid {config : ConsumerConfig} {delivery : Message}
    {event : EntryConfirmed} (h : checkDelivery config delivery = .ok event) : event.Valid := by
  unfold checkDelivery at h
  dsimp only at h
  split at h
  · cases h
  · split at h
    · cases h
    · split at h
      · cases h
      · split at h
        · cases h
        · rename_i event' hParse
          split at h
          · cases h
            exact (parseEntryConfirmed_valid hParse).1
          · cases h

/-- The escalation a dead-lettered delivery ends in. -/
structure Escalated (config : ConsumerConfig) (env : ConsumerEnv) (p : Projection)
    (delivery : Message) (isolation : Isolation) (eventType : Text) : Prop where
  runs : processDelivery config env p delivery = escalate config env
    (escalatedFrom config env p delivery) isolation eventType (keptBody config delivery)
  eventID : isolation.eventID = usableID config delivery
  uuids : isolation.eventID.all isUUID = true ∧ isolation.merchantID.all isUUID = true
  storable : (keptBody config delivery ≠ [] ∧ Json.nulFree eventType = true) ↔
    ∀ isolation', checkDelivery config delivery = .error isolation' →
      delivery.body ≠ [] ∧ Json.nulFree delivery.type = true

/-- A marshalled event is not empty. -/
theorem mustMarshalEvent_ne_nil (event : EntryConfirmed) : mustMarshalEvent event ≠ [] :=
  List.cons_ne_nil _ _

/-- Every delivery that is dead-lettered was escalated, with identifiers the tables can store. -/
theorem exists_escalated {config : ConsumerConfig} {env : ConsumerEnv} {p : Projection}
    {delivery : Message} (h : (processDelivery config env p delivery).1.action = .deadLetter) :
    ∃ isolation eventType, Escalated config env p delivery isolation eventType := by
  cases hCheck : checkDelivery config delivery with
  | error isolation =>
    -- a delivery that is refused keeps its own body
    refine ⟨isolation, delivery.type, ?_, ?_, checkDelivery_isolation hCheck, ?_⟩
    · simp only [processDelivery, escalatedFrom, keptBody, hCheck]
    · simp only [usableID, hCheck]
    · simp [keptBody, hCheck]
  | ok event =>
    have hValid := checkDelivery_valid hCheck
    -- the event was applied, given up at once, or given up after its last attempt
    have hStorable : ∀ eventType, Json.nulFree eventType = true →
        ((keptBody config delivery ≠ [] ∧ Json.nulFree eventType = true) ↔
          ∀ isolation', checkDelivery config delivery = .error isolation' →
            delivery.body ≠ [] ∧ Json.nulFree delivery.type = true) := by
      intro eventType hNul
      simp [keptBody, hCheck, mustMarshalEvent_ne_nil, hNul]
    have hUsable : usableID config delivery = some event.eventID := by
      simp only [usableID, hCheck]
    simp only [processDelivery, hCheck] at h
    cases hApply : (Projector.apply env.apply p.store event).1 with
    | ok result =>
      rw [hApply] at h
      cases h
    | error applyErr =>
      cases hClass : classifyFailure applyErr with
      | dlq =>
        -- a conflict, which is given up at once
        refine ⟨⟨some event.eventID, some event.merchantID, some event.businessDate,
          .financialConflict⟩, [], ?_, hUsable.symm, ⟨hValid.eventID, hValid.merchantID⟩,
          hStorable _ rfl⟩
        simp only [processDelivery, escalatedFrom, keptBody, hCheck, hApply, hClass,
          classifyApplyFailure]
      | retry =>
        -- a failure that was retried to the limit
        refine ⟨⟨some event.eventID, some event.merchantID, some event.businessDate,
          .retryAttemptsExhausted⟩, event.eventType, ?_, hUsable.symm,
          ⟨hValid.eventID, hValid.merchantID⟩, hStorable _ ?_⟩
        · simp only [hApply, classifyApplyFailure, hClass] at h
          simp only [processDelivery, escalatedFrom, keptBody, hCheck, hApply, hClass,
            classifyApplyFailure]
          split at h
          · rename_i hLast
            rw [if_pos hLast]
          · cases h
        · rw [hValid.eventType]
          decide

end Cashflow.Consolidation
