import Cashflow.Consolidation.Consumer
import Cashflow.Consolidation.Totals

/-!
# Consolidation — isolated deliveries

A delivery that fails the checks before the applier is isolated: its body is
kept as a dead letter. Reprocessing parses that body again, but makes none of the
other checks, and reads it as the database has rewritten it.

* `isolated_never_applied` — as long as every isolated body, as stored, is
  refused by the parser or has no event identifier, no reprocessing of it touches
  the store;
* `wrong_type_is_applied` — a body that only came under the wrong message type
  is applied by the first reprocess run.
-/

namespace Cashflow.Consolidation

open Lib Pipeline

/-! ## Runs of the consumer and the reprocessor -/

inductive Happening where
  | delivered (env : ConsumerEnv) (delivery : Message)
  | reprocessed (env : Nat → ItemEnv)

def Projection.exec (config : ConsumerConfig) (p : Projection) : Happening → Projection
  | .delivered env delivery => (processDelivery config env p delivery).2
  | .reprocessed env => (reprocess env p).2

/-- The codes of deliveries that were not handed to the applier. -/
def ErrorCode.isolates : ErrorCode → Bool
  | .unsupportedEventType | .schemaViolation | .domainValidation | .identityMismatch => true
  | .financialConflict | .retryAttemptsExhausted | .transientApplyError => false

/-- The body of a delivery that is isolated cannot be applied later: it has no
identifier to be found by, or what is stored of it is refused. -/
def Refused (config : ConsumerConfig) (delivery : Message) : Prop :=
  ∀ isolation, checkDelivery config delivery = .error isolation → isolation.eventID = none ∨
    ∀ payload, config.jsonb.cast (deadLetterText delivery.body) = some payload →
      ∀ event, parseEntryConfirmed payload ≠ .ok event

/-- Every delivery of the run that is isolated is refused later as well. -/
def refusals (config : ConsumerConfig) (_ : Projection) : Happening → Prop
  | .delivered _ delivery => Refused config delivery
  | .reprocessed _ => True

/-! ## What is recorded -/

/-- A dead letter that reprocessing does not find or does not apply. -/
def DeadLetter.Inert (d : DeadLetter) : Prop :=
  d.errorCode.isolates = true → d.eventID = none ∨ ∀ event, parseEntryConfirmed d.payload ≠ .ok event

/-- A letter that is recorded is appended, with its code and its body. -/
theorem recordDeadLetter_some {jsonb : Json.Jsonb} {p p' : Projection}
    {eventID merchantID : Option Text} {businessDate : Option Int} {eventType body : Text}
    {errorCode : ErrorCode}
    (h : recordDeadLetter jsonb p eventID merchantID businessDate eventType body errorCode =
      some p') :
    ∃ d : DeadLetter, p'.store = p.store ∧ p'.deadLetters = p.deadLetters ++ [d] ∧
      d.errorCode = errorCode ∧ jsonb.cast (deadLetterText body) = some d.payload ∧
      (eventID = none → d.eventID = none) := by
  unfold recordDeadLetter at h
  split at h
  · cases h
  · split at h
    · cases h
    · simp only [Option.bind_eq_bind, Option.bind_eq_some_iff, Option.some.injEq] at h
      obtain ⟨payload, hPayload, eventID', hEventID, merchantID', -, rfl⟩ := h
      refine ⟨_, rfl, rfl, rfl, hPayload, ?_⟩
      rintro rfl
      simpa using hEventID.symm

/-- The pending events changed, nothing else. -/
def OnlyPending (p p' : Projection) : Prop :=
  p'.store = p.store ∧ p'.deadLetters = p.deadLetters

/-- A pending row changes no other table. -/
theorem recordPending_some {p : Projection} {eventID : Text} {merchantID : Option Text}
    {businessDate : Option Int} {failureClass : FailureClass} {errorCode : ErrorCode}
    {recorded : Int × Projection}
    (h : recordPending p eventID merchantID businessDate failureClass errorCode =
      some recorded) : OnlyPending p recorded.2 := by
  simp only [recordPending, Option.bind_eq_bind, Option.bind_eq_some_iff] at h
  obtain ⟨_, -, _, -, h⟩ := h
  split at h
  · simp only [Option.bind_eq_some_iff, Option.some.injEq] at h
    obtain ⟨_, -, rfl⟩ := h
    exact ⟨rfl, rfl⟩
  · simp only [Option.bind_eq_some_iff, Option.some.injEq] at h
    obtain ⟨_, -, rfl⟩ := h
    exact ⟨rfl, rfl⟩

/-- And so does a retry. -/
theorem recordRetry_onlyPending (env : ConsumerEnv) (p : Projection) (event : EntryConfirmed) :
    OnlyPending p (recordRetry env p event).2 := by
  unfold recordRetry
  split
  · exact ⟨rfl, rfl⟩
  · cases hPending : recordPending p event.eventID (some event.merchantID)
        (some event.businessDate) .retry .transientApplyError with
    | none => exact ⟨rfl, rfl⟩
    | some recorded => exact recordPending_some hPending

/-- Nothing or one dead letter was recorded, and the store is as it was. -/
def Records (jsonb : Json.Jsonb) (eventID : Option Text) (errorCode : ErrorCode) (body : Text)
    (p p' : Projection) : Prop :=
  p'.store = p.store ∧ (p'.deadLetters = p.deadLetters ∨
    ∃ d : DeadLetter, p'.deadLetters = p.deadLetters ++ [d] ∧ d.errorCode = errorCode ∧
      jsonb.cast (deadLetterText body) = some d.payload ∧ (eventID = none → d.eventID = none))

theorem Records.of_onlyPending {jsonb : Json.Jsonb} {eventID : Option Text}
    {errorCode : ErrorCode} {body : Text} {p p' p'' : Projection} (h : OnlyPending p' p'')
    (hRecords : Records jsonb eventID errorCode body p p') :
    Records jsonb eventID errorCode body p p'' := by
  rw [Records, h.1, h.2]
  exact hRecords

/-- An escalation records the letter at most, and leaves the projection's tables. -/
theorem escalate_records (config : ConsumerConfig) (env : ConsumerEnv) (p : Projection)
    (isolation : Isolation) (eventType body : Text) :
    Records config.jsonb isolation.eventID isolation.errorCode body p
      (escalate config env p isolation eventType body).2 := by
  -- after the dead letter, before the pending row
  obtain ⟨p', hp'⟩ : ∃ p', p' = if env.deadLetterFails then p else
      (recordDeadLetter config.jsonb p isolation.eventID isolation.merchantID
        isolation.businessDate eventType body isolation.errorCode).getD p := ⟨_, rfl⟩
  have hRecorded : Records config.jsonb isolation.eventID isolation.errorCode body p p' := by
    subst hp'
    split
    · -- the letter could not be written
      exact ⟨rfl, .inl rfl⟩
    · cases hRecord : recordDeadLetter config.jsonb p isolation.eventID isolation.merchantID
          isolation.businessDate eventType body isolation.errorCode with
      | none => exact ⟨rfl, .inl rfl⟩
      | some recorded =>
        obtain ⟨d, hStore, hRest⟩ := recordDeadLetter_some hRecord
        exact ⟨hStore, .inr ⟨d, hRest⟩⟩
  simp only [escalate, ← hp']
  split
  · -- a delivery that names no event has no pending row
    exact hRecorded
  · rename_i eventID _
    split
    · exact hRecorded
    · cases hPending : recordPending p' eventID isolation.merchantID isolation.businessDate .dlq
          isolation.errorCode with
      | none => exact hRecorded
      | some recorded => exact hRecorded.of_onlyPending (recordPending_some hPending)

/-! ## Every run -/

section Run

variable {config : ConsumerConfig} {p : Projection}

/-- What was recorded of a body that is refused, or for another reason, is
inert. -/
theorem inert_records {eventID : Option Text} {errorCode : ErrorCode} {body : Text}
    {p' : Projection} (hInert : ∀ d ∈ p.deadLetters, d.Inert)
    (hRecords : Records config.jsonb eventID errorCode body p p')
    (hRefused : errorCode.isolates = true → eventID = none ∨
      ∀ payload, config.jsonb.cast (deadLetterText body) = some payload →
        ∀ event, parseEntryConfirmed payload ≠ .ok event) :
    ∀ d ∈ p'.deadLetters, d.Inert := by
  rcases hRecords.2 with hSame | ⟨d, hAppend, rfl, hPayload, hNone⟩
  · rwa [hSame]
  · intro d' hd'
    rw [hAppend, List.mem_append, List.mem_singleton] at hd'
    rcases hd' with hd' | rfl
    · exact hInert d' hd'
    · intro hIsolates
      exact (hRefused hIsolates).imp hNone fun hParse => hParse _ hPayload

/-- A failed application is recorded under a code of its own, so the letters stay inert. -/
theorem inert_classifyApplyFailure (env : ConsumerEnv) (event : EntryConfirmed)
    (applyErr : StoreError) (hInert : ∀ d ∈ p.deadLetters, d.Inert) :
    ∀ d ∈ (classifyApplyFailure config env p event applyErr).2.deadLetters, d.Inert := by
  unfold classifyApplyFailure
  split
  · exact inert_records hInert (escalate_records config env p _ _ _) nofun
  · have hInert' : ∀ d ∈ (recordRetry env p event).2.deadLetters, d.Inert := by
      rwa [(recordRetry_onlyPending env p event).2]
    dsimp only
    split
    · exact inert_records hInert' (escalate_records config env _ _ _ _) nofun
    · exact hInert'

/-- The letter of a refused delivery is inert. -/
theorem inert_processDelivery (env : ConsumerEnv) {delivery : Message}
    (hRefused : Refused config delivery) (hInert : ∀ d ∈ p.deadLetters, d.Inert) :
    ∀ d ∈ (processDelivery config env p delivery).2.deadLetters, d.Inert := by
  unfold processDelivery
  split
  · rename_i isolation hIsolated
    exact inert_records hInert (escalate_records config env p _ _ _)
      fun _ => hRefused isolation hIsolated
  · simp only
    split
    · exact inert_classifyApplyFailure env _ _ hInert
    · split
      · exact hInert
      · unfold clearPending
        split <;> exact hInert

/-- Reprocessing only takes dead letters away. -/
theorem deadLetters_reprocessItem (env : ItemEnv) (item : Text × DeadLetter) :
    (reprocessItem env p item).2.deadLetters ⊆ p.deadLetters := by
  unfold reprocessItem
  simp only
  split
  · exact List.Subset.refl _
  · split
    · exact List.Subset.refl _
    · split
      · exact List.Subset.refl _
      · exact fun d hd => List.mem_of_mem_filter hd

/-- Reprocessing records no letter. -/
theorem deadLetters_reprocessItems (items : List (Text × DeadLetter)) :
    ∀ (env : Nat → ItemEnv) (p : Projection),
      (reprocessItems env p items).2.deadLetters ⊆ p.deadLetters := by
  induction items with
  | nil => exact fun _ p => List.Subset.refl _
  | cons item items ih =>
    intro env p
    exact List.Subset.trans (ih _ _) (deadLetters_reprocessItem (env 0) item)

/-- So the letters stay inert whatever happens. -/
theorem inert_exec (p : Projection) (happening : Happening)
    (hInert : ∀ d ∈ p.deadLetters, d.Inert) (hRefused : refusals config p happening) :
    ∀ d ∈ (p.exec config happening).deadLetters, d.Inert := by
  cases happening with
  | delivered env delivery => exact inert_processDelivery env hRefused hInert
  | reprocessed env => exact fun d hd => hInert d (deadLetters_reprocessItems _ env p hd)

/-- A dead letter is read by the next run when its event is pending as one. -/
theorem mem_dlqItems {item : Text × DeadLetter} :
    item ∈ dlqItems p ↔ item.2 ∈ p.deadLetters ∧ item.2.eventID = some item.1 ∧
      ∃ r ∈ p.pending.rows, r.eventID = item.1 ∧ r.failureClass = .dlq := by
  obtain ⟨eventID, d⟩ := item
  simp only [dlqItems, List.mem_insertionSort, List.mem_filterMap, Option.bind_eq_bind,
    Option.bind_eq_some_iff, Option.ite_none_right_eq_some, Option.some.injEq, Prod.mk.injEq,
    List.any_eq_true, Bool.and_eq_true, decide_eq_true_eq]
  constructor
  · rintro ⟨d', hMem, id, hID, hPending, rfl, rfl⟩
    exact ⟨hMem, hID, hPending⟩
  · rintro ⟨hMem, hID, hPending⟩
    exact ⟨d, hMem, eventID, hID, hPending, rfl, rfl⟩

/-- Over every run in which every isolated body is refused as it is stored, or
has no event identifier: whenever an isolated delivery is reprocessed, its turn
leaves the store as it finds it. -/
theorem isolated_never_applied (config : ConsumerConfig) (happenings : List Happening)
    (hRefused : Along (Projection.exec config) (refusals config) .empty happenings) :
    ∀ item ∈ dlqItems (run (Projection.exec config) .empty happenings),
      item.2.errorCode.isolates = true → ∀ (env : ItemEnv) (p : Projection),
        (reprocessItem env p item).2.store = p.store := by
  intro item hItem hIsolates env p
  have hInert := run_invariant (fun p : Projection => ∀ d ∈ p.deadLetters, d.Inert)
    (refusals config) inert_exec happenings .empty nofun hRefused
  obtain ⟨hMem, hID, -⟩ := mem_dlqItems.mp hItem
  rcases hInert item.2 hMem hIsolates with hNone | hParse
  · rw [hNone] at hID
    cases hID
  · cases hEvent : parseEntryConfirmed item.2.payload with
    | ok event => exact absurd hEvent (hParse event)
    | error e => simp [reprocessItem, Projector.applyPayload, hEvent]

end Run

/-! ## Samples -/

def sampleConfig : ConsumerConfig := ⟨fun _ => true, .sorted, 5⟩

/-- A delivery that only names its event: no header is set. -/
def bareDelivery (type body : Text) : Message where
  headers := []
  contentType := "application/json".toList
  persistent := true
  messageID := (sampleCredit '1' 1 0 100).eventID
  correlationID := []
  timestamp := 0
  type := type
  appID := []
  body := body

def quietConsumer : ConsumerEnv := ⟨steady 1, false, false, false, false⟩

def quietReprocess (_ : Nat) : ItemEnv := ⟨steady 1, false, false⟩

/-- A body that is no JSON is isolated under its identifier, and reprocessing it
changes nothing. -/
theorem isolated_never_applied_no_json :
    let delivery := bareDelivery entryConfirmedV1 "no JSON".toList
    let p := run (Projection.exec sampleConfig) .empty [.delivered quietConsumer delivery]
    (dlqItems p).length = 1 ∧
      ∀ item ∈ dlqItems p, item.2.errorCode.isolates = true → ∀ (env : ItemEnv) (p : Projection),
        (reprocessItem env p item).2.store = p.store := by
  intro delivery p
  refine ⟨by decide +kernel,
    isolated_never_applied sampleConfig [.delivered quietConsumer delivery] ⟨?_, trivial⟩⟩
  intro isolation _
  refine .inr fun payload hPayload event hEvent => ?_
  cases hPayload
  have hError : parseEntryConfirmed (deadLetterText delivery.body) =
      .error ⟨"payload", "must be valid JSON"⟩ := by decide +kernel
  rw [hError] at hEvent
  cases hEvent

/-- A delivery of the wrong type is isolated, and the first reprocess run applies
its body: the inbox and the balances change. -/
theorem wrong_type_is_applied :
    let delivery := bareDelivery "ledger.entry.rejected.v1".toList
      (mustMarshalEvent (sampleCredit '1' 1 0 100))
    let p := run (Projection.exec sampleConfig) .empty [.delivered quietConsumer delivery]
    let p' := p.exec sampleConfig (.reprocessed quietReprocess)
    checkDelivery sampleConfig delivery =
        .error ⟨some delivery.messageID, none, none, .unsupportedEventType⟩ ∧
      p.store = Store.empty ∧
      p'.store.inbox.rows.map (fun r => r.event.eventID) = [delivery.messageID] ∧
      p'.store.balances.rows.map (fun r => r.creditsMinor) = [100] := by
  decide +kernel

end Cashflow.Consolidation
