import Cashflow.Consolidation.DeadLetters

/-!
# Consolidation — how often a delivery is put back

`classifyApplyFailure` of
`services/consolidation/internal/adapters/inbound/rabbitmq/consumer.go` puts a delivery
back on the queue when applying it failed for a passing reason. It counts the failures
in `event_pending`, not in the message, so the count survives restarts and is shared by
all consumers; the row goes away when the event is applied or reprocessed, and the count
starts again.

Main result: `requeues_below_limit` — as long as the count can be written, no event is
put back `MaxAttempts` times before it is applied or reprocessed.
-/

namespace Cashflow.Consolidation

open Lib Pipeline

/-! ## The count of an event -/

/-- The attempts recorded of an event; zero when it is not pending. -/
def Projection.attempts (p : Projection) (id : Text) : Int :=
  (p.pending.find? fun r => decide (r.eventID = id)).elim 0 PendingEvent.attempts

variable {p p' : Projection} {id : Text}

/-- The attempts are those of the event's row. -/
theorem attempts_of_mem {r : PendingEvent} (hr : r ∈ p.pending) (hID : r.eventID = id) :
    p.attempts id = r.attempts := by
  have hFind : (p.pending.find? fun r => decide (r.eventID = id)) = some r := by
    refine Table.find?_eq_some_of_mem hr (decide_eq_true hID) fun a ha => ?_
    simpa [pendingSchema, hID] using ha
  rw [Projection.attempts, hFind]
  rfl

/-- And none without one. -/
theorem attempts_of_absent (h : ∀ r ∈ p.pending, r.eventID ≠ id) : p.attempts id = 0 := by
  have hFind : (p.pending.find? fun r => decide (r.eventID = id)) = none :=
    Table.find?_none.mpr fun r hr => by simpa using h r hr
  rw [Projection.attempts, hFind]
  rfl

/-- The event is not pending, or its row says how often it was tried. -/
theorem attempts_cases (p : Projection) (id : Text) :
    (∀ r ∈ p.pending, r.eventID ≠ id) ∨ ∃ r ∈ p.pending, r.eventID = id ∧ 0 < r.attempts := by
  by_cases h : ∃ r ∈ p.pending, r.eventID = id
  · obtain ⟨r, hr, hID⟩ := h
    have hChecked := p.pending.checked r hr
    simp only [pendingSchema, Bool.and_eq_true, decide_eq_true_eq] at hChecked
    exact .inr ⟨r, hr, hID, hChecked.1⟩
  · exact .inl fun r hr hID => h ⟨r, hr, hID⟩

/-- Attempts are not negative. -/
theorem attempts_nonneg (p : Projection) (id : Text) : 0 ≤ p.attempts id := by
  rcases attempts_cases p id with hAbsent | ⟨r, hr, hID, hPos⟩
  · rw [attempts_of_absent hAbsent]
  · rw [attempts_of_mem hr hID]
    exact hPos.le

/-- No count gets smaller. -/
def Rises (p p' : Projection) : Prop := ∀ id, p.attempts id ≤ p'.attempts id

/-- A count stays or starts again. -/
def Falls (p p' : Projection) : Prop := ∀ id, p'.attempts id = 0 ∨ p'.attempts id = p.attempts id

/-- If every row stays and counts no less, the attempts rise. -/
theorem Rises.of_rows (h : ∀ r ∈ p.pending, ∃ r' ∈ p'.pending, r'.eventID = r.eventID ∧
    r.attempts ≤ r'.attempts) : Rises p p' := by
  intro id
  rcases attempts_cases p id with hAbsent | ⟨r, hr, hID, -⟩
  · rw [attempts_of_absent hAbsent]
    exact attempts_nonneg p' id
  · obtain ⟨r', hr', hSame, hLe⟩ := h r hr
    rw [attempts_of_mem hr hID, attempts_of_mem hr' (hSame.trans hID)]
    exact hLe

/-- A deletion leaves a count or sets it to zero. -/
theorem Falls.of_delete {gone : PendingEvent → Bool} (h : p'.pending = p.pending.delete gone) :
    Falls p p' := by
  intro id
  rcases attempts_cases p' id with hAbsent | ⟨r, hr, hID, -⟩
  · exact .inl (attempts_of_absent hAbsent)
  · have hBefore : r ∈ p.pending := by
      rw [h] at hr
      exact List.mem_of_mem_filter hr
    exact .inr ((attempts_of_mem hr hID).trans (attempts_of_mem hBefore hID).symm)

/-- And so do two. -/
theorem Falls.trans {p'' : Projection} (h : Falls p p') (h' : Falls p' p'') : Falls p p'' := by
  intro id
  rcases h' id with hZero | hSame
  · exact .inl hZero
  · rw [hSame]
    exact h id

/-! ## What one delivery does to the counts -/

/-- A value is that of a success. -/
theorem ok_of_toOption {ε α : Type} {x : Except ε α} {a : α} (h : x.toOption = some a) :
    x = .ok a := by
  cases x with
  | error e => cases h
  | ok b =>
    cases h
    rfl

/-- `RecordPending` counts one more attempt of its event. -/
theorem attempts_recordPending {eventID : Text} {merchantID : Option Text}
    {businessDate : Option Int} {failureClass : FailureClass} {errorCode : ErrorCode} {n : Int}
    (h : recordPending p eventID merchantID businessDate failureClass errorCode = some (n, p')) :
    Rises p p' ∧ ∀ id, uuidIn eventID = some id → n = p.attempts id + 1 ∧ p'.attempts id = n := by
  simp only [recordPending, Option.bind_eq_bind, Option.bind_eq_some_iff] at h
  obtain ⟨key, hKey, merchant, -, h⟩ := h
  split at h
  · -- the first failure of the event
    rename_i hNone
    simp only [Option.bind_eq_some_iff, Option.some.injEq, Prod.mk.injEq] at h
    obtain ⟨pending, hInsert, rfl, rfl⟩ := h
    replace hInsert := ok_of_toOption hInsert
    refine ⟨.of_rows fun r hr => ⟨r, (Table.mem_insert hInsert).mpr (.inl hr), rfl, le_rfl⟩, ?_⟩
    intro id hID
    obtain rfl := Option.some.inj (hKey.symm.trans hID)
    have hAbsent : p.attempts key = 0 :=
      attempts_of_absent fun r hr => by simpa using Table.find?_none.mp hNone r hr
    have hNew : ⟨key, merchant, businessDate, failureClass, 1, errorCode⟩ ∈ pending :=
      (Table.mem_insert hInsert).mpr (.inr rfl)
    exact ⟨by omega, attempts_of_mem (p := { p with pending }) hNew rfl⟩
  · -- a later one: the row's count goes up by one
    rename_i old hOld
    simp only [Option.bind_eq_some_iff, Option.some.injEq, Prod.mk.injEq] at h
    obtain ⟨pending, hUpdate, rfl, rfl⟩ := h
    replace hUpdate := ok_of_toOption hUpdate
    obtain ⟨hMem, hSame⟩ := Table.find?_some hOld
    rw [decide_eq_true_eq] at hSame
    have hRows := (Table.update_eq_ok.mp hUpdate).2
    constructor
    · refine .of_rows fun r hr => ⟨if r.eventID = key then
        r.again merchant businessDate failureClass errorCode else r, ?_, ?_, ?_⟩
      · rw [Table.mem_def, hRows]
        exact List.mem_map.mpr ⟨r, hr, rfl⟩
      · split <;> rfl
      · split
        · exact (lt_add_one r.attempts).le
        · exact le_rfl
    · intro id hID
      obtain rfl := Option.some.inj (hKey.symm.trans hID)
      rw [attempts_of_mem hMem hSame]
      refine ⟨rfl, ?_⟩
      have hAgain : old.again merchant businessDate failureClass errorCode ∈ pending := by
        rw [Table.mem_def, hRows]
        exact List.mem_map.mpr ⟨old, hMem, if_pos hSame⟩
      exact attempts_of_mem (p := { p with pending }) hAgain hSame

/-- Recording a failure lowers no count, whether it can be written or not. -/
theorem rises_recordPending (p : Projection) (eventID : Text) (merchantID : Option Text)
    (businessDate : Option Int) (failureClass : FailureClass) (errorCode : ErrorCode) :
    Rises p (((recordPending p eventID merchantID businessDate failureClass errorCode).map
      Prod.snd).getD p) := by
  cases h : recordPending p eventID merchantID businessDate failureClass errorCode with
  | none => exact fun _ => le_rfl
  | some recorded => exact (attempts_recordPending h).1

/-- Nor does recording a retry. -/
theorem rises_recordRetry (env : ConsumerEnv) (p : Projection) (event : EntryConfirmed) :
    Rises p (recordRetry env p event).2 := by
  unfold recordRetry
  split
  · exact fun _ => le_rfl
  · cases h : recordPending p event.eventID (some event.merchantID) (some event.businessDate) .retry
        .transientApplyError with
    | none => exact fun _ => le_rfl
    | some recorded => exact (attempts_recordPending h).1

/-- Giving a delivery up counts for its event too, and puts nothing back. -/
theorem escalate_attempts (config : ConsumerConfig) (env : ConsumerEnv) (p : Projection)
    (isolation : Isolation) (eventType body : Text) :
    (escalate config env p isolation eventType body).1.action = .deadLetter ∧
      Rises p (escalate config env p isolation eventType body).2 := by
  unfold escalate
  -- the dead letter leaves the counts as they are
  have hLetter : Rises p (if env.deadLetterFails then p else
      (recordDeadLetter config.jsonb p isolation.eventID isolation.merchantID
        isolation.businessDate eventType body isolation.errorCode).getD p) := by
    intro id
    split
    · exact le_rfl
    · rw [Projection.attempts, Projection.attempts, pending_recordDeadLetter]
  dsimp only
  split
  · exact ⟨rfl, hLetter⟩
  · refine ⟨rfl, fun id => (hLetter id).trans ?_⟩
    by_cases hFails : env.pendingFails = true
    · rw [if_pos hFails]
    · rw [if_neg hFails]
      exact rises_recordPending _ _ _ _ _ _ id

/-- The count of a passing failure is written. -/
def retryRecorded (config : ConsumerConfig) (p : Projection) : Happening → Bool
  | .delivered env delivery =>
    match checkDelivery config delivery with
    | .error _ => true
    | .ok event => !env.retryFails && (recordPending p event.eventID (some event.merchantID)
        (some event.businessDate) .retry .transientApplyError).isSome
  | .reprocessed _ => true

/-- The happening puts a delivery of the event back on the queue. -/
def requeues (config : ConsumerConfig) (p : Projection) (id : Text) : Happening → Bool
  | .delivered env delivery =>
    let result := (processDelivery config env p delivery).1
    decide (result.action = .requeue) && decide (uuidIn result.eventID = some id)
  | .reprocessed _ => false

/-- Recording does not look at the store. -/
theorem isSome_recordPending_store (p : Projection) (store : Store) (eventID : Text)
    (merchantID : Option Text) (businessDate : Option Int) (failureClass : FailureClass)
    (errorCode : ErrorCode) :
    (recordPending { p with store } eventID merchantID businessDate failureClass errorCode).isSome =
      (recordPending p eventID merchantID businessDate failureClass errorCode).isSome := by
  simp only [recordPending, Option.bind_eq_bind]
  cases uuidIn eventID with
  | none => rfl
  | some key =>
    cases merchantID.mapM uuidIn with
    | none => rfl
    | some merchant =>
      simp only [Option.bind_some]
      split
      · cases (p.pending.insert ⟨key, merchant, businessDate, failureClass, 1, errorCode⟩) <;> rfl
      · simp only [Option.isSome_bind]
        rfl

/-- A failure that is put back on the queue was counted, and is below the limit. -/
theorem classified_counted {config : ConsumerConfig} {env : ConsumerEnv} {store : Store}
    {event : EntryConfirmed} {applyErr : StoreError} (hWritten : env.retryFails = false)
    (hSome : (recordPending p event.eventID (some event.merchantID) (some event.businessDate) .retry
      .transientApplyError).isSome = true)
    (hAction : (classifyApplyFailure config env { p with store } event applyErr).1.action = .requeue)
    (hID : uuidIn (classifyApplyFailure config env { p with store } event applyErr).1.eventID =
      some id) :
    (classifyApplyFailure config env { p with store } event applyErr).2.attempts id =
        p.attempts id + 1 ∧
      (classifyApplyFailure config env { p with store } event applyErr).2.attempts id <
        config.maxAttempts := by
  rw [← isSome_recordPending_store p store, Option.isSome_iff_exists] at hSome
  obtain ⟨recorded, hRecord⟩ := hSome
  have hRetry : recordRetry env { p with store } event = recorded := by
    rw [recordRetry, hWritten, hRecord]
    rfl
  obtain ⟨n, p'⟩ := recorded
  unfold classifyApplyFailure at hAction hID ⊢
  dsimp only at hAction hID ⊢
  cases hClass : classifyFailure applyErr with
  | dlq =>
    -- a failure that is no use retrying goes to the dead letters
    simp only [hClass] at hAction
    rw [(escalate_attempts _ _ _ _ _ _).1] at hAction
    cases hAction
  | retry =>
    simp only [hClass, hRetry] at hAction hID ⊢
    by_cases hLimit : config.maxAttempts ≤ n
    · -- and so does one at the limit
      rw [if_pos hLimit, (escalate_attempts _ _ _ _ _ _).1] at hAction
      cases hAction
    · -- the count that was read back is the one that is stored
      rw [if_neg hLimit] at hID ⊢
      obtain ⟨hNext, hStored⟩ := (attempts_recordPending hRecord).2 id hID
      dsimp only
      rw [hStored]
      exact ⟨hNext, not_le.mp hLimit⟩

/-- A delivery that is put back was counted, and the count is below the limit. -/
theorem requeued_counted {config : ConsumerConfig} {h : Happening}
    (hRecorded : retryRecorded config p h = true) (hRequeues : requeues config p id h = true) :
    (p.exec config h).attempts id = p.attempts id + 1 ∧
      (p.exec config h).attempts id < config.maxAttempts := by
  cases h with
  -- reprocessing puts nothing back on the queue
  | reprocessed env => cases hRequeues
  | delivered env delivery =>
    simp only [requeues, Bool.and_eq_true, decide_eq_true_eq] at hRequeues
    simp only [Projection.exec]
    unfold processDelivery at hRequeues ⊢
    cases hCheck : checkDelivery config delivery with
    | error isolation =>
      -- a delivery that fails the checks is isolated at once
      rw [hCheck] at hRequeues
      rw [(escalate_attempts config env p isolation delivery.type delivery.body).1] at hRequeues
      cases hRequeues.1
    | ok event =>
      simp only [hCheck] at hRequeues ⊢
      simp only [retryRecorded, hCheck, Bool.and_eq_true, Bool.not_eq_true'] at hRecorded
      obtain ⟨hWritten, hSome⟩ := hRecorded
      cases hApply : Projector.apply env.apply p.store event with
      | mk outcome store =>
        simp only [hApply] at hRequeues ⊢
        cases outcome with
        -- an event that is applied is acknowledged
        | ok result => cases hRequeues.1
        | error applyErr =>
          dsimp only at hRequeues ⊢
          exact classified_counted hWritten hSome hRequeues.1 hRequeues.2

/-- No failure lowers a count. -/
theorem rises_classifyApplyFailure (config : ConsumerConfig) (env : ConsumerEnv) (p : Projection)
    (event : EntryConfirmed) (applyErr : StoreError) :
    Rises p (classifyApplyFailure config env p event applyErr).2 := by
  unfold classifyApplyFailure
  dsimp only
  split
  · exact (escalate_attempts _ _ _ _ _ _).2
  · have hRetry := rises_recordRetry env p event
    split
    · exact fun id => (hRetry id).trans ((escalate_attempts _ _ _ _ _ _).2 id)
    · exact hRetry

/-- Reprocessing raises none. -/
theorem falls_reprocessItems (items : List (Text × DeadLetter)) :
    ∀ (env : Nat → ItemEnv) (p : Projection), Falls p (reprocessItems env p items).2 := by
  induction items with
  | nil => exact fun env p id => .inr rfl
  | cons item items ih =>
    intro env p
    have hItem : Falls p (reprocessItem (env 0) p item).2 := by
      unfold reprocessItem
      dsimp only
      split
      · exact fun id => .inr rfl
      · split
        · exact fun id => .inr rfl
        · split <;> exact .of_delete rfl
    exact hItem.trans (ih (fun i => env (i + 1)) _)

/-- Whatever happens, the counts rise, or those of applied events start again. -/
theorem exec_attempts (config : ConsumerConfig) (p : Projection) (h : Happening) :
    Rises p (p.exec config h) ∨ Falls p (p.exec config h) := by
  cases h with
  | reprocessed env => exact .inr (falls_reprocessItems _ env p)
  | delivered env delivery =>
    simp only [Projection.exec]
    unfold processDelivery
    split
    · -- a delivery that is refused
      exact .inl (escalate_attempts _ _ _ _ _ _).2
    · rename_i event hCheck
      dsimp only
      split
      · -- the store has changed, and the counts have not
        exact .inl fun id => rises_classifyApplyFailure config env
          { p with store := (Projector.apply env.apply p.store event).2 } event _ id
      · -- applied: the pending row is cleared, if that can be done
        refine .inr fun id => ?_
        split
        · exact .inr rfl
        · unfold clearPending
          split
          · exact .inr rfl
          · exact Falls.of_delete rfl id

/-! ## Runs -/

/-- A happening, with how often the event was put back since it last was not pending. -/
def tally (config : ConsumerConfig) (id : Text) (s : Projection × Nat) (h : Happening) :
    Projection × Nat :=
  let p := s.1.exec config h
  (p, if p.attempts id = 0 then 0 else if requeues config s.1 id h then s.2 + 1 else s.2)

/-- The event was put back no more often than its row counts, and less often than the limit. -/
def WithinLimit (config : ConsumerConfig) (id : Text) (s : Projection × Nat) : Prop :=
  (s.2 : Int) ≤ s.1.attempts id ∧ (s.2 = 0 ∨ (s.2 : Int) < config.maxAttempts)

/-- The tally stays within the attempts that are stored, and those below the limit. -/
theorem withinLimit_tally {config : ConsumerConfig} {s : Projection × Nat} {h : Happening}
    (hInv : WithinLimit config id s) (hRecorded : retryRecorded config s.1 h = true) :
    WithinLimit config id (tally config id s h) := by
  obtain ⟨hCount, hLimit⟩ := hInv
  unfold WithinLimit tally
  dsimp only
  by_cases hZero : (s.1.exec config h).attempts id = 0
  · rw [if_pos hZero]
    exact ⟨attempts_nonneg _ id, .inl rfl⟩
  · rw [if_neg hZero]
    split
    · rename_i hRequeues
      obtain ⟨hNext, hBelow⟩ := requeued_counted hRecorded hRequeues
      omega
    · -- not put back: the count did not start again, so it did not get smaller
      have hLe : s.1.attempts id ≤ (s.1.exec config h).attempts id := by
        rcases exec_attempts config s.1 h with hRises | hFalls
        · exact hRises id
        · rcases hFalls id with h0 | hSame
          · exact absurd h0 hZero
          · exact hSame.ge
      exact ⟨hCount.trans hLe, hLimit⟩

/-- A guard along a run is one along the tally. -/
theorem along_tally {config : ConsumerConfig} {guard : Projection → Happening → Prop}
    (happenings : List Happening) : ∀ (p : Projection) (k : Nat),
    Along (Projection.exec config) guard p happenings →
      Along (tally config id) (fun s h => guard s.1 h) (p, k) happenings := by
  induction happenings with
  | nil => exact fun _ _ _ => trivial
  | cons h happenings ih => exact fun p k hAlong => ⟨hAlong.1, ih _ _ hAlong.2⟩

/-- For every run of deliveries and reprocess runs, from any state of the database: as long as the
counts of passing failures are written, no event is put back on the queue as often as `MaxAttempts`
without its row having gone in between, that is, without having been applied or reprocessed. -/
theorem requeues_below_limit (config : ConsumerConfig) (id : Text) (p : Projection)
    (happenings : List Happening)
    (hRecorded : Along (Projection.exec config) (fun p h => retryRecorded config p h = true) p
      happenings) :
    ((run (tally config id) (p, 0) happenings).2 : Int) ≤ max 0 (config.maxAttempts - 1) := by
  have hStart : WithinLimit config id (p, 0) := ⟨attempts_nonneg p id, .inl rfl⟩
  have hEnd := run_invariant (WithinLimit config id) _
    (fun s h hInv hGuard => withinLimit_tally hInv hGuard) happenings (p, 0) hStart
    (along_tally happenings p 0 hRecorded)
  rcases hEnd.2 with hNone | hBelow
  · rw [hNone]
    exact le_max_left _ _
  · exact (Int.le_sub_one_of_lt hBelow).trans (le_max_right _ _)

/-- A delivery of the sample credit as it is published. -/
def creditDelivery : Message :=
  let event := sampleCredit '1' 1 0 100
  { bareDelivery entryConfirmedV1 (mustMarshalEvent event) with
    correlationID := event.entryID
    headers :=
      [("event_id".toList, .text event.eventID), ("event_type".toList, .text event.eventType),
        ("merchant_id".toList, .text event.merchantID),
        ("merchant_position".toList, .int event.merchantPosition),
        ("entry_id".toList, .text event.entryID), ("traceparent".toList, .text event.traceparent)] }

/-- The inbox cannot be written. -/
def failingConsumer : ConsumerEnv :=
  { quietConsumer with apply := { steady 1 with fault := fun s => decide (s = .insertInbox) } }

/-- Five failures with a limit of five: the delivery is put back four times. -/
theorem requeues_below_limit_credit :
    (run (tally sampleConfig creditDelivery.messageID) (.empty, 0)
      (List.replicate 5 (.delivered failingConsumer creditDelivery))).2 = 4 ∧
    ((run (tally sampleConfig creditDelivery.messageID) (.empty, 0)
      (List.replicate 5 (.delivered failingConsumer creditDelivery))).2 : Int) ≤
        max 0 (sampleConfig.maxAttempts - 1) :=
  ⟨by decide +kernel,
    requeues_below_limit sampleConfig creditDelivery.messageID .empty _ (by decide +kernel)⟩

end Cashflow.Consolidation
