import Cashflow.Consolidation.Isolation
import Cashflow.Ledger.Books
import Cashflow.Outbox.Leases
import Cashflow.Pipeline.Custody

/-!
# Pipeline — no event is lost

Every happening keeps `World.Safe` (`Safe.exec`), so every run does. The step that
needs an argument is the acknowledgement: `Apply` reports success also for an
event it found under the same merchant and position, and that one is of the same
outbox row, since a position of a merchant has one entry and an entry one event.

* `no_event_lost` — after every run, the event of every committed entry is in an
  unpublished row, with the broker, or in the inbox.
-/

namespace Cashflow.Pipeline.Delivery

open Lib Ledger Outbox Consolidation
open Outbox.Leases (eq_of_eventID claim_ok mem_selectClaimable turns_claim)

namespace World

variable {w : World}

/-! ## The outbox -/

/-- The tables of the ledger change; what the parties hold is about rows that
keep their identity. -/
theorem Safe.setLedger (h : w.Safe) {d : Db}
    (hRows : ∀ r ∈ w.ledger.outbox, ∃ r' ∈ d.outbox, identity r' = identity r)
    (hEntries : ∀ e ∈ d.entries, ∃ r ∈ d.outbox, EventOf e r)
    (hEvents : ∀ r ∈ d.outbox, ∃ e ∈ d.entries, EventOf e r)
    (hPublished : ∀ r ∈ d.outbox, r.publishedAt ≠ none →
      Fact.confirmed r.eventID.text ∈ w.history)
    (hStep : Relay.Step w.relay (relay { w with ledger := d })) :
    Safe { w with ledger := d } := by
  -- a ledger with these rows is a later one, and what was posted stays posted
  have hLater : Later w { w with ledger := d } := ⟨hRows, fun _ hf => hf, fun _ hi => hi⟩
  exact {
    entries := hEntries
    rows := hEvents
    published := hPublished
    workers := fun k => hLater.workerOk (h.workers k)
    statements := fun s hs => hLater.statementOk (h.statements s hs)
    strays := fun m hm => hLater.posted (h.strays m hm)
    ready := fun m hm => hLater.posted (h.ready m hm)
    deadLetterQueue := fun m hm => hLater.posted (h.deadLetterQueue m hm)
    consumers := fun c => hLater.consumerOk (h.consumers c)
    inbox := fun i hi => hLater.posted (h.inbox i hi)
    history := fun f hf => hLater.factOk (h.history f hf)
    inv := hStep.inv h.inv }

/-- Rows are rewritten; one is marked published only if its publication was
confirmed. -/
theorem Safe.rewrite (h : w.Safe) {chosen : OutboxRow → Bool} {f : OutboxRow → OutboxRow}
    {hIdentity : ∀ r, identity (f r) = identity r}
    {hCheck : ∀ r, outboxSchema.check r = true → outboxSchema.check (f r) = true}
    (hMarks : ∀ r ∈ w.ledger.outbox, chosen r = true → (f r).publishedAt = r.publishedAt ∨
      Fact.confirmed r.eventID.text ∈ w.history) :
    (w.setOutbox (Outbox.rewrite w.ledger.outbox chosen f hIdentity hCheck)).Safe := by
  obtain ⟨g, hg⟩ : ∃ g : OutboxRow → OutboxRow, g = fun r => if chosen r then f r else r :=
    ⟨_, rfl⟩
  have hSame : ∀ r, identity (g r) = identity r := by
    intro r
    rw [hg]
    dsimp only
    split
    · exact hIdentity r
    · rfl
  have hMarked : ∀ r ∈ w.ledger.outbox, (g r).publishedAt = r.publishedAt ∨
      Fact.confirmed r.eventID.text ∈ w.history := by
    intro r hr
    rw [hg]
    dsimp only
    split
    · next hChosen => exact hMarks r hr hChosen
    · exact .inl rfl
  have hMem : ∀ r', r' ∈ (w.setOutbox (Outbox.rewrite w.ledger.outbox chosen f hIdentity
      hCheck)).ledger.outbox ↔ ∃ r ∈ w.ledger.outbox, g r = r' := by
    intro r'
    rw [hg]
    exact List.mem_map
  have hID : ∀ r, (g r).eventID.text = r.eventID.text := fun r =>
    congrArg (fun id : Identity => id.eventID.text) (hSame r)
  -- every entry has its event
  refine h.setLedger (fun r hr => ⟨g r, (hMem _).mpr ⟨r, hr, rfl⟩, hSame r⟩) ?_ ?_ ?_ ?_
  · intro e he
    obtain ⟨r, hr, hEvent⟩ := h.entries e he
    exact ⟨g r, (hMem _).mpr ⟨r, hr, rfl⟩, hEvent.of_identity (hSame r)⟩
  · -- and every event its entry
    intro r' hr'
    obtain ⟨r, hr, rfl⟩ := (hMem r').mp hr'
    obtain ⟨e, he, hEvent⟩ := h.rows r hr
    exact ⟨e, he, hEvent.of_identity (hSame r)⟩
  · -- what is marked published was confirmed
    intro r' hr' hPublished
    obtain ⟨r, hr, rfl⟩ := (hMem r').mp hr'
    rw [hID]
    rcases hMarked r hr with hKept | hConfirmed
    · exact h.published r hr (hKept ▸ hPublished)
    · exact hConfirmed
  · refine ⟨?_, ?_, fun _ hi => .inl hi, fun _ hi => hi, fun _ hi => .inl hi, fun _ hi => hi⟩
    · rintro i ⟨r', hr', rfl⟩
      obtain ⟨r, hr, rfl⟩ := (hMem r').mp hr'
      exact .inl ⟨r, hr, (hID r).symm⟩
    · -- an event that waited still waits, unless it was confirmed
      rintro i ⟨r, hr, hWaiting, rfl⟩
      rcases hMarked r hr with hKept | hConfirmed
      · exact .inl ⟨g r, (hMem _).mpr ⟨r, hr, rfl⟩, hKept.trans hWaiting, hID r⟩
      · -- the carrier has vouched for what it has confirmed
        exact .inr (h.history _ hConfirmed)

/-- A settlement that succeeds is an update of the rows held under the event's canonical
identifier. -/
theorem settle_rewrites {doing : String} {t u : Table outboxSchema} {eventID owner : Text}
    {f : OutboxRow → OutboxRow} {hIdentity : ∀ r, identity (f r) = identity r}
    {hCheck : ∀ r, outboxSchema.check r = true → outboxSchema.check (f r) = true}
    (h : Outbox.settle doing t eventID owner f hIdentity hCheck = .ok u) :
    ∃ canonical, uuidIn eventID = some canonical ∧
      u = Outbox.rewrite t (held canonical owner) f hIdentity hCheck := by
  unfold Outbox.settle at h
  split at h
  · cases h
  · rename_i canonical hCanonical
    split at h
    · cases h
    · cases h
      exact ⟨canonical, hCanonical, rfl⟩

/-- A settling statement takes effect, whenever that is. -/
theorem Safe.eval (h : w.Safe) {interval : Int → Int} {now : Int} {s : Statement}
    {outbox : Table outboxSchema} (hOk : w.StatementOk s)
    (hEval : s.eval interval now w.ledger.outbox = .ok outbox) : (w.setOutbox outbox).Safe := by
  -- only the first statement marks a row published, and it was issued after a confirmation
  cases s with
  | markPublished event =>
    obtain ⟨canonical, hCanonical, rfl⟩ := settle_rewrites hEval
    obtain ⟨⟨r, -, hRead⟩, hConfirmed⟩ := hOk
    have hID : uuidIn event.eventID = some event.eventID := by
      rw [hRead.eventID]
      exact uuidIn_text _
    rw [hID, Option.some.injEq] at hCanonical
    subst hCanonical
    refine h.rewrite fun r hr hHeld => .inr ?_
    simp only [held, Bool.and_eq_true, decide_eq_true_eq] at hHeld
    rw [hHeld.1.1]
    exact hConfirmed
  | markFailed event delay lastError =>
    simp only [Statement.eval, Outbox.markFailed] at hEval
    split at hEval
    · cases hEval
    · obtain ⟨canonical, -, rfl⟩ := settle_rewrites hEval
      exact h.rewrite fun r hr hHeld => .inl rfl

/-- A claim leases rows, and the worker takes one of them. -/
theorem Safe.claim (h : w.Safe) (config : Config) (k : Nat) (owner : Text) (lease : Int)
    (env : ClaimEnv) (learns : Bool) : (w.claim config k owner lease env learns).Safe := by
  unfold World.claim
  split
  · -- a worker that is busy claims nothing
    split
    · exact h
    · rename_i events outbox hClaim
      obtain ⟨hEvents, hIdentity, hCheck, hOutbox⟩ := claim_ok hClaim
      -- a lease is no publication
      have hSafe : (w.setOutbox outbox).Safe := by
        rw [hOutbox]
        exact h.rewrite fun r hr hChosen => .inl rfl
      have hLater : Later w (w.setOutbox outbox) :=
        ⟨(turns_claim hClaim).kept, fun _ hf => hf, fun _ hi => hi⟩
      split
      · rename_i event rest
        refine hSafe.setWorker k (hLater.posted ?_)
        have hMem : event ∈ event :: rest := List.mem_cons_self
        rw [hEvents] at hMem
        obtain ⟨r, hr, rfl⟩ := List.mem_map.mp hMem
        exact ⟨r, (mem_selectClaimable hr).1, rfl, rfl, rfl, rfl⟩
      · exact hSafe
  · exact h

/-! ## The ledger -/

/-- A posting adds an entry and its event, which waits in the outbox. -/
theorem Safe.request (h : w.Safe) (platform : Platform) (env : Ledger.Env) (req : Request) :
    Safe { w with ledger := (req.run platform env w.ledger).2 } := by
  rcases run_cases platform env req w.ledger with hSame | ⟨p, -, hPosts, hMade, -⟩
  · rw [hSame]
    exact h
  · obtain ⟨eventID, text, payload, -, -, -, hEvent⟩ := hMade.event
    have hNew : EventOf p.entry.row p.event := by
      rw [hEvent]
      exact ⟨rfl, rfl, rfl, rfl⟩
    have hUnpublished : p.event.publishedAt = none := by
      rw [hEvent]
      rfl
    have hOutbox : ∀ r, r ∈ (req.run platform env w.ledger).2.outbox ↔
        r ∈ w.ledger.outbox ∨ r = p.event := by
      intro r
      rw [Table.mem_def, hPosts.outbox, List.mem_append, List.mem_singleton]
      rfl
    refine h.setLedger (fun r hr => ⟨r, (hOutbox r).mpr (.inl hr), rfl⟩) ?_ ?_ ?_ ?_
    · -- every entry has its event
      intro e he
      rcases hPosts.mem_entries.mp he with he | rfl
      · obtain ⟨r, hr, hEvent⟩ := h.entries e he
        exact ⟨r, (hOutbox r).mpr (.inl hr), hEvent⟩
      · exact ⟨p.event, (hOutbox _).mpr (.inr rfl), hNew⟩
    · intro r hr
      rcases (hOutbox r).mp hr with hr | rfl
      · obtain ⟨e, he, hEvent⟩ := h.rows r hr
        exact ⟨e, hPosts.mem_entries.mpr (.inl he), hEvent⟩
      · exact ⟨p.entry.row, hPosts.mem_entries.mpr (.inr rfl), hNew⟩
    · -- a new row is not published yet
      intro r hr hPublished
      rcases (hOutbox r).mp hr with hr | rfl
      · exact h.published r hr hPublished
      · exact absurd hUnpublished hPublished
    · refine ⟨?_, ?_, fun _ hi => .inl hi, fun _ hi => hi, fun _ hi => .inl hi, fun _ hi => hi⟩
      · -- the new event waits, the others are where they were
        rintro i ⟨r, hr, rfl⟩
        rcases (hOutbox r).mp hr with hr' | rfl
        · exact .inl ⟨r, hr', rfl⟩
        · exact .inr ⟨p.event, hr, hUnpublished, rfl⟩
      · rintro i ⟨r, hr, hWaiting, rfl⟩
        exact .inl ⟨r, (hOutbox r).mpr (.inl hr), hWaiting, rfl⟩

/-! ## The inbox -/

/-- A position of a merchant has one event. -/
theorem Sound.same_row (h : w.Sound) {r r' : OutboxRow} (hr : r ∈ w.ledger.outbox)
    (hr' : r' ∈ w.ledger.outbox) (hMerchant : r.merchantID = r'.merchantID)
    (hPosition : r.merchantPosition = r'.merchantPosition) : r = r' := by
  obtain ⟨e, he, hEvent⟩ := h.rows r hr
  obtain ⟨e', he', hEvent'⟩ := h.rows r' hr'
  have hEntry : e = e' := by
    refine Table.eq_of_clash he he' (decide_eq_true (.inr (.inl ⟨?_, ?_⟩)))
    · rw [← hEvent.merchantID, hMerchant, hEvent'.merchantID]
    · rw [← hEvent.merchantPosition, hPosition, hEvent'.merchantPosition]
  refine Table.eq_of_clash hr hr' (decide_eq_true (.inr ⟨?_, ?_⟩))
  · rw [hEvent.aggregateID, hEntry, hEvent'.aggregateID]
  · rw [hEvent.eventType, hEvent'.eventType]

end World

/-- What `Apply` reports is what its transaction returned. -/
theorem apply_ok {env : Consolidation.Env} {s : Store} {event : EntryConfirmed}
    {r : ProjectionResult} (h : (Consolidation.apply env s event).1 = .ok r) :
    applyTx env s event = .ok (r, (Consolidation.apply env s event).2) := by
  unfold Consolidation.apply Consolidation.commit at h ⊢
  split at h
  · cases h
  · rename_i result s' hTx
    split at h
    · cases h
      rw [hTx]
    · cases h
    · cases h

/-- What `Projector.Apply` leaves of the inbox. -/
structure Admits (event : EntryConfirmed) (s s' : Store) : Prop where
  kept : ∀ i ∈ s.inbox, i ∈ s'.inbox
  new : ∀ i ∈ s'.inbox, i ∈ s.inbox ∨ i = InboxEvent.of event.canonical

/-- `Apply` adds to the inbox the event it was given, or nothing. -/
theorem admits_apply (env : Consolidation.Env) (s : Store) (event : EntryConfirmed) :
    Admits event s (Projector.apply env s event).2 := by
  unfold Projector.apply
  split
  · exact ⟨fun _ hi => hi, fun _ hi => .inl hi⟩
  · rcases commit_snd env s _ (applyTx env s event.canonical) with h | ⟨r, s', hTx, h⟩
    · rw [Consolidation.apply, h]
      exact ⟨fun _ hi => hi, fun _ hi => .inl hi⟩
    · rw [Consolidation.apply, h]
      obtain ⟨-, ⟨-, -, rfl⟩ | ⟨-, hApplied⟩⟩ := applyTx_ok hTx
      · exact ⟨fun _ hi => hi, fun _ hi => .inl hi⟩
      · rw [canonical_canonical] at hApplied
        exact ⟨fun _ hi => hApplied.mem_inbox.mpr (.inl hi), fun _ hi => hApplied.mem_inbox.mp hi⟩

/-- An event `Projector.Apply` reports as applied is in the inbox, at least under
its merchant and position. -/
theorem apply_arrives {env : Consolidation.Env} {s : Store} {event : EntryConfirmed}
    {r : ProjectionResult} (h : (Projector.apply env s event).1 = .ok r) :
    ∃ i ∈ (Projector.apply env s event).2.inbox,
      i.event.merchantID = event.canonical.merchantID ∧
        i.event.merchantPosition = event.canonical.merchantPosition := by
  cases hValid : event.validate with
  | error e =>
    simp only [Projector.apply, hValid] at h
    cases h
  | ok _ =>
    simp only [Projector.apply, hValid] at h ⊢
    obtain ⟨-, ⟨-, ⟨row, hRow⟩, hStore⟩ | ⟨-, hApplied⟩⟩ := applyTx_ok (apply_ok h)
    · rw [canonical_canonical] at hRow
      refine ⟨row, ?_, hRow.merchantID, hRow.merchantPosition⟩
      rw [hStore]
      exact hRow.mem
    · rw [canonical_canonical] at hApplied
      exact ⟨_, hApplied.mem_inbox.mpr (.inr rfl), rfl, rfl⟩

/-- A delivery that is escalated is not acknowledged. -/
theorem escalate_action (config : ConsumerConfig) (env : ConsumerEnv) (p : Projection)
    (isolation : Isolation) (eventType body : Text) :
    (escalate config env p isolation eventType body).1.action ≠ .ack := by
  unfold escalate
  dsimp only
  split
  · exact nofun
  · exact nofun

/-- A failed application leaves the projection's tables, and is not acknowledged either. -/
theorem classifyApplyFailure_store (config : ConsumerConfig) (env : ConsumerEnv) (p : Projection)
    (event : EntryConfirmed) (applyErr : Consolidation.StoreError) :
    (classifyApplyFailure config env p event applyErr).2.store = p.store ∧
      (classifyApplyFailure config env p event applyErr).1.action ≠ .ack := by
  unfold classifyApplyFailure
  split
  · exact ⟨(escalate_records config env p _ _ _).1, escalate_action _ _ _ _ _ _⟩
  · have hStore := (recordRetry_onlyPending env p event).1
    dsimp only
    split
    · exact ⟨(escalate_records config env _ _ _ _).1.trans hStore, escalate_action _ _ _ _ _ _⟩
    · exact ⟨hStore, nofun⟩

/-- What `processDelivery` leaves of the inbox, and when it acknowledges. -/
theorem processDelivery_inbox (config : ConsumerConfig) (env : ConsumerEnv) (p : Projection)
    (delivery : Message) :
    ((processDelivery config env p delivery).2.store = p.store ∧
        (processDelivery config env p delivery).1.action ≠ .ack) ∨
      ∃ event, checkDelivery config delivery = .ok event ∧
        Admits event p.store (processDelivery config env p delivery).2.store ∧
        ((processDelivery config env p delivery).1.action = .ack →
          ∃ i ∈ (processDelivery config env p delivery).2.store.inbox,
            i.event.merchantID = event.canonical.merchantID ∧
              i.event.merchantPosition = event.canonical.merchantPosition) := by
  unfold processDelivery
  split
  · -- a delivery that is refused never reaches the projection
    exact .inl ⟨(escalate_records config env p _ _ _).1, escalate_action _ _ _ _ _ _⟩
  · rename_i event hCheck
    refine .inr ⟨event, hCheck, ?_⟩
    have hAdmits := admits_apply env.apply p.store event
    dsimp only
    split
    · -- not applied: it is requeued or dead-lettered
      rename_i applyErr _
      obtain ⟨hStore, hAction⟩ := classifyApplyFailure_store config env
        { p with store := (Projector.apply env.apply p.store event).2 } event applyErr
      refine ⟨?_, fun hAck => absurd hAck hAction⟩
      rw [hStore]
      exact hAdmits
    · rename_i result hOk
      -- clearing the pending row leaves the projection's tables alone
      have hStore : (if env.clearFails then
          { p with store := (Projector.apply env.apply p.store event).2 }
          else clearPending { p with store := (Projector.apply env.apply p.store event).2 }
            event.eventID).store = (Projector.apply env.apply p.store event).2 := by
        split
        · rfl
        · unfold clearPending
          split
          · rfl
          · rfl
      rw [hStore]
      exact ⟨hAdmits, fun _ => apply_arrives hOk⟩

/-- A delivery that passed the checks is named as its event is. -/
theorem checkDelivery_ok {config : ConsumerConfig} {delivery : Message} {event : EntryConfirmed}
    (h : checkDelivery config delivery = .ok event) :
    validateDeliveryIdentity delivery event = true := by
  unfold checkDelivery at h
  dsimp only at h
  split at h
  · cases h
  split at h
  · cases h
  split at h
  · cases h
  split at h
  · cases h
  split at h
  · rename_i hIdentity
    cases h
    exact hIdentity
  · cases h

/-- The event read from the message of a row is the row's. -/
theorem Carries.event {config : ConsumerConfig} {delivery : Message} {r : Identity}
    {event : EntryConfirmed} (h : Carries delivery r)
    (hCheck : checkDelivery config delivery = .ok event) :
    Receives (InboxEvent.of event.canonical) r := by
  have hIdentity := checkDelivery_ok hCheck
  simp only [validateDeliveryIdentity, headerIs, Bool.and_eq_true, decide_eq_true_eq,
    h.merchantID, h.merchantPosition, sprint] at hIdentity
  obtain ⟨⟨⟨⟨⟨⟨⟨⟨hMessage, -⟩, -⟩, -⟩, -⟩, hMerchant⟩, hPosition⟩, -⟩, -⟩ := hIdentity
  refine ⟨?_, ?_, ?_⟩
  · show lower event.eventID = r.eventID.text
    rw [← hMessage, h.messageID, r.eventID.canonical]
  · show lower event.merchantID = r.merchantID.text
    rw [← hMerchant, r.merchantID.canonical]
  · exact (Int64.toInt_inj.mp (Json.intLiteral_injective hPosition)).symm

namespace World

variable {w : World}

/-- The projection changes: rows of rows of the outbox enter the inbox, and none
leaves it. -/
theorem Safe.setProjection (h : w.Safe) {projection : Projection}
    (hKept : ∀ i ∈ w.projection.store.inbox, i ∈ projection.store.inbox)
    (hNew : ∀ i ∈ projection.store.inbox, w.Posted (Receives i)) :
    Safe { w with projection } := by
  have hLater : Later w { w with projection } :=
    ⟨fun r hr => ⟨r, hr, rfl⟩, fun _ hf => hf, hKept⟩
  exact { h with
    consumers := fun c => hLater.consumerOk (h.consumers c)
    inbox := hNew
    history := fun f hf => hLater.factOk (h.history f hf)
    inv := by
      refine Relay.Step.inv h.inv ⟨fun _ hi => .inl hi, fun _ hi => .inl hi, fun _ hi => .inl hi,
        fun _ hi => hi, fun _ hi => .inl hi, ?_⟩
      exact fun eventID hi => hLater.arrived hi }

/-- The inbox row under the merchant and position of a genuine delivery is of its
own event. -/
theorem Safe.process (h : w.Safe) (config : Config) (c : Nat) (env : ConsumerEnv) :
    (w.process config c env).Safe := by
  unfold World.process
  split
  · rename_i delivery attached hHandling
    have hGenuine : w.Genuine delivery := by
      have hOk := h.consumers c
      rwa [hHandling] at hOk
    obtain ⟨r, hr, hCarries⟩ := hGenuine
    obtain ⟨out, hOut⟩ : ∃ out, out = processDelivery config.consumer env w.projection delivery :=
      ⟨_, rfl⟩
    simp only [← hOut]
    -- the tables first, then the decision
    have hSafe : Safe { w with projection := out.2 } ∧
        (out.1.action = .ack → World.Arrived { w with projection := out.2 } delivery.messageID) := by
      have hCases := processDelivery_inbox config.consumer env w.projection delivery
      rw [← hOut] at hCases
      rcases hCases with ⟨hStore, hAction⟩ | ⟨event, hCheck, hAdmits, hAck⟩
      · -- nothing was received
        refine ⟨h.setProjection (fun i hi => hStore ▸ hi) fun i hi => h.inbox i (hStore ▸ hi),
          fun hAck => absurd hAck hAction⟩
      · have hReceives := hCarries.event hCheck
        have hNew : ∀ i ∈ out.2.store.inbox, w.Posted (Receives i) := by
          intro i hi
          rcases hAdmits.new i hi with hOld | rfl
          · exact h.inbox i hOld
          · exact ⟨r, hr, hReceives⟩
        refine ⟨h.setProjection hAdmits.kept hNew, fun hDecided => ?_⟩
        obtain ⟨i, hi, hMerchant, hPosition⟩ := hAck hDecided
        -- the inbox has the merchant's position, and so this very event
        obtain ⟨r', hr', hReceives'⟩ := hNew i hi
        have hSame : r' = r := by
          refine h.same_row hr' hr (UUID.ext ?_) ?_
          · show (identity r').merchantID.text = (identity r).merchantID.text
            rw [← hReceives'.merchantID, hMerchant]
            exact hReceives.merchantID
          · show (identity r').merchantPosition = (identity r).merchantPosition
            rw [← hReceives'.merchantPosition, hPosition]
            exact hReceives.merchantPosition
        refine ⟨i, hi, ?_⟩
        rw [hReceives'.eventID, hSame, hCarries.messageID]
    refine hSafe.1.setConsumer c ⟨⟨r, hr, hCarries⟩, hSafe.2⟩ fun m hm => .inl ?_
    have hUnacked : (w.consumers c).unacked = some m := hm
    rw [hHandling] at hUnacked
    cases attached with
    | true => exact hUnacked
    | false => cases hUnacked
  · exact h

/-- A recomputation leaves the inbox alone. -/
theorem Safe.resumeNext (h : w.Safe) (env : Consolidation.Env) (merchantID : Text) :
    Safe { w with projection := { w.projection with
      store := (Consolidation.resumeNext env w.projection.store merchantID).2 } } := by
  -- a block leaves the inbox as it is
  have hInbox : (Consolidation.resumeNext env w.projection.store merchantID).2.inbox =
      w.projection.store.inbox := by
    rcases commit_snd env w.projection.store _ (resumeNextTx env w.projection.store merchantID) with
      hSame | ⟨r, s', hTx, hStore⟩
    · rw [Consolidation.resumeNext, hSame]
    · rw [Consolidation.resumeNext, hStore]
      rcases resumeNextTx_ok hTx with rfl | ⟨job, next, -, hDone⟩
      · rfl
      · exact hDone.inbox
  refine h.setProjection ?_ ?_
  · intro i hi
    show i ∈ (Consolidation.resumeNext env w.projection.store merchantID).2.inbox
    rwa [hInbox]
  · intro i hi
    have hOld : i ∈ (Consolidation.resumeNext env w.projection.store merchantID).2.inbox := hi
    rw [hInbox] at hOld
    exact h.inbox i hOld

/-! ## Every happening -/

/-- The message made of an event carries it. -/
theorem genuine_publishing {event : Event} (envelope : EventEnvelope)
    (h : w.Posted (ReadFrom event)) : w.Genuine (publishingForEvent event envelope) := by
  obtain ⟨r, hr, hRead⟩ := h
  refine ⟨r, hr, hRead.eventID, ?_, ?_, hRead.payload⟩
  · rw [← hRead.merchantID]
    rfl
  · rw [← hRead.merchantPosition]
    rfl

/-- The worker's message carries a row of the outbox. -/
theorem Safe.send (h : w.Safe) (config : Config) (k : Nat) : (w.send config k).Safe := by
  unfold World.send
  split
  · rename_i event hWorker
    have hRead : w.Posted (ReadFrom event) := by
      have hOk := h.workers k
      rwa [hWorker] at hOk
    split
    · exact h.setWorker k trivial
    · rename_i message hPublication
      obtain ⟨envelope, -, rfl⟩ := publication_ok hPublication
      exact h.setWorker k ⟨hRead, genuine_publishing envelope hRead, rfl, nofun⟩
  · exact h

/-- The broker queues what it was sent. -/
theorem Safe.route (h : w.Safe) (k : Nat) : (w.route k).Safe := by
  unfold World.route
  split
  · rename_i event message hWorker
    have hOk := h.workers k
    rw [hWorker] at hOk
    obtain ⟨hRead, hGenuine, hID, -⟩ := hOk
    have hQueued : (w.enqueue message).InBroker message :=
      .inl (List.mem_append_right _ (List.mem_singleton_self message))
    have hNoted := (h.enqueue hGenuine).note (f := .kept message.messageID) trivial (by
      intro eventID hEq
      cases hEq
      exact ⟨message, hQueued, rfl⟩)
    exact hNoted.setWorker k ⟨hRead, hGenuine, hID,
      fun _ => List.mem_append_right _ (List.mem_singleton_self _)⟩
  · exact h

/-- A confirmation comes after the message was queued. -/
theorem Safe.confirm (h : w.Safe) (k : Nat) : (w.confirm k).Safe := by
  unfold World.confirm
  split
  · rename_i event message hWorker
    have hOk := h.workers k
    rw [hWorker] at hOk
    obtain ⟨hRead, -, hID, hKept⟩ := hOk
    have hNoted := h.note (f := .confirmed message.messageID) (hKept rfl) nofun
    refine hNoted.setWorker k ⟨hRead, ?_⟩
    rw [← hID]
    exact List.mem_append_right _ (List.mem_singleton_self _)
  · exact h

/-- A worker that gives up leaves the row in the outbox. -/
theorem Safe.abandon (h : w.Safe) (k : Nat) {worker : Worker} (hOk : w.WorkerOk worker) :
    (w.abandon k worker).Safe := by
  unfold World.abandon
  split
  · rename_i event message hWorker
    have hAwaiting := h.workers k
    rw [hWorker] at hAwaiting
    refine (h.setWorker k hOk).setStrays ?_
    intro m hm
    rcases List.mem_append.mp hm with hm | hm
    · exact h.strays m hm
    · rw [List.mem_singleton.mp hm]
      exact hAwaiting.2.1
  · exact h.setWorker k hOk

/-- A refusal confirms nothing. -/
theorem Safe.refuse (h : w.Safe) (k : Nat) : (w.refuse k).Safe := by
  unfold World.refuse
  split
  · exact h.setWorker k trivial
  · exact h.abandon k trivial
  · exact h

/-- A worker issues the statement its outcome calls for. -/
theorem Safe.settle (h : w.Safe) (k : Nat) (delay : Int) (lastError : Text) :
    (w.settle k delay lastError).Safe := by
  unfold World.settle
  split
  · rename_i event hWorker
    have hOk := h.workers k
    rw [hWorker] at hOk
    exact (h.execute (s := .markPublished event) hOk).setWorker k trivial
  · rename_i event hWorker
    exact (h.execute (s := .markFailed event delay lastError) trivial).setWorker k trivial
  · exact h

/-- The statement takes effect, or is lost. -/
theorem Safe.statement (h : w.Safe) (config : Config) (i : Nat) (now : Int)
    (takesEffect : Bool) : (w.statement config i now takesEffect).Safe := by
  unfold World.statement
  split
  · exact h
  · rename_i s hStatement
    have hOk : w.StatementOk s := h.statements s (List.mem_of_getElem? hStatement)
    dsimp only
    split
    · rename_i outbox hEval
      exact (h.forget i).eval hOk hEval
    · exact h.forget i

/-- A message that arrives late is queued like any other. -/
theorem Safe.arrive (h : w.Safe) (i : Nat) : (w.arrive i).Safe := by
  unfold World.arrive
  split
  · exact h
  · rename_i message hStray
    exact (h.enqueue (h.strays message (List.mem_of_getElem? hStray))).setStrays
      fun m hm => h.strays m (List.mem_of_mem_eraseIdx hm)

/-- A delivery is taken from the queue, and unacknowledged. -/
theorem Safe.deliver (h : w.Safe) (c i : Nat) : (w.deliver c i).Safe := by
  unfold World.deliver
  split
  · rename_i message hIdle hReady
    have hGenuine := h.ready message (List.mem_of_getElem? hReady)
    have hTaken : (w.setConsumer c (.handling message true)).Safe := by
      refine h.setConsumer c hGenuine fun m hm => ?_
      rw [hIdle] at hm
      cases hm
    refine hTaken.dequeue hReady (.inl ⟨c, ?_⟩)
    show (Function.update w.consumers c (Consumer.handling message true) c).unacked = some message
    rw [Function.update_self]
    rfl
  · exact h

/-- The decision reaches the broker: the message leaves it only if its event is in the inbox. -/
theorem Safe.answer (h : w.Safe) (c : Nat) : (w.answer c).Safe := by
  have hOk := h.consumers c
  unfold World.answer
  split
  · -- acknowledged: the event has arrived
    rename_i delivery hDecided
    rw [hDecided] at hOk
    have hNoted := h.note (f := .acknowledged delivery.messageID) (hOk.2 rfl) nofun
    refine hNoted.setConsumer c trivial fun m hm => .inr (.inr (.inr ?_))
    have hUnacked : (w.consumers c).unacked = some m := hm
    rw [hDecided] at hUnacked
    cases hUnacked
    exact hOk.2 rfl
  · -- requeued
    rename_i delivery hDecided
    rw [hDecided] at hOk
    refine (h.enqueue hOk.1).setConsumer c trivial fun m hm => .inr (.inl ?_)
    have hUnacked : (w.consumers c).unacked = some m := hm
    rw [hDecided] at hUnacked
    cases hUnacked
    exact List.mem_append_right _ (List.mem_singleton_self delivery)
  · -- dead-lettered
    rename_i delivery hDecided
    rw [hDecided] at hOk
    refine (h.deadLetter hOk.1).setConsumer c trivial fun m hm => .inr (.inr (.inl ?_))
    have hUnacked : (w.consumers c).unacked = some m := hm
    rw [hDecided] at hUnacked
    cases hUnacked
    exact List.mem_append_right _ (List.mem_singleton_self delivery)
  · -- detached: the broker has already taken the message back
    rename_i delivery action hDecided
    refine h.setConsumer c trivial fun m hm => ?_
    rw [hDecided] at hm
    cases hm
  · exact h

/-- What a consumer has not acknowledged came from the outbox. -/
theorem Sound.unacked_genuine (h : w.Sound) {c : Nat} {delivery : Message}
    (hUnacked : (w.consumers c).unacked = some delivery) : w.Genuine delivery := by
  have hHolds := h.consumers c
  cases hConsumer : w.consumers c with
  | idle =>
    rw [hConsumer] at hUnacked
    cases hUnacked
  | handling m attached =>
    rw [hConsumer] at hUnacked hHolds
    cases attached <;> cases hUnacked
    exact hHolds
  | decided m attached action =>
    rw [hConsumer] at hUnacked hHolds
    cases attached <;> cases hUnacked
    exact hHolds.1

/-- So does everything the broker has. -/
theorem Sound.inBroker_genuine (h : w.Sound) {m : Message} (hm : w.InBroker m) :
    w.Genuine m := by
  rcases hm with hReady | ⟨c, hUnacked⟩ | hDead
  · exact h.ready m hReady
  · exact h.unacked_genuine hUnacked
  · exact h.deadLetterQueue m hDead

/-- The broker takes a delivery back, whatever its consumer goes on to do. -/
theorem Safe.takeBack (h : w.Safe) (c : Nat) {consumer : Consumer}
    (hOk : w.ConsumerOk consumer) : (w.takeBack c consumer).Safe := by
  unfold World.takeBack
  split
  · rename_i delivery hUnacked
    have hGenuine : w.Genuine delivery := h.unacked_genuine hUnacked
    refine (h.enqueue hGenuine).setConsumer c hOk fun m hm => .inr (.inl ?_)
    have hSame : (w.consumers c).unacked = some m := hm
    rw [hUnacked] at hSame
    cases hSame
    exact List.mem_append_right _ (List.mem_singleton_self delivery)
  · rename_i hNone
    refine h.setConsumer c hOk fun m hm => ?_
    rw [hNone] at hm
    cases hm

/-- A lost connection puts the delivery back, while the handler may run on. -/
theorem Safe.disconnect (h : w.Safe) (c : Nat) :
    (w.takeBack c (w.consumers c).detached).Safe := by
  refine h.takeBack c ?_
  have hOk := h.consumers c
  cases hConsumer : w.consumers c with
  | idle => trivial
  | handling m attached =>
    rw [hConsumer] at hOk
    exact hOk
  | decided m attached action =>
    rw [hConsumer] at hOk
    exact hOk

/-- What is delivered too often goes to the dead letters. -/
theorem Safe.exhaust (h : w.Safe) (i : Nat) : (w.exhaust i).Safe := by
  unfold World.exhaust
  split
  · exact h
  · rename_i message hReady
    have hGenuine := h.ready message (List.mem_of_getElem? hReady)
    exact (h.deadLetter hGenuine).dequeue hReady
      (.inr (List.mem_append_right _ (List.mem_singleton_self message)))

/-- Every happening keeps the invariant. -/
theorem Safe.exec (h : w.Safe) (config : Config) (happening : Happening) :
    (w.exec config happening).Safe := by
  cases happening with
  | request env req => exact h.request config.platform env req
  | claim k owner lease env learns => exact h.claim config k owner lease env learns
  | send k => exact h.send config k
  | route k => exact h.route k
  | confirm k => exact h.confirm k
  | refuse k => exact h.refuse k
  | settle k delay lastError => exact h.settle k delay lastError
  | statement i now takesEffect => exact h.statement config i now takesEffect
  | workerCrash k => exact h.abandon k trivial
  | arrive i => exact h.arrive i
  | deliver c i => exact h.deliver c i
  | process c env => exact h.process config c env
  | answer c => exact h.answer c
  | disconnect c => exact h.disconnect c
  | consumerCrash c => exact h.takeBack c trivial
  | exhaust i => exact h.exhaust i
  | records pending deadLetters => exact h.setProjection (fun _ hi => hi) h.inbox
  | resumeNext env merchantID => exact h.resumeNext env merchantID

/-- Which holds at the start, when there is nothing. -/
theorem safe_start : World.start.Safe where
  entries := nofun
  rows := nofun
  published := nofun
  workers _ := trivial
  statements := nofun
  strays := nofun
  ready := nofun
  deadLetterQueue := nofun
  consumers _ := trivial
  inbox := nofun
  history := nofun
  inv := ⟨fun _ ⟨_, hr, _⟩ => absurd hr (Table.not_mem_empty _), nofun⟩

/-- Every run is safe. -/
theorem safe_run (config : Config) (happenings : List Happening) :
    (run (World.exec config) World.start happenings).Safe :=
  run_invariant' World.Safe (fun _ happening h => h.exec config happening) happenings _ safe_start

/-- A message with the identifier of a row is the row's. -/
theorem body_of_row {m : Message} {r : OutboxRow} (hm : w.Genuine m)
    (hr : r ∈ w.ledger.outbox) (hID : m.messageID = r.eventID.text) : m.body = r.payload := by
  obtain ⟨r', hr', hCarries⟩ := hm
  have hSame : r' = r := eq_of_eventID hr' hr (hCarries.messageID.symm.trans hID)
  rw [hCarries.body, hSame]
  rfl

end World

/-! ## No event is lost -/

/-- After every run of the pipeline, the event of every committed entry is in an
unpublished row of the outbox, ready, unacknowledged or dead-lettered at the
broker, or in the inbox. Rows are marked published only after a publication that
the broker confirmed and did not return, and a delivery is acknowledged only when
the inbox holds its own event. -/
theorem no_event_lost (config : Config) (happenings : List Happening) :
    let w := run (World.exec config) World.start happenings
    (∀ e ∈ w.ledger.entries, ∃ r ∈ w.ledger.outbox,
      (r.aggregateID = e.id ∧ r.merchantID = e.merchantID ∧ r.merchantPosition = e.position ∧
        r.eventType = entryEventType) ∧
      (r.publishedAt = none ∨
        (∃ m, (m ∈ w.ready ∨ (∃ c, (w.consumers c).unacked = some m) ∨ m ∈ w.deadLetterQueue) ∧
          m.messageID = r.eventID.text ∧ m.body = r.payload) ∨
        ∃ i ∈ w.projection.store.inbox, i.event.eventID = r.eventID.text)) ∧
    (∀ r ∈ w.ledger.outbox, r.publishedAt ≠ none →
      Fact.confirmed r.eventID.text ∈ w.history) ∧
    (∀ event, Statement.markPublished event ∈ w.statements →
      Fact.confirmed event.eventID ∈ w.history) ∧
    (∀ c delivery attached, w.consumers c = .decided delivery attached .ack →
      ∃ i ∈ w.projection.store.inbox, i.event.eventID = delivery.messageID) ∧
    (∀ eventID, Fact.acknowledged eventID ∈ w.history →
      ∃ i ∈ w.projection.store.inbox, i.event.eventID = eventID) := by
  intro w
  have hSafe : w.Safe := World.safe_run config happenings
  refine ⟨?_, hSafe.published, fun event hs => (hSafe.statements _ hs).2, ?_,
    fun eventID hf => hSafe.history _ hf⟩
  · intro e he
    obtain ⟨r, hr, hEvent⟩ := hSafe.entries e he
    refine ⟨r, hr, ⟨hEvent.aggregateID, hEvent.merchantID, hEvent.merchantPosition,
      hEvent.eventType⟩, ?_⟩
    -- an event is still in the outbox, with the broker, or has arrived
    rcases hSafe.inv.somewhere ⟨r, hr, rfl⟩ with ⟨r', hr', hWaiting, hID⟩ | ⟨m, hm, hID⟩ | hArrived
    · obtain rfl : r' = r := eq_of_eventID hr' hr hID
      exact .inl hWaiting
    · exact .inr (.inl ⟨m, hm, hID, World.body_of_row (hSafe.inBroker_genuine hm) hr hID⟩)
    · exact .inr (.inr hArrived)
  · intro c delivery attached hDecided
    have hOk := hSafe.consumers c
    rw [hDecided] at hOk
    exact hOk.2 rfl

end Cashflow.Pipeline.Delivery
