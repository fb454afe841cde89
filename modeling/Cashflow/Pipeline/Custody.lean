import Cashflow.Lib.Relay
import Cashflow.Pipeline.Delivery

/-!
# Pipeline — who holds what

What the workers, the broker and the consumers hold is about rows of the outbox
(`World.Sound`), and the pipeline is a relay (`Lib.Relay`): the outbox rows are the
posted items, a row without `published_at` is still minded, the broker carries
messages, and what is in the inbox has arrived. `World.Safe` is both.

* `World.Later` — what no step takes back, and that everything known of the
  parties survives it;
* `Safe.setWorker`, `Safe.enqueue`, `Safe.dequeue`, … — the moves that happenings
  are made of.
-/

namespace Cashflow.Pipeline.Delivery

open Lib Ledger Outbox Consolidation

/-! ## What the parties hold -/

/-- The row of the event of an entry. -/
structure EventOf (e : EntryRow) (r : OutboxRow) : Prop where
  aggregateID : r.aggregateID = e.id
  merchantID : r.merchantID = e.merchantID
  merchantPosition : r.merchantPosition = e.position
  eventType : r.eventType = entryEventType

/-- Whether a row is the event of an entry depends on the row's identity. -/
theorem EventOf.of_identity {e : EntryRow} {r r' : OutboxRow} (h : EventOf e r)
    (hSame : identity r' = identity r) : EventOf e r' := by
  simp only [identity, Identity.mk.injEq] at hSame
  obtain ⟨-, hAggregate, hMerchant, hPosition, hType, -⟩ := hSame
  exact ⟨hAggregate.trans h.aggregateID, hMerchant.trans h.merchantID,
    hPosition.trans h.merchantPosition, hType.trans h.eventType⟩

/-- The event was read from the row. -/
structure ReadFrom (event : Event) (r : Identity) : Prop where
  eventID : event.eventID = r.eventID.text
  merchantID : event.merchantID = r.merchantID.text
  merchantPosition : event.merchantPosition = r.merchantPosition
  payload : event.payload = r.payload

/-- The message carries the event of the row. -/
structure Carries (m : Message) (r : Identity) : Prop where
  messageID : m.messageID = r.eventID.text
  merchantID : m.header "merchant_id".toList = some (.text r.merchantID.text)
  merchantPosition : m.header "merchant_position".toList = some (.int r.merchantPosition)
  body : m.body = r.payload

/-- The inbox row is of the event of the outbox row. -/
structure Receives (i : InboxEvent) (r : Identity) : Prop where
  eventID : i.event.eventID = r.eventID.text
  merchantID : i.event.merchantID = r.merchantID.text
  merchantPosition : i.event.merchantPosition = r.merchantPosition

namespace World

/-- A row of the outbox answers to the description. -/
def Posted (w : World) (P : Identity → Prop) : Prop := ∃ r ∈ w.ledger.outbox, P (identity r)

/-- The inbox holds an event. -/
def Arrived (w : World) (eventID : Text) : Prop :=
  ∃ i ∈ w.projection.store.inbox, i.event.eventID = eventID

def Genuine (w : World) (m : Message) : Prop := w.Posted (Carries m)

def WorkerOk (w : World) : Worker → Prop
  | .idle => True
  | .publishing event => w.Posted (ReadFrom event)
  | .awaiting event message kept => w.Posted (ReadFrom event) ∧ w.Genuine message ∧
      message.messageID = event.eventID ∧ (kept = true → Fact.kept message.messageID ∈ w.history)
  | .confirmed event => w.Posted (ReadFrom event) ∧ Fact.confirmed event.eventID ∈ w.history
  | .failed _ => True

def StatementOk (w : World) : Statement → Prop
  | .markPublished event => w.Posted (ReadFrom event) ∧ Fact.confirmed event.eventID ∈ w.history
  | .markFailed .. => True

def ConsumerOk (w : World) : Consumer → Prop
  | .idle => True
  | .handling delivery _ => w.Genuine delivery
  | .decided delivery _ action => w.Genuine delivery ∧
      (action = .ack → w.Arrived delivery.messageID)

def FactOk (w : World) : Fact → Prop
  | .kept _ => True
  | .confirmed eventID => Fact.kept eventID ∈ w.history
  | .acknowledged eventID => w.Arrived eventID

structure Sound (w : World) : Prop where
  entries : ∀ e ∈ w.ledger.entries, ∃ r ∈ w.ledger.outbox, EventOf e r
  rows : ∀ r ∈ w.ledger.outbox, ∃ e ∈ w.ledger.entries, EventOf e r
  published : ∀ r ∈ w.ledger.outbox, r.publishedAt ≠ none →
    Fact.confirmed r.eventID.text ∈ w.history
  workers : ∀ k, w.WorkerOk (w.workers k)
  statements : ∀ s ∈ w.statements, w.StatementOk s
  strays : ∀ m ∈ w.strays, w.Genuine m
  ready : ∀ m ∈ w.ready, w.Genuine m
  deadLetterQueue : ∀ m ∈ w.deadLetterQueue, w.Genuine m
  consumers : ∀ c, w.ConsumerOk (w.consumers c)
  inbox : ∀ i ∈ w.projection.store.inbox, w.Posted (Receives i)
  history : ∀ f ∈ w.history, w.FactOk f

/-! ## What no step takes back -/

/-- Rows keep their identity, and nothing leaves the inbox or the history. -/
structure Later (w w' : World) : Prop where
  rows : ∀ r ∈ w.ledger.outbox, ∃ r' ∈ w'.ledger.outbox, identity r' = identity r
  history : ∀ f ∈ w.history, f ∈ w'.history
  inbox : ∀ i ∈ w.projection.store.inbox, i ∈ w'.projection.store.inbox

variable {w w' : World}

section Mono

variable (h : Later w w')
include h

/-- What the outbox has said stays said. -/
theorem Later.posted {P : Identity → Prop} (hRow : w.Posted P) : w'.Posted P := by
  obtain ⟨r, hr, hP⟩ := hRow
  obtain ⟨r', hr', hID⟩ := h.rows r hr
  exact ⟨r', hr', hID ▸ hP⟩

/-- What has arrived stays there. -/
theorem Later.arrived {eventID : Text} (hArrived : w.Arrived eventID) : w'.Arrived eventID := by
  obtain ⟨i, hi, hID⟩ := hArrived
  exact ⟨i, h.inbox i hi, hID⟩

/-- So what is known of a worker stays true. -/
theorem Later.workerOk {worker : Worker} (hOk : w.WorkerOk worker) : w'.WorkerOk worker := by
  cases worker with
  | idle => trivial
  | publishing event => exact h.posted hOk
  | awaiting event message kept =>
    obtain ⟨hRead, hGenuine, hID, hHistory⟩ := hOk
    exact ⟨h.posted hRead, h.posted hGenuine, hID, fun hKept => h.history _ (hHistory hKept)⟩
  | confirmed event => exact ⟨h.posted hOk.1, h.history _ hOk.2⟩
  | failed event => trivial

/-- Of a statement under way. -/
theorem Later.statementOk {s : Statement} (hOk : w.StatementOk s) : w'.StatementOk s := by
  cases s with
  | markPublished event => exact ⟨h.posted hOk.1, h.history _ hOk.2⟩
  | markFailed event delay lastError => trivial

/-- Of a consumer. -/
theorem Later.consumerOk {consumer : Consumer} (hOk : w.ConsumerOk consumer) :
    w'.ConsumerOk consumer := by
  cases consumer with
  | idle => trivial
  | handling delivery attached => exact h.posted hOk
  | decided delivery attached action =>
    exact ⟨h.posted hOk.1, fun hAck => h.arrived (hOk.2 hAck)⟩

/-- And of the history. -/
theorem Later.factOk {f : Fact} (hOk : w.FactOk f) : w'.FactOk f := by
  cases f with
  | kept eventID => trivial
  | confirmed eventID => exact h.history _ hOk
  | acknowledged eventID => exact h.arrived hOk

end Mono

/-! ## The relay -/

/-- The broker holds a message: ready, unacknowledged or dead-lettered. -/
def InBroker (w : World) (m : Message) : Prop :=
  m ∈ w.ready ∨ (∃ c, (w.consumers c).unacked = some m) ∨ m ∈ w.deadLetterQueue

def relay (w : World) : Relay Text where
  posted := {eventID | ∃ r ∈ w.ledger.outbox, r.eventID.text = eventID}
  waiting := {eventID | ∃ r ∈ w.ledger.outbox, r.publishedAt = none ∧ r.eventID.text = eventID}
  vouched := {eventID | Fact.kept eventID ∈ w.history}
  carried := {eventID | ∃ m, w.InBroker m ∧ m.messageID = eventID}
  arrived := {eventID | w.Arrived eventID}

/-- A step that leaves the outbox and the inbox alone, notes no new message as
kept, and lets go of no message but one that has arrived. -/
theorem relay_step (hOutbox : w'.ledger.outbox = w.ledger.outbox)
    (hProjection : w'.projection = w.projection)
    (hHistory : ∀ f ∈ w.history, f ∈ w'.history)
    (hKept : ∀ eventID, Fact.kept eventID ∈ w'.history → Fact.kept eventID ∈ w.history ∨
      eventID ∈ w'.relay.carried)
    (hDrops : ∀ m, w.InBroker m → w'.InBroker m ∨ w.Arrived m.messageID) :
    Relay.Step w.relay w'.relay where
  posts i hi := by
    left
    simpa only [relay, hOutbox] using hi
  leaves i hi := by
    left
    simpa only [relay, hOutbox] using hi
  vouches := hKept
  remembers i hi := hHistory _ hi
  drops := by
    rintro i ⟨m, hm, rfl⟩
    -- the broker drops a message only when it has arrived
    rcases hDrops m hm with hm' | hArrived
    · exact .inl ⟨m, hm', rfl⟩
    · right
      show w'.Arrived m.messageID
      rwa [Arrived, hProjection]
  arrives i hi := by
    show w'.Arrived i
    rwa [Arrived, hProjection]

structure Safe (w : World) : Prop extends Sound w where
  inv : w.relay.Inv

/-! ## Moves -/

/-- A worker may do what it has grounds for. -/
theorem Safe.setWorker (h : w.Safe) (k : Nat) {worker : Worker} (hOk : w.WorkerOk worker) :
    (w.setWorker k worker).Safe :=
  { h with
    workers := by
      intro j
      show w.WorkerOk (Function.update w.workers k worker j)
      by_cases hj : j = k
      · rw [hj, Function.update_self]
        exact hOk
      · rw [Function.update_of_ne hj]
        exact h.workers j }

/-- And issue a statement it has grounds for. -/
theorem Safe.execute (h : w.Safe) {s : Statement} (hOk : w.StatementOk s) :
    (w.execute s).Safe :=
  { h with
    statements := by
      intro s' hs'
      rcases List.mem_append.mp hs' with hs' | hs'
      · exact h.statements s' hs'
      · rw [List.mem_singleton.mp hs']
        exact hOk }

/-- A statement may be lost. -/
theorem Safe.forget (h : w.Safe) (i : Nat) :
    Safe { w with statements := w.statements.eraseIdx i } :=
  { h with statements := fun s hs => h.statements s (List.mem_of_mem_eraseIdx hs) }

/-- Messages between worker and broker carry rows of the outbox. -/
theorem Safe.setStrays (h : w.Safe) {strays : List Message}
    (hGenuine : ∀ m ∈ strays, w.Genuine m) : Safe { w with strays } :=
  { h with strays := hGenuine }

/-- A message is queued. -/
theorem Safe.enqueue (h : w.Safe) {m : Message} (hm : w.Genuine m) : (w.enqueue m).Safe :=
  { h with
    ready := by
      intro m' hm'
      rcases List.mem_append.mp hm' with hm' | hm'
      · exact h.ready m' hm'
      · rw [List.mem_singleton.mp hm']
        exact hm
    inv := by
      refine Relay.Step.inv h.inv (relay_step rfl rfl (fun _ hf => hf) (fun _ hf => .inl hf) ?_)
      exact fun m' hm' => .inl (hm'.imp_left fun hReady => List.mem_append_left _ hReady) }

/-- Or goes to the dead letters. -/
theorem Safe.deadLetter (h : w.Safe) {m : Message} (hm : w.Genuine m) : (w.deadLetter m).Safe :=
  { h with
    deadLetterQueue := by
      intro m' hm'
      rcases List.mem_append.mp hm' with hm' | hm'
      · exact h.deadLetterQueue m' hm'
      · rw [List.mem_singleton.mp hm']
        exact hm
    inv := by
      refine Relay.Step.inv h.inv (relay_step rfl rfl (fun _ hf => hf) (fun _ hf => .inl hf) ?_)
      exact fun m' hm' => .inl (hm'.imp_right fun hRest => hRest.imp_right fun hDead =>
        List.mem_append_left _ hDead) }

/-- A message leaves the queue when the broker holds it elsewhere. -/
theorem Safe.dequeue (h : w.Safe) {i : Nat} {m : Message} (hm : w.ready[i]? = some m)
    (hElsewhere : (∃ c, (w.consumers c).unacked = some m) ∨ m ∈ w.deadLetterQueue) :
    Safe { w with ready := w.ready.eraseIdx i } :=
  { h with
    ready := fun m' hm' => h.ready m' (List.mem_of_mem_eraseIdx hm')
    inv := by
      refine Relay.Step.inv h.inv (relay_step rfl rfl (fun _ hf => hf) (fun _ hf => .inl hf) ?_)
      rintro m' (hReady | hRest)
      · obtain ⟨hi, rfl⟩ := List.getElem?_eq_some_iff.mp hm
        have hPerm := (List.getElem_cons_eraseIdx_perm hi).mem_iff (a := m')
        rcases List.mem_cons.mp (hPerm.mpr hReady) with rfl | hKept
        · exact .inl (.inr hElsewhere)
        · exact .inl (.inl hKept)
      · exact .inl (.inr hRest) }

/-- A consumer lets go of a delivery that is queued again or has arrived. -/
theorem Safe.setConsumer (h : w.Safe) (c : Nat) {consumer : Consumer}
    (hOk : w.ConsumerOk consumer)
    (hDrops : ∀ m, (w.consumers c).unacked = some m → consumer.unacked = some m ∨
      m ∈ w.ready ∨ m ∈ w.deadLetterQueue ∨ w.Arrived m.messageID) :
    (w.setConsumer c consumer).Safe :=
  { h with
    consumers := by
      intro d
      show w.ConsumerOk (Function.update w.consumers c consumer d)
      by_cases hd : d = c
      · rw [hd, Function.update_self]
        exact hOk
      · rw [Function.update_of_ne hd]
        exact h.consumers d
    inv := by
      refine Relay.Step.inv h.inv (relay_step rfl rfl (fun _ hf => hf) (fun _ hf => .inl hf) ?_)
      rintro m (hReady | ⟨d, hd⟩ | hDead)
      · exact .inl (.inl hReady)
      · -- the consumer's own delivery, which it may drop only where it is kept elsewhere
        by_cases hdc : d = c
        · subst hdc
          rcases hDrops m hd with hSame | hReady | hDead | hArrived
          · refine .inl (.inr (.inl ⟨d, ?_⟩))
            show (Function.update w.consumers d consumer d).unacked = some m
            rwa [Function.update_self]
          · exact .inl (.inl hReady)
          · exact .inl (.inr (.inr hDead))
          · exact .inr hArrived
        · refine .inl (.inr (.inl ⟨d, ?_⟩))
          show (Function.update w.consumers c consumer d).unacked = some m
          rwa [Function.update_of_ne hdc]
      · exact .inl (.inr (.inr hDead)) }

/-- A note in the history loses nothing. -/
theorem later_note (w : World) (f : Fact) : Later w (w.note f) :=
  ⟨fun r hr => ⟨r, hr, rfl⟩, fun _ hf => List.mem_append_left _ hf, fun _ hi => hi⟩

/-- A fact is noted; a message is kept only as long as the broker holds it. -/
theorem Safe.note (h : w.Safe) {f : Fact} (hOk : w.FactOk f)
    (hKept : ∀ eventID, f = .kept eventID → ∃ m, w.InBroker m ∧ m.messageID = eventID) :
    (w.note f).Safe where
  entries := h.entries
  rows := h.rows
  published r hr hPublished := List.mem_append_left _ (h.published r hr hPublished)
  workers k := (later_note w f).workerOk (h.workers k)
  statements s hs := (later_note w f).statementOk (h.statements s hs)
  strays := h.strays
  ready := h.ready
  deadLetterQueue := h.deadLetterQueue
  consumers c := (later_note w f).consumerOk (h.consumers c)
  inbox := h.inbox
  history f' hf' := by
    rcases List.mem_append.mp hf' with hf' | hf'
    · exact (later_note w f).factOk (h.history f' hf')
    · rw [List.mem_singleton.mp hf']
      exact (later_note w f).factOk hOk
  inv := by
    refine Relay.Step.inv h.inv (relay_step rfl rfl (fun _ hf => List.mem_append_left _ hf) ?_
      fun _ hm => .inl hm)
    intro eventID hf
    rcases List.mem_append.mp hf with hf | hf
    · -- the new note is of a message the broker has
      exact .inl hf
    · exact .inr (hKept eventID (List.mem_singleton.mp hf).symm)

end World

end Cashflow.Pipeline.Delivery
