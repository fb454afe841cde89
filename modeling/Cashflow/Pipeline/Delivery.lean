import Cashflow.Consolidation.Consumer
import Cashflow.Outbox.Store

/-!
# Pipeline — from the ledger to the inbox

The ledger, any number of outbox workers (`services/ledger/internal/outbox/worker.go`,
`rabbitmq.go`), the broker, and any number of consumers
(`services/consolidation/internal/adapters/inbound/rabbitmq/consumer.go`), one
happening at a time.

The broker keeps a message it has routed until it is acknowledged, and moves one
that is rejected without requeueing, or delivered too often, to the dead letter
queue. It confirms only what it keeps. Everything else is free: when leases run
out, which publication is confirmed, refused, returned or never answered, whether
a message the publisher gave up on still arrives, when a statement the worker no
longer waits for takes effect, which connection breaks and which process dies.

`event_pending` and `dead_letter_event` may hold anything at any time: other
consumers, `Reprocess` and operators write them between the statements of one
consumer.
-/

namespace Cashflow.Pipeline.Delivery

open Lib Ledger Outbox Consolidation

/-! ## The parties -/

/-- What an outbox worker is doing. -/
inductive Worker where
  | idle
  | publishing (event : Event)
  -- sent and not answered; `kept` once the broker has routed the message
  | awaiting (event : Event) (message : Message) (kept : Bool)
  | confirmed (event : Event)
  | failed (event : Event)
deriving DecidableEq, Repr

/-- A statement that settles a row. -/
inductive Statement where
  | markPublished (event : Event)
  | markFailed (event : Event) (delay : Int) (lastError : Text)
deriving DecidableEq, Repr

def Statement.eval (interval : Int → Int) (now : Int) (t : Table outboxSchema) :
    Statement → Except Outbox.StoreError (Table outboxSchema)
  | .markPublished event => Outbox.markPublished now t event.eventID event.leaseOwner
  | .markFailed event delay lastError =>
    Outbox.markFailed interval now t event.eventID event.leaseOwner delay lastError

/-- What a consumer is doing; `attached` as long as the channel its delivery came
over is open. -/
inductive Consumer where
  | idle
  | handling (delivery : Message) (attached : Bool)
  | decided (delivery : Message) (attached : Bool) (action : Action)
deriving DecidableEq, Repr

/-- The delivery the broker still counts as unacknowledged. -/
def Consumer.unacked : Consumer → Option Message
  | .handling delivery true => some delivery
  | .decided delivery true _ => some delivery
  | _ => none

/-- The consumer once its channel is closed. -/
def Consumer.detached : Consumer → Consumer
  | .idle => .idle
  | .handling delivery _ => .handling delivery false
  | .decided delivery _ action => .decided delivery false action

/-- What has happened to a message. -/
inductive Fact where
  | kept (eventID : Text)
  | confirmed (eventID : Text)
  | acknowledged (eventID : Text)
deriving DecidableEq, Repr

structure World where
  ledger : Db
  workers : Nat → Worker
  -- sent to the database and not executed
  statements : List Statement
  -- sent to the broker and given up
  strays : List Message
  ready : List Message
  deadLetterQueue : List Message
  consumers : Nat → Consumer
  projection : Projection
  history : List Fact

def World.start : World where
  ledger := Db.empty
  workers := fun _ => .idle
  statements := []
  strays := []
  ready := []
  deadLetterQueue := []
  consumers := fun _ => .idle
  projection := Projection.empty
  history := []

/-! ## Moves -/

namespace World

def setWorker (w : World) (k : Nat) (worker : Worker) : World :=
  { w with workers := Function.update w.workers k worker }

def setConsumer (w : World) (c : Nat) (consumer : Consumer) : World :=
  { w with consumers := Function.update w.consumers c consumer }

def setOutbox (w : World) (outbox : Table outboxSchema) : World :=
  { w with ledger := { w.ledger with outbox } }

def note (w : World) (fact : Fact) : World := { w with history := w.history ++ [fact] }

def execute (w : World) (statement : Statement) : World :=
  { w with statements := w.statements ++ [statement] }

def enqueue (w : World) (message : Message) : World := { w with ready := w.ready ++ [message] }

def deadLetter (w : World) (message : Message) : World :=
  { w with deadLetterQueue := w.deadLetterQueue ++ [message] }

/-- The worker stops waiting; a message the broker has not routed may still
arrive. -/
def abandon (w : World) (k : Nat) (worker : Worker) : World :=
  match w.workers k with
  | .awaiting _ message false =>
    { w.setWorker k worker with strays := w.strays ++ [message] }
  | _ => w.setWorker k worker

/-- The channel of a consumer is gone: the broker takes back what it had not
acknowledged. -/
def takeBack (w : World) (c : Nat) (consumer : Consumer) : World :=
  match (w.consumers c).unacked with
  | some delivery => (w.enqueue delivery).setConsumer c consumer
  | none => w.setConsumer c consumer

end World

/-! ## The system -/

structure Config where
  platform : Platform
  interval : Int → Int
  schema : Json → Bool
  consumer : ConsumerConfig

inductive Happening where
  | request (env : Ledger.Env) (req : Request)
  | claim (k : Nat) (owner : Text) (lease : Int) (env : ClaimEnv) (learns : Bool)
  | send (k : Nat)
  | route (k : Nat)
  | confirm (k : Nat)
  -- the broker is unavailable, refuses, returns the message or does not answer
  | refuse (k : Nat)
  | settle (k : Nat) (delay : Int) (lastError : Text)
  | statement (i : Nat) (now : Int) (takesEffect : Bool)
  -- also an interrupted publication: the row stays leased
  | workerCrash (k : Nat)
  | arrive (i : Nat)
  | deliver (c i : Nat)
  | process (c : Nat) (env : ConsumerEnv)
  | answer (c : Nat)
  | disconnect (c : Nat)
  | consumerCrash (c : Nat)
  -- the delivery limit of the queue
  | exhaust (i : Nat)
  | records (pending : Table pendingSchema) (deadLetters : List DeadLetter)
  | resumeNext (env : Consolidation.Env) (merchantID : Text)

namespace World

def claim (config : Config) (w : World) (k : Nat) (owner : Text) (lease : Int) (env : ClaimEnv)
    (learns : Bool) : World :=
  match w.workers k with
  | .idle =>
    match Outbox.claim config.interval env w.ledger.outbox owner 1 lease with
    | .error _ => w
    | .ok (events, outbox) =>
      match events, learns with
      -- one row at a time, as the worker claims them
      | event :: _, true => (w.setOutbox outbox).setWorker k (.publishing event)
      -- leased, although the worker does not know
      | _, _ => w.setOutbox outbox
  | _ => w

/-- `Publish` up to the send. -/
def send (config : Config) (w : World) (k : Nat) : World :=
  match w.workers k with
  | .publishing event =>
    match publication config.schema event with
    | .error _ => w.setWorker k (.failed event)
    | .ok message => w.setWorker k (.awaiting event message false)
  | _ => w

/-- The broker routes the message and keeps it. -/
def route (w : World) (k : Nat) : World :=
  match w.workers k with
  | .awaiting event message false =>
    ((w.enqueue message).note (.kept message.messageID)).setWorker k (.awaiting event message true)
  | _ => w

/-- The confirmation of a message that was not returned. -/
def confirm (w : World) (k : Nat) : World :=
  match w.workers k with
  | .awaiting event message true =>
    (w.note (.confirmed message.messageID)).setWorker k (.confirmed event)
  | _ => w

def refuse (w : World) (k : Nat) : World :=
  match w.workers k with
  | .publishing event => w.setWorker k (.failed event)
  | .awaiting event _ _ => w.abandon k (.failed event)
  | _ => w

/-- The end of `publishOne`; the worker goes on whatever becomes of the
statement. -/
def settle (w : World) (k : Nat) (delay : Int) (lastError : Text) : World :=
  match w.workers k with
  | .confirmed event => (w.execute (.markPublished event)).setWorker k .idle
  | .failed event => (w.execute (.markFailed event delay lastError)).setWorker k .idle
  | _ => w

def statement (config : Config) (w : World) (i : Nat) (now : Int) (takesEffect : Bool) : World :=
  match w.statements[i]? with
  | none => w
  | some statement =>
    let w := { w with statements := w.statements.eraseIdx i }
    match takesEffect, statement.eval config.interval now w.ledger.outbox with
    | true, .ok outbox => w.setOutbox outbox
    | _, _ => w

def arrive (w : World) (i : Nat) : World :=
  match w.strays[i]? with
  | none => w
  | some message => { w.enqueue message with strays := w.strays.eraseIdx i }

def deliver (w : World) (c i : Nat) : World :=
  match w.consumers c, w.ready[i]? with
  | .idle, some message =>
    { w.setConsumer c (.handling message true) with ready := w.ready.eraseIdx i }
  | _, _ => w

def process (config : Config) (w : World) (c : Nat) (env : ConsumerEnv) : World :=
  match w.consumers c with
  | .handling delivery attached =>
    let (result, projection) := processDelivery config.consumer env w.projection delivery
    { w.setConsumer c (.decided delivery attached result.action) with projection }
  | _ => w

/-- The switch of `handle`; over a closed channel the answer is an error. -/
def answer (w : World) (c : Nat) : World :=
  match w.consumers c with
  | .decided delivery true .ack =>
    (w.note (.acknowledged delivery.messageID)).setConsumer c .idle
  | .decided delivery true .requeue => (w.enqueue delivery).setConsumer c .idle
  | .decided delivery true .deadLetter => (w.deadLetter delivery).setConsumer c .idle
  | .decided _ false _ => w.setConsumer c .idle
  | _ => w

def exhaust (w : World) (i : Nat) : World :=
  match w.ready[i]? with
  | none => w
  | some message => { w.deadLetter message with ready := w.ready.eraseIdx i }

def exec (config : Config) (w : World) : Happening → World
  | .request env req => { w with ledger := (req.run config.platform env w.ledger).2 }
  | .claim k owner lease env learns => w.claim config k owner lease env learns
  | .send k => w.send config k
  | .route k => w.route k
  | .confirm k => w.confirm k
  | .refuse k => w.refuse k
  | .settle k delay lastError => w.settle k delay lastError
  | .statement i now takesEffect => w.statement config i now takesEffect
  -- what was sent may still arrive
  | .workerCrash k => w.abandon k .idle
  | .arrive i => w.arrive i
  | .deliver c i => w.deliver c i
  | .process c env => w.process config c env
  | .answer c => w.answer c
  -- a connection that is lost gives its deliveries back
  | .disconnect c => w.takeBack c (w.consumers c).detached
  | .consumerCrash c => w.takeBack c .idle
  | .exhaust i => w.exhaust i
  | .records pending deadLetters =>
    -- whatever else writes the tables of failures
    { w with projection := ⟨w.projection.store, pending, deadLetters⟩ }
  | .resumeNext env merchantID =>
    let store := (Consolidation.resumeNext env w.projection.store merchantID).2
    { w with projection := { w.projection with store } }

end World

end Cashflow.Pipeline.Delivery
