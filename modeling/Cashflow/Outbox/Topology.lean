import Cashflow.Lib.Machine
import Cashflow.Outbox.Publisher

/-!
# Outbox — moving the broker from one topology to another

`UpgradeTopology` and `RollbackTopology` of
`services/ledger/internal/outbox/topology_migration.go` against a broker with
exchanges, queues and bindings. A run is a script of broker calls with one loop,
the draining of the source queue; every call may be answered, may fail without
an effect, or may take effect and still be reported as failed. Runs follow one
another in either direction; publishers and consumers are paused.
-/

namespace Cashflow.Outbox

open Lib Pipeline

/-! ## Topologies -/

structure Topology where
  exchange : Text
  routingKey : Text
  queue : Text
  dlx : Text
  dlq : Text
deriving DecidableEq, Repr

def topologyCutoverMarker : Text := "ledger.outbox.topology.v2.ready".toList

def defaultTopology : Topology where
  exchange := "ledger.events".toList
  routingKey := eventType
  queue := "consolidation.ledger-entry-confirmed.v2".toList
  dlx := "ledger.events.dlx".toList
  dlq := "consolidation.ledger-entry-confirmed.v2.dlq".toList

def legacyTopology : Topology where
  exchange := "ledger.events".toList
  routingKey := eventType
  queue := "consolidation.ledger-entry-confirmed.v1".toList
  dlx := "ledger.events.dlx".toList
  dlq := "consolidation.ledger-entry-confirmed.v1.dlq".toList

/-- Queue arguments, an `amqp091.Table`. -/
abbrev Arguments := List (Text × Text)

def deadLetterQueueArguments : Arguments := [("x-queue-type".toList, "quorum".toList)]

/-- `legacyArguments` of `preflightExactLegacy` -/
def legacyArguments (topology : Topology) : Arguments :=
  [("x-queue-type".toList, "quorum".toList), ("x-dead-letter-exchange".toList, topology.dlx),
    ("x-dead-letter-routing-key".toList, topology.routingKey)]

def hardenedQueueArguments (topology : Topology) : Arguments :=
  legacyArguments topology ++
    [("x-dead-letter-strategy".toList, "at-least-once".toList),
      ("x-overflow".toList, "reject-publish".toList)]

/-! ## Messages -/

/-- What is published and what a queue stores: `amqp091.Publishing`. -/
structure Publishing where
  headers : List (Text × HeaderValue)
  contentType : Text
  contentEncoding : Text
  deliveryMode : UInt8
  priority : UInt8
  correlationID : Text
  replyTo : Text
  expiration : Text
  messageID : Text
  timestamp : Int
  type : Text
  userID : Text
  appID : Text
  body : List UInt8
deriving DecidableEq, Repr

/-- What a consumer is handed: `amqp091.Delivery`, without its delivery tag and
the route the message came by. -/
structure Delivery where
  headers : List (Text × HeaderValue)
  contentType : Text
  contentEncoding : Text
  deliveryMode : UInt8
  priority : UInt8
  correlationID : Text
  replyTo : Text
  expiration : Text
  messageID : Text
  timestamp : Int
  type : Text
  userID : Text
  appID : Text
  body : List UInt8
deriving DecidableEq, Repr

/-- The broker hands a stored message over as it is. -/
def Publishing.delivery (p : Publishing) : Delivery :=
  ⟨p.headers, p.contentType, p.contentEncoding, p.deliveryMode, p.priority, p.correlationID,
    p.replyTo, p.expiration, p.messageID, p.timestamp, p.type, p.userID, p.appID, p.body⟩

def copyPublishing (delivery : Delivery) : Publishing where
  headers := delivery.headers
  contentType := delivery.contentType
  contentEncoding := delivery.contentEncoding
  deliveryMode := delivery.deliveryMode
  priority := delivery.priority
  correlationID := delivery.correlationID
  replyTo := delivery.replyTo
  expiration := delivery.expiration
  messageID := delivery.messageID
  timestamp := delivery.timestamp
  type := delivery.type
  userID := delivery.userID
  appID := delivery.appID
  body := delivery.body

/-- The copy a migration publishes is the message it took. -/
@[simp] theorem copyPublishing_delivery (p : Publishing) : copyPublishing p.delivery = p := rfl

/-! ## The broker -/

structure Queue where
  arguments : Arguments
  ready : List Publishing
deriving DecidableEq, Repr

structure Binding where
  queue : Text
  key : Text
  exchange : Text
deriving DecidableEq, Repr

/-- Exchanges by name with their type, queues by name, and the bindings. -/
structure Broker where
  exchanges : Text → Option Text
  queues : Text → Option Queue
  bindings : List Binding

/-- What waits in the named queue. -/
def Broker.ready (b : Broker) (queue : Text) : List Publishing :=
  ((b.queues queue).map Queue.ready).getD []

/-- Replaces what waits in a queue; a queue that does not exist is not created. -/
def Broker.setReady (b : Broker) (queue : Text) (ready : List Publishing) : Broker :=
  { b with
    queues := Function.update b.queues queue ((b.queues queue).map ({ · with ready })) }

/-- A publication to the default exchange: it is routed to the queue named by
its key, and lost if there is none. -/
def Broker.publish (b : Broker) (queue : Text) (p : Publishing) : Broker :=
  b.setReady queue (b.ready queue ++ [p])

/-- An unacknowledged message goes back to the front of its queue. -/
def Broker.requeue (b : Broker) (queue : Text) (p : Publishing) : Broker :=
  b.setReady queue (p :: b.ready queue)

inductive Method where
  | exchangeDeclarePassive (name : Text)
  | exchangeDeclare (name kind : Text)
  | exchangeDelete (name : Text)
  | queueDeclare (name : Text) (arguments : Arguments)
  | queueBind (binding : Binding)
  | queueUnbind (binding : Binding)
  | confirm
deriving DecidableEq, Repr

/-- What the broker does on a call, or `none` if it refuses it. A declaration
that differs from what exists is refused, and so is a binding between names that
do not exist; deleting and unbinding what is not there succeeds. -/
def Method.effect : Method → Broker → Option Broker
  | .exchangeDeclarePassive name, b => if (b.exchanges name).isSome then some b else none
  | .exchangeDeclare name kind, b =>
    -- declared again as it is, or refused
    match b.exchanges name with
    | none => some { b with exchanges := Function.update b.exchanges name (some kind) }
    | some declared => if declared = kind then some b else none
  | .exchangeDelete name, b =>
    some { b with
      exchanges := Function.update b.exchanges name none
      -- its bindings go with it
      bindings := b.bindings.filter fun binding => binding.exchange ≠ name }
  | .queueDeclare name arguments, b =>
    match b.queues name with
    | none => some { b with queues := Function.update b.queues name (some ⟨arguments, []⟩) }
    | some declared => if declared.arguments = arguments then some b else none
  | .queueBind binding, b =>
    if (b.queues binding.queue).isSome ∧ (b.exchanges binding.exchange).isSome then
      some { b with bindings := b.bindings.insert binding }
    else none
  | .queueUnbind binding, b =>
    some { b with bindings := b.bindings.filter fun other => other ≠ binding }
  | .confirm, b => some b

/-! ## The script of a run -/

inductive Direction where
  | upgrade
  | rollback
deriving DecidableEq, Repr

def Direction.source : Direction → Topology
  | .upgrade => legacyTopology
  | .rollback => defaultTopology

def Direction.destination : Direction → Topology
  | .upgrade => defaultTopology
  | .rollback => legacyTopology

def Topology.binding (topology : Topology) : Binding :=
  ⟨topology.queue, topology.routingKey, topology.exchange⟩

def Topology.dlqBinding (topology : Topology) : Binding :=
  ⟨topology.dlq, topology.routingKey, topology.dlx⟩

inductive Step where
  | call (method : Method)
  | drain (source destination : Text)
deriving DecidableEq, Repr

def preflightExactLegacy (topology : Topology) : List Step :=
  [.call (.exchangeDeclarePassive topology.exchange),
    .call (.exchangeDeclarePassive topology.dlx),
    .call (.queueDeclare topology.queue (legacyArguments topology)),
    .call (.queueDeclare topology.dlq deadLetterQueueArguments)]

def preflightExactHardened (topology : Topology) : List Step :=
  [.call (.queueDeclare topology.queue (hardenedQueueArguments topology)),
    .call (.queueDeclare topology.dlq deadLetterQueueArguments)]

def declareUnboundHardenedTopology (topology : Topology) : List Step :=
  [.call (.exchangeDeclare topology.exchange "topic".toList),
    .call (.exchangeDeclare topology.dlx "topic".toList),
    .call (.queueDeclare topology.queue (hardenedQueueArguments topology)),
    .call (.queueDeclare topology.dlq deadLetterQueueArguments),
    .call (.queueBind topology.dlqBinding)]

/-- The calls of `migrateTopology`, in order. -/
def Direction.script (direction : Direction) : List Step :=
  let source := direction.source
  let destination := direction.destination
  -- a rollback takes the marker away before it looks at anything else
  (match direction with
    | .upgrade => []
    | .rollback => [.call (.exchangeDelete topologyCutoverMarker)]) ++
  preflightExactLegacy legacyTopology ++
  (match direction with
    | .upgrade => declareUnboundHardenedTopology destination
    | .rollback => preflightExactHardened source) ++
  [.call .confirm,
    .drain source.queue destination.queue,
    .call (.queueBind destination.binding),
    .call (.queueUnbind source.binding),
    .call (.queueBind destination.dlqBinding),
    .call (.queueUnbind source.dlqBinding)] ++
  (match direction with
    | .upgrade => [.call (.exchangeDeclare topologyCutoverMarker "fanout".toList)]
    | .rollback => [])

/-! ## Runs -/

structure MigrationReport where
  direction : Direction
  moved : Nat
deriving DecidableEq, Repr

/-- A message taken from the source queue and not yet acknowledged. -/
structure Flight where
  message : Publishing
  confirmed : Bool
deriving DecidableEq, Repr

/-- A run that has done the first `done` steps of its script. -/
structure Migration where
  report : MigrationReport
  done : Nat
  flight : Option Flight
deriving DecidableEq, Repr

def Migration.step (m : Migration) : Option Step := m.report.direction.script[m.done]?

/-- How a run ended: without an error, or with one at the step it was at. -/
inductive Outcome where
  | completed
  | failed (step : Option Step)
deriving DecidableEq, Repr

/-- The broker, the run under way, and what the last run returned if none has
started since. -/
structure World where
  broker : Broker
  migration : Option Migration
  returned : Option (MigrationReport × Outcome)

def World.idle (b : Broker) : World := ⟨b, none, none⟩

/-- The run ends with an error at its current step; what it had taken and not
acknowledged goes back to the source queue. -/
def World.stopped (b : Broker) (m : Migration) : World where
  broker :=
    match m.flight with
    | none => b
    | some flight => b.requeue m.report.direction.source.queue flight.message
  migration := none
  returned := some (m.report, .failed m.step)

/-- One call of the loop that is answered: take a message, publish its copy and
have it confirmed, acknowledge it. -/
def drainAnswered (b : Broker) (m : Migration) (source destination : Text) : World :=
  match m.flight with
  | none =>
    match b.queues source with
    | none => World.stopped b m
    | some queue =>
      match queue.ready with
      -- the queue is empty, and the step done
      | [] => ⟨b, some { m with done := m.done + 1 }, none⟩
      | p :: rest => ⟨b.setReady source rest, some { m with flight := some ⟨p, false⟩ }, none⟩
  | some ⟨p, false⟩ =>
    -- taken; the copy is published and its confirmation awaited
    ⟨b.publish destination (copyPublishing p.delivery),
      some { m with flight := some ⟨p, true⟩ }, none⟩
  | some ⟨_, true⟩ =>
    -- confirmed; only now the message is acknowledged
    ⟨b, some { m with report.moved := m.report.moved + 1, flight := none }, none⟩

/-- One call of the loop that takes effect and is reported as failed. -/
def drainLost (b : Broker) (m : Migration) (destination : Text) : World :=
  match m.flight with
  | none => World.stopped b m
  -- published, and put back as well: it is there twice
  | some ⟨p, false⟩ => World.stopped (b.publish destination (copyPublishing p.delivery)) m
  | some ⟨_, true⟩ => World.stopped b { m with flight := none }

/-- What can happen next: a run starts, its current call is answered, or it is
stopped there by an error or a crash, before or after the call took effect. -/
inductive Happening where
  | start (direction : Direction)
  | answered
  | stopped (effective : Bool)
deriving DecidableEq, Repr

def World.exec (w : World) : Happening → World
  | .start direction =>
    match w.migration with
    | none => ⟨w.broker, some ⟨⟨direction, 0⟩, 0, none⟩, none⟩
    -- one run at a time
    | some _ => w
  | .answered =>
    match w.migration with
    | none => w
    | some m =>
      match m.step with
      -- no step left
      | none => ⟨w.broker, none, some (m.report, .completed)⟩
      | some (.drain source destination) => drainAnswered w.broker m source destination
      | some (.call method) =>
        match method.effect w.broker with
        | some b => ⟨b, some { m with done := m.done + 1 }, none⟩
        -- the broker refused
        | none => World.stopped w.broker m
  | .stopped effective =>
    match w.migration with
    | none => w
    | some m =>
      match effective, m.step with
      | true, some (.drain _ destination) => drainLost w.broker m destination
      | true, some (.call method) =>
        World.stopped ((method.effect w.broker).getD w.broker) m
      | _, _ => World.stopped w.broker m

end Cashflow.Outbox
