import Cashflow.Lib.Channel
import Cashflow.Outbox.Sensitive

/-!
# Outbox — one call of `RabbitBroker.Publish`

`Publish` of `services/ledger/internal/outbox/rabbitmq.go` as a machine: the checks and
`ensureChannel`, the drain of stale returns, the publication, the wait for its confirmation, and
the drain that looks for a return of it.  Every receive is one step, and before each step the
world acts as the schedule says: the client library hands over returns the broker has sent, the
connection dies and the returns channel is closed with it, the confirmation is settled, the
deadline passes, and `select` prefers one of its cases.

A broker returns a publication at most once, so the returns still to come are a finite list; it
grows when something is published.  `select` picks at random among the ready cases: a schedule
in which every case is preferred again and again.

Main results:
* `published_safe` — `nil` is returned only for a message that was acknowledged and of which no
  return was received;
* `wait_ends` — the wait for the confirmation ends in every state of the channel;
* `publish_returns_iff` — the two drains end, and `Publish` returns, unless they find the
  channel closed.
-/

namespace Cashflow.Outbox

open Lib Pipeline

/-! ## The call -/

/-- A return; `Publish` reads the identifier only.  A receive from a closed channel yields the
zero value. -/
structure Return where
  messageID : Text := []
deriving DecidableEq, Repr

/-- The cases of the `select` that waits for the confirmation. -/
inductive SelectCase where
  | deadline
  | returned
  | confirmed
deriving DecidableEq, Repr

/-- Where the straight line between the drain and the wait fails. -/
inductive SendFault where
  | noSocket
  | setDeadline
  | publish
  | noConfirmation
  | afterSend
deriving DecidableEq, Repr

def SendFault.error : SendFault → PublishError
  | .noSocket | .setDeadline | .publish => .unavailable
  | .noConfirmation => .notConfirmed
  | .afterSend => .interrupted

/-- What the world does before one step of the call. -/
structure Tick where
  /-- how many of the returns to come are handed over -/
  handed : Nat := 0
  /-- the connection dies, and the client closes the channel of the returns -/
  closes : Bool := false
  settles : Option Bool := none
  expires : Bool := false
  prefers : SelectCase := .confirmed
  /-- `ensureChannel` cannot connect -/
  connect : Option PublishError := none
  fault : Option SendFault := none
  /-- what the broker will return because of this publication -/
  returning : List Return := []

/-- Where the call is, with what it has computed so far. -/
inductive Phase where
  | start
  | draining (envelope : EventEnvelope)
  | sending (envelope : EventEnvelope)
  | waiting (publishing : Message)
  | confirmed (publishing : Message)
  | redraining (publishing : Message)
  | returned (result : Except PublishError Unit)

def Phase.waits : Phase → Bool
  | .waiting _ => true
  | _ => false

/-- What a broker keeps from one call to the next. -/
structure RabbitBroker where
  /-- neither the connection nor the AMQP channel is known to be closed -/
  alive : Bool
  returns : Channel Return
  /-- the returns of earlier publications that are still to come -/
  coming : List Return

/-- The broker and the variables of the call. -/
structure Publish extends RabbitBroker where
  phase : Phase := .start
  expired : Bool := false
  /-- whether the publication was acknowledged, once that is settled -/
  settled : Option Bool := none
  /-- the returns received since the publication -/
  received : List Return := []

namespace Publish

/-- The checks of the event, before anything is asked of the broker. -/
def checkEvent (schema : Json → Bool) (event : Event) : Except PublishError EventEnvelope :=
  if event.eventType ≠ eventType then .error (.unsupportedEventType event.eventType)
  else
    match Json.parse event.payload with
    | none => .error .decodePayload
    | some value =>
      if schema value = false then .error .schemaViolation else validateEnvelope event

variable (schema : Json → Bool) (event : Event)

/-- The world acts. -/
def act (p : Publish) (tick : Tick) : Publish :=
  { p with
    alive := p.alive && !tick.closes
    returns := p.returns.act (p.coming.take tick.handed) tick.closes
    coming := p.coming.drop tick.handed
    expired := p.expired || tick.expires
    settled := if p.phase.waits then p.settled.or tick.settles else p.settled }

def finish (p : Publish) (result : Except PublishError Unit) : Publish :=
  { p with phase := .returned result }

/-- `resetLocked`: the connection is given up, and with it the channel of the returns. -/
def reset (p : Publish) : Publish :=
  { p with alive := false, returns := ⟨[], false⟩, coming := [] }

/-- `ensureChannel`: a channel that is alive is kept, another one starts empty. -/
def ensureChannel (p : Publish) (connect : Option PublishError) :
    Publish × Except PublishError Unit :=
  if p.expired then (p, .error .timeout)
  else if p.alive then (p, .ok ())
  else
    match connect with
    | some cause => (p.reset, .error cause)
    | none => ({ p.reset with alive := true }, .ok ())

def begin (p : Publish) (tick : Tick) : Publish :=
  if p.expired then p.finish (.error .timeout)
  else
    match checkEvent schema event with
    | .error cause => p.finish (.error cause)
    | .ok envelope =>
      match p.ensureChannel tick.connect with
      | (p, .error cause) => p.finish (.error cause)
      | (p, .ok ()) => { p with phase := .draining envelope }

/-- One round of the drain before the publication. -/
def drain (p : Publish) (envelope : EventEnvelope) : Publish :=
  match p.returns.poll with
  | .value _ rest => { p with returns := rest }
  | .closed => p
  | .empty => { p with phase := .sending envelope }

/-- From the drain to the wait. -/
def send (p : Publish) (envelope : EventEnvelope) (tick : Tick) : Publish :=
  -- no deadline on the socket: nothing is sent without one
  if tick.fault = some .noSocket ∨ tick.fault = some .setDeadline then
    p.reset.finish (.error .unavailable)
  else
    let publishing := publishingForEvent event envelope
    match validatePublishingIdentity publishing event envelope with
    | .error cause => p.finish (.error cause)
    | .ok () =>
      match tick.fault with
      -- the connection is given up with a publication that failed on it
      | some fault => p.reset.finish (.error fault.error)
      -- what the broker returns is on its way from now on
      | none => { p with phase := .waiting publishing, coming := p.coming ++ tick.returning }

def ready (p : Publish) : SelectCase → Bool
  | .deadline => p.expired
  | .returned => p.returns.ready
  | .confirmed => p.settled.isSome

/-- The case `select` takes, if one is ready. -/
def selected (p : Publish) (prefers : SelectCase) : Option SelectCase :=
  [prefers, .deadline, .returned, .confirmed].find? p.ready

/-- A return is looked at: the publication's own ends the call. -/
def receive (p : Publish) (r : Return) (rest : Channel Return) : Publish :=
  let p := { p with returns := rest, received := p.received ++ [r] }
  if r.messageID = event.eventID then p.finish (.error .unroutable) else p

/-- The zero value of a closed channel is looked at as if it were a return. -/
def receiveZero (p : Publish) : Publish :=
  if ({} : Return).messageID = event.eventID then p.finish (.error .unroutable) else p

/-- One round of the wait. -/
def wait (p : Publish) (publishing : Message) (prefers : SelectCase) : Publish :=
  match p.selected prefers with
  -- nothing is ready yet
  | none => p
  | some .deadline => p.reset.finish (.error .timeout)
  | some .confirmed => { p with phase := .confirmed publishing }
  | some .returned =>
    match p.returns.poll with
    | .value r rest => p.receive event r rest
    | .closed => p.receiveZero event
    | .empty => p

/-- One round of the drain after the confirmation. -/
def redrain (p : Publish) : Publish :=
  match p.returns.poll with
  | .value r rest => p.receive event r rest
  | .closed => p.receiveZero event
  -- drained: no return of this publication is left
  | .empty => p.finish (.ok ())

/-- One step of the call. -/
def advance (p : Publish) (tick : Tick) : Publish :=
  match p.phase with
  | .start => p.begin schema event tick
  | .draining envelope => p.drain envelope
  | .sending envelope => p.send event envelope tick
  | .waiting publishing => p.wait event publishing tick.prefers
  | .confirmed publishing =>
    -- acknowledged; a negative acknowledgement is an error
    if p.settled = some true then { p with phase := .redraining publishing }
    else p.finish (.error .notConfirmed)
  | .redraining _ => p.redrain event
  | .returned _ => p

def step (p : Publish) (tick : Tick) : Publish := (p.act tick).advance schema event tick

/-- The call after `n` steps. -/
def after (b : RabbitBroker) (schedule : Nat → Tick) : Nat → Publish :=
  trajectory (step schema event) { toRabbitBroker := b } schedule

/-! ## What a step can do -/

variable {schema event}

/-- How far the call is on its way. -/
def rank (p : Publish) : Nat :=
  match p.phase with
  | .start => 0
  | .draining _ => 1
  | .sending _ => 2
  | .waiting _ => 3
  | .confirmed _ => 4
  | .redraining _ => 5
  | .returned _ => 6

@[simp] theorem rank_finish (p : Publish) (result : Except PublishError Unit) :
    (p.finish result).rank = 6 := rfl

/-- There are seven phases, and the last one is the return. -/
theorem rank_le (p : Publish) : p.rank ≤ 6 := by
  unfold rank
  split <;> omega

/-- A step that leaves the call as it is: the wait goes on, the call has returned, or a drain has
met the zero value of a closed channel. -/
def Idle (event : Event) (p : Publish) : Prop :=
  match p.phase with
  | .waiting _ => True
  | .returned _ => True
  | .draining _ => p.returns.poll = .closed
  | .redraining _ => p.returns.poll = .closed ∧ event.eventID ≠ []
  | _ => False

/-- A step goes on to a later phase, or stays and receives a return, or stays as it is. -/
inductive Moves (event : Event) (p p' : Publish) : Prop
  | on : p.rank < p'.rank → Moves event p p'
  | received {r : Return} {rest : Channel Return} : p.returns.poll = .value r rest →
      p'.rank = p.rank → p'.returns = rest → p'.coming = p.coming → Moves event p p'
  | idle : p' = p → Idle event p → Moves event p p'

variable {p : Publish} {tick : Tick}

/-- A return moves on, from any other phase. -/
theorem moves_finish {q : Publish} {result : Except PublishError Unit} (h : p.rank < 6) :
    Moves event p (q.finish result) :=
  .on (by rwa [rank_finish])

/-- A message that is received is one fewer, or ends the call. -/
theorem moves_receive {r : Return} {rest : Channel Return} (h : p.rank < 6)
    (hPoll : p.returns.poll = .value r rest) : Moves event p (p.receive event r rest) := by
  rw [receive]
  split_ifs
  · exact moves_finish h
  · exact .received hPoll rfl rfl rfl

/-- The zero value of a closed channel ends the call if the event has no identifier, and else does
nothing. -/
theorem moves_receiveZero (h : p.rank < 6) (hIdle : event.eventID ≠ [] → Idle event p) :
    Moves event p (p.receiveZero event) := by
  rw [receiveZero]
  split_ifs with hZero
  · exact moves_finish h
  · exact .idle rfl (hIdle fun hNil => hZero hNil.symm)

/-- From the start the call goes on to drain, or returns. -/
theorem moves_begin (hPhase : p.phase = .start) : Moves event p (p.begin schema event tick) := by
  have hRank : p.rank = 0 := by rw [rank, hPhase]
  rw [begin]
  split_ifs
  · exact moves_finish (by omega)
  · split
    · exact moves_finish (by omega)
    · split
      · exact moves_finish (by omega)
      · exact .on (by rw [hRank]; exact Nat.zero_lt_one)

/-- The drain takes a stale return, spins, or goes on to send. -/
theorem moves_drain {envelope : EventEnvelope} (hPhase : p.phase = .draining envelope) :
    Moves event p (p.drain envelope) := by
  have hRank : p.rank = 1 := by rw [rank, hPhase]
  rw [drain]
  split
  · rename_i hPoll
    exact .received hPoll rfl rfl rfl
  · rename_i hPoll
    exact .idle rfl (by simpa only [Idle, hPhase] using hPoll)
  · exact .on (by rw [hRank]; exact Nat.lt_succ_self 1)

/-- The send is waited for, or fails. -/
theorem moves_send {envelope : EventEnvelope} (hPhase : p.phase = .sending envelope) :
    Moves event p (p.send event envelope tick) := by
  have hRank : p.rank = 2 := by rw [rank, hPhase]
  simp only [send]
  split_ifs
  · exact moves_finish (by omega)
  · split
    · exact moves_finish (by omega)
    · split
      · exact moves_finish (by omega)
      · exact .on (by rw [hRank]; exact Nat.lt_succ_self 2)

/-- The `select` takes a ready case, or there is none. -/
theorem moves_wait {publishing : Message} {prefers : SelectCase}
    (hPhase : p.phase = .waiting publishing) : Moves event p (p.wait event publishing prefers) := by
  have hRank : p.rank = 3 := by rw [rank, hPhase]
  -- a closed channel does not end the wait, other cases may still be taken
  have hIdle : Idle event p := by
    rw [Idle, hPhase]
    trivial
  rw [wait]
  split
  · exact .idle rfl hIdle
  · exact moves_finish (by omega)
  · exact .on (by rw [hRank]; exact Nat.lt_succ_self 3)
  · split
    · rename_i hPoll
      exact moves_receive (by omega) hPoll
    · exact moves_receiveZero (by omega) fun _ => hIdle
    · exact .idle rfl hIdle

/-- The last drain takes a return, spins, or ends the call. -/
theorem moves_redrain {publishing : Message} (hPhase : p.phase = .redraining publishing) :
    Moves event p (p.redrain event) := by
  have hRank : p.rank = 5 := by rw [rank, hPhase]
  rw [redrain]
  split
  · rename_i hPoll
    exact moves_receive (by omega) hPoll
  · rename_i hPoll
    -- the zero value is taken for a return of an event without identifier
    refine moves_receiveZero (by omega) fun hId => ?_
    rw [Idle, hPhase]
    exact ⟨hPoll, hId⟩
  · exact moves_finish (by omega)

/-- What one step of the call can do; each phase has its own lemma above. -/
theorem advance_moves : Moves event p (p.advance schema event tick) := by
  rw [advance]
  cases hPhase : p.phase with
  | start => exact moves_begin hPhase
  | draining envelope => exact moves_drain hPhase
  | sending envelope => exact moves_send hPhase
  | waiting publishing => exact moves_wait hPhase
  | confirmed publishing =>
    -- an acknowledgement that is positive leads to the last drain, a negative one to an error
    have hRank : p.rank = 4 := by rw [rank, hPhase]
    dsimp only
    split_ifs
    · exact .on (by rw [hRank]; exact Nat.lt_succ_self 4)
    · exact moves_finish (by omega)
  | redraining publishing => exact moves_redrain hPhase
  | returned result =>
    refine .idle rfl ?_
    rw [Idle, hPhase]
    trivial

/-- The call itself neither lets time pass nor settles anything, and it closes nothing. -/
structure Keeps (p p' : Publish) : Prop where
  expired : p'.expired = p.expired
  settled : p'.settled = p.settled
  closed : p'.returns.closed = true → p.returns.closed = true

/-- A step that does nothing. -/
theorem keeps_refl (p : Publish) : Keeps p p := ⟨rfl, rfl, id⟩

/-- A reset opens a new channel. -/
theorem keeps_reset (p : Publish) : Keeps p p.reset := ⟨rfl, rfl, nofun⟩

/-- The return itself changes neither channel nor confirmation. -/
theorem Keeps.finish {q : Publish} (h : Keeps p q) (result : Except PublishError Unit) :
    Keeps p (q.finish result) := ⟨h.expired, h.settled, h.closed⟩

/-- What is received leaves the channel as open as it was. -/
theorem keeps_receive {r : Return} {rest : Channel Return}
    (hPoll : p.returns.poll = .value r rest) : Keeps p (p.receive event r rest) := by
  have hClosed := (Channel.poll_value hPoll).2
  rw [receive]
  split_ifs
  · exact ⟨rfl, rfl, fun h => hClosed.trans h⟩
  · exact ⟨rfl, rfl, fun h => hClosed.trans h⟩

/-- The zero value of a closed channel changes nothing. -/
theorem keeps_receiveZero (p : Publish) : Keeps p (p.receiveZero event) := by
  rw [receiveZero]
  split_ifs
  · exact (keeps_refl p).finish _
  · exact keeps_refl p

/-- Connecting touches neither the deadline nor the confirmation. -/
theorem keeps_ensureChannel (p : Publish) (connect : Option PublishError) :
    Keeps p (p.ensureChannel connect).1 := by
  unfold ensureChannel
  split_ifs
  · exact keeps_refl p
  · exact keeps_refl p
  · split
    · exact keeps_reset p
    · exact ⟨rfl, rfl, nofun⟩

/-- The same for each phase: the start. -/
theorem keeps_begin : Keeps p (p.begin schema event tick) := by
  have hEnsured := keeps_ensureChannel p tick.connect
  rw [begin]
  split_ifs
  · exact (keeps_refl p).finish _
  · split
    · exact (keeps_refl p).finish _
    · split
      · rename_i hConnect
        rw [hConnect] at hEnsured
        exact hEnsured.finish _
      · rename_i hConnect
        rw [hConnect] at hEnsured
        exact ⟨hEnsured.expired, hEnsured.settled, hEnsured.closed⟩

/-- The send. -/
theorem keeps_send {envelope : EventEnvelope} : Keeps p (p.send event envelope tick) := by
  simp only [send]
  split_ifs
  · exact (keeps_reset p).finish _
  · split
    · exact (keeps_refl p).finish _
    · split
      · exact (keeps_reset p).finish _
      · exact ⟨rfl, rfl, id⟩

/-- The wait. -/
theorem keeps_wait {publishing : Message} {prefers : SelectCase} :
    Keeps p (p.wait event publishing prefers) := by
  rw [wait]
  split
  · exact keeps_refl p
  · exact (keeps_reset p).finish _
  · exact ⟨rfl, rfl, id⟩
  · split
    · rename_i hPoll
      exact keeps_receive hPoll
    · exact keeps_receiveZero p
    · exact keeps_refl p

/-- The first drain. -/
theorem keeps_drain {envelope : EventEnvelope} : Keeps p (p.drain envelope) := by
  rw [drain]
  split
  · rename_i hPoll
    exact ⟨rfl, rfl, fun h => (Channel.poll_value hPoll).2.trans h⟩
  · exact keeps_refl p
  · exact ⟨rfl, rfl, id⟩

/-- And the last one. -/
theorem keeps_redrain : Keeps p (p.redrain event) := by
  rw [redrain]
  split
  · rename_i hPoll
    exact keeps_receive hPoll
  · exact keeps_receiveZero p
  · exact (keeps_refl p).finish _

/-- So no step of the call unsettles a confirmation, undoes an expiry or closes the channel of
returns. -/
theorem advance_keeps : Keeps p (p.advance schema event tick) := by
  rw [advance]
  cases p.phase with
  | start => exact keeps_begin
  | draining envelope => exact keeps_drain
  | sending envelope => exact keeps_send
  | waiting publishing => exact keeps_wait
  | confirmed publishing =>
    dsimp only
    split_ifs
    · exact ⟨rfl, rfl, id⟩
    · exact (keeps_refl p).finish _
  | redraining publishing => exact keeps_redrain
  | returned result => exact keeps_refl p

/-! ## The drains -/

/-- The returns that can still be received. -/
def outstanding (p : Publish) : Nat := p.coming.length + p.returns.buffer.length

/-- What the broker does leaves no more to come. -/
theorem outstanding_act (p : Publish) (tick : Tick) : (p.act tick).outstanding ≤ p.outstanding := by
  have hSent := p.returns.length_act_le (p.coming.take tick.handed) tick.closes
  have hSplit := congrArg List.length (List.take_append_drop tick.handed p.coming)
  rw [List.length_append] at hSplit
  show (p.coming.drop tick.handed).length +
    (p.returns.act (p.coming.take tick.handed) tick.closes).buffer.length ≤ _
  rw [outstanding]
  omega

/-- A drain that meets a closed channel and has nothing to end it: it takes the zero value again
and again. -/
def Spins (event : Event) (p : Publish) : Prop :=
  p.returns.closed = true ∧
    match p.phase with
    | .draining _ => True
    | .redraining _ => event.eventID ≠ [] ∧ ∀ r ∈ p.returns.buffer, r.messageID ≠ event.eventID
    | _ => False

/-- What the broker does does not end a spin, for a closed channel stays closed. -/
theorem Spins.act (h : Spins event p) (tick : Tick) : Spins event (p.act tick) := by
  have hSame : (p.act tick).returns = p.returns := Channel.act_of_closed h.1 _ _
  rw [Spins, hSame]
  exact h

/-- It is one of the two drains that spins. -/
theorem Spins.phase_cases (h : Spins event p) :
    (∃ envelope, p.phase = .draining envelope) ∨ ∃ publishing, p.phase = .redraining publishing ∧
      event.eventID ≠ [] ∧ ∀ r ∈ p.returns.buffer, r.messageID ≠ event.eventID := by
  obtain ⟨-, hPhase⟩ := h
  cases hAt : p.phase with
  | draining envelope => exact .inl ⟨envelope, rfl⟩
  | redraining publishing =>
    rw [hAt] at hPhase
    exact .inr ⟨publishing, rfl, hPhase⟩
  | _ =>
    rw [hAt] at hPhase
    exact hPhase.elim

/-- The first drain spins on a closed channel, whatever is left in it. -/
theorem spins_drain {envelope : EventEnvelope} (hClosed : p.returns.closed = true)
    (hAt : p.phase = .draining envelope) : Spins event (p.drain envelope) := by
  rw [drain]
  split
  · rename_i hPoll
    refine ⟨(Channel.poll_value hPoll).2.symm.trans hClosed, ?_⟩
    simp only [hAt]
  · refine ⟨hClosed, ?_⟩
    simp only [hAt]
  · -- a closed channel is never empty to a receive
    rename_i hPoll
    rw [Channel.poll_empty hPoll] at hClosed
    cases hClosed

/-- The last drain spins on a closed channel in which the event's own return is not. -/
theorem spins_redrain {publishing : Message} (hClosed : p.returns.closed = true)
    (hAt : p.phase = .redraining publishing) (hId : event.eventID ≠ [])
    (hOthers : ∀ r ∈ p.returns.buffer, r.messageID ≠ event.eventID) :
    Spins event (p.redrain event) := by
  rw [redrain]
  split
  · -- a stale return of another event: one fewer in the channel
    rename_i r rest hPoll
    obtain ⟨hBuffer, hSame⟩ := Channel.poll_value hPoll
    rw [hBuffer] at hOthers
    rw [receive, if_neg (hOthers r List.mem_cons_self)]
    refine ⟨hSame.symm.trans hClosed, ?_⟩
    simp only [hAt]
    exact ⟨hId, fun r' hr' => hOthers r' (List.mem_cons_of_mem r hr')⟩
  · -- the zero value: it is not the event's return, since the event has an identifier
    rw [receiveZero, if_neg (show ([] : Text) ≠ event.eventID from hId.symm)]
    refine ⟨hClosed, ?_⟩
    simp only [hAt]
    exact ⟨hId, hOthers⟩
  · -- an open channel would have been left
    rename_i hPoll
    rw [Channel.poll_empty hPoll] at hClosed
    cases hClosed

/-- So a call that spins goes on spinning. -/
theorem Spins.advance (h : Spins event p) : Spins event (p.advance schema event tick) := by
  rw [Publish.advance]
  obtain ⟨envelope, hAt⟩ | ⟨publishing, hAt, hId, hOthers⟩ := h.phase_cases
  · rw [hAt]
    exact spins_drain h.1 hAt
  · rw [hAt]
    exact spins_redrain h.1 hAt hId hOthers

/-- And does not return. -/
theorem Spins.rank_lt (h : Spins event p) : p.rank < 6 := by
  obtain ⟨envelope, hAt⟩ | ⟨publishing, hAt, -⟩ := h.phase_cases
  · have hRank : p.rank = 1 := by rw [rank, hAt]
    omega
  · have hRank : p.rank = 5 := by rw [rank, hAt]
    omega

/-- A drain that is idle spins. -/
theorem Idle.spins (h : Idle event p) (hRank : p.rank ≠ 3) (hReturned : p.rank ≠ 6) :
    Spins event p := by
  rw [Idle] at h
  rw [rank] at hRank hReturned
  split at h
  · -- the wait is no loop
    rename_i hAt
    rw [hAt] at hRank
    exact absurd rfl hRank
  · -- nor is the return
    rename_i hAt
    rw [hAt] at hReturned
    exact absurd rfl hReturned
  · rename_i hAt
    refine ⟨(Channel.poll_closed h).2, ?_⟩
    simp only [hAt]
  · rename_i hAt
    obtain ⟨hBuffer, hClosed⟩ := Channel.poll_closed h.1
    refine ⟨hClosed, ?_⟩
    simp only [hAt, hBuffer]
    exact ⟨h.2, fun r hr => absurd hr List.not_mem_nil⟩
  · exact h.elim

/-! ## The wait -/

/-- The `select` takes the case it prefers, if that is ready. -/
theorem selected_of_ready {c : SelectCase} (h : p.ready c = true) : p.selected c = some c := by
  rw [selected, List.find?_cons_of_pos h]

/-- A step of the wait that takes the deadline or the confirmation leaves it. -/
theorem rank_step_waiting {publishing : Message} (hPhase : p.phase = .waiting publishing)
    (hCase : tick.prefers ≠ .returned) (hReady : (p.act tick).ready tick.prefers = true) :
    (step schema event p tick).rank ≠ 3 := by
  have hAct : (p.act tick).phase = .waiting publishing := hPhase
  simp only [step, advance, hAct]
  rw [wait, selected_of_ready hReady]
  cases hPrefers : tick.prefers with
  | deadline => exact Nat.ne_of_beq_eq_false rfl
  | returned => exact absurd hPrefers hCase
  | confirmed => exact Nat.ne_of_beq_eq_false rfl

/-- A confirmation or an expiry that is ready stays ready whatever the broker does. -/
theorem ready_act {c : SelectCase} (hCase : c ≠ .returned) (h : p.ready c = true) (tick : Tick) :
    (p.act tick).ready c = true := by
  cases c with
  | deadline =>
    show (p.expired || tick.expires) = true
    rw [show p.expired = true from h, Bool.true_or]
  | returned => exact absurd rfl hCase
  | confirmed =>
    obtain ⟨acked, hSettled⟩ := Option.isSome_iff_exists.mp h
    show (if p.phase.waits then p.settled.or tick.settles else p.settled).isSome = true
    rw [hSettled]
    split_ifs <;> rfl

/-- And whatever the call does. -/
theorem ready_advance {c : SelectCase} (hCase : c ≠ .returned) (h : p.ready c = true) :
    (p.advance schema event tick).ready c = true := by
  have hKeeps := @advance_keeps schema event p tick
  cases c with
  | deadline => exact hKeeps.expired.trans h
  | returned => exact absurd rfl hCase
  | confirmed =>
    show (p.advance schema event tick).settled.isSome = true
    rw [hKeeps.settled]
    exact h

/-! ## The whole call -/

section Call

variable {b : RabbitBroker} {schedule : Nat → Tick}

/-- No step goes back to an earlier phase. -/
theorem rank_step (p : Publish) (tick : Tick) : p.rank ≤ (step schema event p tick).rank := by
  have hAct : (p.act tick).rank = p.rank := rfl
  rw [← hAct]
  obtain hOn | ⟨-, hSame, -, -⟩ | ⟨hSame, -⟩ := @advance_moves schema event (p.act tick) tick
  · exact hOn.le
  · exact hSame.ge
  · rw [step, hSame]

/-- So phases only go on. -/
theorem rank_mono {n k : Nat} (h : n ≤ k) :
    (after schema event b schedule n).rank ≤ (after schema event b schedule k).rank :=
  monotone_nat_of_le_succ (fun i => rank_step (after schema event b schedule i) (schedule i)) h

/-- Once a drain spins it never ends. -/
theorem spins_forever {n : Nat}
    (h : Spins event ((after schema event b schedule n).act (schedule n))) :
    ∀ k, (after schema event b schedule k).rank < 6 := by
  have hFrom : ∀ k ≥ n, Spins event ((after schema event b schedule k).act (schedule k)) := by
    intro k hk
    obtain ⟨i, rfl⟩ := Nat.exists_eq_add_of_le hk
    induction i with
    | zero => exact h
    | succ i ih => exact ((ih (by omega)).advance).act _
  intro k
  have hLast := (hFrom (max n k) (le_max_left n k)).rank_lt
  exact (rank_mono (le_max_right n k)).trans_lt hLast

/-- Outside the wait, a call that does not spin goes on to a later phase. -/
theorem phase_left
    (hSpins : ∀ n, ¬ Spins event ((after schema event b schedule n).act (schedule n))) (n : Nat)
    (hWait : (after schema event b schedule n).rank ≠ 3)
    (hReturned : (after schema event b schedule n).rank ≠ 6) :
    ∃ k ≥ n, (after schema event b schedule k).rank ≠ (after schema event b schedule n).rank := by
  refine exists_left (fun p => p.rank = (after schema event b schedule n).rank) outstanding n ?_
  intro k _ hHere hNext
  have hAct := outstanding_act (after schema event b schedule k) (schedule k)
  obtain hOn | ⟨hPoll, -, hRest, hComing⟩ | ⟨-, hIdle⟩ :=
    @advance_moves schema event ((after schema event b schedule k).act (schedule k)) (schedule k)
  · exact absurd (hHere.trans hNext.symm) hOn.ne
  · -- one return less to receive
    refine lt_of_lt_of_le ?_ hAct
    show (advance schema event ((after schema event b schedule k).act (schedule k))
      (schedule k)).outstanding < _
    rw [outstanding, outstanding, hRest, hComing, (Channel.poll_value hPoll).1, List.length_cons]
    omega
  · refine absurd (hIdle.spins ?_ ?_) (hSpins k)
    · exact fun hRank => hWait (hHere.symm.trans hRank)
    · exact fun hRank => hReturned (hHere.symm.trans hRank)

/-- The wait is resolved: its deadline passes or the publication is settled. -/
def Resolved (schema : Json → Bool) (event : Event) (b : RabbitBroker) (schedule : Nat → Tick) : Prop :=
  ∀ n publishing, (after schema event b schedule n).phase = .waiting publishing →
    ∃ k ≥ n, (schedule k).expires = true ∨ (schedule k).settles ≠ none

/-- The fourth phase is the wait. -/
theorem waiting_of_rank (h : p.rank = 3) : ∃ publishing, p.phase = .waiting publishing := by
  rw [rank] at h
  split at h <;> first | exact ⟨_, by assumption⟩ | omega

/-- A case that is ready in a resolved wait. -/
theorem exists_ready (h : tick.expires = true ∨ tick.settles ≠ none) (hRank : p.rank = 3) :
    ∃ c, c ≠ .returned ∧ (p.act tick).ready c = true := by
  obtain ⟨publishing, hPhase⟩ := waiting_of_rank hRank
  rcases h with hExpires | hSettles
  · refine ⟨.deadline, nofun, ?_⟩
    show (p.expired || tick.expires) = true
    rw [hExpires, Bool.or_true]
  · refine ⟨.confirmed, nofun, ?_⟩
    obtain ⟨acked, hSettled⟩ := Option.ne_none_iff_exists'.mp hSettles
    show (if p.phase.waits then p.settled.or tick.settles else p.settled).isSome = true
    rw [hPhase, hSettled]
    cases p.settled <;> rfl

/-- The wait ends whatever the state of the channel. -/
theorem wait_ends (hFair : Fair fun k => (schedule k).prefers)
    (hResolved : Resolved schema event b schedule) (n : Nat)
    (hWait : (after schema event b schedule n).rank = 3) :
    ∃ k ≥ n, (after schema event b schedule k).rank ≠ 3 := by
  obtain ⟨publishing, hPhase⟩ := waiting_of_rank hWait
  obtain ⟨k, hk, hTick⟩ := hResolved n publishing hPhase
  by_cases hStill : (after schema event b schedule k).rank = 3
  · obtain ⟨c, hCase, hReady⟩ := exists_ready hTick hStill
    have hKept : ∀ i ≥ k + 1, (after schema event b schedule i).rank = 3 →
        (after schema event b schedule i).ready c = true →
          (after schema event b schedule (i + 1)).ready c = true :=
      fun i _ _ h => ready_advance hCase (ready_act hCase h (schedule i))
    have hTaken : ∀ i ≥ k + 1, (after schema event b schedule i).rank = 3 →
        (after schema event b schedule i).ready c = true → (schedule i).prefers = c →
          (after schema event b schedule (i + 1)).rank ≠ 3 := by
      rintro i - hHere hReady rfl
      obtain ⟨publishing, hPhase⟩ := waiting_of_rank hHere
      exact rank_step_waiting hPhase hCase (ready_act hCase hReady _)
    -- from here on the case is ready, and the select prefers it in the end
    obtain ⟨k', hk', hLeft⟩ := exists_left_of_fair hFair (fun p : Publish => p.rank = 3)
      (fun p => p.ready c = true) c (ready_advance hCase hReady) hKept hTaken
    exact ⟨k', by omega, hLeft⟩
  · exact ⟨k, hk, hStill⟩

/-- A call that does not spin returns. -/
theorem exists_returned (hFair : Fair fun k => (schedule k).prefers)
    (hResolved : Resolved schema event b schedule)
    (hSpins : ∀ n, ¬ Spins event ((after schema event b schedule n).act (schedule n))) :
    ∃ n, (after schema event b schedule n).rank = 6 := by
  -- each phase is left for a later one, and there are seven
  have hFrom : ∀ left n, 6 - (after schema event b schedule n).rank = left →
      ∃ k, (after schema event b schedule k).rank = 6 := by
    intro left
    induction left using Nat.strong_induction_on with
    | _ left ih =>
      intro n hLeft
      by_cases hReturned : (after schema event b schedule n).rank = 6
      · exact ⟨n, hReturned⟩
      · obtain ⟨k, hk, hLater⟩ : ∃ k ≥ n, (after schema event b schedule k).rank ≠
            (after schema event b schedule n).rank := by
          by_cases hWait : (after schema event b schedule n).rank = 3
          · rw [hWait]
            exact wait_ends hFair hResolved n hWait
          · exact phase_left hSpins n hWait hReturned
        have hMono := @rank_mono schema event b schedule n k hk
        have hLe := (after schema event b schedule n).rank_le
        exact ih _ (by omega) k rfl
  exact hFrom _ 0 rfl

end Call

/-! ## What `nil` says -/

/-- No return of the event was received since its publication. -/
def NotReturned (event : Event) (p : Publish) : Prop :=
  ∀ r ∈ p.received, r.messageID ≠ event.eventID

/-- What the phases stand for. -/
def Sound (schema : Json → Bool) (event : Event) (p : Publish) : Prop :=
  match p.phase with
  | .start => p.received = []
  | .draining envelope => p.received = [] ∧ checkEvent schema event = .ok envelope
  | .sending envelope => p.received = [] ∧ checkEvent schema event = .ok envelope
  | .waiting publishing => publication schema event = .ok publishing ∧ NotReturned event p
  | .confirmed publishing => publication schema event = .ok publishing ∧ NotReturned event p
  | .redraining publishing =>
    publication schema event = .ok publishing ∧ NotReturned event p ∧ p.settled = some true
  | .returned result => result = .ok () →
    (∃ publishing, publication schema event = .ok publishing) ∧ NotReturned event p ∧
      p.settled = some true

/-- An event that passed the checks is published as the message made of it. -/
theorem publication_of_checkEvent {envelope : EventEnvelope}
    (hEvent : checkEvent schema event = .ok envelope)
    (hIdentity : validatePublishingIdentity (publishingForEvent event envelope) event envelope =
      .ok ()) : publication schema event = .ok (publishingForEvent event envelope) := by
  unfold checkEvent at hEvent
  unfold publication
  split_ifs at hEvent ⊢
  cases hParse : Json.parse event.payload with
  | none =>
    rw [hParse] at hEvent
    cases hEvent
  | some value =>
    simp only [hParse] at hEvent ⊢
    split_ifs at hEvent ⊢
    simp only [hEvent, hIdentity, bind, Except.bind]

/-- The world settles a publication only while the call waits for that. -/
theorem settled_act (h : p.phase.waits = false) (tick : Tick) :
    (p.act tick).settled = p.settled := by
  simp [Publish.act, h]

/-- What the broker does concerns no phase but the wait's own returns. -/
theorem Sound.act (h : Sound schema event p) (tick : Tick) : Sound schema event (p.act tick) := by
  have hPhase : (p.act tick).phase = p.phase := rfl
  unfold Sound at h ⊢
  rw [hPhase]
  cases hAt : p.phase with
  | redraining publishing =>
    rw [hAt] at h
    rw [settled_act (by rw [hAt]; rfl)]
    exact h
  | returned result =>
    rw [hAt] at h
    rw [settled_act (by rw [hAt]; rfl)]
    exact h
  | _ =>
    rw [hAt] at h
    exact h

/-- Nothing is claimed of a call that fails. -/
theorem sound_failed (p : Publish) (cause : PublishError) :
    Sound schema event (p.finish (.error cause)) := nofun

/-- Another message's return is not the event's. -/
theorem NotReturned.receive {r : Return} (h : NotReturned event p)
    (hOther : r.messageID ≠ event.eventID) :
    ∀ r' ∈ p.received ++ [r], r'.messageID ≠ event.eventID := by
  intro r' hr'
  rcases List.mem_append.mp hr' with hOld | hNew
  · exact h r' hOld
  · rw [List.mem_singleton.mp hNew]
    exact hOther

/-- The start, when nothing has been received. -/
theorem sound_begin (h : p.received = []) : Sound schema event (p.begin schema event tick) := by
  -- connecting receives nothing
  have hEnsured : (p.ensureChannel tick.connect).1.received = [] := by
    unfold ensureChannel
    split_ifs
    · exact h
    · exact h
    · split <;> exact h
  rw [begin]
  split_ifs
  · exact sound_failed _ _
  · split
    · exact sound_failed _ _
    · rename_i hEvent
      split
      · exact sound_failed _ _
      · rename_i hConnect
        rw [hConnect] at hEnsured
        exact ⟨hEnsured, hEvent⟩

/-- The send. -/
theorem sound_send {envelope : EventEnvelope} (h : p.received = [])
    (hEvent : checkEvent schema event = .ok envelope) :
    Sound schema event (p.send event envelope tick) := by
  simp only [send]
  split_ifs
  · exact sound_failed _ _
  · split
    · exact sound_failed _ _
    · rename_i hIdentity
      split
      · exact sound_failed _ _
      · refine ⟨publication_of_checkEvent hEvent hIdentity, fun r hr => ?_⟩
        rw [show p.received = [] from h] at hr
        cases hr

/-- The wait: a return of the message itself ends the call with an error. -/
theorem sound_wait {publishing : Message} {prefers : SelectCase}
    (hAt : p.phase = .waiting publishing) (hMessage : publication schema event = .ok publishing)
    (hOthers : NotReturned event p) : Sound schema event (p.wait event publishing prefers) := by
  have hStays : Sound schema event p := by
    simpa only [Sound, hAt] using ⟨hMessage, hOthers⟩
  rw [wait]
  split
  · exact hStays
  · exact sound_failed _ _
  · exact ⟨hMessage, hOthers⟩
  · -- a return, or the zero value of the closed channel
    split
    · rw [receive]
      split_ifs with hOwn
      · exact sound_failed _ _
      · simpa only [Sound, hAt] using ⟨hMessage, hOthers.receive hOwn⟩
    · rw [receiveZero]
      split_ifs
      · exact sound_failed _ _
      · exact hStays
    · exact hStays

/-- The last drain, in which the broker had accepted the message. -/
theorem sound_redrain {publishing : Message} (hAt : p.phase = .redraining publishing)
    (hMessage : publication schema event = .ok publishing) (hOthers : NotReturned event p)
    (hAcked : p.settled = some true) : Sound schema event (p.redrain event) := by
  rw [redrain]
  split
  · rw [receive]
    split_ifs with hOwn
    · exact sound_failed _ _
    · simpa only [Sound, hAt] using ⟨hMessage, hOthers.receive hOwn, hAcked⟩
  · rw [receiveZero]
    split_ifs
    · exact sound_failed _ _
    · simpa only [Sound, hAt] using ⟨hMessage, hOthers, hAcked⟩
  · -- nothing more is buffered: this is where `nil` is returned
    exact fun _ => ⟨⟨publishing, hMessage⟩, hOthers, hAcked⟩

/-- Each step of the call is sound, phase by phase. -/
theorem Sound.advance (h : Sound schema event p) :
    Sound schema event (p.advance schema event tick) := by
  have hPhase := h
  unfold Sound at hPhase
  rw [Publish.advance]
  cases hAt : p.phase with
  | start =>
    rw [hAt] at hPhase
    exact sound_begin hPhase
  | draining envelope =>
    rw [hAt] at hPhase
    dsimp only
    rw [drain]
    split
    · simpa only [Sound, hAt] using hPhase
    · exact h
    · exact hPhase
  | sending envelope =>
    rw [hAt] at hPhase
    exact sound_send hPhase.1 hPhase.2
  | waiting publishing =>
    rw [hAt] at hPhase
    exact sound_wait hAt hPhase.1 hPhase.2
  | confirmed publishing =>
    rw [hAt] at hPhase
    dsimp only
    -- a publication that was refused ends the call before the last drain
    split_ifs with hAcked
    · exact ⟨hPhase.1, hPhase.2, hAcked⟩
    · exact sound_failed _ _
  | redraining publishing =>
    rw [hAt] at hPhase
    exact sound_redrain hAt hPhase.1 hPhase.2.1 hPhase.2.2
  | returned result => exact h

/-- `nil` is returned only for a message that passed its checks, was acknowledged, and of which
no return was received. -/
theorem published_safe (b : RabbitBroker) (schedule : Nat → Tick) {n : Nat}
    (h : (after schema event b schedule n).phase = .returned (.ok ())) :
    (∃ publishing, publication schema event = .ok publishing) ∧
      (after schema event b schedule n).settled = some true ∧
      NotReturned event (after schema event b schedule n) := by
  have hStart : Sound schema event { toRabbitBroker := b } := show ([] : List Return) = [] from rfl
  have hSound : Sound schema event (after schema event b schedule n) :=
    trajectory_invariant (Sound schema event) (fun p k hp => (hp.act (schedule k)).advance) hStart n
  unfold Sound at hSound
  rw [h] at hSound
  obtain ⟨hMessage, hReturns, hAcked⟩ := hSound rfl
  exact ⟨hMessage, hAcked, hReturns⟩

/-! ## The call as a whole -/

/-- Every loop of the call that is entered is left, the call returns, and it returns `nil` only
for a publication that was acknowledged and of which no return was received. -/
structure Completes (schema : Json → Bool) (event : Event) (b : RabbitBroker) (schedule : Nat → Tick) :
    Prop where
  drained : ∀ n envelope, (after schema event b schedule n).phase = .draining envelope →
    ∃ k ≥ n, (after schema event b schedule k).phase ≠ .draining envelope
  waited : ∀ n publishing, (after schema event b schedule n).phase = .waiting publishing →
    ∃ k ≥ n, (after schema event b schedule k).phase ≠ .waiting publishing
  redrained : ∀ n publishing, (after schema event b schedule n).phase = .redraining publishing →
    ∃ k ≥ n, (after schema event b schedule k).phase ≠ .redraining publishing
  returns : ∃ n result, (after schema event b schedule n).phase = .returned result
  acked : ∀ n, (after schema event b schedule n).phase = .returned (.ok ()) →
    (after schema event b schedule n).settled = some true ∧
      NotReturned event (after schema event b schedule n)

/-- The seventh phase is the return. -/
theorem returned_of_rank (h : p.rank = 6) : ∃ result, p.phase = .returned result := by
  rw [rank] at h
  split at h <;> first | exact ⟨_, by assumption⟩ | omega

/-- With a fair `select`, and once the deadline passes or the publication is settled, `Publish`
does all it should exactly when neither of its two drains meets a closed channel of returns: not
the first one at all, and the last one only while it still holds a return of the event.  The wait
ends, and `nil` means what it should, in every state of the channel. -/
theorem publish_returns_iff (schema : Json → Bool) (event : Event) (b : RabbitBroker)
    (schedule : Nat → Tick) (hFair : Fair fun k => (schedule k).prefers)
    (hResolved : Resolved schema event b schedule) :
    (Completes schema event b schedule ↔
      ∀ n, ¬ Spins event ((after schema event b schedule n).act (schedule n))) ∧
    (∀ n publishing, (after schema event b schedule n).phase = .waiting publishing →
      ∃ k ≥ n, (after schema event b schedule k).phase ≠ .waiting publishing) ∧
    ∀ n, (after schema event b schedule n).phase = .returned (.ok ()) →
      (after schema event b schedule n).settled = some true ∧
        NotReturned event (after schema event b schedule n) := by
  have hWaits : ∀ n publishing, (after schema event b schedule n).phase = .waiting publishing →
      ∃ k ≥ n, (after schema event b schedule k).phase ≠ .waiting publishing := by
    intro n publishing hPhase
    obtain ⟨k, hk, hLeft⟩ := wait_ends hFair hResolved n (by rw [rank, hPhase])
    exact ⟨k, hk, fun hStill => hLeft (by rw [rank, hStill])⟩
  have hSafe : ∀ n, (after schema event b schedule n).phase = .returned (.ok ()) →
      (after schema event b schedule n).settled = some true ∧
        NotReturned event (after schema event b schedule n) :=
    fun n hPhase => (published_safe b schedule hPhase).2
  refine ⟨⟨fun hCompletes n hSpins => ?_, fun hSpins => ?_⟩, hWaits, hSafe⟩
  · -- a call that spins has not returned, but completing is returning
    obtain ⟨k, result, hReturned⟩ := hCompletes.returns
    have hLess := spins_forever hSpins k
    rw [rank, hReturned] at hLess
    exact absurd hLess (Nat.lt_irrefl 6)
  · obtain ⟨n, hRank⟩ := exists_returned hFair hResolved hSpins
    obtain ⟨result, hReturned⟩ := returned_of_rank hRank
    -- what has returned is in no loop any more
    have hLeft : ∀ k phase, (∀ result, phase ≠ .returned result) →
        ∃ i ≥ k, (after schema event b schedule i).phase ≠ phase := by
      intro k phase hOther
      refine ⟨max n k, le_max_right n k, fun hStill => ?_⟩
      obtain ⟨result, hEnd⟩ := returned_of_rank (Nat.le_antisymm (rank_le _)
        (hRank.ge.trans (rank_mono (le_max_left n k))))
      exact hOther result (hStill.symm.trans hEnd)
    exact ⟨fun k envelope _ => hLeft k _ nofun, hWaits, fun k publishing _ => hLeft k _ nofun,
      ⟨n, result, hReturned⟩, hSafe⟩

/-- A channel that nobody closes stays open. -/
theorem closed_after {b : RabbitBroker} {schedule : Nat → Tick}
    (hSchedule : ∀ k, (schedule k).closes = false) (hOpen : b.returns.closed = false) {n : Nat} :
    ((after schema event b schedule n).act (schedule n)).returns.closed = false := by
  -- the schedule closes no channel
  have hAct : ∀ (p : Publish) (k : Nat), p.returns.closed = false →
      (p.act (schedule k)).returns.closed = false := by
    intro p k hp
    show (p.returns.act _ _).closed = false
    rw [Channel.act, hp, hSchedule k]
    rfl
  have hKeeps : ∀ (p : Publish) (k : Nat), p.returns.closed = false →
      (step schema event p (schedule k)).returns.closed = false := by
    intro p k hp
    refine Bool.eq_false_iff.mpr fun h => ?_
    have hBefore := advance_keeps.closed h
    rw [hAct p k hp] at hBefore
    cases hBefore
  have hBefore : (after schema event b schedule n).returns.closed = false :=
    trajectory_invariant (fun p : Publish => p.returns.closed = false) hKeeps hOpen n
  exact hAct _ n hBefore

/-- When an event passes the checks. -/
theorem checkEvent_ok {envelope : EventEnvelope} (hSchema : ∀ value, schema value = true)
    (hType : event.eventType = eventType) (hOk : validateEnvelope event = .ok envelope) :
    checkEvent schema event = .ok envelope := by
  obtain ⟨document, hParse, -⟩ := validateEnvelope_ok hOk
  simp [checkEvent, hType, hParse, hSchema, hOk]

/-- A connection that dies right after `ensureChannel` found it alive makes the first drain
spin. -/
theorem spins_of_closing {b : RabbitBroker} {schedule : Nat → Tick} {envelope : EventEnvelope}
    (hEvent : checkEvent schema event = .ok envelope) (hAlive : b.alive = true)
    (hFirst : (schedule 0).closes = false ∧ (schedule 0).expires = false)
    (hCloses : (schedule 1).closes = true) :
    Spins event ((after schema event b schedule 1).act (schedule 1)) := by
  set p : Publish := ({ toRabbitBroker := b } : Publish).act (schedule 0)
  have hExpired : p.expired = false := hFirst.2
  have hStillAlive : p.alive = true := by
    show (b.alive && !(schedule 0).closes) = true
    rw [hAlive, hFirst.1]
    rfl
  -- the channel is there, so none is opened
  have hEnsured : p.ensureChannel (schedule 0).connect = (p, .ok ()) := by
    simp [ensureChannel, hExpired, hStillAlive]
  have hDraining : after schema event b schedule 1 = { p with phase := .draining envelope } := by
    show p.begin schema event (schedule 0) = _
    simp [begin, hExpired, hEvent, hEnsured]
  rw [hDraining]
  refine ⟨?_, trivial⟩
  show (p.returns.act _ (schedule 1).closes).closed = true
  rw [Channel.act, hCloses]
  split_ifs with hClosed
  · exact hClosed
  · rfl

/-! ### Two calls -/

/-- The cases in turn. -/
def inTurn (k : Nat) : SelectCase :=
  if k % 3 = 0 then .deadline else if k % 3 = 1 then .returned else .confirmed

/-- Taking turns is fair. -/
theorem inTurn_fair : Fair inTurn := by
  intro c n
  cases c with
  | deadline => exact ⟨3 * n, by omega, by rw [inTurn, if_pos (by omega)]⟩
  | returned => exact ⟨3 * n + 1, by omega, by rw [inTurn, if_neg (by omega), if_pos (by omega)]⟩
  | confirmed => exact ⟨3 * n + 2, by omega, by rw [inTurn, if_neg (by omega), if_neg (by omega)]⟩

/-- The publication is acknowledged from the sixth step on, and the deadline passes at the
twentieth; `closesAt` is the step before which the connection dies. -/
def sampleSchedule (closesAt : Option Nat) (k : Nat) : Tick where
  closes := closesAt = some k
  settles := if 6 ≤ k then some true else none
  expires := decide (k = 20)
  prefers := inTurn k

/-- In the sample every wait comes to an end. -/
theorem sampleSchedule_resolved (closesAt : Option Nat) (b : RabbitBroker) :
    Resolved schema event b (sampleSchedule closesAt) := by
  intro n publishing _
  refine ⟨max n 6, le_max_left n 6, .inr ?_⟩
  simp [sampleSchedule]

/-- A broker that is connected and has been returned one earlier message. -/
def connected : RabbitBroker := ⟨true, ⟨[⟨"earlier".toList⟩], false⟩, []⟩

/-- A call whose channel stays open completes. -/
theorem publish_returns_iff_open :
    Completes (fun _ => true) (eventWith []) connected (sampleSchedule none) := by
  refine (publish_returns_iff _ _ _ _ inTurn_fair (sampleSchedule_resolved none connected)).1.mpr ?_
  intro n hSpins
  have hClosed := hSpins.1
  rw [closed_after (fun _ => rfl) rfl] at hClosed
  cases hClosed

/-- The connection dies right after `ensureChannel` found it alive: the first drain never ends,
although the deadline passes. -/
theorem closed_returns_spin :
    Fair (fun k => (sampleSchedule (some 1) k).prefers) ∧
      Resolved (fun _ => true) (eventWith []) connected (sampleSchedule (some 1)) ∧
      (∃ k, (sampleSchedule (some 1) k).expires = true) ∧
      ∀ n result,
        (after (fun _ => true) (eventWith []) connected (sampleSchedule (some 1)) n).phase ≠
          .returned result := by
  refine ⟨inTurn_fair, sampleSchedule_resolved _ _, ⟨20, rfl⟩, fun n result hReturned => ?_⟩
  have hEvent : checkEvent (fun _ => true) (eventWith []) = .ok eventEnvelope :=
    checkEvent_ok (fun _ => rfl) rfl validateEnvelope_eventWith
  have hFirst : (sampleSchedule (some 1) 0).closes = false ∧
      (sampleSchedule (some 1) 0).expires = false := ⟨rfl, rfl⟩
  have hAlive : connected.alive = true := rfl
  have hLess := spins_forever (spins_of_closing hEvent hAlive hFirst rfl) n
  rw [rank, hReturned] at hLess
  exact absurd hLess (Nat.lt_irrefl 6)

end Publish

end Cashflow.Outbox
