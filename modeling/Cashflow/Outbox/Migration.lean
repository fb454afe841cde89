import Cashflow.Lib.Script
import Cashflow.Outbox.Topology

/-!
# Outbox — what every sequence of migrations keeps

* `migrations_keep_messages` — however runs in either direction follow one
  another and wherever each is stopped, no message of the two queues is lost or
  altered, the cutover marker only stands while the new queue alone is bound,
  and a run that returns no error has emptied its source and swapped the
  bindings.

Each step of the script establishes something (`Holds`) that later steps of the
same run keep (`undoes` names the exceptions, and no script has one). What a step
needs from the steps before it is `Prepared`; both scripts provide it.
-/

namespace Cashflow.Outbox

open Lib Pipeline

/-! ## Queue contents -/

/-- A queue that is there has the messages it was given. -/
theorem ready_setReady_self {b : Broker} {queue : Text} (h : (b.queues queue).isSome)
    (l : List Publishing) : (b.setReady queue l).ready queue = l := by
  obtain ⟨q, hq⟩ := Option.isSome_iff_exists.mp h
  simp [Broker.ready, Broker.setReady, hq]

/-- And every other queue keeps its own. -/
theorem ready_setReady_of_ne {b : Broker} {queue other : Text} (h : other ≠ queue)
    (l : List Publishing) : (b.setReady queue l).ready other = b.ready other := by
  simp [Broker.ready, Broker.setReady, Function.update_of_ne h]

/-- Setting the messages of a queue neither declares nor deletes one. -/
theorem isSome_setReady {b : Broker} {queue : Text} (l : List Publishing) (other : Text) :
    ((b.setReady queue l).queues other).isSome = (b.queues other).isSome := by
  by_cases h : other = queue
  · subst h
    simp [Broker.setReady]
  · simp [Broker.setReady, Function.update_of_ne h]

/-! ## What a call changes -/

/-- The changes a call can make: a declaration creates what is missing, and
leaves everything as it is when it finds what it declares. -/
inductive Changes : Method → Broker → Broker → Prop
  | found (method : Method) (b : Broker) (hDelete : ∀ name, method ≠ .exchangeDelete name)
      (hBind : ∀ binding, method ≠ .queueBind binding)
      (hUnbind : ∀ binding, method ≠ .queueUnbind binding)
      (hQueue : ∀ name arguments, method = .queueDeclare name arguments →
        (b.queues name).isSome) : Changes method b b
  | exchangeDeclared (name kind : Text) (b : Broker) :
      Changes (.exchangeDeclare name kind) b
        { b with exchanges := Function.update b.exchanges name (some kind) }
  | exchangeDeleted (name : Text) (b : Broker) :
      Changes (.exchangeDelete name) b
        { b with
          exchanges := Function.update b.exchanges name none
          bindings := b.bindings.filter fun binding => binding.exchange ≠ name }
  | queueDeclared (name : Text) (arguments : Arguments) (b : Broker)
      (hAbsent : b.queues name = none) :
      Changes (.queueDeclare name arguments) b
        { b with queues := Function.update b.queues name (some ⟨arguments, []⟩) }
  | bound (binding : Binding) (b : Broker) :
      Changes (.queueBind binding) b { b with bindings := b.bindings.insert binding }
  | unbound (binding : Binding) (b : Broker) :
      Changes (.queueUnbind binding) b
        { b with bindings := b.bindings.filter fun other => other ≠ binding }

/-- What a method that succeeds does to the broker. -/
theorem changes_of_effect {method : Method} {b b' : Broker} (h : method.effect b = some b') :
    Changes method b b' := by
  cases method with
  | exchangeDeclarePassive name =>
    obtain ⟨-, ⟨⟩⟩ := Option.ite_none_right_eq_some.mp h
    exact .found _ _ nofun nofun nofun nofun
  | exchangeDeclare name kind =>
    simp only [Method.effect] at h
    split at h
    · -- an exchange that was not there
      cases h
      exact .exchangeDeclared name kind b
    · -- or one of the same kind
      obtain ⟨-, ⟨⟩⟩ := Option.ite_none_right_eq_some.mp h
      exact .found _ _ nofun nofun nofun nofun
  | queueDeclare name arguments =>
    simp only [Method.effect] at h
    split at h
    · rename_i hAbsent
      cases h
      exact .queueDeclared name arguments b hAbsent
    · rename_i declared hDeclared
      obtain ⟨-, ⟨⟩⟩ := Option.ite_none_right_eq_some.mp h
      -- a queue declared again is the one that is there
      refine .found _ _ nofun nofun nofun ?_
      rintro _ _ ⟨⟩
      rw [hDeclared]
      rfl
  | queueBind binding =>
    obtain ⟨-, ⟨⟩⟩ := Option.ite_none_right_eq_some.mp h
    exact .bound binding b
  | exchangeDelete name =>
    cases h
    exact .exchangeDeleted name b
  | queueUnbind binding =>
    cases h
    exact .unbound binding b
  | confirm =>
    cases h
    exact .found _ _ nofun nofun nofun nofun

section Changes

variable {method : Method} {b b' : Broker}

/-- No call but those of the loop touches what waits in a queue. -/
theorem Changes.ready (h : Changes method b b') (queue : Text) :
    b'.ready queue = b.ready queue := by
  cases h with
  | queueDeclared name arguments _ hAbsent =>
    by_cases hName : queue = name
    · subst hName
      simp [Broker.ready, hAbsent]
    · simp [Broker.ready, Function.update_of_ne hName]
  | _ => rfl

/-- No call deletes a queue. -/
theorem Changes.exists (h : Changes method b b') {queue : Text} (hQueue : (b.queues queue).isSome) :
    (b'.queues queue).isSome := by
  cases h with
  | queueDeclared name arguments _ hAbsent =>
    by_cases hName : queue = name
    · subst hName
      simp
    · simpa [Function.update_of_ne hName] using hQueue
  | _ => exact hQueue

/-- A binding appears only by binding it. -/
theorem Changes.bound_before (h : Changes method b b') {binding : Binding}
    (hBound : binding ∈ b'.bindings) : binding ∈ b.bindings ∨ method = .queueBind binding := by
  cases h with
  | exchangeDeleted name => exact .inl (List.mem_of_mem_filter hBound)
  | unbound removed => exact .inl (List.mem_of_mem_filter hBound)
  | bound added =>
    rcases List.mem_insert_iff.mp hBound with rfl | hBound
    · exact .inr rfl
    · exact .inl hBound
  | _ => exact .inl hBound

/-- A binding disappears only by unbinding it or with its exchange. -/
theorem Changes.bound_after (h : Changes method b b') {binding : Binding}
    (hBound : binding ∈ b.bindings) :
    binding ∈ b'.bindings ∨ method = .queueUnbind binding ∨
      method = .exchangeDelete binding.exchange := by
  cases h with
  | exchangeDeleted name =>
    by_cases hName : binding.exchange = name
    · exact .inr (.inr (by rw [hName]))
    · exact .inl (List.mem_filter.mpr ⟨hBound, by simpa using hName⟩)
  | unbound removed =>
    by_cases hSame : binding = removed
    · exact .inr (.inl (by rw [hSame]))
    · exact .inl (List.mem_filter.mpr ⟨hBound, by simpa using hSame⟩)
  | bound added => exact .inl (List.mem_insert_iff.mpr (.inr hBound))
  | _ => exact .inl hBound

/-- An exchange appears only by declaring it. -/
theorem Changes.exchange_before (h : Changes method b b') {name : Text}
    (hName : (b'.exchanges name).isSome) :
    (b.exchanges name).isSome ∨ ∃ kind, method = .exchangeDeclare name kind := by
  cases h with
  | exchangeDeclared declared kind =>
    by_cases hSame : name = declared
    · exact .inr ⟨kind, by rw [hSame]⟩
    · exact .inl (by simpa [Function.update_of_ne hSame] using hName)
  | exchangeDeleted deleted =>
    by_cases hSame : name = deleted
    · subst hSame
      simp at hName
    · exact .inl (by simpa [Function.update_of_ne hSame] using hName)
  | _ => exact .inl hName

end Changes

/-! ## What the steps of a script establish -/

/-- What a step has established once it is done. -/
def Step.Holds : Step → Broker → Prop
  | .call (.exchangeDelete name), b => ¬ (b.exchanges name).isSome
  | .call (.queueDeclare name _), b => (b.queues name).isSome
  | .call (.queueBind binding), b => binding ∈ b.bindings
  | .call (.queueUnbind binding), b => binding ∉ b.bindings
  | .drain source _, b => b.ready source = []
  | _, _ => True

/-- The steps that can take back what an earlier one established. -/
def Step.undoes : Step → Step → Bool
  | .call (.exchangeDeclare name _), .call (.exchangeDelete deleted) => name = deleted
  | .call (.exchangeDelete name), .call (.queueBind binding) => binding.exchange = name
  | .call (.queueUnbind removed), .call (.queueBind binding) => removed = binding
  | .call (.queueBind added), .call (.queueUnbind binding) => added = binding
  | .drain _ _, .drain _ _ => true
  | _, _ => false

/-- A call that is answered has established what it is for. -/
theorem Changes.holds {method : Method} {b b' : Broker} (h : Changes method b b') :
    Step.Holds (.call method) b' := by
  cases h with
  | found _ _ hDelete hBind hUnbind hQueue =>
    cases method with
    | exchangeDelete name => exact absurd rfl (hDelete name)
    | queueBind binding => exact absurd rfl (hBind binding)
    | queueUnbind binding => exact absurd rfl (hUnbind binding)
    | queueDeclare name arguments => exact hQueue name arguments rfl
    | _ => trivial
  | exchangeDeclared => trivial
  | exchangeDeleted name => simp [Step.Holds]
  | queueDeclared name arguments => simp [Step.Holds]
  | bound binding => exact List.mem_insert_self
  | unbound binding => simp [Step.Holds]

/-- A call keeps what an earlier step established unless it is one that undoes
it. -/
theorem Changes.keeps {method : Method} {b b' : Broker} (h : Changes method b b') {earlier : Step}
    (hUndoes : Step.undoes (.call method) earlier = false) (hHolds : earlier.Holds b) :
    earlier.Holds b' := by
  match earlier, hHolds with
  | .drain source destination, hHolds => exact (h.ready source).trans hHolds
  | .call (.exchangeDelete name), hHolds =>
    intro hName
    -- only a declaration brings an exchange back, and that undoes its deletion
    rcases h.exchange_before hName with hBefore | ⟨kind, rfl⟩
    · exact hHolds hBefore
    · simp [Step.undoes] at hUndoes
  | .call (.queueDeclare name arguments), hHolds => exact h.exists hHolds
  | .call (.queueBind binding), hHolds =>
    rcases h.bound_after hHolds with hAfter | rfl | rfl
    · exact hAfter
    · simp [Step.undoes] at hUndoes
    · simp [Step.undoes] at hUndoes
  | .call (.queueUnbind binding), hHolds =>
    intro hBound
    rcases h.bound_before hBound with hBefore | rfl
    · exact hHolds hBefore
    · simp [Step.undoes] at hUndoes
  | .call (.exchangeDeclarePassive _), _ => trivial
  | .call (.exchangeDeclare _ _), _ => trivial
  | .call .confirm, _ => trivial

/-- The queues a step has declared. -/
def Step.declares (queue : Text) : Step → Bool
  | .call (.queueDeclare name _) => name = queue
  | _ => false

/-- What must have been done before a step: the loop runs between two declared
queues; the marker is declared once the bindings are swapped, and swapped back
only after it is deleted. -/
def Direction.prepared (direction : Direction) (before : List Step) : Step → Bool
  | .drain source destination =>
    source = direction.source.queue && destination = direction.destination.queue &&
      before.any (Step.declares source) && before.any (Step.declares destination)
  -- the exchange that producers publish to is never deleted
  | .call (.exchangeDelete name) => name ≠ defaultTopology.exchange
  | .call (.exchangeDeclare name _) =>
    -- the marker stands for a finished cutover
    name ≠ topologyCutoverMarker ||
      (before.contains (.call (.queueBind defaultTopology.binding)) &&
        before.contains (.call (.queueUnbind legacyTopology.binding)))
  | .call (.queueBind binding) =>
    -- and the way back begins with taking it away
    binding ≠ legacyTopology.binding ||
      before.contains (.call (.exchangeDelete topologyCutoverMarker))
  | .call (.queueUnbind binding) =>
    binding ≠ defaultTopology.binding ||
      before.contains (.call (.exchangeDelete topologyCutoverMarker))
  | _ => true

/-- No step of a script undoes an earlier one. -/
theorem script_orderly (direction : Direction) : Orderly Step.undoes direction.script := by
  cases direction <;> decide +kernel

/-- Every step of a script finds what it needs done before it. -/
theorem script_prepared {direction : Direction} {k : Nat} {step : Step}
    (hStep : direction.script[k]? = some step) :
    direction.prepared (direction.script.take k) step = true := by
  have hAll : ∀ k < direction.script.length,
      (direction.script[k]?).all (direction.prepared (direction.script.take k)) = true := by
    cases direction <;> decide +kernel
  obtain ⟨hk, -⟩ := List.getElem?_eq_some_iff.mp hStep
  have hPrepared := hAll k hk
  rwa [hStep] at hPrepared

/-! ## The marker -/

/-- While the marker exists, the hardened queue is bound and the legacy one is
not. -/
def Broker.CutOver (b : Broker) : Prop :=
  (b.exchanges topologyCutoverMarker).isSome →
    defaultTopology.binding ∈ b.bindings ∧ legacyTopology.binding ∉ b.bindings

/-- A method of a script keeps the cut-over consistent: the marker stands only over the new binding
alone. -/
theorem Changes.cutOver {method : Method} {b b' : Broker} (h : Changes method b b')
    {direction : Direction} {before : List Step}
    (hPrepared : direction.prepared before (.call method) = true)
    (hDone : ∀ step ∈ before, step.Holds b) (hCut : b.CutOver) : b'.CutOver := by
  intro hMarker
  -- the marker was there, or this very method declares it
  rcases h.exchange_before hMarker with hBefore | ⟨kind, rfl⟩
  · obtain ⟨hNew, hOld⟩ := hCut hBefore
    -- a run that touches these bindings has deleted the marker
    have hGone : Step.call (.exchangeDelete topologyCutoverMarker) ∉ before :=
      fun hMem => hDone _ hMem hBefore
    constructor
    · rcases h.bound_after hNew with hAfter | rfl | rfl
      · exact hAfter
      · simp [Direction.prepared, hGone] at hPrepared
      · simp [Direction.prepared, Topology.binding] at hPrepared
    · intro hBound
      rcases h.bound_before hBound with hLegacy | rfl
      · exact hOld hLegacy
      · simp [Direction.prepared, hGone] at hPrepared
  · -- the marker comes last in its script, after the bindings were swapped
    have hSwapped : Step.call (.queueBind defaultTopology.binding) ∈ before ∧
        Step.call (.queueUnbind legacyTopology.binding) ∈ before := by
      simpa [Direction.prepared] using hPrepared
    constructor
    · rcases h.bound_after (hDone _ hSwapped.1) with hAfter | hEq | hEq
      · exact hAfter
      · cases hEq
      · cases hEq
    · intro hBound
      rcases h.bound_before hBound with hLegacy | hEq
      · exact hDone _ hSwapped.2 hLegacy
      · cases hEq

/-! ## The messages -/

/-- What the two queues hold. -/
def Broker.messages (b : Broker) : List Publishing :=
  b.ready legacyTopology.queue ++ b.ready defaultTopology.queue

/-- With what a run has taken and not acknowledged. -/
def World.messages (w : World) : List Publishing :=
  w.broker.messages ++ ((w.migration.bind Migration.flight).map Flight.message).toList

/-- The messages of the broker are those of the two queues, in either direction. -/
theorem mem_messages (b : Broker) (direction : Direction) (p : Publishing) :
    p ∈ b.messages ↔
      p ∈ b.ready direction.source.queue ∨ p ∈ b.ready direction.destination.queue := by
  cases direction with
  | upgrade => simp [Broker.messages, Direction.source, Direction.destination]
  | rollback => simp [Broker.messages, Direction.source, Direction.destination, or_comm]

/-- Which are two. -/
theorem source_ne_destination (direction : Direction) :
    direction.source.queue ≠ direction.destination.queue := by
  cases direction <;> decide

section Messages

variable {b : Broker} {direction : Direction}

/-- The messages after the source queue was set. -/
theorem mem_messages_setSource (h : (b.queues direction.source.queue).isSome)
    (l : List Publishing) (p : Publishing) :
    p ∈ (b.setReady direction.source.queue l).messages ↔
      p ∈ l ∨ p ∈ b.ready direction.destination.queue := by
  rw [mem_messages _ direction, ready_setReady_self h,
    ready_setReady_of_ne (source_ne_destination direction).symm]

/-- A message that is put back. -/
theorem mem_messages_requeue (h : (b.queues direction.source.queue).isSome) (q p : Publishing) :
    p ∈ (b.requeue direction.source.queue q).messages ↔ p ∈ b.messages ∨ p = q := by
  rw [Broker.requeue, mem_messages_setSource h, List.mem_cons, mem_messages b direction,
    or_assoc, or_comm]

/-- A copy that is published. -/
theorem mem_messages_publish (h : (b.queues direction.destination.queue).isSome)
    (q p : Publishing) :
    p ∈ (b.publish direction.destination.queue q).messages ↔ p ∈ b.messages ∨ p = q := by
  rw [Broker.publish, mem_messages _ direction, ready_setReady_self h,
    ready_setReady_of_ne (source_ne_destination direction), List.mem_append, List.mem_singleton,
    mem_messages b direction, or_assoc]

end Messages

/-! ## Runs -/

/-- What a run under way knows: the steps it has done hold, it has taken a
message only while it drains its source, and a confirmed copy is stored. -/
structure Migration.Running (m : Migration) (b : Broker) : Prop where
  done : Done Step.Holds m.report.direction.script m.done b
  draining : m.flight.isSome → ∃ source destination, m.step = some (.drain source destination)
  stored : ∀ p, m.flight = some ⟨p, true⟩ → p ∈ b.messages

/-- The loop runs between the two queues of the direction, and both exist. -/
theorem Migration.Running.drains {m : Migration} {b : Broker} (hRunning : m.Running b)
    {source destination : Text} (hStep : m.step = some (.drain source destination)) :
    source = m.report.direction.source.queue ∧
      destination = m.report.direction.destination.queue ∧
      (b.queues source).isSome ∧ (b.queues destination).isSome := by
  have hPrepared := script_prepared hStep
  simp only [Direction.prepared, Bool.and_eq_true, decide_eq_true_eq, List.any_eq_true]
    at hPrepared
  obtain ⟨⟨⟨hSource, hDestination⟩, first, hFirst, hDeclaresFirst⟩,
    second, hSecond, hDeclaresSecond⟩ := hPrepared
  -- a step that declares a queue has been taken, so the queue is there
  have hExists : ∀ {queue : Text} {step : Step}, step ∈ m.report.direction.script.take m.done →
      step.declares queue = true → (b.queues queue).isSome := by
    intro queue step hMem hDeclares
    have hHolds := hRunning.done step hMem
    unfold Step.declares at hDeclares
    split at hDeclares
    · rename_i name arguments
      rwa [← of_decide_eq_true hDeclares]
    · cases hDeclares
  exact ⟨hSource, hDestination, hExists hFirst hDeclaresFirst, hExists hSecond hDeclaresSecond⟩

/-- Taking, publishing and putting back leave what the earlier steps of the run
established. -/
theorem Migration.Running.setReady {m : Migration} {b : Broker} (hRunning : m.Running b)
    {source destination : Text} (hStep : m.step = some (.drain source destination))
    (queue : Text) (l : List Publishing) :
    Done Step.Holds m.report.direction.script m.done (b.setReady queue l) := by
  refine hRunning.done.keep fun earlier hEarlier hHolds => ?_
  have hUndoes := (script_orderly _).undoes_eq hStep hEarlier
  match earlier, hHolds, hUndoes with
  | .call (.queueDeclare name arguments), hHolds, _ =>
    show ((b.setReady queue l).queues name).isSome
    rw [isSome_setReady]
    exact hHolds
  | .call (.exchangeDelete _), hHolds, _ => exact hHolds
  | .call (.queueBind _), hHolds, _ => exact hHolds
  | .call (.queueUnbind _), hHolds, _ => exact hHolds
  | .call (.exchangeDeclarePassive _), _, _ => trivial
  | .call (.exchangeDeclare _ _), _, _ => trivial
  | .call .confirm, _, _ => trivial

/-- What holds after every step, for runs that began over the broker `b₀`. -/
structure World.Inv (b₀ : Broker) (w : World) : Prop where
  kept : ∀ p, p ∈ w.messages ↔ p ∈ b₀.messages
  cutOver : w.broker.CutOver
  running : ∀ m, w.migration = some m → m.Running w.broker
  completed : ∀ report, w.returned = some (report, .completed) →
    w.migration = none ∧ ∀ step ∈ report.direction.script, step.Holds w.broker

section Steps

variable {b₀ b : Broker} {m : Migration}

/-- A run that goes on keeps the invariant if its own knowledge is kept. -/
theorem inv_of_running (hKept : ∀ p, p ∈ (World.mk b (some m) none).messages ↔ p ∈ b₀.messages)
    (hCut : b.CutOver) (hRunning : m.Running b) : World.Inv b₀ ⟨b, some m, none⟩ where
  kept := hKept
  cutOver := hCut
  running := by
    rintro _ ⟨⟩
    exact hRunning
  completed := nofun

/-- A run that is stopped puts back what it had taken. -/
theorem inv_stopped (hKept : ∀ p, p ∈ (World.mk b (some m) none).messages ↔ p ∈ b₀.messages)
    (hCut : b.CutOver)
    (hSource : m.flight.isSome → (b.queues m.report.direction.source.queue).isSome) :
    World.Inv b₀ (World.stopped b m) where
  kept := by
    intro p
    rw [← hKept p]
    obtain ⟨report, done, flight⟩ := m
    cases flight with
    | none => rfl
    | some flight =>
      -- a message in flight is put back where it came from
      show p ∈ (b.requeue report.direction.source.queue flight.message).messages ++ [] ↔
        p ∈ b.messages ++ [flight.message]
      rw [List.append_nil, mem_messages_requeue (hSource rfl), List.mem_append,
        List.mem_singleton]
  cutOver := by
    obtain ⟨report, done, flight⟩ := m
    cases flight <;> exact hCut
  running := nofun
  completed := by
    intro report hReturned
    simp [World.stopped] at hReturned

/-- What is kept does not depend on how far the run is. -/
theorem mem_world_messages (p : Publishing) (returned : Option (MigrationReport × Outcome)) :
    p ∈ (World.mk b (some m) returned).messages ↔
      p ∈ b.messages ∨ ∃ flight, m.flight = some flight ∧ p = flight.message := by
  obtain ⟨report, done, flight⟩ := m
  cases flight with
  | none => simp [World.messages]
  | some flight => simp [World.messages]

/-- A call leaves the messages where they are. -/
theorem Changes.messages {method : Method} {b' : Broker} (h : Changes method b b') :
    b'.messages = b.messages := by
  rw [Broker.messages, Broker.messages, h.ready, h.ready]

/-- A message is in flight only while a queue is drained. -/
theorem Migration.Running.flight_eq_none {method : Method} (hRunning : m.Running b)
    (hStep : m.step = some (.call method)) : m.flight = none := by
  by_contra hFlight
  obtain ⟨source, destination, hDrain⟩ :=
    hRunning.draining (Option.isSome_iff_ne_none.mpr hFlight)
  rw [hStep] at hDrain
  cases hDrain

variable {returned : Option (MigrationReport × Outcome)}

/-- A call that takes effect, whether or not the run learns of it. -/
theorem Inv.effect (hInv : World.Inv b₀ ⟨b, some m, returned⟩) {method : Method} {b' : Broker}
    (hStep : m.step = some (.call method)) (hEffect : method.effect b = some b') :
    (∀ p, p ∈ b'.messages ↔ p ∈ b₀.messages) ∧ b'.CutOver ∧
      Done Step.Holds m.report.direction.script (m.done + 1) b' := by
  have hRunning := hInv.running m rfl
  have hFlight := hRunning.flight_eq_none hStep
  have hChanges := changes_of_effect hEffect
  refine ⟨fun p => ?_, ?_, ?_⟩
  · rw [hChanges.messages, ← hInv.kept p, mem_world_messages, hFlight]
    simp
  · exact hChanges.cutOver (script_prepared hStep) hRunning.done hInv.cutOver
  · exact hRunning.done.next (script_orderly _) hStep (fun earlier => hChanges.keeps)
      hChanges.holds

/-- A method that was answered. -/
theorem inv_call_answered (hInv : World.Inv b₀ ⟨b, some m, returned⟩) {method : Method}
    {b' : Broker} (hStep : m.step = some (.call method)) (hEffect : method.effect b = some b') :
    World.Inv b₀ ⟨b', some { m with done := m.done + 1 }, none⟩ := by
  obtain ⟨hKept, hCut, hDone⟩ := Inv.effect hInv hStep hEffect
  have hFlight := (hInv.running m rfl).flight_eq_none hStep
  refine inv_of_running (fun p => ?_) hCut ⟨hDone, fun hSome => ?_, fun p hSome => ?_⟩
  · rw [mem_world_messages, ← hKept p]
    simp [hFlight]
  · simp [hFlight] at hSome
  · simp [hFlight] at hSome

/-- A method whose answer was lost. -/
theorem inv_call_lost (hInv : World.Inv b₀ ⟨b, some m, returned⟩) {method : Method}
    {b' : Broker} (hStep : m.step = some (.call method)) (hEffect : method.effect b = some b') :
    World.Inv b₀ (World.stopped b' m) := by
  obtain ⟨hKept, hCut, -⟩ := Inv.effect hInv hStep hEffect
  have hFlight := (hInv.running m rfl).flight_eq_none hStep
  refine inv_stopped (fun p => ?_) hCut fun hSome => ?_
  · rw [mem_world_messages, ← hKept p]
    simp [hFlight]
  · simp [hFlight] at hSome

/-- A run stopped before its call took effect. -/
theorem inv_stopped_here (hInv : World.Inv b₀ ⟨b, some m, returned⟩) :
    World.Inv b₀ (World.stopped b m) := by
  refine inv_stopped hInv.kept hInv.cutOver fun hFlight => ?_
  obtain ⟨source, destination, hStep⟩ := (hInv.running m rfl).draining hFlight
  obtain ⟨rfl, -, hSource, -⟩ := (hInv.running m rfl).drains hStep
  exact hSource

/-! ### The loop -/

variable {source destination : Text}

/-- A copy that was published, the original still unacknowledged. -/
theorem inv_publish (hInv : World.Inv b₀ ⟨b, some m, returned⟩)
    (hStep : m.step = some (.drain source destination)) {p : Publishing} {confirmed : Bool}
    (hFlight : m.flight = some ⟨p, confirmed⟩) :
    let b' := b.publish destination (copyPublishing p.delivery)
    (∀ q, q ∈ (World.mk b' (some m) none).messages ↔ q ∈ b₀.messages) ∧ b'.CutOver ∧
      Done Step.Holds m.report.direction.script m.done b' ∧ (b'.queues source).isSome ∧
      p ∈ b'.messages := by
  have hRunning := hInv.running m rfl
  obtain ⟨hSource, rfl, hSourceQueue, hQueue⟩ := hRunning.drains hStep
  refine ⟨fun q => ?_, hInv.cutOver, hRunning.setReady hStep _ _, ?_, ?_⟩
  · -- the copy is the message in flight, which is counted already
    rw [← hInv.kept q, mem_world_messages, mem_world_messages, mem_messages_publish hQueue,
      copyPublishing_delivery, hFlight]
    simp
  · rw [Broker.publish, isSome_setReady]
    exact hSourceQueue
  · exact (mem_messages_publish hQueue _ _).mpr (.inr rfl)

/-- A step of the drain that was answered: a message is taken, copied, or acknowledged. -/
theorem inv_drainAnswered (hInv : World.Inv b₀ ⟨b, some m, returned⟩)
    (hStep : m.step = some (.drain source destination)) :
    World.Inv b₀ (drainAnswered b m source destination) := by
  have hRunning := hInv.running m rfl
  obtain ⟨hSource, hDestination, hSourceQueue, -⟩ := hRunning.drains hStep
  unfold drainAnswered
  split
  · rename_i hFlight
    split
    · -- the queue is not there: the run ends with an error
      exact inv_stopped_here hInv
    · rename_i queue hQueue
      have hReady : b.ready source = queue.ready := by
        simp [Broker.ready, hQueue]
      split
      · -- nothing left: the step is done
        rename_i hEmpty
        refine inv_of_running (fun p => ?_) hInv.cutOver
          ⟨?_, fun hSome => ?_, fun p hSome => ?_⟩
        · rw [← hInv.kept p, mem_world_messages, mem_world_messages]
        · exact hRunning.done.next (script_orderly _) hStep (fun _ _ hHolds => hHolds)
            (hReady.trans hEmpty)
        · simp [hFlight] at hSome
        · simp [hFlight] at hSome
      · -- a message is taken, and is in flight
        rename_i p rest hRest
        refine inv_of_running (fun q => ?_) hInv.cutOver
          ⟨hRunning.setReady hStep _ _, fun _ => ⟨source, destination, hStep⟩, nofun⟩
        rw [← hInv.kept q, mem_world_messages, mem_world_messages, hSource,
          mem_messages_setSource (hSource ▸ hSourceQueue), mem_messages b m.report.direction,
          ← hSource, hReady, hRest, hFlight]
        simp only [Option.some.injEq, exists_eq_left', List.mem_cons, reduceCtorEq, false_and,
          exists_false, or_false]
        rw [or_comm, or_assoc]
  · -- its copy is published
    rename_i p hFlight
    obtain ⟨hKept, hCut, hDone, -, hStored⟩ := inv_publish hInv hStep hFlight
    refine inv_of_running (fun q => ?_) hCut
      ⟨hDone, fun _ => ⟨source, destination, hStep⟩, ?_⟩
    · rw [← hKept q, mem_world_messages, mem_world_messages, hFlight]
      simp
    · rintro _ ⟨⟩
      exact hStored
  · -- acknowledged: the copy stands for it
    rename_i p hFlight
    refine inv_of_running (fun q => ?_) hInv.cutOver ⟨hRunning.done, nofun, nofun⟩
    rw [← hInv.kept q, mem_world_messages, mem_world_messages, hFlight]
    simp only [reduceCtorEq, false_and, exists_false, or_false, Option.some.injEq,
      exists_eq_left']
    exact ⟨.inl, fun h => h.elim id fun hEq => hEq ▸ hRunning.stored p hFlight⟩

/-- And one whose answer was lost. -/
theorem inv_drainLost (hInv : World.Inv b₀ ⟨b, some m, returned⟩)
    (hStep : m.step = some (.drain source destination)) :
    World.Inv b₀ (drainLost b m destination) := by
  have hRunning := hInv.running m rfl
  obtain ⟨hSource, -⟩ := hRunning.drains hStep
  unfold drainLost
  split
  · exact inv_stopped_here hInv
  · rename_i p hFlight
    obtain ⟨hKept, hCut, -, hExists, -⟩ := inv_publish hInv hStep hFlight
    exact inv_stopped hKept hCut fun _ => hSource ▸ hExists
  · rename_i p hFlight
    refine inv_stopped (fun q => ?_) hInv.cutOver nofun
    rw [← hInv.kept q, mem_world_messages, mem_world_messages, hFlight]
    simp only [reduceCtorEq, false_and, exists_false, or_false, Option.some.injEq,
      exists_eq_left']
    exact ⟨.inl, fun h => h.elim id fun hEq => hEq ▸ hRunning.stored p hFlight⟩

end Steps

/-! ### Every run -/

/-- Every happening keeps the invariant. -/
theorem inv_exec {b₀ : Broker} (w : World) (happening : Happening) (hInv : w.Inv b₀) :
    (w.exec happening).Inv b₀ := by
  obtain ⟨b, migration, returned⟩ := w
  cases migration with
  | none =>
    -- no run is under way
    cases happening with
    | start direction =>
      exact inv_of_running hInv.kept hInv.cutOver ⟨nofun, nofun, nofun⟩
    | answered => exact hInv
    | stopped effective => exact hInv
  | some m =>
    have hRunning := hInv.running m rfl
    cases happening with
    | start direction => exact hInv
    | answered =>
      simp only [World.exec]
      split
      · -- past the last step: the run returns
        rename_i hEnd
        have hFlight : m.flight = none := by
          by_contra hFlight
          obtain ⟨source, destination, hDrain⟩ :=
            hRunning.draining (Option.isSome_iff_ne_none.mpr hFlight)
          rw [hEnd] at hDrain
          cases hDrain
        refine ⟨fun p => ?_, hInv.cutOver, nofun, ?_⟩
        · rw [← hInv.kept p, mem_world_messages, hFlight]
          simp [World.messages]
        · rintro _ ⟨⟩
          exact ⟨rfl, hRunning.done.all hEnd⟩
      · exact inv_drainAnswered hInv ‹_›
      · -- a method the broker refuses ends the run
        rename_i method hStep
        split
        · exact inv_call_answered hInv hStep ‹_›
        · exact inv_stopped_here hInv
    | stopped effective =>
      simp only [World.exec]
      split
      · exact inv_drainLost hInv ‹_›
      · rename_i method hStep
        cases hEffect : method.effect b with
        | none => exact inv_stopped_here hInv
        | some b' => exact inv_call_lost hInv hStep hEffect
      · exact inv_stopped_here hInv

/-- And so does every run, from a broker whose cut-over is consistent. -/
theorem inv_run {b : Broker} (hCut : b.CutOver) (happenings : List Happening) :
    (run World.exec (World.idle b) happenings).Inv b := by
  refine run_invariant' (World.Inv b) inv_exec happenings _ ⟨fun p => ?_, hCut, nofun, nofun⟩
  simp [World.messages, World.idle]

/-- Every script drains its source and swaps the bindings. -/
theorem script_swaps (direction : Direction) :
    .drain direction.source.queue direction.destination.queue ∈ direction.script ∧
      .call (.queueBind direction.destination.binding) ∈ direction.script ∧
      .call (.queueUnbind direction.source.binding) ∈ direction.script := by
  simp [Direction.script]

/-- Over a broker whose marker, if there, stands for a completed upgrade, and
after any sequence of upgrades and rollbacks, each stopped anywhere or not at
all: the two queues, with what is unacknowledged, hold exactly the messages they
held at first, every copy being the message itself; the marker still stands only
over the swapped bindings; and if the last run returned no error, its source is
empty and unbound and its destination bound. -/
theorem migrations_keep_messages (b : Broker) (hCut : b.CutOver) (happenings : List Happening) :
    let w := run World.exec (World.idle b) happenings
    (∀ p, p ∈ w.messages ↔ p ∈ b.messages) ∧
      ((w.broker.exchanges topologyCutoverMarker).isSome →
        defaultTopology.binding ∈ w.broker.bindings ∧
          legacyTopology.binding ∉ w.broker.bindings) ∧
      (∀ report, w.returned = some (report, .completed) →
        w.broker.ready report.direction.source.queue = [] ∧
          report.direction.destination.binding ∈ w.broker.bindings ∧
          report.direction.source.binding ∉ w.broker.bindings) := by
  intro w
  have hInv := inv_run hCut happenings
  refine ⟨hInv.kept, hInv.cutOver, fun report hReturned => ?_⟩
  obtain ⟨-, hHolds⟩ := hInv.completed report hReturned
  obtain ⟨hDrain, hBind, hUnbind⟩ := script_swaps report.direction
  exact ⟨hHolds _ hDrain, hHolds _ hBind, hHolds _ hUnbind⟩

/-- A broker as the legacy release left it, with `messages` waiting. -/
def legacyBroker (messages : List Publishing) : Broker where
  exchanges := fun name =>
    if name = legacyTopology.exchange ∨ name = legacyTopology.dlx then some "topic".toList
    else none
  queues := fun name =>
    if name = legacyTopology.queue then some ⟨legacyArguments legacyTopology, messages⟩
    else if name = legacyTopology.dlq then some ⟨deadLetterQueueArguments, []⟩
    else none
  bindings := [legacyTopology.binding, legacyTopology.dlqBinding]

def sampleMessage : Publishing :=
  ⟨[("event_id".toList, .text "0198".toList)], "application/json".toList, [], 2, 0,
    "0199".toList, [], [], "0198".toList, 0, eventType, [], "ledger".toList, [123, 125]⟩

/-- An upgrade whose publication is stored but not confirmed, then one that
completes: the message is there twice, and the same. -/
theorem migrations_keep_messages_retried_upgrade :
    let happenings := Happening.start .upgrade :: List.replicate 11 .answered ++
      .stopped true :: .start .upgrade :: List.replicate 20 .answered
    let w := run World.exec (World.idle (legacyBroker [sampleMessage])) happenings
    w.returned = some (⟨.upgrade, 1⟩, .completed) ∧
      w.messages = [sampleMessage, sampleMessage] ∧
      (∀ p, p ∈ w.messages ↔ p ∈ (legacyBroker [sampleMessage]).messages) ∧
      w.broker.ready legacyTopology.queue = [] ∧
      defaultTopology.binding ∈ w.broker.bindings := by
  intro happenings w
  have hKeeps := migrations_keep_messages (legacyBroker [sampleMessage]) nofun happenings
  have hReturned : w.returned = some (⟨.upgrade, 1⟩, .completed) := by decide +kernel
  obtain ⟨hEmpty, hBound, -⟩ := hKeeps.2.2 _ hReturned
  exact ⟨hReturned, by decide +kernel, hKeeps.1, hEmpty, hBound⟩

end Cashflow.Outbox
