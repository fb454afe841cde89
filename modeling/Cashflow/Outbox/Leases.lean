import Cashflow.Lib.Lease
import Cashflow.Outbox.Store

/-!
# Outbox — workers and their leases

Any number of outbox workers, each under its own owner name, run `ProcessOnce`
of `services/ledger/internal/outbox/worker.go` against the rows the ledger
inserts: claim one row, publish it, then mark it published or failed. Steps
interleave freely, the clock advances, a statement may be answered, fail, or take
effect with its answer lost, and a worker may crash at any point; an interrupted
publication leaves the row as it is. A statement takes effect, if at all, while
its worker waits for it.

The workers refine the lease desk of `Lib.Lease` (`exec_refines`), and

* `leases_respected` — what the desk guarantees holds of the rows.
-/

namespace Cashflow.Outbox.Leases

open Lib Lib.Lease Ledger

/-! ## The system -/

/-- What a worker does; a claimed event with the place of its claim in the
history. -/
inductive Activity where
  | idle
  | publishing (event : Event) (since : Nat)
deriving DecidableEq, Repr

structure World where
  outbox : Table outboxSchema
  now : Int
  workers : Text → Activity
  -- which rows were claimed, released and published, by whom, oldest first
  history : List (Fact Text Text)

def World.start (now : Int) : World := ⟨.empty, now, fun _ => .idle, []⟩

/-- How a statement ends for the worker that sent it: a lost answer leaves its
effect. -/
inductive Answer where
  | received
  | lost
  | failed
deriving DecidableEq, Repr

inductive Happening where
  | ledger (event : OutboxEvent)
  | tick (elapsed : Nat)
  | claim (owner : Text) (lease : Int) (elapsed : Nat) (locked : List UUID) (answer : Answer)
  | markPublished (owner : Text) (answer : Answer)
  | markFailed (owner : Text) (delay : Int) (lastError : Text) (answer : Answer)
  | crash (owner : Text)

def World.setWorker (w : World) (owner : Text) (activity : Activity) : World :=
  { w with workers := Function.update w.workers owner activity }

/-- A claim that takes effect. -/
def World.claimed (w : World) (owner : Text) (elapsed : Nat) (learns : Bool)
    (events : List Event) (outbox : Table outboxSchema) : World where
  outbox := outbox
  now := w.now + elapsed
  workers :=
    match events with
    | event :: _ =>
      -- the rows are leased whether or not the worker learns of it
      if learns then Function.update w.workers owner (.publishing event w.history.length)
      else w.workers
    | [] => w.workers
  history := w.history ++
    events.map fun event => .claimed event.eventID owner w.now event.leaseUntil

/-- The end of `publishOne`: the worker goes on whatever the statement said. -/
def World.settled (w : World) (owner : Text) (fact : Fact Text Text)
    (outcome : Except StoreError (Table outboxSchema)) : World :=
  match outcome with
  | .error _ => w.setWorker owner .idle
  | .ok outbox => { w.setWorker owner .idle with outbox, history := w.history ++ [fact] }

def World.exec (interval : Int → Int) (w : World) : Happening → World
  | .ledger event =>
    match w.outbox.insert (event.row w.now) with
    | .ok outbox => { w with outbox }
    -- a transaction of the ledger that fails
    | .error _ => w
  | .tick elapsed => { w with now := w.now + elapsed }
  | .claim owner lease elapsed locked answer =>
    match w.workers owner, answer with
    -- a worker claims again when it is done
    | .publishing .., _ => w
    | .idle, .failed => w
    | .idle, answer =>
      match Outbox.claim interval ⟨w.now, elapsed, locked⟩ w.outbox owner 1 lease with
      | .error _ => w
      | .ok (events, outbox) => w.claimed owner elapsed (answer = .received) events outbox
  | .markPublished owner answer =>
    match w.workers owner, answer with
    | .idle, _ => w
    -- a statement that did not reach the database: the lease runs out
    | .publishing .., .failed => w.setWorker owner .idle
    | .publishing event _, _ =>
      w.settled owner (.finished event.eventID event.leaseOwner)
        (Outbox.markPublished w.now w.outbox event.eventID event.leaseOwner)
  | .markFailed owner delay lastError answer =>
    match w.workers owner, answer with
    | .idle, _ => w
    | .publishing .., .failed => w.setWorker owner .idle
    | .publishing event _, _ =>
      w.settled owner (.released event.eventID event.leaseOwner)
        (Outbox.markFailed interval w.now w.outbox event.eventID event.leaseOwner delay lastError)
  | .crash owner => w.setWorker owner .idle

/-! ## Rows by identity -/

/-- The row of an event. -/
def rowOf (t : Table outboxSchema) (eventID : Text) : Option OutboxRow :=
  t.find? fun r => decide (r.eventID.text = eventID)

/-- The event identifier is a key of the table. -/
theorem eq_of_eventID {t : Table outboxSchema} {a b : OutboxRow} (ha : a ∈ t) (hb : b ∈ t)
    (h : a.eventID.text = b.eventID.text) : a = b := by
  refine Table.eq_of_clash ha hb ?_
  have hID : a.eventID = b.eventID := UUID.ext h
  simp [outboxSchema, hID]

/-- The row of an event, by membership. -/
theorem rowOf_eq_some {t : Table outboxSchema} {eventID : Text} {r : OutboxRow} :
    rowOf t eventID = some r ↔ r ∈ t ∧ r.eventID.text = eventID := by
  constructor
  · intro h
    obtain ⟨hMem, hID⟩ := Table.find?_some h
    exact ⟨hMem, of_decide_eq_true hID⟩
  · rintro ⟨hMem, rfl⟩
    refine Table.find?_eq_some_of_mem hMem (by simp) fun a ha => ?_
    have hID : a.eventID = r.eventID := UUID.ext (of_decide_eq_true ha)
    simp [outboxSchema, hID]

/-- An update keeps the identifiers, so it is an update of each event's own row. -/
theorem rowOf_rewrite (t : Table outboxSchema) (chosen : OutboxRow → Bool)
    (f : OutboxRow → OutboxRow) (hIdentity : ∀ r, identity (f r) = identity r)
    (hCheck : ∀ r, outboxSchema.check r = true → outboxSchema.check (f r) = true)
    (eventID : Text) :
    rowOf (rewrite t chosen f hIdentity hCheck) eventID =
      (rowOf t eventID).map fun r => if chosen r then f r else r := by
  have hID : ∀ r, (if chosen r then f r else r).eventID = r.eventID := by
    intro r
    split
    · exact congrArg Identity.eventID (hIdentity r)
    · rfl
  show (t.rows.map _).find? _ = (t.rows.find? _).map _
  rw [List.find?_map]
  congr 1
  refine congrArg (List.find? · t.rows) (funext fun r => ?_)
  simp [hID]

/-! ## The lease desk -/

/-- What a row says about its lease. -/
def slot (r : OutboxRow) : Slot Text where
  lease := r.leaseOwner.bind fun owner => r.leaseUntil.map fun expiry => (owner, expiry)
  done := r.publishedAt.isSome
  claims := r.attempts.toNat

def slots (t : Table outboxSchema) (eventID : Text) : Option (Slot Text) :=
  (rowOf t eventID).map slot

def Activity.work : Activity → Work Text
  | .idle => .idle
  | .publishing event since => .working event.eventID since

/-- The workers as owners at a lease desk. -/
def World.desk (w : World) : Desk Text Text where
  slots := slots w.outbox
  now := w.now
  tasks := fun owner => (w.workers owner).work
  history := w.history

/-- A worker publishes events it claimed itself, at the place it remembers. -/
def World.Sound (w : World) : Prop :=
  ∀ owner event since, w.workers owner = .publishing event since →
    event.leaseOwner = owner ∧ (∃ id : UUID, event.eventID = id.text) ∧
      ∃ at', w.history[since]? = some (.claimed event.eventID owner at' event.leaseUntil)

/-- Rewriting one row changes one slot. -/
theorem slots_rewrite {t : Table outboxSchema} {chosen : OutboxRow → Bool}
    {f : OutboxRow → OutboxRow} {hIdentity : ∀ r, identity (f r) = identity r}
    {hCheck : ∀ r, outboxSchema.check r = true → outboxSchema.check (f r) = true}
    {c : OutboxRow} (hc : c ∈ t) (hChosen : ∀ r ∈ t, chosen r = true ↔ r = c) :
    slots (rewrite t chosen f hIdentity hCheck) =
      Function.update (slots t) c.eventID.text (some (slot (f c))) := by
  funext eventID
  rw [slots, rowOf_rewrite]
  by_cases hID : eventID = c.eventID.text
  · subst hID
    rw [Function.update_self, rowOf_eq_some.mpr ⟨hc, rfl⟩]
    simp [(hChosen c hc).mpr rfl]
  · rw [Function.update_of_ne hID, slots]
    cases hRow : rowOf t eventID with
    | none => rfl
    | some r =>
      obtain ⟨hr, rfl⟩ := rowOf_eq_some.mp hRow
      have hNot : ¬ chosen r = true := fun h => hID (by rw [(hChosen r hr).mp h])
      simp [hNot]

/-- An inserted row fills the slot of its event, which was empty, and no other. -/
theorem slots_insert {t u : Table outboxSchema} {r : OutboxRow} (h : t.insert r = .ok u) :
    slots t r.eventID.text = none ∧
      slots u = Function.update (slots t) r.eventID.text (some (slot r)) := by
  have hFree := Table.conflicts_eq_false.mp (Table.insert_eq_ok.mp h).2.1
  -- a row of that identifier would have been a conflict
  have hNone : rowOf t r.eventID.text = none := by
    refine Table.find?_none.mpr fun a ha => ?_
    have hClash := hFree a ha
    simp only [outboxSchema, decide_eq_false_iff_not, not_or] at hClash
    exact decide_eq_false fun hEq => hClash.1 (UUID.ext hEq)
  refine ⟨by rw [slots, hNone]; rfl, funext fun eventID => ?_⟩
  by_cases hID : eventID = r.eventID.text
  · subst hID
    rw [Function.update_self, slots,
      rowOf_eq_some.mpr ⟨(Table.mem_insert h).mpr (.inr rfl), rfl⟩]
    rfl
  · rw [Function.update_of_ne hID, slots, slots]
    -- the row of another event is the one it had
    have hSame : rowOf u eventID = rowOf t eventID := by
      cases hRow : rowOf t eventID with
      | some a =>
        obtain ⟨ha, rfl⟩ := rowOf_eq_some.mp hRow
        exact rowOf_eq_some.mpr ⟨(Table.mem_insert h).mpr (.inl ha), rfl⟩
      | none =>
        refine Table.find?_none.mpr fun a ha => ?_
        rcases (Table.mem_insert h).mp ha with ha | rfl
        · exact Table.find?_none.mp hRow a ha
        · exact decide_eq_false fun hEq => hID hEq.symm
    rw [hSame]

/-! ## Each statement is a step at the desk -/

/-- What a claim that succeeds has done. -/
theorem claim_ok {interval : Int → Int} {env : ClaimEnv} {t u : Table outboxSchema} {owner : Text}
    {limit lease : Int} {events : List Event}
    (h : Outbox.claim interval env t owner limit lease = .ok (events, u)) :
    let chosen := selectClaimable t env.locked env.now limit.toNat
    let leaseUntil := env.now + env.elapsed + interval lease
    events = chosen.map (fun r => Event.ofRow (leased owner leaseUntil r)) ∧
      ∃ hIdentity hCheck, u =
        rewrite t (fun r => chosen.any fun c => decide (c.eventID = r.eventID))
          (leased owner leaseUntil) hIdentity hCheck := by
  simp only [Outbox.claim] at h
  split at h
  · cases h
  · split at h
    · cases h
    · cases h
      exact ⟨rfl, _, _, rfl⟩

/-- What the `SELECT` returns are claimable rows of the table. -/
theorem mem_selectClaimable {t : Table outboxSchema} {locked : List UUID} {now : Int} {limit : Nat}
    {r : OutboxRow} (h : r ∈ selectClaimable t locked now limit) :
    r ∈ t ∧ claimable now r = true := by
  have hSorted := List.mem_of_mem_take h
  rw [List.mem_insertionSort, List.mem_filter, Bool.and_eq_true] at hSorted
  exact ⟨hSorted.1, hSorted.2.1⟩

/-- An update that chooses no row does nothing. -/
theorem rewrite_none {t : Table outboxSchema} {chosen : OutboxRow → Bool}
    {f : OutboxRow → OutboxRow} {hIdentity : ∀ r, identity (f r) = identity r}
    {hCheck : ∀ r, outboxSchema.check r = true → outboxSchema.check (f r) = true}
    (hChosen : ∀ r, chosen r = false) : rewrite t chosen f hIdentity hCheck = t := by
  refine Table.ext ?_
  simp [rewrite, hChosen]

/-- A claim of one row at most takes none, or one that was free. -/
theorem claim_one {interval : Int → Int} {env : ClaimEnv} {t u : Table outboxSchema} {owner : Text}
    {lease : Int} {events : List Event}
    (h : Outbox.claim interval env t owner 1 lease = .ok (events, u)) :
    (events = [] ∧ u = t) ∨
      ∃ r leaseUntil, r ∈ t ∧ claimable env.now r = true ∧
        events = [Event.ofRow (leased owner leaseUntil r)] ∧
        slots u =
          Function.update (slots t) r.eventID.text (some (slot (leased owner leaseUntil r))) := by
  obtain ⟨hEvents, hIdentity, hCheck, rfl⟩ := claim_ok h
  -- a worker asks for one row at a time
  have hLength : (selectClaimable t env.locked env.now (1 : Int).toNat).length ≤ 1 := by
    simp [selectClaimable]
  cases hChosen : selectClaimable t env.locked env.now (1 : Int).toNat with
  | nil =>
    rw [hChosen] at hEvents
    exact .inl ⟨hEvents, rewrite_none fun _ => rfl⟩
  | cons r rest =>
    rw [hChosen, List.length_cons] at hLength
    obtain rfl : rest = [] := List.eq_nil_of_length_eq_zero (by omega)
    have hr : r ∈ t ∧ claimable env.now r = true :=
      mem_selectClaimable (by rw [hChosen]; exact List.mem_singleton_self r)
    rw [hChosen] at hEvents
    refine .inr ⟨r, _, hr.1, hr.2, hEvents, slots_rewrite hr.1 fun a ha => ?_⟩
    simp only [List.any_cons, List.any_nil, Bool.or_false, decide_eq_true_eq]
    exact ⟨fun hID => eq_of_eventID ha hr.1 (by rw [hID]), fun hEq => by rw [hEq]⟩

/-- A mark that succeeds rewrites the row its owner holds. -/
theorem settle_ok {doing : String} {t u : Table outboxSchema} {owner : Text} {id : UUID}
    {f : OutboxRow → OutboxRow} {hIdentity : ∀ r, identity (f r) = identity r}
    {hCheck : ∀ r, outboxSchema.check r = true → outboxSchema.check (f r) = true}
    (h : settle doing t id.text owner f hIdentity hCheck = .ok u) :
    ∃ r ∈ t, r.eventID.text = id.text ∧ r.leaseOwner = some owner ∧ r.publishedAt = none ∧
      slots u = Function.update (slots t) id.text (some (slot (f r))) := by
  unfold settle at h
  rw [uuidIn_text] at h
  simp only at h
  split at h
  · -- no row or several: the lease was lost
    cases h
  · rename_i hOne
    cases h
    -- the statement reports one row, which is the only one it changed
    obtain ⟨r, hr⟩ := List.length_eq_one_iff.mp (not_not.mp hOne)
    have hMem : r ∈ t.rows ∧ held id.text owner r = true :=
      List.mem_filter.mp (hr ▸ List.mem_singleton_self r)
    have hHeld := hMem.2
    simp only [held, Bool.and_eq_true, decide_eq_true_eq, Option.isNone_iff_eq_none] at hHeld
    obtain ⟨⟨hID, hOwner⟩, hPublished⟩ := hHeld
    refine ⟨r, hMem.1, hID, hOwner, hPublished, ?_⟩
    rw [← hID]
    refine slots_rewrite hMem.1 fun a ha => ⟨fun hChosen => ?_, fun hEq => ?_⟩
    · -- the only row the statement chose
      have hIn : a ∈ t.rows.filter (held id.text owner) := List.mem_filter.mpr ⟨ha, hID ▸ hChosen⟩
      rw [hr] at hIn
      exact List.mem_singleton.mp hIn
    · rw [hEq, hID]
      exact hMem.2

/-- A mark whose row is not held by its owner is a lost lease. -/
theorem settle_lost {doing : String} {t : Table outboxSchema} {owner : Text} {id : UUID}
    {f : OutboxRow → OutboxRow} {hIdentity : ∀ r, identity (f r) = identity r}
    {hCheck : ∀ r, outboxSchema.check r = true → outboxSchema.check (f r) = true}
    (h : ∀ r ∈ t, r.eventID.text = id.text → r.leaseOwner ≠ some owner) :
    settle doing t id.text owner f hIdentity hCheck = .error .leaseLost := by
  have hNone : t.rows.filter (held id.text owner) = [] := by
    refine List.filter_eq_nil_iff.mpr fun r hr hHeld => ?_
    simp only [held, Bool.and_eq_true, decide_eq_true_eq] at hHeld
    exact h r hr hHeld.1.1 hHeld.1.2
  simp [settle, uuidIn_text, hNone]

/-! ## Refinement -/

/-- What a lease does to a row, in terms of its slot. -/
theorem slot_leased {r : OutboxRow} (h : outboxSchema.check r = true) (owner : Text)
    (leaseUntil : Int) :
    slot (leased owner leaseUntil r) =
      { slot r with lease := some (owner, leaseUntil), claims := (slot r).claims + 1 } := by
  simp only [outboxSchema, Bool.and_eq_true, decide_eq_true_eq] at h
  have hAttempts : (r.attempts + 1).toNat = r.attempts.toNat + 1 := by omega
  simp [slot, leased, hAttempts]

/-- A claimable row is not published, and its lease, if it has one, has run out. -/
theorem slot_free {r : OutboxRow} {now : Int} (h : claimable now r = true) :
    (slot r).done = false ∧ ∀ lease, (slot r).lease = some lease → lease.2 ≤ now := by
  simp only [claimable, Bool.and_eq_true, Option.isNone_iff_eq_none, Option.all_eq_true,
    decide_eq_true_eq] at h
  obtain ⟨⟨hPublished, -⟩, hUntil⟩ := h
  refine ⟨by simp [slot, hPublished], fun lease hLease => ?_⟩
  simp only [slot, Option.bind_eq_some_iff, Option.map_eq_some_iff] at hLease
  obtain ⟨owner, -, expiry, hExpiry, rfl⟩ := hLease
  exact hUntil expiry hExpiry

/-- A row with an owner has a lease, since the table wants both columns or neither. -/
theorem slot_held {r : OutboxRow} {owner : Text} (h : outboxSchema.check r = true)
    (hOwner : r.leaseOwner = some owner) : ∃ expiry, (slot r).lease = some (owner, expiry) := by
  simp only [outboxSchema, Bool.and_eq_true, beq_iff_eq] at h
  obtain ⟨expiry, hExpiry⟩ := Option.isSome_iff_exists.mp (h.2.symm.trans (by rw [hOwner]; rfl))
  exact ⟨expiry, by simp [slot, hOwner, hExpiry]⟩

/-- An entry of the history stays where it is as the history grows. -/
theorem getElem?_append_of_some {α : Type} {l : List α} {i : Nat} {a : α} (h : l[i]? = some a)
    (more : List α) : (l ++ more)[i]? = some a := by
  obtain ⟨hi, -⟩ := List.getElem?_eq_some_iff.mp h
  rw [List.getElem?_append_left hi]
  exact h

/-- Setting a worker changes its task alone. -/
theorem desk_setWorker (w : World) (owner : Text) (activity : Activity) :
    (w.setWorker owner activity).desk =
      { w.desk with tasks := Function.update w.desk.tasks owner activity.work } := by
  refine congrArg (fun tasks => { w.desk with tasks }) (funext fun owner' => ?_)
  by_cases hOwner : owner' = owner
  · subst hOwner
    simp [World.setWorker]
  · simp [World.setWorker, World.desk, Function.update_of_ne hOwner]

section Refinement

variable {w : World} {owner : Text}

/-- A worker that lets go of its event claims nothing of the history. -/
theorem sound_setWorker (hSound : w.Sound) (owner : Text) : (w.setWorker owner .idle).Sound := by
  intro owner' event since hWorker
  by_cases hOwner : owner' = owner
  · subst hOwner
    simp [World.setWorker] at hWorker
  · exact hSound owner' event since (by simpa [World.setWorker, Function.update_of_ne hOwner]
      using hWorker)

/-- Giving up is a step. -/
theorem setWorker_refines (hSound : w.Sound) (owner : Text) :
    Reachable Step w.desk (w.setWorker owner .idle).desk ∧ (w.setWorker owner .idle).Sound := by
  refine ⟨Reachable.start.next ?_, sound_setWorker hSound owner⟩
  rw [desk_setWorker]
  exact Step.drop w.desk owner

/-- The slot of a row of the table. -/
theorem World.slots_of_mem {r : OutboxRow} (hr : r ∈ w.outbox) :
    w.desk.slots r.eventID.text = some (slot r) := by
  simp [World.desk, slots, rowOf_eq_some.mpr ⟨hr, rfl⟩]

/-- A claim is a claim of the desk, or only the time it took. -/
theorem claim_refines {interval : Int → Int} {lease : Int} {elapsed : Nat} {locked : List UUID}
    {events : List Event} {outbox : Table outboxSchema} (learns : Bool) (hSound : w.Sound)
    (hIdle : w.workers owner = .idle)
    (hClaim : Outbox.claim interval ⟨w.now, elapsed, locked⟩ w.outbox owner 1 lease =
      .ok (events, outbox)) :
    Reachable Step w.desk (w.claimed owner elapsed learns events outbox).desk ∧
      (w.claimed owner elapsed learns events outbox).Sound := by
  rcases claim_one hClaim with ⟨rfl, rfl⟩ | ⟨r, leaseUntil, hr, hFree, rfl, hSlots⟩
  · -- nothing to claim: only the time of the statement has passed
    refine ⟨Reachable.start.next ?_, by simpa [World.claimed, World.Sound] using hSound⟩
    have hDesk : (w.claimed owner elapsed learns [] w.outbox).desk =
        { w.desk with now := w.desk.now + elapsed } := by
      simp [World.claimed, World.desk]
    rw [hDesk]
    exact Step.wait w.desk elapsed
  · obtain ⟨hDone, hExpired⟩ := slot_free hFree
    constructor
    · have hStep := Step.claim w.desk r.eventID.text owner elapsed leaseUntil learns (slot r)
        (World.slots_of_mem hr) hDone hExpired
        (by simp [World.desk, hIdle, Activity.work])
      refine Reachable.start.next ?_
      convert hStep using 1
      have hWorkers : (fun owner' => (((w.claimed owner elapsed learns
          [Event.ofRow (leased owner leaseUntil r)] outbox).workers owner').work)) =
          if learns = true then Function.update w.desk.tasks owner
            (.working r.eventID.text w.history.length) else w.desk.tasks := by
        funext owner'
        cases learns with
        | false => rfl
        | true =>
          by_cases hOwner : owner' = owner
          · subst hOwner
            simp [World.claimed, Activity.work, Event.ofRow, leased]
          · simp [World.claimed, World.desk, Function.update_of_ne hOwner]
      show Desk.mk (slots outbox) _ _ _ = _
      rw [hSlots, slot_leased (w.outbox.checked r hr), hWorkers]
      rfl
    · -- its own claim is the last entry, the others are where they were
      intro owner' event since hWorker
      by_cases hOwner : owner' = owner ∧ learns = true
      · obtain ⟨rfl, rfl⟩ := hOwner
        simp only [World.claimed, if_true, Function.update_self] at hWorker
        cases hWorker
        exact ⟨rfl, ⟨r.eventID, rfl⟩, w.now, by simp [World.claimed]⟩
      · have hBefore : w.workers owner' = .publishing event since := by
          cases learns with
          | false => exact hWorker
          | true =>
            -- an answer that is lost leaves the worker idle
            have hNe : owner' ≠ owner := fun hEq => hOwner ⟨hEq, rfl⟩
            simpa [World.claimed, Function.update_of_ne hNe] using hWorker
        obtain ⟨hLease, hID, at', hAt⟩ := hSound owner' event since hBefore
        exact ⟨hLease, hID, at', getElem?_append_of_some hAt _⟩

/-- A mark that succeeds: the desk takes the step that its fact tells of. -/
theorem settled_refines {event : Event} {since : Nat} {fact : Fact Text Text} {doing : String}
    {f : OutboxRow → OutboxRow} {hIdentity : ∀ r, identity (f r) = identity r}
    {hCheck : ∀ r, outboxSchema.check r = true → outboxSchema.check (f r) = true}
    (hSound : w.Sound) (hWorker : w.workers owner = .publishing event since)
    (hStep : ∀ (d : Desk Text Text) (r : OutboxRow) (expiry : Int),
      d.tasks owner = .working event.eventID since → d.slots event.eventID = some (slot r) →
      (slot r).lease = some (owner, expiry) → (slot r).done = false →
      Step d { d with
        slots := Function.update d.slots event.eventID (some (slot (f r)))
        tasks := Function.update d.tasks owner .idle
        history := d.history ++ [fact] }) :
    let w' := w.settled owner fact
      (settle doing w.outbox event.eventID event.leaseOwner f hIdentity hCheck)
    Reachable Step w.desk w'.desk ∧ w'.Sound := by
  obtain ⟨hLease, ⟨id, hID⟩, -⟩ := hSound owner event since hWorker
  intro w'
  cases hOutcome : settle doing w.outbox event.eventID event.leaseOwner f hIdentity hCheck with
  | error e =>
    -- the worker gives up the event, and the row is left to its lease
    simp only [w', hOutcome]
    exact setWorker_refines hSound owner
  | ok outbox =>
    simp only [w', hOutcome]
    rw [hID, hLease] at hOutcome
    obtain ⟨r, hr, hRow, hOwner, hPublished, hSlots⟩ := settle_ok hOutcome
    obtain ⟨expiry, hExpiry⟩ := slot_held (w.outbox.checked r hr) hOwner
    constructor
    · refine Reachable.start.next ?_
      have hTaken := hStep w.desk r expiry (by simp [World.desk, hWorker, Activity.work])
        (by simp [World.desk, slots, rowOf_eq_some.mpr ⟨hr, hRow.trans hID.symm⟩]) hExpiry
        (by simp [slot, hPublished])
      convert hTaken using 1
      have hTasks := congrArg Desk.tasks (desk_setWorker w owner .idle)
      show Desk.mk (slots outbox) w.now (w.setWorker owner .idle).desk.tasks _ = _
      rw [hSlots, hTasks, hID]
      rfl
    · intro owner' event' since' hWorker'
      obtain ⟨hLease', hID', at', hAt⟩ := sound_setWorker hSound owner owner' event' since' hWorker'
      exact ⟨hLease', hID', at', getElem?_append_of_some hAt _⟩

/-- Marking an event published is the desk's completion. -/
theorem markPublished_refines {event : Event} {since : Nat} (hSound : w.Sound)
    (hWorker : w.workers owner = .publishing event since) :
    let w' := w.settled owner (.finished event.eventID event.leaseOwner)
      (Outbox.markPublished w.now w.outbox event.eventID event.leaseOwner)
    Reachable Step w.desk w'.desk ∧ w'.Sound := by
  obtain ⟨hLease, -⟩ := hSound owner event since hWorker
  refine settled_refines hSound hWorker fun d r expiry hTask hSlot hHeld hDone => ?_
  rw [hLease]
  exact Step.finish d event.eventID owner since (slot r) expiry hTask hSlot hHeld hDone

/-- Marking it failed is the desk's release. -/
theorem markFailed_refines {interval : Int → Int} {delay : Int} {lastError : Text} {event : Event}
    {since : Nat} (hSound : w.Sound) (hWorker : w.workers owner = .publishing event since) :
    let w' := w.settled owner (.released event.eventID event.leaseOwner)
      (Outbox.markFailed interval w.now w.outbox event.eventID event.leaseOwner delay lastError)
    Reachable Step w.desk w'.desk ∧ w'.Sound := by
  obtain ⟨hLease, -⟩ := hSound owner event since hWorker
  unfold Outbox.markFailed
  split
  · exact setWorker_refines hSound owner
  · refine settled_refines hSound hWorker fun d r expiry hTask hSlot hHeld hDone => ?_
    rw [hLease]
    exact Step.release d event.eventID owner since (slot r) expiry hTask hSlot hHeld hDone

/-- Whatever happens to the workers happens at the desk. -/
theorem exec_refines (interval : Int → Int) (hSound : w.Sound) (happening : Happening) :
    Reachable Step w.desk (w.exec interval happening).desk ∧
      (w.exec interval happening).Sound := by
  have hStay : Reachable Step w.desk w.desk ∧ w.Sound := ⟨.start, hSound⟩
  cases happening with
  | ledger event =>
    simp only [World.exec]
    split
    · rename_i outbox hInsert
      -- the ledger inserts under an identifier that was not there
      obtain ⟨hNew, hSlots⟩ := slots_insert hInsert
      refine ⟨Reachable.start.next ?_, hSound⟩
      have hStep := Step.add w.desk (event.row w.now).eventID.text hNew
      convert hStep using 1
      show Desk.mk (slots outbox) _ _ _ = _
      rw [hSlots]
      rfl
    · exact hStay
  | tick elapsed => exact ⟨Reachable.start.next (Step.wait w.desk elapsed), hSound⟩
  | claim owner lease elapsed locked answer =>
    simp only [World.exec]
    split
    · -- a worker that is busy, or whose claim did not reach the database, leaves the world as it
      -- is
      exact hStay
    · exact hStay
    · rename_i hIdle _
      split
      · exact hStay
      · exact claim_refines _ hSound hIdle ‹_›
  | markPublished owner answer =>
    simp only [World.exec]
    split
    · exact hStay
    · exact setWorker_refines hSound owner
    · exact markPublished_refines hSound ‹_›
  | markFailed owner delay lastError answer =>
    simp only [World.exec]
    split
    · exact hStay
    · exact setWorker_refines hSound owner
    · exact markFailed_refines hSound ‹_›
  | crash owner => exact setWorker_refines hSound owner

/-- A run of the outbox is a run of the desk, and leaves a sound world. -/
theorem run_refines (interval : Int → Int) (happenings : List Happening) :
    ∀ w : World, w.Sound → Reachable Step w.desk (run (World.exec interval) w happenings).desk ∧
      (run (World.exec interval) w happenings).Sound := by
  induction happenings with
  | nil => exact fun w hSound => ⟨.start, hSound⟩
  | cons happening happenings ih =>
    intro w hSound
    obtain ⟨hFirst, hSound'⟩ := exec_refines interval hSound happening
    obtain ⟨hRest, hSound''⟩ := ih (w.exec interval happening) hSound'
    exact ⟨hFirst.trans hRest, hSound''⟩

end Refinement

/-! ## Rows -/

/-- What one happening can do to the rows: rows are added, and those it rewrites
were not published and keep their identity. -/
structure Turns (t u : Table outboxSchema) : Prop where
  kept : ∀ r ∈ t, ∃ r' ∈ u, identity r' = identity r
  published : ∀ r ∈ t, r.publishedAt.isSome → r ∈ u

/-- Nothing happened. -/
theorem Turns.refl (t : Table outboxSchema) : Turns t t :=
  ⟨fun r hr => ⟨r, hr, rfl⟩, fun _ hr _ => hr⟩

/-- One thing after another. -/
theorem Turns.trans {t u v : Table outboxSchema} (h : Turns t u) (h' : Turns u v) : Turns t v where
  kept r hr := by
    obtain ⟨r', hr', hID⟩ := h.kept r hr
    obtain ⟨r'', hr'', hID'⟩ := h'.kept r' hr'
    exact ⟨r'', hr'', hID'.trans hID⟩
  published r hr hPublished := h'.published r (h.published r hr hPublished) hPublished

/-- An insertion leaves the rows that are there. -/
theorem turns_insert {t u : Table outboxSchema} {r : OutboxRow} (h : t.insert r = .ok u) :
    Turns t u :=
  ⟨fun a ha => ⟨a, (Table.mem_insert h).mpr (.inl ha), rfl⟩,
    fun _ ha _ => (Table.mem_insert h).mpr (.inl ha)⟩

/-- What becomes of a row under an update. -/
theorem mem_rewrite {t : Table outboxSchema} {chosen : OutboxRow → Bool}
    {f : OutboxRow → OutboxRow} {hIdentity : ∀ r, identity (f r) = identity r}
    {hCheck : ∀ r, outboxSchema.check r = true → outboxSchema.check (f r) = true} {r : OutboxRow}
    (hr : r ∈ t) : (if chosen r then f r else r) ∈ rewrite t chosen f hIdentity hCheck :=
  List.mem_map.mpr ⟨r, hr, rfl⟩

/-- An update of unpublished rows keeps every row's identity, and the published rows whole. -/
theorem turns_rewrite {t : Table outboxSchema} {chosen : OutboxRow → Bool}
    {f : OutboxRow → OutboxRow} {hIdentity : ∀ r, identity (f r) = identity r}
    {hCheck : ∀ r, outboxSchema.check r = true → outboxSchema.check (f r) = true}
    (hChosen : ∀ r ∈ t, chosen r = true → r.publishedAt = none) :
    Turns t (rewrite t chosen f hIdentity hCheck) where
  kept r hr := by
    refine ⟨if chosen r then f r else r, mem_rewrite hr, ?_⟩
    split
    · exact hIdentity r
    · rfl
  published r hr hPublished := by
    have hNot : ¬ chosen r = true := fun h => by simp [hChosen r hr h] at hPublished
    have hMem : (if chosen r then f r else r) ∈ rewrite t chosen f hIdentity hCheck :=
      mem_rewrite hr
    rwa [if_neg hNot] at hMem

/-- A claim is such an update. -/
theorem turns_claim {interval : Int → Int} {env : ClaimEnv} {t u : Table outboxSchema}
    {owner : Text} {limit lease : Int} {events : List Event}
    (h : Outbox.claim interval env t owner limit lease = .ok (events, u)) : Turns t u := by
  obtain ⟨-, hIdentity, hCheck, rfl⟩ := claim_ok h
  refine turns_rewrite fun r hr hChosen => ?_
  obtain ⟨c, hc, hID⟩ := List.any_eq_true.mp hChosen
  obtain ⟨hMem, hFree⟩ := mem_selectClaimable hc
  obtain rfl : c = r := eq_of_eventID hMem hr (by rw [of_decide_eq_true hID])
  simp only [claimable, Bool.and_eq_true, Option.isNone_iff_eq_none] at hFree
  exact hFree.1.1

/-- And so is the end of a lease. -/
theorem turns_settle {doing : String} {t u : Table outboxSchema} {eventID owner : Text}
    {f : OutboxRow → OutboxRow} {hIdentity : ∀ r, identity (f r) = identity r}
    {hCheck : ∀ r, outboxSchema.check r = true → outboxSchema.check (f r) = true}
    (h : settle doing t eventID owner f hIdentity hCheck = .ok u) : Turns t u := by
  unfold settle at h
  split at h
  · cases h
  · split at h
    · cases h
    · cases h
      refine turns_rewrite fun r _ hHeld => ?_
      simp only [held, Bool.and_eq_true, Option.isNone_iff_eq_none] at hHeld
      exact hHeld.2

/-- Whatever the worker learns of it. -/
theorem turns_settled (w : World) (owner : Text) (fact : Fact Text Text)
    {outcome : Except StoreError (Table outboxSchema)}
    (h : ∀ u, outcome = .ok u → Turns w.outbox u) :
    Turns w.outbox (w.settled owner fact outcome).outbox := by
  cases outcome with
  | error e => exact .refl _
  | ok u => exact h u rfl

/-- So is everything that happens. -/
theorem exec_turns (interval : Int → Int) (w : World) (happening : Happening) :
    Turns w.outbox (w.exec interval happening).outbox := by
  cases happening with
  | ledger event =>
    simp only [World.exec]
    split
    · exact turns_insert ‹_›
    · exact .refl _
  | tick elapsed => exact .refl _
  | claim owner lease elapsed locked answer =>
    simp only [World.exec]
    split
    · exact .refl _
    · exact .refl _
    · split
      · exact .refl _
      · exact turns_claim ‹_›
  | markPublished owner answer =>
    simp only [World.exec]
    split
    · exact .refl _
    · exact .refl _
    · exact turns_settled w owner _ fun u hOk => turns_settle hOk
  | markFailed owner delay lastError answer =>
    simp only [World.exec]
    split
    · exact .refl _
    · exact .refl _
    · refine turns_settled w owner _ fun u hOk => ?_
      unfold Outbox.markFailed at hOk
      split at hOk
      · -- a negative delay is refused before the statement
        cases hOk
      · exact turns_settle hOk
  | crash owner => exact .refl _

/-- And every run. -/
theorem run_turns (interval : Int → Int) (w : World) (happenings : List Happening) :
    Turns w.outbox (run (World.exec interval) w happenings).outbox := by
  induction happenings generalizing w with
  | nil => exact .refl _
  | cons happening happenings ih => exact (exec_turns interval w happening).trans (ih _)

/-! ## The guarantee -/

/-- A worker whose row was claimed, released or published since it claimed it
cannot settle it. -/
theorem settle_late {w : World} {now : Int} (hReach : Reachable Step (Desk.empty now) w.desk)
    (hSound : w.Sound) {owner : Text} {event : Event} {since : Nat}
    (hWorker : w.workers owner = .publishing event since)
    (hLate : ∃ fact ∈ w.history.drop (since + 1), fact.key = event.eventID) {doing : String}
    {f : OutboxRow → OutboxRow} {hIdentity : ∀ r, identity (f r) = identity r}
    {hCheck : ∀ r, outboxSchema.check r = true → outboxSchema.check (f r) = true} :
    settle doing w.outbox event.eventID event.leaseOwner f hIdentity hCheck =
      .error .leaseLost := by
  obtain ⟨hLease, ⟨id, hID⟩, -⟩ := hSound owner event since hWorker
  obtain ⟨fact, hFact, hKey⟩ := hLate
  have hTask : w.desk.tasks owner = .working event.eventID since := by
    simp [World.desk, hWorker, Activity.work]
  rw [hID, hLease]
  refine settle_lost fun r hr hRow hOwner => ?_
  obtain ⟨expiry, hExpiry⟩ := slot_held (w.outbox.checked r hr) hOwner
  have hSlot : w.desk.slots event.eventID = some (slot r) := by
    simp [World.desk, slots, rowOf_eq_some.mpr ⟨hr, hRow.trans hID.symm⟩]
  exact lost hReach hTask hFact hKey hSlot expiry hExpiry

/-- After any run from an empty outbox, and any further run:

* owner and expiry of a lease are set together, and a row claimed again was
  released by the earlier owner or its lease had expired;
* a published row stays as it is and is never claimed, released or published
  again;
* a worker whose row has been claimed, released or published since its own claim
  is told that the lease is lost, and changes no row;
* a row counts its claims;
* no row loses its identity. -/
theorem leases_respected (interval : Int → Int) (now : Int) (before after : List Happening) :
    let w := run (World.exec interval) (World.start now) before
    let w' := run (World.exec interval) w after
    (∀ r ∈ w.outbox, r.leaseOwner.isSome = r.leaseUntil.isSome) ∧
      (∀ earlier between later eventID owner at' expiry owner' at'' expiry',
        w.history = earlier ++ .claimed eventID owner at' expiry :: between ++
            .claimed eventID owner' at'' expiry' :: later →
          .released eventID owner ∈ between ∨ expiry ≤ at'') ∧
      (∀ r ∈ w.outbox, r.publishedAt.isSome → r ∈ w'.outbox ∧
        ∃ facts, w'.history = w.history ++ facts ∧ ∀ fact ∈ facts, fact.key ≠ r.eventID.text) ∧
      (∀ owner event since, w.workers owner = .publishing event since →
        (∃ at', w.history[since]? = some (.claimed event.eventID owner at' event.leaseUntil)) ∧
        ((∃ fact ∈ w.history.drop (since + 1), fact.key = event.eventID) →
          Outbox.markPublished w.now w.outbox event.eventID event.leaseOwner =
              .error .leaseLost ∧
            (∀ delay lastError, 0 ≤ delay →
              Outbox.markFailed interval w.now w.outbox event.eventID event.leaseOwner delay
                lastError = .error .leaseLost) ∧
            (∀ answer, (w.exec interval (.markPublished owner answer)).outbox = w.outbox) ∧
            (∀ delay lastError answer,
              (w.exec interval (.markFailed owner delay lastError answer)).outbox = w.outbox))) ∧
      (∀ r ∈ w.outbox, r.attempts = w.history.countP (Fact.claims r.eventID.text)) ∧
      (∀ r ∈ w.outbox, ∃ r' ∈ w'.outbox, identity r' = identity r) := by
  intro w w'
  have hStart : (World.start now).Sound := nofun
  -- what is proved of the desk holds of the outbox, which refines it
  obtain ⟨hReach, hSound⟩ := run_refines interval before (World.start now) hStart
  obtain ⟨hAfter, -⟩ := run_refines interval after w hSound
  have hTurns := run_turns interval w after
  have hDesk : (World.start now).desk = Desk.empty now := rfl
  rw [hDesk] at hReach
  have hInv := inv_reachable hReach
  refine ⟨fun r hr => ?_, hInv.spaced, fun r hr hPublished => ⟨hTurns.published r hr hPublished, ?_⟩,
    fun owner event since hWorker => ⟨(hSound owner event since hWorker).2.2, fun hLate => ?_⟩,
    fun r hr => ?_, hTurns.kept⟩
  · -- a lease has an owner exactly if it has an expiry: a check of the table
    have hCheck := w.outbox.checked r hr
    simp only [outboxSchema, Bool.and_eq_true, beq_iff_eq] at hCheck
    exact hCheck.2
  · exact (finished_for_good hAfter (World.slots_of_mem hr) hPublished).2
  · -- a later entry means that the row is no longer leased to this worker
    have hPublish : Outbox.markPublished w.now w.outbox event.eventID event.leaseOwner =
        .error .leaseLost := settle_late hReach hSound hWorker hLate
    have hFail : ∀ delay lastError, 0 ≤ delay → Outbox.markFailed interval w.now w.outbox
        event.eventID event.leaseOwner delay lastError = .error .leaseLost := by
      intro delay lastError hDelay
      rw [Outbox.markFailed, if_neg (by omega)]
      exact settle_late hReach hSound hWorker hLate
    refine ⟨hPublish, hFail, fun answer => ?_, fun delay lastError answer => ?_⟩
    · simp only [World.exec, hWorker]
      cases answer <;> simp [World.settled, World.setWorker, hPublish]
    · simp only [World.exec, hWorker]
      by_cases hDelay : delay < 0
      · cases answer <;> simp [World.settled, World.setWorker, Outbox.markFailed, hDelay]
      · cases answer <;> simp [World.settled, World.setWorker,
          hFail delay lastError (by omega)]
  · -- attempts are counted by the claims in the history
    have hCount : (slot r).claims = w.history.countP (Fact.claims r.eventID.text) :=
      hInv.counted _ _ (World.slots_of_mem hr)
    have hCheck := w.outbox.checked r hr
    simp only [outboxSchema, Bool.and_eq_true, decide_eq_true_eq] at hCheck
    rw [← hCount]
    exact (Int.toNat_of_nonneg hCheck.1.2).symm

/-- An event of one entry. -/
def sampleEvent : OutboxEvent where
  eventID := ⟨"0198c0de-0000-7000-8000-000000000001".toList, by decide⟩
  entryID := ⟨"0198c0de-0000-7000-8000-000000000002".toList, by decide⟩
  merchantID := ⟨"0198c0de-0000-7000-8000-000000000003".toList, by decide⟩
  position := 1
  eventType := eventType
  occurredAt := 0
  payload := []

/-- One worker claims the row and is slow, a second one claims it after the lease
expired: the first is told so when it is done. -/
theorem leases_respected_slow_worker :
    let happenings : List Happening :=
      [.ledger sampleEvent, .claim "a".toList 10 1 [] .received, .tick 20,
        .claim "b".toList 10 1 [] .received]
    let w := run (World.exec id) (World.start 0) happenings
    let event := Event.ofRow (leased "a".toList 11 (sampleEvent.row 0))
    w.workers "a".toList = .publishing event 0 ∧
      (∃ fact ∈ w.history.drop 1, fact.key = event.eventID) ∧
      Outbox.markPublished w.now w.outbox event.eventID event.leaseOwner = .error .leaseLost ∧
      (∀ r ∈ w.outbox, r.attempts = w.history.countP (Fact.claims r.eventID.text)) := by
  intro happenings w event
  obtain ⟨-, -, -, hSettle, hAttempts, -⟩ := leases_respected id 0 happenings []
  have hWorker : w.workers "a".toList = .publishing event 0 := by decide +kernel
  have hLate : ∃ fact ∈ w.history.drop 1, fact.key = event.eventID := by decide +kernel
  exact ⟨hWorker, hLate, ((hSettle "a".toList event 0 hWorker).2 hLate).1, hAttempts⟩

end Cashflow.Outbox.Leases
