import Cashflow.Lib.Machine
import Mathlib.Logic.Function.Basic

/-!
# Leases on work items

Owners take items under a lease that expires, work on one item at a time, and
release or finish it; they may also drop it at any moment, and only the expiry
frees it then. Releasing and finishing look at who holds the item and not at the
clock. The history records what happened, oldest first.

Main results, for every desk reachable from an empty one:

* `inv_reachable` — an item counts its claims, and is claimed again only after
  the earlier lease expired or its owner released it;
* `finished_for_good` — a finished item stays as it is;
* `lost` — an owner whose item has a later entry in the history does not hold
  it.
-/

namespace Lib.Lease

/-- An item: its holder with the expiry of the lease, whether it is finished,
and how often it was claimed. -/
structure Slot (ο : Type) where
  lease : Option (ο × Int)
  done : Bool
  claims : Nat

inductive Fact (κ ο : Type) where
  | claimed (key : κ) (owner : ο) (at' : Int) (expiry : Int)
  | released (key : κ) (owner : ο)
  | finished (key : κ) (owner : ο)
deriving DecidableEq, Repr

def Fact.key {κ ο : Type} : Fact κ ο → κ
  | .claimed key _ _ _ => key
  | .released key _ => key
  | .finished key _ => key

/-- Is this a claim of the item? -/
def Fact.claims {κ ο : Type} [DecidableEq κ] (key : κ) : Fact κ ο → Bool
  | .claimed key' _ _ _ => key' = key
  | _ => false

/-- What an owner does: an item it works on, with the place of its claim in the
history. -/
inductive Work (κ : Type) where
  | idle
  | working (key : κ) (since : Nat)
deriving DecidableEq, Repr

structure Desk (κ ο : Type) where
  slots : κ → Option (Slot ο)
  now : Int
  tasks : ο → Work κ
  history : List (Fact κ ο)

variable {κ ο : Type} [DecidableEq κ] [DecidableEq ο]

def Desk.empty (now : Int) : Desk κ ο := ⟨fun _ => none, now, fun _ => .idle, []⟩

inductive Step : Desk κ ο → Desk κ ο → Prop
  | wait (d : Desk κ ο) (elapsed : Nat) : Step d { d with now := d.now + elapsed }
  | add (d : Desk κ ο) (key : κ) (hNew : d.slots key = none) :
      Step d { d with slots := Function.update d.slots key (some ⟨none, false, 0⟩) }
  | drop (d : Desk κ ο) (owner : ο) :
      Step d { d with tasks := Function.update d.tasks owner .idle }
  /-- The claim holds whether or not the owner learns of it. -/
  | claim (d : Desk κ ο) (key : κ) (owner : ο) (elapsed : Nat) (expiry : Int) (learns : Bool)
      (slot : Slot ο) (hSlot : d.slots key = some slot) (hDone : slot.done = false)
      (hFree : ∀ lease, slot.lease = some lease → lease.2 ≤ d.now)
      (hIdle : d.tasks owner = .idle) :
      Step d {
        slots := Function.update d.slots key
          (some { slot with lease := some (owner, expiry), claims := slot.claims + 1 })
        now := d.now + elapsed
        tasks := if learns then Function.update d.tasks owner (.working key d.history.length)
          else d.tasks
        history := d.history ++ [.claimed key owner d.now expiry] }
  | release (d : Desk κ ο) (key : κ) (owner : ο) (since : Nat) (slot : Slot ο) (expiry : Int)
      (hTask : d.tasks owner = .working key since) (hSlot : d.slots key = some slot)
      (hHeld : slot.lease = some (owner, expiry)) (hDone : slot.done = false) :
      Step d { d with
        slots := Function.update d.slots key (some { slot with lease := none })
        tasks := Function.update d.tasks owner .idle
        history := d.history ++ [.released key owner] }
  | finish (d : Desk κ ο) (key : κ) (owner : ο) (since : Nat) (slot : Slot ο) (expiry : Int)
      (hTask : d.tasks owner = .working key since) (hSlot : d.slots key = some slot)
      (hHeld : slot.lease = some (owner, expiry)) (hDone : slot.done = false) :
      Step d { d with
        slots := Function.update d.slots key (some { slot with lease := none, done := true })
        tasks := Function.update d.tasks owner .idle
        history := d.history ++ [.finished key owner] }

/-! ## What holds of every desk -/

/-- How a claim still matters: its owner released it, it has expired, its owner
holds the item, or the item is finished. -/
def Desk.Settled (d : Desk κ ο) (key : κ) (owner : ο) (expiry : Int) (later : List (Fact κ ο)) :
    Prop :=
  .released key owner ∈ later ∨ expiry ≤ d.now ∨
    ∃ slot, d.slots key = some slot ∧ (slot.lease = some (owner, expiry) ∨ slot.done = true)

structure Desk.Inv (d : Desk κ ο) : Prop where
  known : ∀ fact ∈ d.history, (d.slots fact.key).isSome
  counted : ∀ key slot, d.slots key = some slot →
    slot.claims = d.history.countP (Fact.claims key)
  settled : ∀ before later key owner at' expiry,
    d.history = before ++ .claimed key owner at' expiry :: later →
      d.Settled key owner expiry later
  spaced : ∀ before between later key owner at' expiry owner' at'' expiry',
    d.history = before ++ .claimed key owner at' expiry :: between ++
        .claimed key owner' at'' expiry' :: later →
      .released key owner ∈ between ∨ expiry ≤ at''
  held : ∀ owner key since, d.tasks owner = .working key since →
    ∀ slot expiry, d.slots key = some slot → slot.lease = some (owner, expiry) →
      ∀ fact ∈ d.history.drop (since + 1), fact.key ≠ key

/-- The last entry of a history is the one looked at, or comes after it. -/
theorem append_singleton_eq {α : Type} {l before later : List α} {x last : α}
    (h : l ++ [last] = before ++ x :: later) :
    (later = [] ∧ x = last ∧ before = l) ∨
      ∃ later', later = later' ++ [last] ∧ l = before ++ x :: later' := by
  rcases List.eq_nil_or_concat later with rfl | ⟨later', y, rfl⟩
  · obtain ⟨hInit, hLast⟩ := List.append_inj' h rfl
    exact .inl ⟨rfl, (List.cons.inj hLast).1.symm, hInit.symm⟩
  · rw [List.concat_eq_append, ← List.cons_append, ← List.append_assoc] at h
    obtain ⟨hInit, hLast⟩ := List.append_inj' h rfl
    exact .inr ⟨later', by rw [List.concat_eq_append, (List.cons.inj hLast).1], hInit⟩

section Step

omit [DecidableEq ο]

variable {d : Desk κ ο}

omit [DecidableEq κ] in
/-- What is known of a claim is kept by a change that finishes no item and only
ends leases that expired or whose owner released them. -/
theorem Desk.Settled.mono {d' : Desk κ ο} {key : κ} {owner : ο} {expiry : Int}
    {later later' : List (Fact κ ο)} (h : d.Settled key owner expiry later)
    (hLater : ∀ fact ∈ later, fact ∈ later') (hNow : d.now ≤ d'.now)
    (hSlot : ∀ slot, d.slots key = some slot →
      (slot.lease = some (owner, expiry) ∨ slot.done = true) →
        .released key owner ∈ later' ∨ expiry ≤ d'.now ∨
          ∃ slot', d'.slots key = some slot' ∧
            (slot'.lease = some (owner, expiry) ∨ slot'.done = true)) :
    d'.Settled key owner expiry later' := by
  rcases h with hReleased | hExpired | ⟨slot, hAt, hHolds⟩
  · exact .inl (hLater _ hReleased)
  · exact .inr (.inl (Int.le_trans hExpired hNow))
  · exact hSlot slot hAt hHolds

/-- One more fact in the history: earlier claims stay settled, and the fact
itself, if it is a claim, is settled and spaced from the earlier ones. -/
theorem inv_append (hInv : d.Inv) {d' : Desk κ ο} {fact : Fact κ ο}
    (hHistory : d'.history = d.history ++ [fact])
    (hSlots : ∀ key, (d.slots key).isSome → (d'.slots key).isSome)
    (hFact : (d'.slots fact.key).isSome)
    (hCounted : ∀ key slot, d'.slots key = some slot →
      slot.claims = d'.history.countP (Fact.claims key))
    (hKept : ∀ key owner expiry later, d.Settled key owner expiry later →
      d'.Settled key owner expiry (later ++ [fact]))
    (hClaim : ∀ key owner at' expiry, fact = .claimed key owner at' expiry →
      d'.Settled key owner expiry [] ∧ ∀ owner' expiry' later,
        d.Settled key owner' expiry' later → .released key owner' ∈ later ∨ expiry' ≤ at')
    (hHeld : ∀ owner key since, d'.tasks owner = .working key since →
      ∀ slot expiry, d'.slots key = some slot → slot.lease = some (owner, expiry) →
        ∀ fact ∈ d'.history.drop (since + 1), fact.key ≠ key) : d'.Inv where
  known := by
    intro f hf
    rw [hHistory, List.mem_append, List.mem_singleton] at hf
    rcases hf with hf | rfl
    · exact hSlots _ (hInv.known f hf)
    · exact hFact
  counted := hCounted
  settled := by
    intro before later key owner at' expiry hSplit
    rw [hHistory] at hSplit
    rcases append_singleton_eq hSplit with ⟨rfl, hLast, -⟩ | ⟨later', rfl, hBefore⟩
    · -- the last entry is the claim itself
      exact (hClaim key owner at' expiry hLast.symm).1
    · exact hKept key owner expiry later' (hInv.settled _ _ _ _ _ _ hBefore)
  spaced := by
    intro before between later key owner at' expiry owner' at'' expiry' hSplit
    rw [hHistory, List.append_assoc] at hSplit
    have hSplit' : d.history ++ [fact] = (before ++ .claimed key owner at' expiry :: between) ++
        .claimed key owner' at'' expiry' :: later := by
      rw [hSplit, List.append_assoc]
    rcases append_singleton_eq hSplit' with ⟨rfl, hLast, hBefore⟩ | ⟨later', rfl, hBefore⟩
    · -- the new fact is the second claim
      exact (hClaim key owner' at'' expiry' hLast.symm).2 owner expiry between
        (hInv.settled before between key owner at' expiry hBefore.symm)
    · exact hInv.spaced before between later' key owner at' expiry owner' at'' expiry' hBefore
  held := hHeld

omit [DecidableEq κ] in
/-- What is behind a place in a longer history was there before, or is the last entry. -/
theorem mem_drop_append {n : Nat} {l : List (Fact κ ο)} {last fact : Fact κ ο}
    (h : fact ∈ (l ++ [last]).drop n) : fact ∈ l.drop n ∨ fact = last := by
  rw [List.drop_append, List.mem_append] at h
  exact h.imp_right fun hLast => List.mem_singleton.mp (List.mem_of_mem_drop hLast)

/-- An item that no entry of the history is about. -/
theorem countP_claims_eq_zero {l : List (Fact κ ο)} {key : κ} (h : ∀ fact ∈ l, fact.key ≠ key) :
    l.countP (Fact.claims key) = 0 := by
  refine List.countP_eq_zero.mpr fun fact hFact hClaims => ?_
  cases fact with
  | claimed key' owner at' expiry => exact h _ hFact (of_decide_eq_true hClaims)
  | released key' owner => cases hClaims
  | finished key' owner => cases hClaims

/-- Where the items after a change of one of them come from. -/
theorem slot_of_update {slots : κ → Option (Slot ο)} {key key' : κ} {slot slot' : Slot ο}
    (h : Function.update slots key (some slot) key' = some slot') :
    (key' = key ∧ slot' = slot) ∨ (key' ≠ key ∧ slots key' = some slot') := by
  by_cases hSame : key' = key
  · rw [hSame, Function.update_self, Option.some.injEq] at h
    exact .inl ⟨hSame, h.symm⟩
  · rw [Function.update_of_ne hSame] at h
    exact .inr ⟨hSame, h⟩

/-- An item that is replaced is still there. -/
theorem isSome_update {slots : κ → Option (Slot ο)} (key : κ) {key' : κ} (slot : Slot ο)
    (h : (slots key').isSome) : (Function.update slots key (some slot) key').isSome := by
  by_cases hSame : key' = key
  · rw [hSame, Function.update_self]
    rfl
  · rwa [Function.update_of_ne hSame]

/-- What is known of a claim is kept when an item that is not finished changes:
either the claim is about another item, or its lease is the one that ends. -/
theorem Desk.Settled.replace {d' : Desk κ ο} {key key' : κ} {owner' : ο} {expiry' : Int}
    {slot slot' : Slot ο} {later later' : List (Fact κ ο)}
    (h : d.Settled key' owner' expiry' later) (hSlot : d.slots key = some slot)
    (hDone : slot.done = false) (hSlots : d'.slots = Function.update d.slots key (some slot'))
    (hLater : ∀ fact ∈ later, fact ∈ later') (hNow : d.now ≤ d'.now)
    (hLease : ∀ owner expiry, slot.lease = some (owner, expiry) →
      .released key owner ∈ later' ∨ expiry ≤ d'.now ∨ slot'.done = true) :
    d'.Settled key' owner' expiry' later' := by
  refine h.mono hLater hNow fun old hOld hHolds => ?_
  rw [hSlots]
  by_cases hSame : key' = key
  · subst hSame
    rw [hSlot] at hOld
    cases hOld
    rcases hHolds with hHolds | hHolds
    · rcases hLease owner' expiry' hHolds with hReleased | hExpired | hFinished
      · exact .inl hReleased
      · exact .inr (.inl hExpired)
      · exact .inr (.inr ⟨slot', Function.update_self .., .inr hFinished⟩)
    · -- the slot was not done
      rw [hDone] at hHolds
      cases hHolds
  · -- another slot is what it was
    exact .inr (.inr ⟨old, by rwa [Function.update_of_ne hSame], hHolds⟩)

/-- An item that is added has no lease, no history and no worker. -/
theorem inv_add (hInv : d.Inv) {key : κ} (hNew : d.slots key = none) :
    Desk.Inv { d with slots := Function.update d.slots key (some ⟨none, false, 0⟩) } where
  known := fun fact hFact => isSome_update key _ (hInv.known fact hFact)
  counted := by
    intro key' slot hSlot
    rcases slot_of_update hSlot with ⟨rfl, rfl⟩ | ⟨-, hOld⟩
    · -- the history knows nothing of an item that was not there
      refine (countP_claims_eq_zero fun fact hFact hEq => ?_).symm
      have hKnown := hInv.known fact hFact
      rw [hEq, hNew] at hKnown
      cases hKnown
    · exact hInv.counted key' slot hOld
  settled := by
    intro before later key' owner at' expiry hSplit
    refine (hInv.settled before later key' owner at' expiry hSplit).mono (fun _ h => h)
      (Int.le_refl _) fun slot hSlot hHolds => .inr (.inr ⟨slot, ?_, hHolds⟩)
    have hKey : key' ≠ key := by
      rintro rfl
      rw [hNew] at hSlot
      cases hSlot
    exact (Function.update_of_ne hKey ..).trans hSlot
  spaced := hInv.spaced
  held := by
    intro owner key' since hTask slot expiry hSlot hLease
    rcases slot_of_update hSlot with ⟨rfl, rfl⟩ | ⟨-, hOld⟩
    · cases hLease
    · exact hInv.held owner key' since hTask slot expiry hOld hLease

/-- An item is released or finished by the owner that holds it. -/
theorem inv_end [DecidableEq ο] (hInv : d.Inv) {key : κ} {owner : ο} {slot slot' : Slot ο}
    {expiry : Int} {fact : Fact κ ο} (hSlot : d.slots key = some slot)
    (hHeld : slot.lease = some (owner, expiry)) (hDone : slot.done = false)
    (hLease : slot'.lease = none) (hClaims : slot'.claims = slot.claims) (hKey : fact.key = key)
    (hFact : ∀ key owner at' expiry, fact ≠ .claimed key owner at' expiry)
    (hEnd : fact = .released key owner ∨ slot'.done = true) :
    Desk.Inv { d with
      slots := Function.update d.slots key (some slot')
      tasks := Function.update d.tasks owner .idle
      history := d.history ++ [fact] } := by
  have hNoClaim : ∀ key', fact.claims key' = false := by
    intro key'
    cases fact with
    | claimed key'' owner' at' expiry' => exact absurd rfl (hFact key'' owner' at' expiry')
    | released key'' owner' => rfl
    | finished key'' owner' => rfl
  refine inv_append hInv rfl (fun key' h => isSome_update key slot' h) ?_ ?_ ?_ ?_ ?_
  · simp [hKey]
  · -- an end is no claim, so the counts stay
    intro key' slot'' hSlot'
    rw [List.countP_append, List.countP_singleton, hNoClaim key']
    rcases slot_of_update hSlot' with ⟨rfl, rfl⟩ | ⟨-, hOld⟩
    · rw [hClaims]
      exact hInv.counted key' slot hSlot
    · exact hInv.counted key' slot'' hOld
  · intro key' owner' expiry' later hSettled
    refine hSettled.replace hSlot hDone rfl (fun _ h => List.mem_append_left _ h)
      (Int.le_refl _) fun holder until' hHolder => ?_
    -- the lease that ends is the one of this owner
    rw [hHeld] at hHolder
    cases hHolder
    rcases hEnd with rfl | hFinished
    · exact .inl (List.mem_append_right _ (List.mem_singleton_self _))
    · exact .inr (.inr hFinished)
  · intro key' owner' at' expiry' hEq
    exact absurd hEq (hFact key' owner' at' expiry')
  · intro owner' key' since hTask slot'' expiry' hSlot' hLease' f hf
    have hOther : owner' ≠ owner := by
      rintro rfl
      simp at hTask
    rcases slot_of_update hSlot' with ⟨rfl, rfl⟩ | ⟨hSame, hOld⟩
    · rw [hLease] at hLease'
      cases hLease'
    · rcases mem_drop_append hf with hf | rfl
      · exact hInv.held owner' key' since (by simpa [Function.update_of_ne hOther] using hTask)
          slot'' expiry' hOld hLease' f hf
      · rw [hKey]
        exact fun hEq => hSame hEq.symm

/-- A claim of an item whose lease has run out, or that has none. Whether the worker learns of it
changes only its own task. -/
theorem inv_claim [DecidableEq ο] (hInv : d.Inv) {key : κ} {owner : ο} {elapsed : Nat}
    {expiry : Int} {learns : Bool} {slot : Slot ο} (hSlot : d.slots key = some slot)
    (hDone : slot.done = false) (hFree : ∀ lease, slot.lease = some lease → lease.2 ≤ d.now)
    (hIdle : d.tasks owner = .idle) :
    Desk.Inv {
      slots := Function.update d.slots key
        (some { slot with lease := some (owner, expiry), claims := slot.claims + 1 })
      now := d.now + elapsed
      tasks := if learns then Function.update d.tasks owner (.working key d.history.length)
        else d.tasks
      history := d.history ++ [.claimed key owner d.now expiry] } := by
  have hLater : d.now ≤ d.now + elapsed := Int.le_add_of_nonneg_right (Int.natCast_nonneg _)
  refine inv_append hInv rfl (fun key' h => isSome_update key _ h) ?_ ?_ ?_ ?_ ?_
  · -- what was settled is settled still: the item it is about, or another one
    simp [Fact.key]
  · -- the claim counts for its own item and for no other
    intro key' slot' hSlot'
    rw [List.countP_append, List.countP_singleton]
    rcases slot_of_update hSlot' with ⟨rfl, rfl⟩ | ⟨hSame, hOld⟩
    · rw [← hInv.counted key' slot hSlot]
      simp [Fact.claims]
    · rw [← hInv.counted key' slot' hOld]
      simp [Fact.claims, Ne.symm hSame]
  · intro key' owner' expiry' later hSettled
    -- the lease that is taken over has expired
    exact hSettled.replace hSlot hDone rfl (fun _ h => List.mem_append_left _ h) hLater
      -- the owner of the ended lease is idle, so the claim is another worker's
      fun holder until' hHolder => .inr (.inl (Int.le_trans (hFree _ hHolder) hLater))
  · -- the new claim holds; all earlier ones of the item were released or have expired
    rintro _ _ _ _ ⟨⟩
    refine ⟨.inr (.inr ⟨_, Function.update_self .., .inl rfl⟩), ?_⟩
    rintro owner' expiry' later (hReleased | hExpired | ⟨old, hOld, hHolds⟩)
    · exact .inl hReleased
    · exact .inr hExpired
    · rw [hSlot] at hOld
      cases hOld
      rcases hHolds with hHolds | hHolds
      · exact .inr (hFree _ hHolds)
      · rw [hDone] at hHolds
        cases hHolds
  · intro owner' key' since hTask slot' expiry' hSlot' hLease' f hf
    by_cases hOwner : owner' = owner
    · -- its own claim is the last entry
      subst hOwner
      cases learns with
      | false =>
        rw [if_neg (by simp), hIdle] at hTask
        cases hTask
      | true =>
        simp only [if_true, Function.update_self] at hTask
        cases hTask
        rw [List.drop_of_length_le (by simp)] at hf
        cases hf
    · have hTask' : d.tasks owner' = .working key' since := by
        cases learns with
        | false => simpa using hTask
        | true => simpa [Function.update_of_ne hOwner] using hTask
      -- another worker's item: if it is the one claimed now, the lease is not that worker's any
      -- more
      rcases slot_of_update hSlot' with ⟨rfl, rfl⟩ | ⟨hSame, hOld⟩
      · cases hLease'
        exact absurd rfl hOwner
      · rcases mem_drop_append hf with hf | rfl
        · exact hInv.held owner' key' since hTask' slot' expiry' hOld hLease' f hf
        · exact fun hEq => hSame hEq.symm

/-- Each step keeps the invariant. -/
theorem inv_step [DecidableEq ο] {d' : Desk κ ο} (hInv : d.Inv) (hStep : Step d d') : d'.Inv := by
  cases hStep with
  | wait elapsed =>
    refine ⟨hInv.known, hInv.counted, ?_, hInv.spaced, hInv.held⟩
    intro before later key owner at' expiry hSplit
    exact (hInv.settled before later key owner at' expiry hSplit).mono (fun _ h => h)
      (Int.le_add_of_nonneg_right (Int.natCast_nonneg _))
      fun slot hSlot hHolds => .inr (.inr ⟨slot, hSlot, hHolds⟩)
  | add key hNew => exact inv_add hInv hNew
  | drop owner =>
    refine ⟨hInv.known, hInv.counted, hInv.settled, hInv.spaced, ?_⟩
    -- the worker that drops its task has none to speak of
    intro owner' key since hTask
    by_cases hOwner : owner' = owner
    · subst hOwner
      simp at hTask
    · exact hInv.held owner' key since (by simpa [Function.update_of_ne hOwner] using hTask)
  | claim key owner elapsed expiry learns slot hSlot hDone hFree hIdle =>
    exact inv_claim hInv hSlot hDone hFree hIdle
  | release key owner since slot expiry hTask hSlot hHeld hDone =>
    exact inv_end hInv hSlot hHeld hDone rfl rfl rfl nofun (.inl rfl)
  | finish key owner since slot expiry hTask hSlot hHeld hDone =>
    exact inv_end hInv hSlot hHeld hDone rfl rfl rfl nofun (.inr rfl)

end Step

/-! ## Every run -/

section Runs

variable {d d' : Desk κ ο} {now : Int}

omit [DecidableEq ο] in
/-- An empty desk has no past. -/
theorem inv_empty (now : Int) : (Desk.empty now : Desk κ ο).Inv where
  known := by simp [Desk.empty]
  counted := nofun
  settled := by simp [Desk.empty]
  spaced := by simp [Desk.empty]
  held := nofun

/-- So the invariant holds on every desk that can be reached. -/
theorem inv_reachable (h : Reachable Step (Desk.empty now) d) : d.Inv :=
  h.invariant (inv_empty now) fun _ _ => inv_step

/-- One step leaves a finished item as it is and says nothing about it. -/
theorem finished_step {key : κ} {slot : Slot ο} (hStep : Step d d')
    (hSlot : d.slots key = some slot) (hDone : slot.done = true) :
    d'.slots key = some slot ∧
      ∃ facts, d'.history = d.history ++ facts ∧ ∀ fact ∈ facts, fact.key ≠ key := by
  -- an item that is done is never the one a step acts on
  have hOther : ∀ {key' : κ} {slot' : Slot ο}, d.slots key' = some slot' → slot'.done = false →
      key ≠ key' := by
    rintro key' slot' hSlot' hDone' rfl
    rw [hSlot] at hSlot'
    cases hSlot'
    rw [hDone] at hDone'
    cases hDone'
  cases hStep with
  | wait elapsed => exact ⟨hSlot, [], (List.append_nil _).symm, nofun⟩
  | drop owner => exact ⟨hSlot, [], (List.append_nil _).symm, nofun⟩
  | add key' hNew =>
    have hKey : key ≠ key' := by
      rintro rfl
      rw [hSlot] at hNew
      cases hNew
    exact ⟨by simpa [Function.update_of_ne hKey] using hSlot, [], (List.append_nil _).symm, nofun⟩
  | claim key' owner elapsed expiry learns slot' hSlot' hDone' hFree hIdle =>
    have hKey := hOther hSlot' hDone'
    exact ⟨by simpa [Function.update_of_ne hKey] using hSlot, _, rfl,
      by simpa [Fact.key] using hKey.symm⟩
  | release key' owner since slot' expiry hTask hSlot' hHeld hDone' =>
    have hKey := hOther hSlot' hDone'
    exact ⟨by simpa [Function.update_of_ne hKey] using hSlot, _, rfl,
      by simpa [Fact.key] using hKey.symm⟩
  | finish key' owner since slot' expiry hTask hSlot' hHeld hDone' =>
    have hKey := hOther hSlot' hDone'
    exact ⟨by simpa [Function.update_of_ne hKey] using hSlot, _, rfl,
      by simpa [Fact.key] using hKey.symm⟩

/-- What one step does not touch, no run of steps touches. -/
theorem finished_for_good {key : κ} {slot : Slot ο} (h : Reachable Step d d')
    (hSlot : d.slots key = some slot) (hDone : slot.done = true) :
    d'.slots key = some slot ∧
      ∃ facts, d'.history = d.history ++ facts ∧ ∀ fact ∈ facts, fact.key ≠ key := by
  induction h with
  | start => exact ⟨hSlot, [], (List.append_nil _).symm, nofun⟩
  | next _ hStep ih =>
    obtain ⟨hMid, facts, hFacts, hKeys⟩ := ih
    obtain ⟨hLast, more, hMore, hMoreKeys⟩ := finished_step hStep hMid hDone
    refine ⟨hLast, facts ++ more, by rw [hMore, hFacts, List.append_assoc], ?_⟩
    intro fact hFact
    exact (List.mem_append.mp hFact).elim (hKeys fact) (hMoreKeys fact)

/-- An owner whose item has been claimed, released or finished since does not
hold it. -/
theorem lost (h : Reachable Step (Desk.empty now) d) {owner : ο} {key : κ} {since : Nat}
    (hTask : d.tasks owner = .working key since) {fact : Fact κ ο}
    (hFact : fact ∈ d.history.drop (since + 1)) (hKey : fact.key = key) {slot : Slot ο}
    (hSlot : d.slots key = some slot) (expiry : Int) : slot.lease ≠ some (owner, expiry) :=
  fun hLease => (inv_reachable h).held owner key since hTask slot expiry hSlot hLease fact hFact hKey

end Runs

end Lib.Lease
