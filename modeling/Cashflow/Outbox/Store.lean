import Cashflow.Outbox.Publisher
import Mathlib.Data.List.Sort
import Mathlib.Data.Prod.Lex

/-!
# Outbox — leases on rows

`Claim`, `MarkPublished` and `MarkFailed` of
`services/ledger/internal/outbox/store.go` on the rows of `outbox_event`. Each is
one statement and takes the rows it changes under their row locks, so each is one
step on the table; `Claim` passes over rows another statement has locked, and
which those are is an input.

The clock is the database's. `interval` is what the database makes of the text of
a Go duration.
-/

namespace Cashflow.Outbox

open Lib Ledger

inductive StoreError where
  | invalid (message : String)
  | leaseLost
  | database (doing : String)
deriving DecidableEq, Repr

/-! ## Rows -/

/-- The row as `Claim` returns it. -/
def Event.ofRow (r : OutboxRow) : Event where
  eventID := r.eventID.text
  aggregateID := r.aggregateID.text
  merchantID := r.merchantID.text
  merchantPosition := r.merchantPosition
  eventType := r.eventType
  payload := r.payload
  occurredAt := r.occurredAt
  createdAt := r.createdAt
  attempts := r.attempts
  -- a claimed row has both
  leaseOwner := r.leaseOwner.getD []
  leaseUntil := r.leaseUntil.getD 0

/-- The columns no lease touches. -/
structure Identity where
  eventID : UUID
  aggregateID : UUID
  merchantID : UUID
  merchantPosition : Int64
  eventType : Text
  payload : Text
  occurredAt : Int
  createdAt : Int
deriving DecidableEq, Repr

def identity (r : OutboxRow) : Identity :=
  ⟨r.eventID, r.aggregateID, r.merchantID, r.merchantPosition, r.eventType, r.payload,
    r.occurredAt, r.createdAt⟩

/-- The row under a new lease. -/
def leased (owner : Text) (leaseUntil : Int) (r : OutboxRow) : OutboxRow :=
  { r with
    leaseOwner := some owner
    leaseUntil := some leaseUntil
    attempts := r.attempts + 1
    lastError := none }

/-- The row once its publication is confirmed. -/
def publishedRow (now : Int) (r : OutboxRow) : OutboxRow :=
  { r with publishedAt := some now, leaseOwner := none, leaseUntil := none, lastError := none }

/-- The row given back to be tried again. -/
def released (availableAt : Int) (lastError : Text) (r : OutboxRow) : OutboxRow :=
  { r with
    availableAt := availableAt
    leaseOwner := none
    leaseUntil := none
    lastError := some (lastError.take 500) }

/-- An `UPDATE` that rewrites the chosen rows by a function that keeps their
identity and their constraints. -/
def rewrite (t : Table outboxSchema) (chosen : OutboxRow → Bool) (f : OutboxRow → OutboxRow)
    (hIdentity : ∀ r, identity (f r) = identity r)
    (hCheck : ∀ r, outboxSchema.check r = true → outboxSchema.check (f r) = true) :
    Table outboxSchema where
  rows := t.rows.map fun r => if chosen r then f r else r
  checked := by
    intro r hr
    obtain ⟨a, ha, rfl⟩ := List.mem_map.mp hr
    split
    · exact hCheck a (t.checked a ha)
    · exact t.checked a ha
  unique := by
    rw [List.pairwise_map]
    refine t.unique.imp fun {a b} hab => ?_
    -- a clash is a matter of identities
    have hSame : ∀ r, identity (if chosen r then f r else r) = identity r := by
      intro r
      split
      · exact hIdentity r
      · rfl
    have hKeys : ∀ {r s}, identity r = identity s →
        r.eventID = s.eventID ∧ r.aggregateID = s.aggregateID ∧ r.eventType = s.eventType :=
      fun h => ⟨congrArg Identity.eventID h, congrArg Identity.aggregateID h,
        congrArg Identity.eventType h⟩
    obtain ⟨hA, hA', hA''⟩ := hKeys (hSame a)
    obtain ⟨hB, hB', hB''⟩ := hKeys (hSame b)
    simpa only [outboxSchema, hA, hA', hA'', hB, hB', hB''] using hab

/-! ## Claiming -/

/-- `unicode.IsSpace` -/
def isSpace (c : Char) : Bool :=
  decide (c.toNat ∈ [0x09, 0x0A, 0x0B, 0x0C, 0x0D, 0x20, 0x85, 0xA0, 0x1680, 0x2028, 0x2029, 0x202F,
    0x205F, 0x3000]) || (decide (0x2000 ≤ c.toNat) && decide (c.toNat ≤ 0x200A))

/-- The condition of `claimable` -/
def claimable (now : Int) (r : OutboxRow) : Bool :=
  r.publishedAt.isNone && decide (r.availableAt ≤ now) &&
    r.leaseUntil.all fun leaseUntil => decide (leaseUntil ≤ now)

/-- `ORDER BY available_at, created_at, event_id`; a `uuid` is compared by its
bytes, which is how its canonical text is compared. -/
def claimKey (r : OutboxRow) : Int ×ₗ Int ×ₗ Text :=
  toLex (r.availableAt, toLex (r.createdAt, r.eventID.text))

/-- The rows `claimable` selects, without those others have locked. -/
def selectClaimable (t : Table outboxSchema) (locked : List UUID) (now : Int) (limit : Nat) :
    List OutboxRow :=
  ((t.rows.filter fun r => claimable now r && !locked.contains r.eventID).insertionSort
    fun a b => claimKey a ≤ claimKey b).take limit

/-- The largest value of an `integer` column. -/
def maxInteger : Int := 2147483647

structure ClaimEnv where
  now : Int
  -- the clock is read again when the lease is written
  elapsed : Nat
  locked : List UUID
deriving Repr

def claim (interval : Int → Int) (env : ClaimEnv) (t : Table outboxSchema) (owner : Text)
    (limit lease : Int) : Except StoreError (List Event × Table outboxSchema) :=
  if owner.all isSpace = true ∨ limit < 1 ∨ lease ≤ 0 then
    .error (.invalid "invalid outbox claim")
  else
    let chosen := selectClaimable t env.locked env.now limit.toNat
    let leaseUntil := env.now + env.elapsed + interval lease
    -- integer out of range
    if chosen.any fun r => decide (maxInteger ≤ r.attempts) then
      .error (.database "claim outbox events")
    else
      .ok (chosen.map fun r => Event.ofRow (leased owner leaseUntil r),
        rewrite t (fun r => chosen.any fun c => decide (c.eventID = r.eventID))
          (leased owner leaseUntil) (fun _ => rfl) (by
            intro r hr
            simp only [outboxSchema, Bool.and_eq_true, decide_eq_true_eq] at hr ⊢
            obtain ⟨⟨hPosition, hAttempts⟩, -⟩ := hr
            exact ⟨⟨hPosition, by simp only [leased]; omega⟩, rfl⟩))

/-! ## Settling -/

/-- The condition of both mark statements. -/
def held (canonical owner : Text) (r : OutboxRow) : Bool :=
  decide (r.eventID.text = canonical) && decide (r.leaseOwner = some owner) && r.publishedAt.isNone

theorem check_unleased {r s : OutboxRow} (h : outboxSchema.check r = true)
    (hPosition : s.merchantPosition = r.merchantPosition) (hAttempts : s.attempts = r.attempts)
    (hOwner : s.leaseOwner = none) (hUntil : s.leaseUntil = none) :
    outboxSchema.check s = true := by
  simp only [outboxSchema, Bool.and_eq_true, decide_eq_true_eq] at h ⊢
  rw [hPosition, hAttempts, hOwner, hUntil]
  exact ⟨h.1, rfl⟩

/-- An `UPDATE` of the row held by `owner`; no such row is a lost lease. -/
def settle (doing : String) (t : Table outboxSchema) (eventID owner : Text)
    (f : OutboxRow → OutboxRow) (hIdentity : ∀ r, identity (f r) = identity r)
    (hCheck : ∀ r, outboxSchema.check r = true → outboxSchema.check (f r) = true) :
    Except StoreError (Table outboxSchema) :=
  match uuidIn eventID with
  | none => .error (.database doing)
  | some canonical =>
    if (t.rows.filter (held canonical owner)).length ≠ 1 then .error .leaseLost
    else .ok (rewrite t (held canonical owner) f hIdentity hCheck)

def markPublished (now : Int) (t : Table outboxSchema) (eventID owner : Text) :
    Except StoreError (Table outboxSchema) :=
  settle "mark outbox published" t eventID owner (publishedRow now) (fun _ => rfl)
    fun _ h => check_unleased h rfl rfl rfl rfl

/-- `lastError` is what `sanitizeError` leaves of the message. Its cut after 500 bytes can split a
character; the database then refuses the statement, as it may for any other reason. -/
def markFailed (interval : Int → Int) (now : Int) (t : Table outboxSchema) (eventID owner : Text)
    (delay : Int) (lastError : Text) : Except StoreError (Table outboxSchema) :=
  if delay < 0 then .error (.invalid "outbox retry delay must not be negative")
  else
    settle "release failed outbox event" t eventID owner (released (now + interval delay) lastError)
      (fun _ => rfl) fun _ h => check_unleased h rfl rfl rfl rfl

end Cashflow.Outbox
