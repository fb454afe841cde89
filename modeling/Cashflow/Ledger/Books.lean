import Mathlib.Algebra.BigOperators.Group.List.Basic
import Cashflow.Ledger.Posting

/-!
# Ledger — what holds of every reachable ledger

A ledger is reached by postings, one after the other (`Reached`). Two
invariants are carried from posting to posting:

* `Booked` — the positions of a merchant's entries run from one to its last
  position, and the rows of `outbox_event` and `idempotency_record` belong to
  the entries, one for each;
* `Paired` — a reversal belongs to an original of the same merchant that is no
  reversal itself, with the same amount the other way round, and what is not
  reversed adds up to what there is.

Main results: `reached_booked` and `reached_paired`.
-/

namespace Cashflow.Ledger

open Lib

/-! ## Postings -/

/-- One request posts an entry. -/
def Posted (platform : Platform) (d d' : Db) : Prop :=
  ∃ env req p, Request.Attempts req env p.attempt ∧ d.Posts d' p ∧
    p.MadeBy platform.jsonb env req d

/-- The ledgers that postings reach. -/
abbrev Reached (platform : Platform) (d : Db) : Prop := Reachable (Posted platform) Db.empty d

/-- A request posts at most one entry, whatever becomes of it. -/
theorem posted_after (platform : Platform) (env : Env) (req : Request) (d : Db) :
    Reachable (Posted platform) d (req.after platform env d) := by
  unfold Request.after
  rcases run_cases platform env req d with hSame | ⟨p, hAttempts, hPosts, hMade, -⟩
  · rw [hSame]
    exact .start
  · exact Reachable.start.next ⟨env, req, p, hAttempts, hPosts, hMade⟩

namespace Db.Posts

variable {d d' : Db} {p : Posting}

/-- A posting adds one entry. -/
theorem mem_entries (h : d.Posts d' p) {e : EntryRow} :
    e ∈ d'.entries ↔ e ∈ d.entries ∨ e = p.entry.row := by
  rw [Table.mem_def, h.entries, List.mem_append, List.mem_singleton]
  rfl

/-- And one record. -/
theorem mem_idempotency (h : d.Posts d' p) {r : IdempotencyRow} :
    r ∈ d'.idempotency ↔ r ∈ d.idempotency ∨ r = p.record := by
  rw [Table.mem_def, h.idempotency, List.mem_append, List.mem_singleton]
  rfl

/-- The new entry clashes with no entry before it. -/
theorem entry_fresh (h : d.Posts d' p) {e : EntryRow} (he : e ∈ d.entries) :
    entrySchema.clash e p.entry.row = false := by
  have hUnique := d'.entries.unique
  rw [h.entries, List.pairwise_append] at hUnique
  exact hUnique.2.2 e he _ List.mem_cons_self

/-- The entry's identifier was not in use. -/
theorem id_fresh (h : d.Posts d' p) {e : EntryRow} (he : e ∈ d.entries) : e.id ≠ p.entry.id.uuid := by
  intro hEq
  have hClash := h.entry_fresh he
  rw [entrySchema, decide_eq_false_iff_not] at hClash
  exact hClash (Or.inl hEq)

end Db.Posts

/-! ## Positions, events and records -/

/-- The books are complete. -/
structure Booked (d : Db) : Prop where
  positions : ∀ (m : UUID) (n : Int),
    (∃ e ∈ d.entries, e.merchantID = m ∧ e.position.toInt = n) ↔
      1 ≤ n ∧ n ≤ (d.lastPosition m).toInt
  outbox : d.outbox.rows.map (fun o => (o.aggregateID, o.merchantID, o.merchantPosition)) =
    d.entries.rows.map fun e => (e.id, e.merchantID, e.position)
  records : d.idempotency.rows.map (fun r => (r.entryID, r.merchantID)) =
    d.entries.rows.map fun e => (some e.id, e.merchantID)

/-- A posting keeps the books: no position is skipped, and event and record are those of the entry.
-/
theorem booked_posts {platform : Platform} {env : Env} {req : Request} {d d' : Db} {p : Posting}
    (h : Booked d) (hPosts : d.Posts d' p) (hMade : p.MadeBy platform.jsonb env req d) :
    Booked d' where
  positions m n := by
    have hBefore := h.positions m n
    have hNext := hPosts.next
    rw [hPosts.positions]
    constructor
    · rintro ⟨e, he, rfl, rfl⟩
      rcases hPosts.mem_entries.mp he with he | rfl
      · -- an entry of before
        have hRange := (h.positions _ _).mp ⟨e, he, rfl, rfl⟩
        split
        · rename_i hm
          rw [hm] at hRange
          omega
        · exact hRange
      · -- the new one, at the next position
        have hLast := lastPosition_nonneg d p.entry.merchantID.uuid
        have hSame : p.entry.row.merchantID = p.entry.merchantID.uuid := rfl
        rw [if_pos hSame]
        show 1 ≤ p.entry.position.toInt ∧ p.entry.position.toInt ≤ p.entry.position.toInt
        omega
    · intro hRange
      split at hRange
      · rename_i hm
        -- the new position is the one that was missing
        by_cases hNew : n = p.entry.position.toInt
        · exact ⟨p.entry.row, hPosts.mem_entries.mpr (Or.inr rfl), hm.symm, hNew.symm⟩
        · obtain ⟨e, he, heq⟩ := hBefore.mpr (by rw [hm]; omega)
          exact ⟨e, hPosts.mem_entries.mpr (Or.inl he), heq⟩
      · obtain ⟨e, he, heq⟩ := hBefore.mpr hRange
        exact ⟨e, hPosts.mem_entries.mpr (Or.inl he), heq⟩
  outbox := by
    obtain ⟨eventID, text, payload, -, -, -, hEvent⟩ := hMade.event
    rw [hPosts.outbox, hPosts.entries, List.map_append, List.map_append, h.outbox, hEvent]
    rfl
  records := by
    rw [hPosts.idempotency, hPosts.entries, List.map_append, List.map_append, h.records]
    show _ ++ [(some p.entry.id.uuid, p.attempt.merchantID.uuid)] = _
    rw [hPosts.merchant]
    rfl

/-- So every ledger that is reached is booked. -/
theorem reached_booked {platform : Platform} {d : Db} (h : Reached platform d) : Booked d := by
  refine Reachable.invariant ?_ ?_ h
  · refine ⟨fun m n => ?_, rfl, rfl⟩
    have hZero : (Db.empty.lastPosition m).toInt = 0 := rfl
    rw [hZero]
    constructor
    · rintro ⟨e, he, -⟩
      cases he
    · intro hRange
      omega
  · rintro d d' hBooked ⟨env, req, p, -, hPosts, hMade⟩
    exact booked_posts hBooked hPosts hMade

/-- No record of a reachable ledger is left uncompleted. -/
theorem Booked.completed {d : Db} (h : Booked d) {r : IdempotencyRow} (hr : r ∈ d.idempotency) :
    ∃ e ∈ d.entries, r.entryID = some e.id ∧ r.merchantID = e.merchantID ∧
      r.responsePayload.isSome = true ∧ r.completedAt.isSome = true := by
  have hMem : (r.entryID, r.merchantID) ∈
      d.entries.rows.map fun e => (some e.id, e.merchantID) := by
    rw [← h.records]
    exact List.mem_map_of_mem hr
  obtain ⟨e, he, hEq⟩ := List.mem_map.mp hMem
  rw [Prod.mk.injEq] at hEq
  have hCheck := d.idempotency.checked r hr
  simp only [idempotencySchema, Bool.and_eq_true, beq_iff_eq, ← hEq.1, Option.isSome_some] at hCheck
  exact ⟨e, he, hEq.1.symm, hEq.2.symm, hCheck.1.2.symm, hCheck.2.symm⟩

/-! ## Reversals -/

/-- What an entry adds to the balance of its merchant. -/
def EntryRow.signed (e : EntryRow) : Int :=
  match e.entryType with
  | .credit => e.amountMinor.toInt
  | .debit => -e.amountMinor.toInt

/-- The signed sum of entries. -/
def signedSum (rows : List EntryRow) : Int := (rows.map EntryRow.signed).sum

/-- The sum of two lists. -/
@[simp] theorem signedSum_append (l m : List EntryRow) :
    signedSum (l ++ m) = signedSum l + signedSum m := by
  simp [signedSum]

/-- The entries of a merchant. -/
def Db.entriesOf (d : Db) (m : UUID) : List EntryRow := d.entries.rows.filter fun e => e.merchantID = m

/-- Some entry reverses `e`. -/
def Db.isReversed (d : Db) (e : EntryRow) : Bool :=
  d.entries.rows.any fun r => r.originalEntryID = some e.id

/-- An entry that is no reversal and has none. -/
def Db.stands (d : Db) (e : EntryRow) : Bool := decide (e.originalEntryID = none) && !d.isReversed e

/-- `r` takes back the entry `e`. -/
structure TakesBack (r e : EntryRow) : Prop where
  id : r.originalEntryID = some e.id
  root : e.originalEntryID = none
  merchantID : r.merchantID = e.merchantID
  entryType : r.entryType = e.entryType.opposite
  amountMinor : r.amountMinor = e.amountMinor
  currency : r.currency = e.currency
  position : e.position < r.position

structure Paired (d : Db) : Prop where
  original : ∀ r ∈ d.entries, r.originalEntryID ≠ none → ∃ e ∈ d.entries, TakesBack r e
  balance : ∀ m, signedSum (d.entriesOf m) = signedSum ((d.entriesOf m).filter d.stands)

/-- A reversal has the amount of its original with the other sign. -/
theorem TakesBack.signed {r e : EntryRow} (h : TakesBack r e) : r.signed = -e.signed := by
  unfold EntryRow.signed
  rw [h.entryType, h.amountMinor]
  cases e.entryType with
  | credit => rfl
  | debit => exact (Int.neg_neg _).symm

/-- Entries of a ledger are told apart by their identifiers. -/
theorem entry_eq_of_id {d : Db} {a b : EntryRow} (ha : a ∈ d.entries) (hb : b ∈ d.entries)
    (h : a.id = b.id) : a = b :=
  Table.eq_of_clash ha hb (decide_eq_true (Or.inl h))

/-- No entry is listed twice. -/
theorem entries_nodup (d : Db) : d.entries.rows.Nodup := by
  refine d.entries.unique.imp ?_
  rintro a b hClash rfl
  rw [entrySchema, decide_eq_false_iff_not] at hClash
  exact hClash (Or.inl rfl)

/-- The entry a posting takes back, if its entry is a reversal. -/
theorem posting_takesBack {platform : Platform} {env : Env} {req : Request} {d d' : Db}
    {p : Posting} (hBooked : Booked d) (hPosts : d.Posts d' p)
    (hMade : p.MadeBy platform.jsonb env req d) :
    p.entry.row.originalEntryID = none ∨
      ∃ e ∈ d.entries, TakesBack p.entry.row e ∧ d.stands e = true := by
  have hMakes := hMade.makes
  cases req with
  | create input =>
    left
    have hNone : p.entry.originalEntryID = none := hMakes.originalEntryID
    show p.entry.originalEntryID.map ID.uuid = none
    rw [hNone]
    rfl
  | reverse input =>
    right
    obtain ⟨e, hReverses, -, -⟩ := hMakes
    refine ⟨e, hReverses.mem, ⟨?_, hReverses.root, ?_, hReverses.entryType, hReverses.amountMinor,
      ?_, ?_⟩, ?_⟩
    · -- the original is named
      show p.entry.originalEntryID.map ID.uuid = some e.id
      rw [hReverses.originalEntryID, Option.map_some, uuid_id]
    · show p.entry.merchantID.uuid = e.merchantID
      rw [hReverses.merchantID, uuid_id]
    · have hCheck := d.entries.checked e hReverses.mem
      simp only [entrySchema, Bool.and_eq_true, beq_iff_eq] at hCheck
      exact hCheck.1.1.2.symm
    · -- the original's position is among those given out before
      have hRange := (hBooked.positions _ _).mp ⟨e, hReverses.mem, rfl, rfl⟩
      have hNext := hPosts.next
      rw [hReverses.merchantID, uuid_id] at hNext
      exact Int64.lt_iff_toInt_lt.mpr (by show _ < p.entry.position.toInt; omega)
    · -- it stands: it is no reversal, and nothing reverses it yet
      rw [Db.stands, Bool.and_eq_true, decide_eq_true_eq]
      refine ⟨hReverses.root, ?_⟩
      rw [Bool.not_eq_true', Db.isReversed, List.any_eq_false]
      intro r hr
      simpa using hReverses.unreversed r hr

section Posted

variable {d d' : Db} {p : Posting}

/-- A posting is its merchant's. -/
theorem entriesOf_posts (hPosts : d.Posts d' p) (m : UUID) :
    d'.entriesOf m = d.entriesOf m ++ [p.entry.row].filter fun e => e.merchantID = m := by
  rw [Db.entriesOf, hPosts.entries, List.filter_append]
  rfl

/-- Only the entry a posting takes back is reversed by it. -/
theorem isReversed_posts (hPosts : d.Posts d' p) (e : EntryRow) :
    d'.isReversed e = (d.isReversed e || decide (p.entry.row.originalEntryID = some e.id)) := by
  simp [Db.isReversed, hPosts.entries]

/-- Nothing refers to the identifier of the new entry. -/
theorem isReversed_new (hPaired : Paired d) (hPosts : d.Posts d' p) :
    d.isReversed p.entry.row = false := by
  rw [Db.isReversed, List.any_eq_false]
  intro r hr hRefers
  rw [decide_eq_true_eq] at hRefers
  obtain ⟨e, he, hTakes⟩ := hPaired.original r hr (by rw [hRefers]; exact Option.some_ne_none _)
  have hSame : some e.id = some p.entry.row.id := hTakes.id.symm.trans hRefers
  exact hPosts.id_fresh he (Option.some.inj hSame)

/-- A new original stands, and leaves standing what stood. -/
theorem stands_original (hPaired : Paired d) (hPosts : d.Posts d' p)
    (hRoot : p.entry.row.originalEntryID = none) (m : UUID) :
    (d'.entriesOf m).filter d'.stands =
      (d.entriesOf m).filter d.stands ++ [p.entry.row].filter fun e => e.merchantID = m := by
  have hSame : ∀ e, d'.stands e = d.stands e := fun e => by
    rw [Db.stands, Db.stands, isReversed_posts hPosts, hRoot]
    simp
  have hStands : d.stands p.entry.row = true := by
    rw [Db.stands, isReversed_new hPaired hPosts, hRoot]
    rfl
  rw [entriesOf_posts hPosts, List.filter_append, funext hSame]
  congr 1
  rw [List.filter_eq_self]
  intro e he
  rw [List.mem_singleton.mp (List.mem_filter.mp he).1]
  exact hStands

/-- A reversal does not stand, and makes what it takes back fall. -/
theorem stands_reversal (hPosts : d.Posts d' p) {e : EntryRow} (he : e ∈ d.entries)
    (hTakes : TakesBack p.entry.row e) (m : UUID) :
    (d'.entriesOf m).filter d'.stands = ((d.entriesOf m).filter d.stands).erase e := by
  have hNodup : ((d.entriesOf m).filter d.stands).Nodup :=
    ((entries_nodup d).filter _).filter _
  -- a reversal does not stand itself
  have hNew : d'.stands p.entry.row = false := by
    rw [Db.stands, hTakes.id]
    rfl
  -- and the entry it takes back stands no more
  have hFall : ∀ x ∈ d.entriesOf m, d'.stands x = (x != e && d.stands x) := by
    intro x hx
    have hId : e.id = x.id ↔ x = e :=
      ⟨fun h => entry_eq_of_id (List.mem_filter.mp hx).1 he h.symm, fun h => h ▸ rfl⟩
    rw [Db.stands, Db.stands, isReversed_posts hPosts, hTakes.id]
    simp only [Option.some.injEq, hId, Bool.not_or]
    by_cases hx : x = e <;> simp [hx]
  have hLast : ([p.entry.row].filter fun x => x.merchantID = m).filter d'.stands = [] := by
    rw [List.filter_eq_nil_iff]
    intro x hx
    rw [List.mem_singleton.mp (List.mem_filter.mp hx).1, hNew]
    exact Bool.false_ne_true
  rw [hNodup.erase_eq_filter, List.filter_filter, entriesOf_posts hPosts, List.filter_append,
    hLast, List.append_nil]
  exact List.filter_congr hFall

/-- A posting keeps reversals paired and the balance that of the entries that stand. -/
theorem paired_posts {platform : Platform} {env : Env} {req : Request} (hBooked : Booked d)
    (hPaired : Paired d) (hPosts : d.Posts d' p) (hMade : p.MadeBy platform.jsonb env req d) :
    Paired d' where
  original r hr hRefers := by
    rcases hPosts.mem_entries.mp hr with hr | rfl
    · obtain ⟨e, he, hTakes⟩ := hPaired.original r hr hRefers
      exact ⟨e, hPosts.mem_entries.mpr (Or.inl he), hTakes⟩
    · rcases posting_takesBack hBooked hPosts hMade with hNone | ⟨e, he, hTakes, -⟩
      · exact absurd hNone hRefers
      · exact ⟨e, hPosts.mem_entries.mpr (Or.inl he), hTakes⟩
  balance m := by
    rw [entriesOf_posts hPosts, signedSum_append, hPaired.balance m]
    rcases posting_takesBack hBooked hPosts hMade with hRoot | ⟨e, he, hTakes, hStands⟩
    · -- a new original stands with the others
      rw [← entriesOf_posts hPosts, stands_original hPaired hPosts hRoot, signedSum_append]
    · rw [← entriesOf_posts hPosts, stands_reversal hPosts he hTakes]
      by_cases hm : e.merchantID = m
      · -- the reversal and the entry that falls cancel
        have hMem : e ∈ (d.entriesOf m).filter d.stands :=
          List.mem_filter.mpr ⟨List.mem_filter.mpr ⟨he, decide_eq_true hm⟩, hStands⟩
        have hErase := List.sum_map_erase EntryRow.signed hMem
        have hNew : signedSum ([p.entry.row].filter fun x => x.merchantID = m) = -e.signed := by
          rw [List.filter_singleton, hTakes.merchantID, decide_eq_true hm]
          simp [signedSum, hTakes.signed]
        rw [hNew]
        unfold signedSum
        omega
      · -- another merchant's balance is as it was
        have hNew : ([p.entry.row].filter fun x => x.merchantID = m) = [] := by
          rw [List.filter_singleton, hTakes.merchantID, decide_eq_false hm]
          rfl
        have hNot : e ∉ (d.entriesOf m).filter d.stands := fun hMem =>
          hm (of_decide_eq_true (List.mem_filter.mp (List.mem_filter.mp hMem).1).2)
        rw [hNew, List.erase_of_not_mem hNot]
        exact Int.add_zero _

end Posted

/-- So every ledger that is reached is paired. -/
theorem reached_paired {platform : Platform} {d : Db} (h : Reached platform d) : Paired d := by
  have hEmpty : Reached platform Db.empty := Reachable.start
  -- that a reversal comes after its original needs the positions given out so far
  have hBoth := @Reachable.invariant _ _ _ (fun d => Booked d ∧ Paired d)
    ⟨reached_booked hEmpty, fun r hr => (by cases hr), fun m => rfl⟩
    (fun d d' ⟨hBooked, hPaired⟩ ⟨_, _, _, _, hPosts, hMade⟩ =>
      ⟨booked_posts hBooked hPosts hMade, paired_posts hBooked hPaired hPosts hMade⟩) d h
  exact hBoth.2

end Cashflow.Ledger
