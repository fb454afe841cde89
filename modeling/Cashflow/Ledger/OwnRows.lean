import Cashflow.Lib.Confinement
import Cashflow.Ledger.Books

/-!
# Ledger — a merchant's own rows

`d.only m` is the ledger with the rows of the merchant `m` alone, `d.others m`
the ledger without them. The transactions of `m` do on the shared ledger what
they do on `d.only m`, and leave `d.others m` alone. Some statements look past
the merchant, by an identifier alone; what keeps them from telling is that
generated identifiers are new, and that the foreign keys stay within a merchant.

Main results:

* `reached_foreignKeys` — the ledgers that requests reach keep the foreign keys;
* `apply_within`, `eval_only` — writes and statements about the rows of `m`;
* `run_only` — creating and reversing entries.
-/

namespace Cashflow.Ledger

open Lib

/-! ## The rows of a merchant -/

/-- The rows of the merchants that satisfy `p`. -/
def Db.restrict (p : UUID → Bool) (d : Db) : Db where
  positions := d.positions.restrict fun r => p r.merchantID
  entries := d.entries.restrict fun r => p r.merchantID
  idempotency := d.idempotency.restrict fun r => p r.merchantID
  outbox := d.outbox.restrict fun r => p r.merchantID

def Db.only (m : UUID) (d : Db) : Db := d.restrict fun u => u == m

def Db.others (m : UUID) (d : Db) : Db := d.restrict fun u => !(u == m)

/-- The foreign keys of entries and events. Both name the merchant with the
entry. -/
structure Db.ForeignKeys (d : Db) : Prop where
  original : ∀ r ∈ d.entries.rows, ∀ o, r.originalEntryID = some o →
    ∃ e ∈ d.entries.rows, e.merchantID = r.merchantID ∧ e.id = o
  event : ∀ x ∈ d.outbox.rows, ∃ e ∈ d.entries.rows, e.merchantID = x.merchantID ∧
    e.id = x.aggregateID ∧ e.position = x.merchantPosition

/-- The ledgers that postings reach keep them. -/
theorem reached_foreignKeys {platform : Platform} {d : Db} (h : Reached platform d) :
    d.ForeignKeys where
  original r hr o ho := by
    have hRefers : r.originalEntryID ≠ none := by
      rw [ho]
      exact Option.some_ne_none o
    obtain ⟨e, he, hTakes⟩ := (reached_paired h).original r hr hRefers
    refine ⟨e, he, hTakes.merchantID.symm, ?_⟩
    rw [hTakes.id, Option.some.injEq] at ho
    exact ho
  event x hx := by
    have hMem : (x.aggregateID, x.merchantID, x.merchantPosition) ∈
        d.outbox.rows.map fun o => (o.aggregateID, o.merchantID, o.merchantPosition) :=
      List.mem_map_of_mem hx
    rw [(reached_booked h).outbox] at hMem
    obtain ⟨e, he, hEq⟩ := List.mem_map.mp hMem
    simp only [Prod.mk.injEq] at hEq
    exact ⟨e, he, hEq.2.1, hEq.1, hEq.2.2⟩

variable {jsonb : Json.Jsonb} {m : UUID} {d o : Db}

/-- What is known of the rows of the other merchants. -/
structure Foreign (m : UUID) (o : Db) : Prop where
  entries : ∀ r ∈ o.entries, r.merchantID ≠ m
  idempotency : ∀ r ∈ o.idempotency, r.merchantID ≠ m
  keys : o.ForeignKeys

/-- The other merchants' part of a ledger whose rows refer to rows that are there. -/
theorem foreign_others (hKeys : d.ForeignKeys) (m : UUID) : Foreign m (d.others m) := by
  have hNot : ∀ u : UUID, (!(u == m)) = true → u ≠ m := fun u hu => by simpa using hu
  have hEntry : ∀ e ∈ d.entries, ∀ u : UUID, (!(u == m)) = true → e.merchantID = u →
      e ∈ (d.others m).entries := fun e he u hu hEq =>
    Table.mem_restrict.mpr ⟨he, by rw [hEq]; exact hu⟩
  refine ⟨fun r hr => hNot _ (Table.mem_restrict.mp hr).2,
    fun r hr => hNot _ (Table.mem_restrict.mp hr).2, fun r hr o ho => ?_, fun x hx => ?_⟩
  · obtain ⟨hr, hMerchant⟩ := Table.mem_restrict.mp hr
    obtain ⟨e, he, hSame, hId⟩ := hKeys.original r hr o ho
    exact ⟨e, hEntry e he _ hMerchant hSame, hSame, hId⟩
  · obtain ⟨hx, hMerchant⟩ := Table.mem_restrict.mp hx
    obtain ⟨e, he, hSame, hId⟩ := hKeys.event x hx
    exact ⟨e, hEntry e he _ hMerchant hSame, hSame, hId⟩

/-- An entry of the merchant is reversed by no one else. -/
theorem Foreign.not_reversed (hForeign : Foreign m o) {id : UUID}
    (hId : ∀ e ∈ o.entries, e.id ≠ id) :
    ∀ r ∈ o.entries, r.originalEntryID ≠ some id := by
  intro r hr hOriginal
  obtain ⟨e, he, -, hEq⟩ := hForeign.keys.original r hr id hOriginal
  exact hId e he hEq

/-- The merchant's rows and the others' have no identifier in common. -/
theorem others_id_ne {row : EntryRow} (hRow : row ∈ d.entries) (hMerchant : row.merchantID = m) :
    ∀ e ∈ (d.others m).entries, e.id ≠ row.id := by
  intro e he hId
  obtain ⟨he, hOther⟩ := Table.mem_restrict.mp he
  have hEq : e = row := Table.eq_of_clash he hRow (decide_eq_true (Or.inl hId))
  simp [hEq, hMerchant] at hOther

/-! ## Writes -/

/-- A write that touches the rows of `m` only and clashes with none of `o`. -/
def Write.Within (m : UUID) (o : Db) : Write → Prop
  | .position row => row.merchantID = m
  | .entry row => row.merchantID = m ∧ o.entries.conflicts row = false
  | .record row => row.merchantID = m ∧ o.idempotency.conflicts row = false
  | .complete attemptID _ _ _ => ∀ r ∈ o.idempotency, r.attemptID ≠ attemptID
  | .outbox row => row.merchantID = m ∧ o.outbox.conflicts row = false

/-- A merchant's position is among its own rows. -/
theorem position?_only (d : Db) (m : UUID) : (d.only m).position? m = d.position? m :=
  Table.find?_restrict fun _ _ hr => beq_iff_eq.mpr (of_decide_eq_true hr)

/-- Putting the row of `m` moves no row to another merchant. -/
theorem putPosition_keeps {row : PositionRow} (r : PositionRow) :
    (if r.merchantID = row.merchantID then row else r).merchantID = r.merchantID := by
  split
  · rename_i h
    exact h.symm
  · rfl

/-- Writing a merchant's position, on its own rows. -/
theorem putPosition_only {row : PositionRow} (h : row.merchantID = m) :
    (d.only m).putPosition row =
      (d.putPosition row).map (Table.restrict fun r => r.merchantID == m) := by
  have hFind : (d.only m).position? row.merchantID = d.position? row.merchantID := by
    rw [h]
    exact position?_only d m
  unfold Db.putPosition
  rw [hFind]
  split
  · refine Table.update_restrict (fun r _ => ?_) fun r _ hr => ?_
    · rw [putPosition_keeps]
    · rw [if_neg (by rw [h]; exact beq_eq_false_iff_ne.mp hr)]
  · refine Table.insert_restrict (beq_iff_eq.mpr h) (Table.conflicts_eq_false.mpr fun a ha => ?_)
    have hOther := (Table.mem_restrict.mp ha).2
    rw [positionSchema, decide_eq_false_iff_not, h]
    simpa using hOther

/-- It leaves the rows of the others. -/
theorem putPosition_others {row : PositionRow} {t : Table positionSchema} (h : row.merchantID = m)
    (hPut : d.putPosition row = .ok t) :
    t.restrict (fun r => !(r.merchantID == m)) =
      d.positions.restrict fun r => !(r.merchantID == m) := by
  unfold Db.putPosition at hPut
  split at hPut
  · refine Table.restrict_update (fun r _ => ?_) (fun r _ hr => ?_) hPut
    · rw [putPosition_keeps]
    · exact if_neg (by rw [h]; simpa using hr)
  · exact Table.restrict_insert (by simp [h]) hPut

section CompleteRecord

variable {attemptID entryID : UUID} {response : Text} {completedAt : Int}

/-- Completing a record leaves it to its merchant. -/
theorem complete_keeps (r : IdempotencyRow) :
    (if r.attemptID = attemptID then r.complete entryID response completedAt else r).merchantID =
      r.merchantID := by
  split <;> rfl

/-- An attempt that is no other merchant's, said of the whole table. -/
theorem attempt_ne (h : ∀ r ∈ (d.others m).idempotency, r.attemptID ≠ attemptID)
    {r : IdempotencyRow} (hr : r ∈ d.idempotency) (hOther : r.merchantID ≠ m) :
    r.attemptID ≠ attemptID :=
  h r (Table.mem_restrict.mpr ⟨hr, by simpa using hOther⟩)

/-- Completing a merchant's attempt, on its own rows. -/
theorem completeRecord_only (h : ∀ r ∈ (d.others m).idempotency, r.attemptID ≠ attemptID) :
    (d.only m).completeRecord attemptID entryID response completedAt =
      (d.completeRecord attemptID entryID response completedAt).map
        (Table.restrict fun r => r.merchantID == m) := by
  refine Table.update_restrict (fun r _ => ?_) fun r hr hOther => ?_
  · rw [complete_keeps]
  · exact if_neg (attempt_ne h hr (beq_eq_false_iff_ne.mp hOther))

/-- And it leaves the rows of the others. -/
theorem completeRecord_others {t : Table idempotencySchema}
    (h : ∀ r ∈ (d.others m).idempotency, r.attemptID ≠ attemptID)
    (hUpdate : d.completeRecord attemptID entryID response completedAt = .ok t) :
    t.restrict (fun r => !(r.merchantID == m)) =
      d.idempotency.restrict fun r => !(r.merchantID == m) := by
  refine Table.restrict_update (fun r _ => ?_) (fun r hr hOther => ?_) hUpdate
  · rw [complete_keeps]
  · exact if_neg (attempt_ne h hr (by simpa using hOther))

end CompleteRecord

/-- A write within `m` is the same on the rows of `m`, and changes no other. -/
theorem apply_within {w : Write} (h : w.Within m (d.others m)) :
    (d.only m).apply w = (d.apply w).only m ∧ (d.apply w).others m = d.others m := by
  -- each write is to one table, so it is enough to look at that one
  cases w with
  | position row =>
    refine ⟨congrArg (fun t => { d.only m with positions := t }) ?_,
      congrArg (fun t => { d.others m with positions := t }) ?_⟩
    · rw [putPosition_only h]
      exact Table.orKeep_map_restrict _
    · exact Table.restrict_orKeep fun u hu => putPosition_others h hu
  | entry row =>
    refine ⟨congrArg (fun t => { d.only m with entries := t }) ?_,
      congrArg (fun t => { d.others m with entries := t }) ?_⟩
    · rw [show (d.only m).entries.insert row = _ from
        Table.insert_restrict (beq_iff_eq.mpr h.1) h.2]
      exact Table.orKeep_map_restrict _
    · exact Table.restrict_orKeep fun u hu => Table.restrict_insert (by simp [h.1]) hu
  | record row =>
    refine ⟨congrArg (fun t => { d.only m with idempotency := t }) ?_,
      congrArg (fun t => { d.others m with idempotency := t }) ?_⟩
    · rw [show (d.only m).idempotency.insert row = _ from
        Table.insert_restrict (beq_iff_eq.mpr h.1) h.2]
      exact Table.orKeep_map_restrict _
    · exact Table.restrict_orKeep fun u hu => Table.restrict_insert (by simp [h.1]) hu
  | complete attemptID entryID response completedAt =>
    refine ⟨congrArg (fun t => { d.only m with idempotency := t }) ?_,
      congrArg (fun t => { d.others m with idempotency := t }) ?_⟩
    · rw [completeRecord_only h]
      exact Table.orKeep_map_restrict _
    · exact Table.restrict_orKeep fun u hu => completeRecord_others h hu
  | outbox row =>
    refine ⟨congrArg (fun t => { d.only m with outbox := t }) ?_,
      congrArg (fun t => { d.others m with outbox := t }) ?_⟩
    · rw [show (d.only m).outbox.insert row = _ from
        Table.insert_restrict (beq_iff_eq.mpr h.1) h.2]
      exact Table.orKeep_map_restrict _
    · exact Table.restrict_orKeep fun u hu => Table.restrict_insert (by simp [h.1]) hu

/-- The same for the writes of a transaction, one after another. -/
theorem view_within {ws : List Write} (h : ∀ w ∈ ws, w.Within m (d.others m)) :
    (engine jsonb).view (d.only m) ws = ((engine jsonb).view d ws).only m ∧
      ((engine jsonb).view d ws).others m = d.others m := by
  induction ws generalizing d with
  | nil => exact ⟨rfl, rfl⟩
  | cons w ws ih =>
    obtain ⟨hOnly, hOthers⟩ := apply_within (h w List.mem_cons_self)
    have hRest : ∀ v ∈ ws, v.Within m ((d.apply w).others m) := fun v hv => by
      rw [hOthers]
      exact h v (List.mem_cons_of_mem w hv)
    obtain ⟨hView, hView'⟩ := ih hRest
    refine ⟨?_, hView'.trans hOthers⟩
    show (engine jsonb).view ((d.only m).apply w) ws = _
    rw [hOnly]
    exact hView

/-! ## Statements -/

/-- A statement that is about the rows of `m` and meets none of `o`. -/
def Stmt.Within (m : UUID) (o : Db) : Stmt → Prop
  | .insertIdempotency row => row.merchantID = m ∧ o.idempotency.conflicts row = false
  | .selectIdempotency scope => scope.1 = m
  | .updateIdempotency attemptID _ _ _ => ∀ r ∈ o.idempotency, r.attemptID ≠ attemptID
  | .upsertPosition merchantID _ => merchantID = m
  | .insertEntry row => row.merchantID = m ∧ o.entries.conflicts row = false
  | .selectEntryForUpdate merchantID _ => merchantID = m
  | .existsReversal entryID => ∀ r ∈ o.entries, r.originalEntryID ≠ some entryID
  | .insertOutbox row => row.merchantID = m ∧ o.outbox.conflicts row = false

/-- An entry of another merchant is in the others' part. -/
theorem mem_others {r : EntryRow} (hr : r ∈ d.entries) (hOther : r.merchantID ≠ m) :
    r ∈ (d.others m).entries := Table.mem_restrict.mpr ⟨hr, by simpa using hOther⟩

/-- Looking for an entry that only the merchant can have. -/
theorem any_entries_only {P : EntryRow → Prop} [DecidablePred P]
    (h : ∀ e ∈ d.entries, P e → e.merchantID = m) :
    (d.only m).entries.rows.any (fun e => decide (P e)) =
      d.entries.rows.any fun e => decide (P e) :=
  Table.any_restrict fun e he hP => beq_iff_eq.mpr (h e he (of_decide_eq_true hP))

/-- Whether an attempt conflicts is decided by the merchant's own records. -/
theorem evalInsertIdempotency_only {row : IdempotencyRow} (hMerchant : row.merchantID = m)
    (hApart : (d.others m).idempotency.conflicts row = false) :
    (d.only m).evalInsertIdempotency row = d.evalInsertIdempotency row := by
  have hScope : (d.only m).idempotency.rows.any (fun r => decide (r.scope = row.scope)) =
      d.idempotency.rows.any fun r => decide (r.scope = row.scope) :=
    Table.any_restrict fun r _ hr =>
      beq_iff_eq.mpr ((congrArg Prod.fst (of_decide_eq_true hr)).trans hMerchant)
  have hInsert : (d.only m).idempotency.insert row = _ :=
    Table.insert_restrict (beq_iff_eq.mpr hMerchant) hApart
  rw [Db.evalInsertIdempotency, Db.evalInsertIdempotency, hScope, hInsert]
  cases d.idempotency.insert row with
  | ok t => rfl
  | error v => cases v <;> rfl

/-- Whether an attempt can be completed is, too. -/
theorem evalUpdateIdempotency_only {attemptID entryID : UUID} {response : Text} {completedAt : Int}
    (h : ∀ r ∈ (d.others m).idempotency, r.attemptID ≠ attemptID) :
    (d.only m).evalUpdateIdempotency jsonb attemptID entryID response completedAt =
      d.evalUpdateIdempotency jsonb attemptID entryID response completedAt := by
  -- the record of the attempt is one of the merchant's, so its entry is too
  have hOwn : ∀ r ∈ d.idempotency, r.attemptID = attemptID → r.merchantID = m := by
    intro r hr hAttempt
    by_contra hOther
    exact attempt_ne h hr hOther hAttempt
  have hFind : (d.only m).idempotency.find? (fun r => r.attemptID = attemptID ∧
      r.completedAt = none) = d.idempotency.find? fun r => r.attemptID = attemptID ∧
      r.completedAt = none :=
    Table.find?_restrict fun r hr hKey => beq_iff_eq.mpr (hOwn r hr (of_decide_eq_true hKey).1)
  rw [Db.evalUpdateIdempotency, Db.evalUpdateIdempotency, hFind]
  cases jsonb.cast response with
  | none => rfl
  | some payload =>
    cases hRow : d.idempotency.find? (fun r => r.attemptID = attemptID ∧ r.completedAt = none) with
    | none => rfl
    | some r =>
      obtain ⟨hr, hKey⟩ := Table.find?_some hRow
      have hMerchant := hOwn r hr (of_decide_eq_true hKey).1
      have hEntry := any_entries_only (d := d) (P := fun e => e.merchantID = r.merchantID ∧
        e.id = entryID) fun e _ he => he.1.trans hMerchant
      simp only [hEntry]

/-- And whether an entry can be inserted, and else which index it breaks. -/
theorem evalInsertEntry_only {row : EntryRow} (hMerchant : row.merchantID = m)
    (hApart : (d.others m).entries.conflicts row = false) :
    -- a conflict would be with one of the merchant's own rows
    (d.only m).evalInsertEntry row = d.evalInsertEntry row := by
  have hInsert : (d.only m).entries.insert row = _ :=
    Table.insert_restrict (beq_iff_eq.mpr hMerchant) hApart
  -- the index that is reported is found among the merchant's rows
  have hId : ∀ e ∈ d.entries, e.id = row.id → e.merchantID = m := by
    intro e he hId
    by_contra hOther
    have hFree := Table.conflicts_eq_false.mp hApart e (mem_others he hOther)
    exact of_decide_eq_false hFree (Or.inl hId)
  have hBroken : (d.only m).brokenUnique row = d.brokenUnique row := by
    rw [Db.brokenUnique, Db.brokenUnique, any_entries_only hId,
      any_entries_only fun e _ he => he.1.trans hMerchant]
  have hOriginal : (fun x => (d.only m).entries.rows.any fun e =>
      decide (e.merchantID = row.merchantID ∧ e.id = x)) = fun x => d.entries.rows.any fun e =>
      decide (e.merchantID = row.merchantID ∧ e.id = x) :=
    funext fun x => any_entries_only fun e _ he => he.1.trans hMerchant
  rw [Db.evalInsertEntry, Db.evalInsertEntry, hInsert, hBroken, hOriginal]
  cases d.entries.insert row with
  | ok t => rfl
  | error v => cases v <;> rfl

/-- And its event. -/
theorem evalInsertOutbox_only {row : OutboxRow} (hMerchant : row.merchantID = m)
    (hApart : (d.others m).outbox.conflicts row = false) :
    (d.only m).evalInsertOutbox jsonb row = d.evalInsertOutbox jsonb row := by
  rw [Db.evalInsertOutbox, Db.evalInsertOutbox]
  cases jsonb.cast row.payload with
  | none => rfl
  | some payload =>
    have hInsert : (d.only m).outbox.insert { row with payload } = _ :=
      Table.insert_restrict (beq_iff_eq.mpr hMerchant) hApart
    have hEntry := any_entries_only (d := d) (P := fun e => e.merchantID = row.merchantID ∧
      e.id = row.aggregateID ∧ e.position = row.merchantPosition) fun e _ he => he.1.trans hMerchant
    simp only [hInsert, hEntry]
    cases d.outbox.insert { row with payload } with
    | ok t => rfl
    | error v => cases v <;> rfl

/-- A statement within `m` is answered from the rows of `m`. -/
theorem eval_only {s : Stmt} (h : s.Within m (d.others m)) :
    Db.eval jsonb s (d.only m) = Db.eval jsonb s d := by
  cases s with
  | insertIdempotency row => exact evalInsertIdempotency_only h.1 h.2
  | selectIdempotency scope =>
    -- a scope names its merchant, so that only rows of that one are found
    have hFind : (d.only m).idempotency.find? (fun r => r.scope = scope) =
        d.idempotency.find? fun r => r.scope = scope :=
      Table.find?_restrict fun r _ hr =>
        beq_iff_eq.mpr ((congrArg Prod.fst (of_decide_eq_true hr)).trans h)
    simp only [Db.eval, Db.evalSelectIdempotency, hFind]
  | updateIdempotency attemptID entryID response completedAt => exact evalUpdateIdempotency_only h
  | upsertPosition merchantID now =>
    have hFind := position?_only d m
    cases h
    simp only [Db.eval, Db.evalUpsertPosition, hFind]
  | insertEntry row => exact evalInsertEntry_only h.1 h.2
  | selectEntryForUpdate merchantID entryID =>
    have hFind : (d.only m).entries.find? (fun r => r.merchantID = merchantID ∧ r.id = entryID) =
        d.entries.find? fun r => r.merchantID = merchantID ∧ r.id = entryID :=
      Table.find?_restrict fun r _ hr => beq_iff_eq.mpr ((of_decide_eq_true hr).1.trans h)
    simp only [Db.eval, Db.evalSelectEntryForUpdate, hFind]
  | existsReversal entryID =>
    have hAny := any_entries_only (d := d) (m := m)
      (P := fun e => e.originalEntryID = some entryID) fun e he hOriginal => by
        by_contra hOther
        exact h e (mem_others he hOther) hOriginal
    simp only [Db.eval, hAny]
  | insertOutbox row => exact evalInsertOutbox_only h.1 h.2

/-- A statement of a merchant writes within its rows. -/
theorem writes_within {s : Stmt} {r : s.Result} {ws : List Write} (h : s.Within m o)
    (hEval : Db.eval jsonb s d = .ok (r, ws)) : ∀ w ∈ ws, w.Within m o := by
  -- one case for each statement: it reads, or it writes one row of the merchant
  cases s with
  | insertIdempotency row =>
    rcases evalInsertIdempotency_ok.mp hEval with ⟨-, rfl, -⟩ | ⟨-, rfl, -⟩
    · exact List.forall_mem_nil _
    · exact List.forall_mem_singleton.mpr h
  | selectIdempotency scope =>
    obtain ⟨rfl, -⟩ := evalSelectIdempotency_ok.mp hEval
    exact List.forall_mem_nil _
  | updateIdempotency attemptID entryID response completedAt =>
    obtain ⟨payload, -, ⟨-, rfl, -⟩ | ⟨-, rfl, -⟩⟩ := evalUpdateIdempotency_ok.mp hEval
    · exact List.forall_mem_nil _
    · exact List.forall_mem_singleton.mpr h
  | upsertPosition merchantID now =>
    obtain ⟨-, rfl, -⟩ := evalUpsertPosition_ok hEval
    exact List.forall_mem_singleton.mpr h
  | insertEntry row =>
    obtain ⟨rfl, -⟩ := evalInsertEntry_ok.mp hEval
    exact List.forall_mem_singleton.mpr h
  | selectEntryForUpdate merchantID entryID =>
    obtain ⟨rfl, -⟩ := evalSelectEntryForUpdate_ok.mp hEval
    exact List.forall_mem_nil _
  | existsReversal entryID =>
    cases hEval
    exact List.forall_mem_nil _
  | insertOutbox row =>
    obtain ⟨payload, -, rfl, -⟩ := evalInsertOutbox_ok.mp hEval
    exact List.forall_mem_singleton.mpr h

/-- So a statement of a merchant is confined to its rows. -/
theorem confined {s : Stmt} (h : s.Within m o) :
    (engine jsonb).Confined (Db.only m) (fun d => d.others m = o) s fun _ => True where
  answer d hOthers := eval_only (hOthers.symm ▸ h)
  writes d hOthers r ws hEval := by
    have hWrites := writes_within h hEval
    rw [← hOthers] at hWrites
    obtain ⟨hView, hSame⟩ := @view_within jsonb m d ws hWrites
    exact ⟨hView, hSame.trans hOthers, trivial⟩

/-- An entry the merchant reads has an identifier no other merchant uses. -/
theorem confined_select (entryID : UUID) :
    (engine jsonb).Confined (Db.only m) (fun d => d.others m = o) (.selectEntryForUpdate m entryID)
      fun row => row.merchantID = m ∧ row.id = entryID ∧ ∀ e ∈ o.entries, e.id ≠ entryID where
  answer d hOthers := (@confined jsonb m o (.selectEntryForUpdate m entryID) rfl).answer d hOthers
  writes d hOthers row ws hEval := by
    obtain ⟨hView, hSame, -⟩ := (@confined jsonb m o (.selectEntryForUpdate m entryID) rfl).writes d
      hOthers row ws hEval
    obtain ⟨-, hRow, hMerchant, hId⟩ := evalSelectEntryForUpdate_ok.mp hEval
    refine ⟨hView, hSame, hMerchant, hId, ?_⟩
    rw [← hOthers, ← hId]
    exact others_id_ne hRow hMerchant

/-! ## Transactions -/

/-- The identifiers a request generates. -/
def Env.attemptID (env : Env) : Option UUID :=
  (newUUIDv7 env.claimedAt.nanos env.attemptEntropy).toOption.map ID.uuid

def Env.entryID (env : Env) : Option UUID :=
  (newUUIDv7 env.createdAt.nanos env.entryEntropy).toOption.map ID.uuid

def Env.eventID (env : Env) : Option UUID :=
  (newUUIDv7 env.createdAt.nanos env.eventEntropy).toOption.map ID.uuid

/-- None of the identifiers a request generates is in use in `o`. -/
structure Env.Fresh (env : Env) (o : Db) : Prop where
  attempt : ∀ r ∈ o.idempotency.rows, env.attemptID ≠ some r.attemptID
  entry : ∀ e ∈ o.entries.rows, env.entryID ≠ some e.id
  event : ∀ x ∈ o.outbox.rows, env.eventID ≠ some x.eventID

/-- A program of the merchant does on the shared ledger what it does on the
merchant's own, and leaves `o` alone. -/
abbrev Stays {α : Type} (jsonb : Json.Jsonb) (fault : Stmt → Option DbError) (m : UUID) (o : Db)
    (p : Tx α) (Q : α → Prop) : Prop :=
  ((engine jsonb).withFaults fault).Follows (Db.only m) (fun d => d.others m = o) p Q

section Transactions

variable {fault : Stmt → Option DbError} {env : Env} {platform : Platform}

/-- A call of such a statement stays within them. -/
theorem stays_call {s : Stmt} {fail : DbError → LedgerError} (h : s.Within m o) :
    Stays jsonb fault m o (call s fail) fun _ => True :=
  .call ((confined h).withFaults fault)

/-- Claiming an idempotency key does. -/
theorem stays_claimIdempotency {attempt : IdempotencyAttempt} (hForeign : Foreign m o)
    (hMerchant : attempt.merchantID.uuid = m)
    (hFresh : ∀ r ∈ o.idempotency, r.attemptID ≠ attempt.attemptID.uuid) :
    Stays jsonb fault m o (claimIdempotency attempt) fun _ => True := by
  have hApart : o.idempotency.conflicts attempt.row = false := by
    refine Table.conflicts_eq_false.mpr fun r hr => decide_eq_false ?_
    rintro (hAttempt | hScope)
    · exact hFresh r hr hAttempt
    · exact hForeign.idempotency r hr ((congrArg Prod.fst hScope).trans hMerchant)
  refine .bind (stays_call ⟨hMerchant, hApart⟩) fun claimed _ => ?_
  split
  · exact .pure trivial
  · exact .bind (stays_call hMerchant) fun found _ => .pure trivial

/-- And completing it. -/
theorem stays_completeIdempotency {attemptID entryID : ID} {response : Text} {completedAt : Int}
    (hFresh : ∀ r ∈ o.idempotency, r.attemptID ≠ attemptID.uuid) :
    Stays jsonb fault m o (completeIdempotency attemptID entryID response completedAt)
      fun _ => True := by
  refine .bind (stays_call hFresh) fun updated _ => ?_
  split
  · exact .pure trivial
  · exact .lift fun _ _ => trivial

/-- The entry that is read has an identifier no other merchant uses, so that its
reversals are the merchant's. -/
theorem stays_entryForUpdate {merchantID entryID : ID} (hForeign : Foreign m o)
    (hMerchant : merchantID.uuid = m) :
    Stays jsonb fault m o (entryForUpdate merchantID entryID) fun entry =>
      entry.merchantID.uuid = m ∧ ∀ r ∈ o.entries, r.originalEntryID ≠ some entry.id.uuid := by
  subst hMerchant
  refine .bind (.call ((confined_select entryID.uuid).withFaults fault)) fun row hRow => ?_
  obtain ⟨hRowMerchant, hRowId, hFree⟩ := hRow
  have hNotReversed := hForeign.not_reversed hFree
  refine .bind (.lift (fun entry hEntry => restoreEntry_ok (mapError_ok.mp hEntry)))
    fun entry hEntry => .bind (stays_call hNotReversed) fun reversed _ => ?_
  split
  · exact .lift fun _ hError => by cases hError
  · refine .pure ⟨?_, ?_⟩
    · rw [hEntry.2.1, uuid_id]
      exact hRowMerchant
    · rw [hEntry.1, uuid_id, hRowId]
      exact hNotReversed

/-- Writing the event of a new entry does. -/
theorem stays_insertOutbox {entry : Entry} {traceparent : Text} (hForeign : Foreign m o)
    (hFresh : env.Fresh o) (hMerchant : entry.merchantID.uuid = m)
    (hNew : ∀ r ∈ o.entries, r.id ≠ entry.id.uuid) :
    Stays jsonb fault m o (insertOutbox env entry env.createdAt.nanos traceparent)
      fun _ => True := by
  refine .bind (.lift fun _ h => h) fun eventID hEvent => .bind (.lift fun _ h => h)
    fun payload _ => stays_call ⟨hMerchant, ?_⟩
  refine Table.conflicts_eq_false.mpr fun x hx => decide_eq_false ?_
  rintro (hEq | ⟨hEq, -⟩)
  · refine hFresh.event x hx ?_
    rw [Env.eventID, hEvent, hEq]
    rfl
  · -- another merchant's event is about another merchant's entry
    obtain ⟨e, he, -, hAggregate, -⟩ := hForeign.keys.event x hx
    exact hNew e he (hAggregate.trans hEq)

/-- The end of both callbacks. The entry is new, and what it reverses is the
merchant's. -/
theorem stays_post {entry : Entry} {traceparent : Text} (hForeign : Foreign m o)
    (hFresh : env.Fresh o) (hMerchant : entry.merchantID.uuid = m)
    (hId : newUUIDv7 env.createdAt.nanos env.entryEntropy = .ok entry.id)
    (hOriginal : ∀ x, entry.originalEntryID = some x →
      ∀ r ∈ o.entries, r.originalEntryID ≠ some x.uuid) :
    Stays jsonb fault m o (do
      insertEntry entry
      insertOutbox env entry env.createdAt.nanos traceparent
      pure (resultFromEntry entry)) fun _ => True := by
  have hNew : ∀ r ∈ o.entries, r.id ≠ entry.id.uuid := by
    intro r hr hEq
    refine hFresh.entry r hr ?_
    rw [Env.entryID, hId, hEq]
    rfl
  have hApart : o.entries.conflicts entry.row = false := by
    refine Table.conflicts_eq_false.mpr fun r hr => decide_eq_false ?_
    rintro (hEq | ⟨hEq, -⟩ | ⟨hSome, hEq⟩)
    · exact hNew r hr hEq
    · exact hForeign.entries r hr (hEq.trans hMerchant)
    · -- a reversal of the same original
      cases hEntry : entry.originalEntryID with
      | none => exact hSome (hEq.trans (by rw [Entry.row, hEntry]; rfl))
      | some x => exact hOriginal x hEntry r hr (hEq.trans (by rw [Entry.row, hEntry]; rfl))
  exact .bind (stays_call ⟨hMerchant, hApart⟩) fun _ _ =>
    .bind (stays_insertOutbox hForeign hFresh hMerchant hNew) fun _ _ => .pure trivial

/-- So the transaction that creates an entry stays within the merchant's rows. -/
theorem stays_createTx {input : CreateEntryInput} {merchantID : ID} (hForeign : Foreign m o)
    (hFresh : env.Fresh o) (hMerchant : merchantID.uuid = m) :
    Stays jsonb fault m o (createTx platform env input merchantID) fun _ => True := by
  refine .bind (.lift fun _ _ => trivial) fun entryType _ => .bind (.lift fun _ _ => trivial)
    fun money _ => .bind (.lift fun _ _ => trivial) fun requestedDate _ =>
    .bind (.lift fun _ _ => trivial) fun calendar _ => .bind (.lift fun _ _ => trivial)
    fun businessDate _ => .bind (stays_call hMerchant) fun position _ =>
    .bind (.lift fun _ h => h) fun entryID hId => .bind (.lift fun _ h => h) fun entry hEntry => ?_
  rw [newEntry_ok, Entry.data, EntryData.mk.injEq] at hEntry
  obtain ⟨rfl, rfl, -, -, -, -, -, -, hOriginal⟩ := hEntry
  refine stays_post hForeign hFresh hMerchant hId fun x hx => ?_
  rw [← hOriginal] at hx
  cases hx

/-- And the one that reverses it. -/
theorem stays_reverseTx {input : ReverseEntryInput} {merchantID originalID : ID}
    (hForeign : Foreign m o) (hFresh : env.Fresh o) (hMerchant : merchantID.uuid = m) :
    Stays jsonb fault m o (reverseTx platform env input merchantID originalID) fun _ => True := by
  refine .bind (.lift fun _ _ => trivial) fun calendar _ => .bind (.lift fun _ _ => trivial)
    fun businessDate _ => .bind (stays_entryForUpdate hForeign hMerchant) fun original hOwn => ?_
  split
  · exact .lift fun _ _ => trivial
  · rename_i hRoot
    refine .bind (stays_call hMerchant) fun position _ => .bind (.lift fun _ h => h)
      fun reversalID hId => .bind (.lift fun _ h => h) fun entry hEntry => ?_
    rw [newReversal, if_neg hRoot, newEntry_ok, Entry.data, EntryData.mk.injEq] at hEntry
    obtain ⟨rfl, hEntryMerchant, -, -, -, -, -, -, hOriginal⟩ := hEntry
    refine stays_post hForeign hFresh (hEntryMerchant ▸ hOwn.1) hId fun x hx => ?_
    rw [← hOriginal] at hx
    cases hx
    exact hOwn.2

/-- Either body of a request. -/
theorem stays_body {req : Request} {merchantID : ID} {create : Tx EntryResult}
    (hForeign : Foreign m o) (hFresh : env.Fresh o) (hMerchant : merchantID.uuid = m)
    (hBody : req.body platform env merchantID = .ok create) :
    Stays jsonb fault m o create fun _ => True := by
  cases req with
  | create input =>
    cases hBody
    exact stays_createTx hForeign hFresh hMerchant
  | reverse input =>
    rw [Request.body, peel] at hBody
    obtain ⟨originalID, -, hTx⟩ := hBody
    cases hTx
    exact stays_reverseTx hForeign hFresh hMerchant

/-- And the request with its idempotency record around it. -/
theorem stays_request {req : Request} {attempt : IdempotencyAttempt} {tx : Tx EntryResult}
    (hForeign : Foreign m o) (hFresh : env.Fresh o) (hMerchant : lower req.merchantID = m.text)
    (hPrepare : req.prepare platform env = .ok (attempt, tx)) :
    Stays jsonb fault m o tx fun _ => True := by
  obtain ⟨hAttempts, create, hBody, rfl⟩ := prepare_ok hPrepare
  have hOwn : attempt.merchantID.uuid = m := by
    refine UUID.ext ?_
    show lower attempt.merchantID.text = m.text
    rw [hAttempts.merchantID, hMerchant]
  have hAttempt : ∀ r ∈ o.idempotency, r.attemptID ≠ attempt.attemptID.uuid := by
    intro r hr hEq
    refine hFresh.attempt r hr ?_
    rw [Env.attemptID, hAttempts.attemptID, hEq]
    rfl
  refine .bind (stays_claimIdempotency hForeign hOwn hAttempt) fun claim _ => ?_
  cases claim with
  -- the key was taken: nothing is written any more
  | some record => exact .lift fun _ _ => trivial
  | none =>
    refine .bind (stays_body hForeign hFresh hOwn hBody) fun result _ =>
      .bind (.lift fun _ _ => trivial) fun response _ => .bind (.lift fun _ _ => trivial)
      fun entryID _ => .bind (stays_completeIdempotency hAttempt) fun _ _ => .pure trivial

end Transactions

/-- Creating and reversing entries, a merchant has the ledger to itself. -/
theorem run_only {platform : Platform} {env : Env} {req : Request}
    (hForeign : Foreign m (d.others m)) (hFresh : env.Fresh (d.others m))
    (hMerchant : lower req.merchantID = m.text) :
    req.run platform env (d.only m) =
        ((req.run platform env d).1, (req.run platform env d).2.only m) ∧
      (req.run platform env d).2.others m = d.others m := by
  unfold Request.run
  cases hPrepare : req.prepare platform env with
  -- refused before any transaction
  | error e => exact ⟨rfl, rfl⟩
  | ok prepared =>
    obtain ⟨attempt, tx⟩ := prepared
    have hStays : Stays platform.jsonb env.fault m (d.others m) tx fun _ => True :=
      stays_request hForeign hFresh hMerchant hPrepare
    obtain ⟨hPart, hOk⟩ := hStays d rfl
    simp only [execute]
    cases env.begins with
    | some cause => exact ⟨rfl, rfl⟩
    | none =>
      simp only [hPart]
      cases hExec : ((engine platform.jsonb).withFaults env.fault).exec tx d with
      -- rolled back
      | error e => exact ⟨rfl, rfl⟩
      | ok x =>
        have hOthers := (hOk x.1 x.2 hExec).1
        -- a commit that is not acknowledged may have taken effect all the same
        cases env.commit with
        | committed => exact ⟨rfl, hOthers⟩
        | rolledBack => exact ⟨rfl, rfl⟩
        | unacknowledged => exact ⟨rfl, hOthers⟩

end Cashflow.Ledger
