import Cashflow.Ledger.Repository

/-!
# Ledger — what the statements answer

For each SQL statement one lemma that says when it answers, with what and which
rows it writes, in terms of the rows there are and not of the order they were
found in. Whatever runs the statements, alone or between others, is reasoned
about with these.
-/

namespace Cashflow.Ledger

open Lib

variable {jsonb : Json.Jsonb} {d : Db}

/-! ## Views -/

/-- The database after one write. -/
theorem view_one (d : Db) (w : Write) : (engine jsonb).view d [w] = d.apply w := rfl

/-- An insertion that succeeds is kept. -/
theorem orKeep_insert {ρ : Type} {S : Schema ρ} {t u : Table S} {r : ρ} (h : t.insert r = .ok u) :
    t.orKeep (t.insert r) = u := by
  rw [h]
  rfl

/-- The position a merchant has reached; zero before its first entry. -/
def Db.lastPosition (d : Db) (m : UUID) : Int64 := ((d.position? m).map PositionRow.lastPosition).getD 0

/-! ## Idempotency records -/

/-- `INSERT … ON CONFLICT DO NOTHING`: the scope is taken, or the record goes in. -/
theorem evalInsertIdempotency_ok {row : IdempotencyRow} {claimed : Bool} {ws : List Write} :
    d.evalInsertIdempotency row = .ok (claimed, ws) ↔
      (claimed = false ∧ ws = [] ∧ ∃ r ∈ d.idempotency, r.scope = row.scope) ∨
      (claimed = true ∧ ws = [.record row] ∧ ∃ t, d.idempotency.insert row = .ok t) := by
  unfold Db.evalInsertIdempotency
  by_cases hAny : ∃ r ∈ d.idempotency, r.scope = row.scope
  · -- a row of the scope also clashes, so the insertion would fail
    have hScope : (d.idempotency.rows.any fun r => decide (r.scope = row.scope)) = true := by
      obtain ⟨r, hr, hEq⟩ := hAny
      exact List.any_eq_true.mpr ⟨r, hr, decide_eq_true hEq⟩
    have hRefused : ¬ ∃ t, d.idempotency.insert row = .ok t := by
      rintro ⟨t, ht⟩
      obtain ⟨r, hr, hEq⟩ := hAny
      have hClash := Table.conflicts_eq_false.mp (Table.insert_eq_ok.mp ht).2.1 r hr
      rw [idempotencySchema, decide_eq_false_iff_not] at hClash
      exact hClash (Or.inr hEq)
    rw [if_pos hScope]
    simp only [hAny, hRefused, Except.ok.injEq, Prod.mk.injEq]
    grind
  · -- the scope is free, so the insertion decides
    have hScope : ¬ (d.idempotency.rows.any fun r => decide (r.scope = row.scope)) = true := by
      intro h
      obtain ⟨r, hr, hEq⟩ := List.any_eq_true.mp h
      exact hAny ⟨r, hr, of_decide_eq_true hEq⟩
    rw [if_neg hScope]
    simp only [hAny, and_false, false_or]
    split <;> rename_i hInsert <;> simp [hInsert]
    grind

/-- The record of a scope. -/
theorem evalSelectIdempotency_ok {scope : UUID × Operation × List UInt8}
    {found : List UInt8 × Option Text} {ws : List Write} :
    d.evalSelectIdempotency scope = .ok (found, ws) ↔
      ws = [] ∧ ∃ r ∈ d.idempotency, r.scope = scope ∧
        found = (r.requestHash, r.responsePayload) := by
  unfold Db.evalSelectIdempotency
  constructor
  · intro h
    split at h
    · rename_i r hFind
      cases h
      obtain ⟨hr, hScope⟩ := Table.find?_some hFind
      exact ⟨rfl, r, hr, of_decide_eq_true hScope, rfl⟩
    · cases h
  · rintro ⟨rfl, r, hr, hScope, rfl⟩
    rw [Table.find?_eq_some_of_mem hr (decide_eq_true hScope) fun a ha =>
      decide_eq_true (Or.inr ((of_decide_eq_true ha).trans hScope.symm))]

/-- The open record of an attempt is completed, with an entry of its merchant, or there is none. -/
theorem evalUpdateIdempotency_ok {attemptID entryID : UUID} {response : Text} {completedAt : Int}
    {updated : Bool} {ws : List Write} :
    d.evalUpdateIdempotency jsonb attemptID entryID response completedAt = .ok (updated, ws) ↔
      ∃ payload, jsonb.cast response = some payload ∧
        ((updated = false ∧ ws = [] ∧
            ∀ r ∈ d.idempotency, r.attemptID = attemptID → r.completedAt ≠ none) ∨
          (updated = true ∧ ws = [.complete attemptID entryID payload completedAt] ∧
            ∃ r ∈ d.idempotency, r.attemptID = attemptID ∧ r.completedAt = none ∧
              ∃ e ∈ d.entries, e.merchantID = r.merchantID ∧ e.id = entryID)) := by
  unfold Db.evalUpdateIdempotency
  cases hCast : jsonb.cast response with
  | none => simp
  | some payload =>
    simp only [Option.some.injEq, exists_eq_left']
    constructor
    · intro h
      split at h
      · -- no record of the attempt is open
        rename_i hFind
        cases h
        refine Or.inl ⟨rfl, rfl, fun r hr hAttempt hOpen => ?_⟩
        exact of_decide_eq_false (Table.find?_none.mp hFind r hr) ⟨hAttempt, hOpen⟩
      · rename_i r hFind
        obtain ⟨hr, hKey⟩ := Table.find?_some hFind
        split at h
        · rename_i hEntry
          cases h
          obtain ⟨e, he, hEq⟩ := List.any_eq_true.mp hEntry
          -- the foreign key asks for the entry in the record's own merchant
          exact Or.inr ⟨rfl, rfl, r, hr, (of_decide_eq_true hKey).1, (of_decide_eq_true hKey).2,
            e, he, of_decide_eq_true hEq⟩
        · cases h
    · rintro (⟨rfl, rfl, hNone⟩ | ⟨rfl, rfl, r, hr, hAttempt, hOpen, e, he, hEq⟩)
      · have hFind : d.idempotency.find? (fun r => r.attemptID = attemptID ∧ r.completedAt = none) =
            none :=
          Table.find?_none.mpr fun a ha => decide_eq_false fun hKey => hNone a ha hKey.1 hKey.2
        rw [hFind]
      · -- the attempt's record is the only one with that identifier
        have hFind : d.idempotency.find? (fun r => r.attemptID = attemptID ∧ r.completedAt = none) =
            some r :=
          Table.find?_eq_some_of_mem hr (decide_eq_true ⟨hAttempt, hOpen⟩) fun a ha =>
            decide_eq_true (Or.inl ((of_decide_eq_true ha).1.trans hAttempt.symm))
        have hAny : (d.entries.rows.any fun e =>
            decide (e.merchantID = r.merchantID ∧ e.id = entryID)) = true :=
          List.any_eq_true.mpr ⟨e, he, decide_eq_true hEq⟩
        rw [hFind]
        simp only [hAny, if_true]

/-- Completing a record keeps every key, so that it cannot fail. -/
theorem completeRecord_ok (d : Db) (attemptID entryID : UUID) (response : Text) (at' : Int) :
    ∃ t, d.completeRecord attemptID entryID response at' = .ok t ∧
      t.rows = d.idempotency.rows.map fun r =>
        if r.attemptID = attemptID then r.complete entryID response at' else r := by
  have hAll : ∀ r ∈ d.idempotency, idempotencySchema.check
      (if r.attemptID = attemptID then r.complete entryID response at' else r) = true := by
    intro r hr
    have hCheck := d.idempotency.checked r hr
    split
    · simp only [idempotencySchema, Bool.and_eq_true] at hCheck ⊢
      exact ⟨⟨hCheck.1.1, rfl⟩, rfl⟩
    · exact hCheck
  exact Table.exists_update _ hAll

/-! ## Positions -/

/-- Below the largest value, adding one is adding one. -/
theorem toInt_succ {x : Int64} (h : x ≠ Int64.maxValue) : (x + 1).toInt = x.toInt + 1 := by
  have hMax : x.toInt ≠ Int64.maxValue.toInt := fun hEq => h (Int64.toInt_inj.mp hEq)
  have hLe : x.toInt ≤ 9223372036854775807 := x.toInt_le
  have hGe : -9223372036854775808 ≤ x.toInt := x.minValue_le_toInt
  have hMaxValue : Int64.maxValue.toInt = 9223372036854775807 := rfl
  have hOne : (1 : Int64).toInt = 1 := rfl
  rw [Int64.toInt_add, hOne]
  apply Int.bmod_eq_of_le <;> omega

/-- Looking up a merchant after its row was put. -/
theorem find?_putPosition {d : Db} {row : PositionRow} {t : Table positionSchema}
    (h : d.putPosition row = .ok t) (m : UUID) :
    t.find? (fun r => r.merchantID = m) = if m = row.merchantID then some row else d.position? m := by
  unfold Db.putPosition at h
  split at h
  · -- an update keeps the keys, so the row found is the image of the row before
    rename_i hSome
    obtain ⟨old, hOld⟩ := Option.isSome_iff_exists.mp hSome
    obtain ⟨-, hRows⟩ := Table.update_eq_ok.mp h
    have hKey : ((fun r : PositionRow => decide (r.merchantID = m)) ∘
        fun r => if r.merchantID = row.merchantID then row else r) =
        fun r : PositionRow => decide (r.merchantID = m) := by
      funext r
      simp only [Function.comp]
      split
      · rename_i hr
        rw [hr]
      · rfl
    rw [Table.find?, hRows, List.find?_map, hKey]
    by_cases hm : m = row.merchantID
    · have hFind : d.positions.rows.find? (fun r => r.merchantID = m) = some old := by rw [hm]; exact hOld
      have hOldKey : old.merchantID = m := of_decide_eq_true (Table.find?_some (t := d.positions) hFind).2
      rw [hFind, if_pos hm, Option.map_some, if_pos (hOldKey.trans hm)]
    · rw [if_neg hm]
      show Option.map _ (d.position? m) = d.position? m
      cases hFind : d.position? m with
      | none => rfl
      | some r =>
        have hr : r.merchantID = m := of_decide_eq_true (Table.find?_some hFind).2
        rw [Option.map_some, if_neg (by rw [hr]; exact hm)]
  · -- a merchant without a row is given one
    rename_i hNone
    obtain ⟨-, -, hRows⟩ := Table.insert_eq_ok.mp h
    rw [Table.find?, hRows, List.find?_append]
    by_cases hm : m = row.merchantID
    · have hFind : d.positions.rows.find? (fun r => r.merchantID = m) = none := by
        rw [hm]
        exact Option.not_isSome_iff_eq_none.mp hNone
      rw [hFind, if_pos hm]
      simp [hm]
    · rw [if_neg hm]
      show (d.position? m).or _ = d.position? m
      simp [Ne.symm hm]

/-- A position that is not negative can be written. -/
theorem putPosition_ok (d : Db) {row : PositionRow} (h : 0 ≤ row.lastPosition) :
    ∃ t, d.putPosition row = .ok t := by
  unfold Db.putPosition
  split
  · refine (Table.exists_update _ ?_).imp fun t ht => ht.1
    intro r hr
    split
    · exact decide_eq_true h
    · exact d.positions.checked r hr
  · rename_i hNone
    have hFree : d.positions.conflicts row = false :=
      Table.conflicts_eq_false.mpr
        (Table.find?_none.mp (Option.not_isSome_iff_eq_none.mp hNone))
    exact ⟨_, Table.insert_of_free (decide_eq_true h) hFree⟩

/-- A merchant's last position is not negative. -/
theorem lastPosition_nonneg (d : Db) (m : UUID) : 0 ≤ (d.lastPosition m).toInt := by
  unfold Db.lastPosition
  cases hRow : d.position? m with
  | none => exact le_refl 0
  | some r =>
    have hCheck := d.positions.checked r (Table.find?_some hRow).1
    exact Int64.le_iff_toInt_le.mp (of_decide_eq_true hCheck)

/-- The next position is one more than the last, or the first. -/
theorem evalUpsertPosition_ok {merchantID : UUID} {now : Int} {position : Int64} {ws : List Write}
    (h : d.evalUpsertPosition merchantID now = .ok (position, ws)) :
    position.toInt = (d.lastPosition merchantID).toInt + 1 ∧
      ws = [.position ⟨merchantID, position, now⟩] ∧
      ∃ t, d.putPosition ⟨merchantID, position, now⟩ = .ok t := by
  have hNext : position.toInt = (d.lastPosition merchantID).toInt + 1 ∧
      ws = [.position ⟨merchantID, position, now⟩] := by
    unfold Db.evalUpsertPosition at h
    unfold Db.lastPosition
    split at h
    · -- the first entry of the merchant
      rename_i hRow
      cases h
      rw [hRow]
      exact ⟨rfl, rfl⟩
    · rename_i r hRow
      split at h
      · cases h
      · rename_i hMax
        cases h
        rw [hRow]
        -- short of the largest position the increment does not wrap
        exact ⟨toInt_succ hMax, rfl⟩
  have hNonneg := lastPosition_nonneg d merchantID
  refine ⟨hNext.1, hNext.2, putPosition_ok d (Int64.le_iff_toInt_le.mpr ?_)⟩
  show (0 : Int) ≤ position.toInt
  omega

/-! ## Entries -/

/-- An entry goes in if it is free and the entry it reverses is there. -/
theorem evalInsertEntry_ok {row : EntryRow} {u : Unit} {ws : List Write} :
    d.evalInsertEntry row = .ok (u, ws) ↔
      ws = [.entry row] ∧ (∃ t, d.entries.insert row = .ok t) ∧
        ∀ o, row.originalEntryID = some o →
          ∃ e ∈ d.entries, e.merchantID = row.merchantID ∧ e.id = o := by
  -- the foreign key, as a proposition
  have hForeign : (row.originalEntryID.all fun o =>
      d.entries.rows.any fun e => decide (e.merchantID = row.merchantID ∧ e.id = o)) = true ↔
      ∀ o, row.originalEntryID = some o →
        ∃ e ∈ d.entries, e.merchantID = row.merchantID ∧ e.id = o := by
    simp [Option.all_eq_true, Table.mem_def]
  unfold Db.evalInsertEntry
  rw [← hForeign]
  split <;> rename_i hInsert
  · simp [hInsert]
  · simp [hInsert]
  · -- the row is free, and the constraint decides
    split
    · rename_i hAll
      constructor
      · intro h
        cases h
        exact ⟨rfl, ⟨_, hInsert⟩, hAll⟩
      · rintro ⟨rfl, -⟩
        rfl
    · rename_i hAll
      exact ⟨fun h => (nomatch h), fun h => absurd h.2.2 hAll⟩

/-- An entry, by merchant and identifier. -/
theorem evalSelectEntryForUpdate_ok {merchantID entryID : UUID} {row : EntryRow}
    {ws : List Write} :
    d.evalSelectEntryForUpdate merchantID entryID = .ok (row, ws) ↔
      ws = [] ∧ row ∈ d.entries ∧ row.merchantID = merchantID ∧ row.id = entryID := by
  unfold Db.evalSelectEntryForUpdate
  constructor
  · intro h
    split at h
    · rename_i r hFind
      cases h
      obtain ⟨hr, hKey⟩ := Table.find?_some hFind
      exact ⟨rfl, hr, of_decide_eq_true hKey⟩
    · cases h
  · rintro ⟨rfl, hr, hMerchant, hId⟩
    rw [Table.find?_eq_some_of_mem hr (decide_eq_true ⟨hMerchant, hId⟩) fun a ha =>
      decide_eq_true (Or.inl ((of_decide_eq_true ha).2.trans hId.symm))]

/-! ## Outbox events -/

/-- An event goes in if its payload is JSON, it is free and its entry is there. -/
theorem evalInsertOutbox_ok {row : OutboxRow} {u : Unit} {ws : List Write} :
    d.evalInsertOutbox jsonb row = .ok (u, ws) ↔
      ∃ payload, jsonb.cast row.payload = some payload ∧ ws = [.outbox { row with payload }] ∧
        (∃ t, d.outbox.insert { row with payload } = .ok t) ∧
        ∃ e ∈ d.entries, e.merchantID = row.merchantID ∧ e.id = row.aggregateID ∧
          e.position = row.merchantPosition := by
  -- the foreign key, as a proposition
  have hForeign : (d.entries.rows.any fun e => decide (e.merchantID = row.merchantID ∧
      e.id = row.aggregateID ∧ e.position = row.merchantPosition)) = true ↔
      ∃ e ∈ d.entries, e.merchantID = row.merchantID ∧ e.id = row.aggregateID ∧
        e.position = row.merchantPosition := by
    simp [Table.mem_def]
  unfold Db.evalInsertOutbox
  rw [← hForeign]
  cases hCast : jsonb.cast row.payload with
  -- the payload is not JSON
  | none => simp
  | some payload =>
    simp only [Option.some.injEq, exists_eq_left']
    split <;> rename_i hInsert
    · simp [hInsert]
    · simp [hInsert]
    · split
      · rename_i hAny
        constructor
        · intro h
          cases h
          exact ⟨rfl, ⟨_, hInsert⟩, hAny⟩
        · rintro ⟨rfl, -⟩
          rfl
      · rename_i hAny
        exact ⟨fun h => (nomatch h), fun h => absurd h.2.2 hAny⟩

end Cashflow.Ledger
