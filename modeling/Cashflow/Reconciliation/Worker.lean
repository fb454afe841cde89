import Cashflow.Consolidation.Store
import Cashflow.Ledger.Books
import Cashflow.Lib.Tally
import Mathlib.Data.List.Sort

/-!
# Reconciliation — the worker

`services/consolidation/internal/reconciliation/worker.go` with the ledger's
side of the stream, `StreamEntriesAtCut` of
`services/ledger/internal/adapters/inbound/grpc/internal_server.go`.

One call compares, for a merchant and a date, the ledger's entries up to a cut
with the inbox rows up to the same cut, and the net of those entries with the
net of the day's balance row. The transaction holds the merchant's lock, so no
projection commits between its reads. The stream may break; each attempt
starts from nothing.

Money is `int64` here and wraps as it does in Go. A Go map is an `AList`.
-/

namespace Cashflow.Reconciliation

open Lib Consolidation

/-! ## The ledger's stream -/

/-- `ledgerrpc.Entry` -/
structure SourceEntry where
  entryID : Text
  merchantID : Text
  merchantPosition : Int64
  type : Int
  amountMinor : Int64
  currency : Text
  businessDate : Text
  confirmedAt : Int
  originalEntryID : Text
deriving DecidableEq

def entryTypeCredit : Int := 1
def entryTypeDebit : Int := 2

/-- One row of the stream's query, as it is sent. -/
def sourceEntry (row : Ledger.EntryRow) : SourceEntry where
  entryID := row.id.text
  merchantID := row.merchantID.text
  merchantPosition := row.position
  type := match row.entryType with
    | .credit => entryTypeCredit
    | .debit => entryTypeDebit
  amountMinor := row.amountMinor
  currency := row.currency
  businessDate := formatDate row.businessDate
  confirmedAt := row.confirmedAt
  originalEntryID := match row.originalEntryID with
    | some original => original.text
    | none => []

/-- `WHERE merchant_id = $1 AND position <= $2` -/
def entriesAtCut (d : Ledger.Db) (m : Ledger.UUID) (cut : Nat) : List Ledger.EntryRow :=
  d.entries.rows.filter fun e => decide (e.merchantID = m) && decide (e.position.toInt ≤ cut)

/-- `StreamEntriesAtCut`: the rows up to the cut, by position. -/
def streamEntriesAtCut (d : Ledger.Db) (m : Ledger.UUID) (cut : Nat) : List SourceEntry :=
  ((entriesAtCut d m cut).insertionSort fun a b => a.position.toInt ≤ b.position.toInt).map sourceEntry

/-! ## Reading the stream -/

/-- What a pass over the stream has accumulated. -/
structure Source where
  entries : AList fun _ : Text => SourceEntry
  credits : Int64
  debits : Int64

def Source.empty : Source := ⟨∅, 0, 0⟩

def Source.add (s : Source) (e : SourceEntry) : Source where
  entries := s.entries.insert e.entryID e
  credits := if e.type = entryTypeCredit then s.credits + e.amountMinor else s.credits
  debits := if e.type = entryTypeDebit then s.debits + e.amountMinor else s.debits

/-- One attempt at the stream, as the worker sees it. -/
structure Attempt where
  opened : Bool
  /-- The entries received before the stream ended. -/
  items : List SourceEntry
  /-- It ended with `io.EOF`, not with an error. -/
  complete : Bool
  /-- The context had ended when the attempt failed. -/
  cancelled : Bool

/-- The loop of `attemptStream`. An entry without an id ends it like `io.EOF`. -/
def receive (dateStr : Text) (complete : Bool) (acc : Source) : List SourceEntry → Option Source
  | [] => if complete then some acc else none
  | e :: rest =>
    if e.entryID = [] then some acc
    else if e.businessDate ≠ dateStr then receive dateStr complete acc rest
    else receive dateStr complete (acc.add e) rest

def attemptStream (dateStr : Text) (a : Attempt) : Option Source :=
  if a.opened then receive dateStr a.complete .empty a.items else none

def maxStreamAttempts : Nat := 3

def streamSourceEntries (dateStr : Text) : List Attempt → Option Source
  | [] => none
  | a :: rest =>
    match attemptStream dateStr a with
    | some source => some source
    | none => if a.cancelled then none else streamSourceEntries dateStr rest

/-! ## The projection's side -/

/-- `WHERE merchant_id = $1 AND business_date = $2 AND position <= $3` -/
def projectedRows (s : Store) (m : Text) (date : Int) (cut : Nat) : List InboxEvent :=
  s.inbox.rows.filter fun r => r.event.merchantID == m && r.event.businessDate == date &&
    decide (r.event.merchantPosition.toInt ≤ cut)

def loadProjectedEntryCounts (s : Store) (m : Text) (date : Int) (cut : Nat) :
    AList fun _ : Text => Nat :=
  tally ((projectedRows s m date cut).map fun r => r.event.entryID)

/-- The columns `credits_minor` and `debits_minor` of the day, zero without a row. -/
def projectedTotals (s : Store) (m : Text) (date : Int) : Int × Int :=
  match s.balances.find? (onDay m date) with
  | some row => (row.creditsMinor, row.debitsMinor)
  | none => (0, 0)

def compareEntrySets (source : AList fun _ : Text => SourceEntry)
    (projected : AList fun _ : Text => Nat) : Nat × Nat × Nat :=
  let missing := (source.keys.filter fun id => (projected.lookup id).getD 0 = 0).length
  let extra := (projected.keys.filter fun id => id ∉ source).length
  let duplicated := (projected.entries.map fun entry =>
    if 1 < entry.2 then entry.2 - 1 else 0).sum
  (missing, extra, duplicated)

/-! ## One reconciliation -/

structure ReconcileResult where
  missingEntries : Nat
  extraEntries : Nat
  duplicatedEntries : Nat
  financialDifferenceMinor : Int64
  skipped : Bool
deriving DecidableEq

/-- A row of `reconciliation_run`; its times are not read by anything modelled. -/
structure ReconciliationRun where
  merchantID : Text
  businessDate : Int
  sourcePositionCut : Nat
  missingEntries : Nat
  extraEntries : Nat
  duplicatedEntries : Nat
  financialDifferenceMinor : Int64
deriving DecidableEq

def runSchema : Schema ReconciliationRun where
  check r := decide (r.sourcePositionCut ≤ 9223372036854775807)
  clash a b := a.merchantID == b.merchantID && a.businessDate == b.businessDate
  symm a b := by
    simp only [BEq.comm (a := a.merchantID), BEq.comm (a := a.businessDate)]

/-- The upsert's `DO UPDATE … WHERE source_position_cut < EXCLUDED.source_position_cut`. -/
def replaceOlder (row r : ReconciliationRun) : ReconciliationRun :=
  if r.merchantID = row.merchantID ∧ r.businessDate = row.businessDate ∧
      r.sourcePositionCut < row.sourcePositionCut then row
  else r

theorem replaceOlder_key (row r : ReconciliationRun) :
    (replaceOlder row r).merchantID = r.merchantID ∧
      (replaceOlder row r).businessDate = r.businessDate := by
  unfold replaceOlder
  split
  · next h => exact ⟨h.1.symm, h.2.1.symm⟩
  · exact ⟨rfl, rfl⟩

def saveRun (runs : Table runSchema) (row : ReconciliationRun) :
    Except Violation (Table runSchema) :=
  if runs.conflicts row then
    runs.update (replaceOlder row) fun a b => by
      simp only [runSchema, (replaceOlder_key row a).1, (replaceOlder_key row a).2,
        (replaceOlder_key row b).1, (replaceOlder_key row b).2]
  else runs.insert row

inductive ReconcileStatement
  | begin
  | lockMerchant
  | loadExistingRun
  | readBalance
  | loadProjected
  | saveRun
deriving DecidableEq

/-- What the database and the ledger decide in one call. -/
structure ReconcileEnv where
  fault : ReconcileStatement → Bool
  attempts : List Attempt
  commit : CommitOutcome

inductive ReconcileError
  | persistence (operation : String)
  | stream
deriving DecidableEq

def ReconcileEnv.attempt (env : ReconcileEnv) (statement : ReconcileStatement)
    (operation : String) : Except ReconcileError Unit :=
  if env.fault statement then .error (.persistence operation) else .ok ()

def existingRun (runs : Table runSchema) (m : Text) (date : Int) : Option ReconciliationRun :=
  runs.find? fun r => r.merchantID == m && r.businessDate == date

/-- The comparison, once everything is read. -/
def compareTotals (source : Source) (projected : AList fun _ : Text => Nat)
    (credits debits : Int) : ReconcileResult :=
  let counts := compareEntrySets source.entries projected
  let netSource := source.credits - source.debits
  let netProjected := Int64.ofInt credits - Int64.ofInt debits
  let diff := netProjected - netSource
  ⟨counts.1, counts.2.1, counts.2.2, if diff < 0 then -diff else diff, false⟩

/-- `source_position_cut` is a `BIGINT`, so a greater cut cannot be passed. -/
def cutParameter (cut : Nat) : Except ReconcileError Unit :=
  if cut ≤ 9223372036854775807 then .ok () else .error (.persistence "")

def readSource (env : ReconcileEnv) (date : Int) : Except ReconcileError Source :=
  match streamSourceEntries (formatDate date) (env.attempts.take maxStreamAttempts) with
  | some source => .ok source
  | none => .error .stream

/-- A cut that is newer than any persisted one: read both sides, compare, save. -/
def reconcileNew (env : ReconcileEnv) (s : Store) (runs : Table runSchema) (m : Text) (date : Int)
    (cut : Nat) : Except ReconcileError (ReconcileResult × Table runSchema) := do
  -- the ledger's side, from the stream
  let source ← readSource env date
  env.attempt .readBalance ""
  -- and the projection's
  let totals := projectedTotals s m date
  env.attempt .loadProjected ""
  cutParameter cut
  let result := compareTotals source (loadProjectedEntryCounts s m date cut) totals.1 totals.2
  env.attempt .saveRun "save reconciliation run"
  let runs ← (saveRun runs ⟨m, date, cut, result.missingEntries, result.extraEntries,
    result.duplicatedEntries, result.financialDifferenceMinor⟩).mapError
      fun _ => .persistence "save reconciliation run"
  .ok (result, runs)

def reconcileTx (env : ReconcileEnv) (s : Store) (runs : Table runSchema) (m : Text) (date : Int)
    (cut : Nat) : Except ReconcileError (ReconcileResult × Table runSchema) := do
  env.attempt .begin ""
  env.attempt .lockMerchant "lock merchant projection"
  env.attempt .loadExistingRun ""
  match (existingRun runs m date).filter fun existing => decide (cut ≤ existing.sourcePositionCut) with
  | some existing =>
    -- an equal or newer cut is already there: nothing is compared and nothing is written
    .ok (⟨existing.missingEntries, existing.extraEntries, existing.duplicatedEntries,
      existing.financialDifferenceMinor, true⟩, runs)
  | none => reconcileNew env s runs m date cut

/-- `Worker.Reconcile`. The skipped call rolls its transaction back, which
changes nothing. -/
def reconcile (env : ReconcileEnv) (s : Store) (runs : Table runSchema) (m : Text) (date : Int)
    (cut : Nat) : Except ReconcileError ReconcileResult × Table runSchema :=
  match reconcileTx env s runs m date cut with
  | .error e => (.error e, runs)
  | .ok (result, runs') =>
    -- nothing to commit
    if result.skipped then (.ok result, runs)
    else match env.commit with
      | .committed => (.ok result, runs')
      | .rolledBack => (.error (.persistence "commit reconciliation"), runs)
      | .unacknowledged => (.error (.persistence "commit reconciliation"), runs')

/-! ## What is persisted -/

theorem saveRun_ok (runs : Table runSchema) {row : ReconciliationRun}
    (hRow : runSchema.check row = true) : ∃ runs', saveRun runs row = .ok runs' := by
  unfold saveRun
  split
  · refine ⟨_, dif_pos fun r hr => ?_⟩
    obtain ⟨old, hOld, rfl⟩ := List.mem_map.mp hr
    unfold replaceOlder
    split
    · exact hRow
    · exact runs.checked old hOld
  · next hFree =>
    exact ⟨_, Table.insert_of_free hRow (by simpa using hFree)⟩

/-- The row of the key is there, and is replaced if its cut is older. -/
theorem existingRun_update {runs runs' : Table runSchema} {row : ReconciliationRun}
    (hConflict : runs.conflicts row = true) (hRows : runs'.rows = runs.rows.map (replaceOlder row))
    (m : Text) (date : Int) :
    existingRun runs' m date =
      if m = row.merchantID ∧ date = row.businessDate then
        (existingRun runs m date).elim (some row) fun old =>
          if old.sourcePositionCut < row.sourcePositionCut then some row else some old
      else existingRun runs m date := by
  have hFind : existingRun runs' m date = (existingRun runs m date).map (replaceOlder row) := by
    simp only [existingRun, Table.find?, hRows, List.find?_map, Function.comp_def,
      replaceOlder_key]
  rw [hFind]
  split
  · rename_i hKey
    obtain ⟨old, hOld, hClash⟩ := Table.conflicts_eq_true.mp hConflict
    have hSome : existingRun runs m date = some old := by
      apply Table.find?_eq_some_of_mem hOld
      · simpa [runSchema, hKey.1, hKey.2] using hClash
      · intro r hr
        simp only [runSchema, Bool.and_eq_true, beq_iff_eq] at hr hClash ⊢
        exact ⟨hr.1.trans (hKey.1.trans hClash.1.symm), hr.2.trans (hKey.2.trans hClash.2.symm)⟩
    simp only [runSchema, Bool.and_eq_true, beq_iff_eq] at hClash
    rw [hSome]
    simp only [Option.map_some, Option.elim_some, replaceOlder, hClash, true_and]
    split <;> rfl
  · -- the row of another key is left alone
    rename_i hKey
    cases hSome : existingRun runs m date with
    | none => rfl
    | some old =>
      have hOldKey := (Table.find?_some hSome).2
      simp only [Bool.and_eq_true, beq_iff_eq] at hOldKey
      rw [Option.map_some, replaceOlder, if_neg]
      rintro ⟨hMerchant, hDate, -⟩
      exact hKey ⟨hOldKey.1.symm.trans hMerchant, hOldKey.2.symm.trans hDate⟩

/-- The upsert is a compare-and-set on the cut of the row of its key. -/
theorem existingRun_saveRun {runs runs' : Table runSchema} {row : ReconciliationRun}
    (h : saveRun runs row = .ok runs') (m : Text) (date : Int) :
    existingRun runs' m date =
      if m = row.merchantID ∧ date = row.businessDate then
        (existingRun runs m date).elim (some row) fun old =>
          if old.sourcePositionCut < row.sourcePositionCut then some row else some old
      else existingRun runs m date := by
  unfold saveRun at h
  split at h
  · -- there is a run of that day: the newer cut wins
    rename_i hConflict
    exact existingRun_update hConflict (Table.update_eq_ok.mp h).2 m date
  · -- there is none, and the row is inserted
    obtain ⟨-, hFree, hRows⟩ := Table.insert_eq_ok.mp h
    have hFind : existingRun runs' m date = (existingRun runs m date).or
        ([row].find? fun r => r.merchantID == m && r.businessDate == date) := by
      simp only [existingRun, Table.find?, hRows, List.find?_append]
    rw [hFind]
    split
    · rename_i hKey
      have hNone : existingRun runs m date = none := by
        apply Table.find?_none.mpr
        intro r hr
        simpa [runSchema, hKey.1, hKey.2] using Table.conflicts_eq_false.mp hFree r hr
      rw [hNone]
      simp [hKey.1, hKey.2]
    · rename_i hKey
      have hOther : ([row].find? fun r => r.merchantID == m && r.businessDate == date) = none := by
        simp only [List.find?_singleton, Bool.and_eq_true, beq_iff_eq, ite_eq_right_iff]
        exact fun h => absurd ⟨h.1.symm, h.2.symm⟩ hKey
      rw [hOther, Option.or_none]

end Cashflow.Reconciliation
