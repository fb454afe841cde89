import Cashflow.Consolidation.Totals
import Cashflow.Lib.Exclusive
import Cashflow.Lib.Uuid
import Cashflow.Reconciliation.Worker
import Mathlib.Data.List.MinMax

/-!
# Reconciliation — calls at the same time

Any number of `Worker.Reconcile` calls, statement by statement between each
other and between changes of the projection. A call holds two locks until its
transaction ends: the advisory lock of the merchant identifier *as it was passed*
(the hash is taken of the text, not of the `UUID`), and from its upsert on the
lock of the row it has written or compared with.

* `runs_compare_and_set` — over every interleaving the cuts written to a row increase
  and the row holds the run of the greatest one; what a call returns says whether it
  has written its run;
* `unacknowledged_and_overtaken_runs` — where that says less than one would like: a
  call whose commit is not acknowledged returns an error and has written its run, and
  of two calls that spell the merchant differently one may report counts that it has
  not written.
-/

namespace Cashflow.Reconciliation.Runs

open Lib Consolidation

/-! ## Calls in progress -/

/-- How far a call has come. -/
inductive Phase where
  | begun
  | locked
  /-- No equal or newer cut was persisted. -/
  | pending
  | streamed (source : Source)
  | totalled (source : Source) (credits debits : Int)
  | compared (result : ReconcileResult)
  /-- The upsert has run, and has seen this row. -/
  | saved (result : ReconcileResult) (seen : Option ReconciliationRun)
  | returned (outcome : Except ReconcileError ReconcileResult)

structure Call where
  merchantID : Text
  date : Int
  cut : Nat
  phase : Phase

/-- The merchant a text names, where a `uuid` parameter takes it. -/
def merchantOf (text : Text) : Text := (uuidIn text).getD text

def Call.merchant (c : Call) : Text := merchantOf c.merchantID

/-- The row the call saves. -/
def Call.row (c : Call) (result : ReconcileResult) : ReconciliationRun where
  merchantID := c.merchant
  businessDate := c.date
  sourcePositionCut := c.cut
  missingEntries := result.missingEntries
  extraEntries := result.extraEntries
  duplicatedEntries := result.duplicatedEntries
  financialDifferenceMinor := result.financialDifferenceMinor

/-- What a call reports that finds an equal or newer run. -/
def reported (r : ReconciliationRun) : ReconcileResult :=
  ⟨r.missingEntries, r.extraEntries, r.duplicatedEntries, r.financialDifferenceMinor, true⟩

/-- The transaction holds the lock of its merchant. -/
def Phase.holdsLock : Phase → Bool
  | .begun | .returned _ => false
  | _ => true

/-- The call has looked for a persisted run and goes on. -/
def Phase.proceeds : Phase → Bool
  | .begun | .locked | .returned _ => false
  | _ => true

/-- What the call has returned. -/
def Call.outcome (c : Call) : Option (Except ReconcileError ReconcileResult) :=
  match c.phase with
  | .returned outcome => some outcome
  | _ => none

/-- The advisory lock the call holds. -/
def Call.lockHeld (c : Call) : Option Text :=
  if c.phase.holdsLock then some c.merchantID else none

/-- The row the call holds. -/
def Call.rowHeld (c : Call) : Option (Text × Int) :=
  match c.phase with
  | .saved _ _ => some (c.merchant, c.date)
  | _ => none

/-- A run that a commit has written. -/
structure Committed where
  caller : Nat
  merchantID : Text
  row : ReconciliationRun
  acknowledged : Bool

structure World where
  store : Store
  runs : Table runSchema
  calls : List Call
  /-- Every run that was written, in order. -/
  log : List Committed

def World.start (store : Store) : World := ⟨store, .empty, [], []⟩

/-! ## Steps -/

inductive Action where
  | lockMerchant
  | loadExistingRun
  | stream (attempts : List Attempt)
  | readBalance
  | loadProjected
  | saveRun
  /-- Whatever the call does next fails, and its transaction is rolled back. -/
  | fail (operation : String)

/-- What an action makes of a call; `none` while it has to wait or is not next. -/
def Call.after (w : World) (c : Call) : Action → Option Phase
  | .lockMerchant =>
    match c.phase with
    | .begun => if w.calls.any fun c' => decide (c'.lockHeld = some c.merchantID) then none else some .locked
    | _ => none
  | .loadExistingRun =>
    match c.phase with
    | .locked =>
      match uuidIn c.merchantID with
      | none => some (.returned (.error (.persistence "")))
      | some m =>
        match (existingRun w.runs m c.date).filter fun r => decide (c.cut ≤ r.sourcePositionCut) with
        | some existing => some (.returned (.ok (reported existing)))
        | none => some .pending
    | _ => none
  | .stream attempts =>
    match c.phase with
    | .pending =>
      match streamSourceEntries (formatDate c.date) (attempts.take maxStreamAttempts) with
      | some source => some (.streamed source)
      | none => some (.returned (.error .stream))
    | _ => none
  | .readBalance =>
    match c.phase with
    | .streamed source =>
      let totals := projectedTotals w.store c.merchant c.date
      some (.totalled source totals.1 totals.2)
    | _ => none
  | .loadProjected =>
    match c.phase with
    | .totalled source credits debits =>
      match cutParameter c.cut with
      | .error e => some (.returned (.error e))
      | .ok () => some (.compared (compareTotals source
          (loadProjectedEntryCounts w.store c.merchant c.date c.cut) credits debits))
    | _ => none
  | .saveRun =>
    match c.phase with
    | .compared result =>
      -- a row that another transaction has written or compared with is waited for
      if w.calls.any fun c' => decide (c'.rowHeld = some (c.merchant, c.date)) then none
      else
        match Reconciliation.saveRun w.runs (c.row result) with
        | .error _ => some (.returned (.error (.persistence "save reconciliation run")))
        | .ok _ => some (.saved result (existingRun w.runs c.merchant c.date))
    | _ => none
  | .fail operation =>
    match c.phase with
    | .returned _ => none
    | _ => some (.returned (.error (.persistence operation)))

inductive Event where
  /-- The projection changes in any way. -/
  | project (store : Store)
  | call (merchantID : Text) (date : Int) (cut : Nat)
  | act (i : Nat) (action : Action)
  | commit (i : Nat) (outcome : CommitOutcome)

def World.advance (w : World) (i : Nat) (phase : Phase) : World :=
  { w with calls := w.calls.modify i fun c => { c with phase } }

/-- The `WHERE` of the upsert: there is no row, or one of an older cut. -/
def overwrites (existing : Option ReconciliationRun) (cut : Nat) : Bool :=
  existing.all fun r => decide (r.sourcePositionCut < cut)

/-- The commit of a call that takes effect; it writes its run unless the upsert has
found a row that is no older. -/
def World.persist (w : World) (i : Nat) (c : Call) (result : ReconcileResult)
    (acknowledged : Bool) : World :=
  { w with
    runs := w.runs.orKeep (saveRun w.runs (c.row result))
    log := if overwrites (existingRun w.runs c.merchant c.date) c.cut then
      w.log ++ [⟨i, c.merchantID, c.row result, acknowledged⟩] else w.log }

def commitFailed : ReconcileError := .persistence "commit reconciliation"

def World.exec (w : World) : Event → World
  -- the projection goes on while calls are under way
  | .project store => { w with store }
  -- any number of calls, of any cuts
  | .call merchantID date cut => { w with calls := w.calls ++ [⟨merchantID, date, cut, .begun⟩] }
  | .act i action =>
    match w.calls[i]? with
    | none => w
    | some c =>
      match c.after w action with
      -- not what the call does next
      | none => w
      | some phase => w.advance i phase
  | .commit i outcome =>
    match w.calls[i]? with
    | none => w
    | some c =>
      match c.phase with
      | .saved result _ =>
        match outcome with
        | .committed => (w.persist i c result true).advance i (.returned (.ok result))
        -- nothing was written
        | .rolledBack => w.advance i (.returned (.error commitFailed))
        -- written, and reported as failed
        | .unacknowledged => (w.persist i c result false).advance i (.returned (.error commitFailed))
      | _ => w

/-- The written run of the greatest cut. -/
def newest (log : List Committed) (m : Text) (date : Int) : Option ReconciliationRun :=
  ((log.map Committed.row).filter fun r => r.merchantID == m && r.businessDate == date).argmax
    ReconciliationRun.sourcePositionCut

/-! ## What an action can do -/

/-- The moves of a call, with what has to hold for each. -/
inductive Call.Moves (w : World) (c : Call) : Phase → Prop where
  | lock (hPhase : c.phase = .begun) (hFree : ∀ c' ∈ w.calls, c'.lockHeld ≠ some c.merchantID) :
      Moves w c .locked
  | skip (hPhase : c.phase = .locked) {r : ReconciliationRun}
      (hRun : existingRun w.runs c.merchant c.date = some r) (hCut : c.cut ≤ r.sourcePositionCut) :
      Moves w c (.returned (.ok (reported r)))
  | proceed (hPhase : c.phase = .locked)
      (hOlder : ∀ r, existingRun w.runs c.merchant c.date = some r → r.sourcePositionCut < c.cut) :
      Moves w c .pending
  | stream (hPhase : c.phase.proceeds = true) {source : Source} : Moves w c (.streamed source)
  | total (hPhase : c.phase.proceeds = true) {source : Source} {credits debits : Int} :
      Moves w c (.totalled source credits debits)
  | compare (hPhase : c.phase.proceeds = true) {result : ReconcileResult}
      (hResult : result.skipped = false) (hCut : c.cut ≤ 9223372036854775807) :
      Moves w c (.compared result)
  | save {result : ReconcileResult} (hPhase : c.phase = .compared result)
      (hFree : ∀ c' ∈ w.calls, c'.rowHeld ≠ some (c.merchant, c.date)) :
      Moves w c (.saved result (existingRun w.runs c.merchant c.date))
  | fail (hPhase : ∀ outcome, c.phase ≠ .returned outcome) {e : ReconcileError} :
      Moves w c (.returned (.error e))

/-- Looking for an earlier run skips, goes on, or fails on an identifier the database cannot read.
-/
theorem Call.moves_loadExistingRun {w : World} {c : Call} {phase : Phase}
    (h : c.after w .loadExistingRun = some phase) : c.Moves w phase := by
  cases hPhase : c.phase with
  | locked =>
    have hFail : ∀ outcome, c.phase ≠ .returned outcome := by
      rw [hPhase]
      exact nofun
    simp only [Call.after, hPhase] at h
    cases hID : uuidIn c.merchantID with
    | none =>
      rw [hID] at h
      cases h
      exact .fail hFail
    | some m =>
      have hMerchant : c.merchant = m := by
        rw [Call.merchant, merchantOf, hID, Option.getD_some]
      simp only [hID] at h
      split at h
      · rename_i existing hFilter
        cases h
        -- a run that is there and not older is reported as it is
        rw [Option.filter_eq_some_iff, decide_eq_true_eq] at hFilter
        exact .skip hPhase (by rw [hMerchant]; exact hFilter.1) hFilter.2
      · rename_i hFilter
        cases h
        refine .proceed hPhase fun r hr => ?_
        rw [hMerchant] at hr
        simpa using Option.filter_eq_none_iff.mp hFilter r hr
  | _ => simp [Call.after, hPhase] at h

/-- Every action is one of the moves. -/
theorem Call.moves_of_after {w : World} {c : Call} {action : Action} {phase : Phase}
    (h : c.after w action = some phase) : c.Moves w phase := by
  cases action with
  | lockMerchant =>
    simp only [Call.after] at h
    split at h
    · rename_i hPhase
      split at h
      · -- the lock is held by another call, which is waited for
        cases h
      · rename_i hFree
        cases h
        exact .lock hPhase (by simpa using hFree)
    · cases h
  | loadExistingRun => exact moves_loadExistingRun h
  | stream attempts =>
    simp only [Call.after] at h
    split at h
    · rename_i hPhase
      split at h
      · cases h
        exact .stream (by rw [hPhase]; rfl)
      · cases h
        exact .fail (by rw [hPhase]; exact nofun)
    · cases h
  | readBalance =>
    simp only [Call.after] at h
    split at h
    · rename_i hPhase
      cases h
      exact .total (by rw [hPhase]; rfl)
    · cases h
  | loadProjected =>
    simp only [Call.after] at h
    split at h
    · rename_i hPhase
      -- a cut the column cannot hold fails the call here
      unfold cutParameter at h
      split_ifs at h with hCut
      · cases h
        exact .compare (by rw [hPhase]; rfl) rfl hCut
      · cases h
        exact .fail (by rw [hPhase]; exact nofun)
    · cases h
  | saveRun =>
    simp only [Call.after] at h
    split at h
    · rename_i hPhase
      split at h
      · -- and so is a row that another call has written
        cases h
      · rename_i hFree
        split at h
        · cases h
          exact .fail (by rw [hPhase]; exact nofun)
        · cases h
          exact .save hPhase (by simpa using hFree)
    · cases h
  | fail operation =>
    simp only [Call.after] at h
    split at h
    · cases h
    · rename_i hPhase
      cases h
      exact .fail hPhase

/-! ## The invariant -/

/-- The call has written nothing. -/
def Silent (log : List Committed) (i : Nat) : Prop := ∀ e ∈ log, e.caller ≠ i

/-- Every run written under the same text and for the same date has an older cut. -/
def Newer (log : List Committed) (c : Call) : Prop :=
  ∀ e ∈ log, e.merchantID = c.merchantID → e.row.businessDate = c.date →
    e.row.sourcePositionCut < c.cut

/-- A call that spells the merchant differently has written an equal or newer cut. -/
def Overtaken (log : List Committed) (c : Call) : Prop :=
  ∃ e ∈ log, e.merchantID ≠ c.merchantID ∧ e.row.merchantID = c.merchant ∧
    e.row.businessDate = c.date ∧ c.cut ≤ e.row.sourcePositionCut

/-- What a returned outcome says of the runs that were written: a skipped call has
written nothing and reports a run that is no older; a call that reports a comparison
has written it, or was overtaken under another spelling and has written nothing; and
if a call that fails has written its run, then its commit was not acknowledged. -/
def Call.Accounts (log : List Committed) (i : Nat) (c : Call) :
    Except ReconcileError ReconcileResult → Prop
  | .ok result =>
    if result.skipped then
      Silent log i ∧ ∃ e ∈ log, e.row.merchantID = c.merchant ∧ e.row.businessDate = c.date ∧
        c.cut ≤ e.row.sourcePositionCut ∧ result = reported e.row
    else (∃ e ∈ log, e.caller = i ∧ e.row = c.row result ∧ e.acknowledged = true) ∨
      Silent log i ∧ Overtaken log c
  | .error error => ∀ e ∈ log, e.caller = i → e.acknowledged = false ∧ error = commitFailed

/-- What is known of a call, by how far it has come. -/
def Call.Sound (runs : Table runSchema) (log : List Committed) (i : Nat) (c : Call) : Prop :=
  match c.phase with
  | .begun | .locked => Silent log i
  | .pending | .streamed _ | .totalled _ _ _ => Silent log i ∧ Newer log c
  | .compared result =>
    Silent log i ∧ Newer log c ∧ result.skipped = false ∧ c.cut ≤ 9223372036854775807
  | .saved result seen =>
    Silent log i ∧ Newer log c ∧ result.skipped = false ∧ c.cut ≤ 9223372036854775807 ∧
      existingRun runs c.merchant c.date = seen
  | .returned outcome => c.Accounts log i outcome

/-- What holds in every world. -/
structure World.Inv (w : World) : Prop where
  persisted : ∀ m date, existingRun w.runs m date = newest w.log m date
  increasing : w.log.Pairwise fun a b => a.row.merchantID = b.row.merchantID →
    a.row.businessDate = b.row.businessDate → a.row.sourcePositionCut < b.row.sourcePositionCut
  named : ∀ e ∈ w.log, (∃ c, w.calls[e.caller]? = some c ∧ c.merchantID = e.merchantID) ∧
    e.row.merchantID = merchantOf e.merchantID
  sound : ∀ (i : Nat) (c : Call), w.calls[i]? = some c → c.Sound w.runs w.log i
  locks : Exclusive Call.lockHeld w.calls
  rows : Exclusive Call.rowHeld w.calls

section Sound

variable {runs : Table runSchema} {log : List Committed} {i : Nat} {c : Call}

/-- A call that has not returned has written nothing. -/
theorem Call.Sound.silent (h : c.Sound runs log i) (hPhase : ∀ outcome, c.phase ≠ .returned outcome) :
    Silent log i := by
  unfold Call.Sound at h
  cases hEq : c.phase with
  | begun | locked =>
    rw [hEq] at h
    exact h
  | pending | streamed _ | totalled _ _ _ | compared _ | saved _ _ =>
    rw [hEq] at h
    exact h.1
  | returned outcome => exact absurd hEq (hPhase outcome)

/-- A call that went on is newer than what is there under its own text. -/
theorem Call.Sound.newer (h : c.Sound runs log i) (hPhase : c.phase.proceeds = true) :
    Newer log c := by
  unfold Call.Sound at h
  cases hEq : c.phase with
  | begun | locked | returned _ =>
    rw [hEq] at hPhase
    cases hPhase
  | pending | streamed _ | totalled _ _ _ =>
    rw [hEq] at h
    exact h.2
  | compared _ | saved _ _ =>
    rw [hEq] at h
    exact h.2.1

/-- A call that goes on has not returned. -/
theorem not_returned_of_proceeds (h : c.phase.proceeds = true) :
    ∀ outcome, c.phase ≠ .returned outcome := by
  rintro outcome hEq
  rw [hEq] at h
  cases h

end Sound

/-! ### What the log says -/

/-- The newest commit of a day is one of the log, and none has a larger cut. -/
theorem mem_newest {log : List Committed} {m : Text} {date : Int} {r : ReconciliationRun}
    (h : newest log m date = some r) :
    (∃ e ∈ log, e.row = r ∧ r.merchantID = m ∧ r.businessDate = date) ∧
      ∀ e ∈ log, e.row.merchantID = m → e.row.businessDate = date →
        e.row.sourcePositionCut ≤ r.sourcePositionCut := by
  constructor
  · have hMem := List.argmax_mem h
    simp only [List.mem_filter, List.mem_map, Bool.and_eq_true, beq_iff_eq] at hMem
    obtain ⟨⟨e, he, hRow⟩, hKey⟩ := hMem
    exact ⟨e, he, hRow, hKey⟩
  · intro e he hm hd
    refine List.le_of_mem_argmax ?_ h
    simp only [List.mem_filter, List.mem_map, Bool.and_eq_true, beq_iff_eq]
    exact ⟨⟨e, he, rfl⟩, hm, hd⟩

/-- A day without one has no commits. -/
theorem not_mem_of_newest_none {log : List Committed} {m : Text} {date : Int}
    (h : newest log m date = none) {e : Committed} (he : e ∈ log) :
    ¬(e.row.merchantID = m ∧ e.row.businessDate = date) := by
  rintro ⟨hm, hd⟩
  rw [newest, List.argmax_eq_none, List.filter_eq_nil_iff] at h
  exact h e.row (List.mem_map_of_mem he) (by simp [hm, hd])

/-- A written run is compared with the newest one before it. -/
theorem newest_concat (log : List Committed) (e : Committed) (m : Text) (date : Int) :
    newest (log ++ [e]) m date =
      if m = e.row.merchantID ∧ date = e.row.businessDate then
        (newest log m date).elim (some e.row) fun old =>
          if old.sourcePositionCut < e.row.sourcePositionCut then some e.row else some old
      else newest log m date := by
  unfold newest
  rw [List.map_append, List.filter_append, List.map_singleton]
  split
  · rename_i hKey
    have hSelf : ([e.row].filter fun r => r.merchantID == m && r.businessDate == date) = [e.row] := by
      simp [hKey.1, hKey.2]
    -- of two equal cuts the earlier one stays, as in the table
    rw [hSelf, List.argmax_concat]
    cases ((log.map Committed.row).filter fun r =>
      r.merchantID == m && r.businessDate == date).argmax ReconciliationRun.sourcePositionCut <;> rfl
  · rename_i hKey
    have hNone : ([e.row].filter fun r => r.merchantID == m && r.businessDate == date) = [] := by
      rw [List.filter_eq_nil_iff]
      intro r hr
      rw [List.mem_singleton.mp hr, Bool.and_eq_true, beq_iff_eq, beq_iff_eq]
      exact fun h => hKey ⟨h.1.symm, h.2.symm⟩
    rw [hNone, List.append_nil]

/-! ### One step -/

section Step

variable {w : World} {i : Nat} {c : Call} {phase : Phase}

/-- A call that moves keeps what is known of it. -/
theorem Call.Moves.sound (hMoves : c.Moves w phase) (hInv : w.Inv) (hSound : c.Sound w.runs w.log i) :
    Call.Sound w.runs w.log i { c with phase } := by
  cases hMoves with
  -- a call that has only taken its lock has written nothing
  | lock hPhase _ => exact hSound.silent (by rw [hPhase]; exact nofun)
  | skip hPhase hRun hCut =>
    rw [hInv.persisted] at hRun
    obtain ⟨⟨e, he, rfl, hKey⟩, -⟩ := mem_newest hRun
    exact ⟨hSound.silent (by rw [hPhase]; exact nofun), e, he, hKey.1, hKey.2, hCut, rfl⟩
  | proceed hPhase hOlder =>
    refine ⟨hSound.silent (by rw [hPhase]; exact nofun), ?_⟩
    -- every commit for this merchant is at most the persisted one
    intro e he hText hDate
    have hMerchant : e.row.merchantID = c.merchant := by
      rw [(hInv.named e he).2, hText]
      rfl
    cases hNewest : newest w.log c.merchant c.date with
    | none => exact absurd ⟨hMerchant, hDate⟩ (not_mem_of_newest_none hNewest he)
    | some r =>
      have hLe := (mem_newest hNewest).2 e he hMerchant hDate
      have hLt := hOlder r ((hInv.persisted _ _).trans hNewest)
      -- and that one is older than the call's cut
      exact Nat.lt_of_le_of_lt hLe hLt
  | stream hPhase => exact ⟨hSound.silent (not_returned_of_proceeds hPhase), hSound.newer hPhase⟩
  | total hPhase => exact ⟨hSound.silent (not_returned_of_proceeds hPhase), hSound.newer hPhase⟩
  | compare hPhase hResult hCut =>
    exact ⟨hSound.silent (not_returned_of_proceeds hPhase), hSound.newer hPhase, hResult, hCut⟩
  | save hPhase _ =>
    unfold Call.Sound at hSound
    rw [hPhase] at hSound
    obtain ⟨hSilent, hNewer, hResult, hCut⟩ := hSound
    exact ⟨hSilent, hNewer, hResult, hCut, rfl⟩
  | fail hPhase => exact fun e he hCaller => absurd hCaller (hSound.silent hPhase e he)

/-- The lock that is held is that of the merchant's text. -/
theorem Call.lockHeld_of_holds (h : c.phase.holdsLock = true) : c.lockHeld = some c.merchantID :=
  if_pos h

/-- A call that goes on holds its lock. -/
theorem holdsLock_of_proceeds (h : phase.proceeds = true) : phase.holdsLock = true := by
  cases phase <;> first | rfl | cases h

/-- A call that moves holds nothing more, or a lock nobody held. -/
theorem Call.Moves.lockHeld (hMoves : c.Moves w phase) :
    Call.lockHeld { c with phase } = none ∨ Call.lockHeld { c with phase } = c.lockHeld ∨
      ∀ c' ∈ w.calls, ∀ k, Call.lockHeld { c with phase } = some k → c'.lockHeld ≠ some k := by
  have hKeeps : ∀ phase : Phase, c.phase.holdsLock = true → phase.holdsLock = true →
      Call.lockHeld { c with phase } = c.lockHeld := by
    intro phase h h'
    rw [Call.lockHeld_of_holds h]
    exact Call.lockHeld_of_holds h'
  cases hMoves with
  | lock _ hFree =>
    refine .inr (.inr fun c' hc' k hk => ?_)
    cases hk
    exact hFree c' hc'
  | skip _ _ _ => exact .inl rfl
  | proceed hPhase _ => exact .inr (.inl (hKeeps _ (by rw [hPhase]; rfl) rfl))
  | stream hPhase => exact .inr (.inl (hKeeps _ (holdsLock_of_proceeds hPhase) rfl))
  | total hPhase => exact .inr (.inl (hKeeps _ (holdsLock_of_proceeds hPhase) rfl))
  | compare hPhase _ _ => exact .inr (.inl (hKeeps _ (holdsLock_of_proceeds hPhase) rfl))
  | save hPhase _ => exact .inr (.inl (hKeeps _ (by rw [hPhase]; rfl) rfl))
  | fail _ => exact .inl rfl

/-- A step takes no row that another call holds. -/
theorem Call.Moves.rowHeld (hMoves : c.Moves w phase) :
    Call.rowHeld { c with phase } = none ∨ Call.rowHeld { c with phase } = c.rowHeld ∨
      ∀ c' ∈ w.calls, ∀ k, Call.rowHeld { c with phase } = some k → c'.rowHeld ≠ some k := by
  cases hMoves with
  | save _ hFree =>
    refine .inr (.inr fun c' hc' k hk => ?_)
    cases hk
    exact hFree c' hc'
  | lock | skip | proceed | stream | total | compare | fail => exact .inl rfl

/-- A call keeps its text when it moves. -/
theorem called_modify {calls : List Call} {e : Committed} (i : Nat) (phase : Phase)
    (h : ∃ c, calls[e.caller]? = some c ∧ c.merchantID = e.merchantID) :
    ∃ c, (calls.modify i fun c => { c with phase })[e.caller]? = some c ∧
      c.merchantID = e.merchantID := by
  obtain ⟨c, hCall, hText⟩ := h
  rw [List.getElem?_modify, hCall]
  refine ⟨_, rfl, ?_⟩
  split_ifs
  · exact hText
  · exact hText

/-- A step of one call keeps the invariant. -/
theorem World.Inv.act (hInv : w.Inv) (hCall : w.calls[i]? = some c) (hMoves : c.Moves w phase) :
    (w.advance i phase).Inv where
  persisted := hInv.persisted
  increasing := hInv.increasing
  named e he := ⟨called_modify i phase (hInv.named e he).1, (hInv.named e he).2⟩
  sound j c' hj := by
    rcases getElem?_modify_some hj with ⟨rfl, a, ha, rfl⟩ | ⟨-, hj'⟩
    · obtain rfl : c = a := Option.some.inj (hCall.symm.trans ha)
      exact hMoves.sound hInv (hInv.sound _ c hCall)
    · exact hInv.sound j c' hj'
  locks := hInv.locks.modify hCall hMoves.lockHeld
  rows := hInv.rows.modify hCall hMoves.rowHeld

/-- What is known of a call whose upsert has run. -/
theorem World.Inv.saved (hInv : w.Inv) (hCall : w.calls[i]? = some c) {result : ReconcileResult}
    {seen : Option ReconciliationRun} (hPhase : c.phase = .saved result seen) :
    Silent w.log i ∧ Newer w.log c ∧ result.skipped = false ∧ c.cut ≤ 9223372036854775807 := by
  have hSound := hInv.sound i c hCall
  unfold Call.Sound at hSound
  rw [hPhase] at hSound
  obtain ⟨hSilent, hNewer, hResult, hCut, -⟩ := hSound
  exact ⟨hSilent, hNewer, hResult, hCut⟩

/-- A commit replaces the row of its merchant and day if that is older, and no other. -/
theorem existingRun_persist (hCut : c.cut ≤ 9223372036854775807) (result : ReconcileResult)
    (acknowledged : Bool) (m : Text) (date : Int) :
    existingRun (w.persist i c result acknowledged).runs m date =
      if m = c.merchant ∧ date = c.date then
        (existingRun w.runs m date).elim (some (c.row result)) fun old =>
          if old.sourcePositionCut < c.cut then some (c.row result) else some old
      else existingRun w.runs m date := by
  have hCheck : runSchema.check (c.row result) = true := decide_eq_true hCut
  obtain ⟨runs', hSave⟩ := saveRun_ok w.runs hCheck
  have hRuns : (w.persist i c result acknowledged).runs = runs' := by
    show w.runs.orKeep (saveRun w.runs (c.row result)) = runs'
    rw [hSave]
    rfl
  rw [hRuns]
  exact existingRun_saveRun hSave m date

/-- A run is written on top of older ones only. -/
theorem World.Inv.older_of_overwrites (hInv : w.Inv)
    (h : overwrites (existingRun w.runs c.merchant c.date) c.cut = true) {e : Committed}
    (he : e ∈ w.log) (hMerchant : e.row.merchantID = c.merchant)
    (hDate : e.row.businessDate = c.date) : e.row.sourcePositionCut < c.cut := by
  rw [hInv.persisted] at h
  cases hNewest : newest w.log c.merchant c.date with
  | none => exact absurd ⟨hMerchant, hDate⟩ (not_mem_of_newest_none hNewest he)
  | some r =>
    rw [hNewest, overwrites, Option.all_some, decide_eq_true_eq] at h
    exact Nat.lt_of_le_of_lt ((mem_newest hNewest).2 e he hMerchant hDate) h

/-- What keeps a call from writing was written under another spelling: under its own
it holds the lock since it looked. -/
theorem World.Inv.overtaken (hInv : w.Inv) (hNewer : Newer w.log c)
    (h : overwrites (existingRun w.runs c.merchant c.date) c.cut = false) :
    Overtaken w.log c := by
  rw [hInv.persisted] at h
  cases hNewest : newest w.log c.merchant c.date with
  | none =>
    rw [hNewest] at h
    cases h
  | some r =>
    rw [hNewest, overwrites, Option.all_some, decide_eq_false_iff_not, not_lt] at h
    obtain ⟨⟨e, he, rfl, hMerchant, hDate⟩, -⟩ := mem_newest hNewest
    refine ⟨e, he, fun hText => ?_, hMerchant, hDate, h⟩
    exact absurd (hNewer e he hText hDate) (not_lt.mpr h)

/-- A commit adds its own run to what was written, or nothing. -/
theorem persist_log (w : World) (i : Nat) (c : Call) (result : ReconcileResult)
    (acknowledged : Bool) : ∃ more, (w.persist i c result acknowledged).log = w.log ++ more ∧
      ∀ e ∈ more, e = ⟨i, c.merchantID, c.row result, acknowledged⟩ := by
  unfold World.persist
  split
  · exact ⟨_, rfl, fun e he => List.mem_singleton.mp he⟩
  · exact ⟨[], (List.append_nil _).symm, nofun⟩

section Append

variable {log more : List Committed} {j : Nat} (hMore : ∀ e ∈ more, e.caller ≠ j)
include hMore

/-- A call stays silent as others write. -/
theorem Silent.append (h : Silent log j) : Silent (log ++ more) j := by
  intro e he
  rcases List.mem_append.mp he with he | he
  · exact h e he
  · exact hMore e he

/-- What another call writes leaves what has been returned accounted for. -/
theorem Call.Accounts.append {c' : Call} {outcome : Except ReconcileError ReconcileResult}
    (h : c'.Accounts log j outcome) : c'.Accounts (log ++ more) j outcome := by
  cases outcome with
  | ok result =>
    simp only [Call.Accounts] at h ⊢
    split at h
    · rename_i hSkipped
      obtain ⟨hSilent, e', he', hRest⟩ := h
      rw [if_pos hSkipped]
      exact ⟨hSilent.append hMore, e', List.mem_append_left _ he', hRest⟩
    · rename_i hSkipped
      rw [if_neg hSkipped]
      rcases h with ⟨e', he', hRest⟩ | ⟨hSilent, e', he', hRest⟩
      · exact .inl ⟨e', List.mem_append_left _ he', hRest⟩
      · exact .inr ⟨hSilent.append hMore, e', List.mem_append_left _ he', hRest⟩
  | error err =>
    intro e' he' hCaller
    rcases List.mem_append.mp he' with he' | he'
    · exact h e' he' hCaller
    · exact absurd hCaller (hMore e' he')

end Append

/-- A call that has found no newer run holds the lock of its text, so that no other
call can write one under that text. -/
theorem World.Inv.newer_persist (hInv : w.Inv) (hCall : w.calls[i]? = some c)
    {result : ReconcileResult} {seen : Option ReconciliationRun}
    (hPhase : c.phase = .saved result seen) (acknowledged : Bool) {j : Nat} {c' : Call}
    (hj : w.calls[j]? = some c') (hNe : j ≠ i) (hProceeds : c'.phase.proceeds = true)
    (hNewer : Newer w.log c') : Newer (w.persist i c result acknowledged).log c' := by
  obtain ⟨more, hLog, hMore⟩ := persist_log w i c result acknowledged
  rw [hLog]
  intro e he hText hDate
  rcases List.mem_append.mp he with he | he
  · exact hNewer e he hText hDate
  · rw [hMore e he] at hText
    have hSame : c.merchantID = c'.merchantID := hText
    refine absurd (hInv.locks i j c c' c.merchantID hCall hj
      (Call.lockHeld_of_holds (by rw [hPhase]; rfl)) ?_) hNe.symm
    rw [hSame]
    exact Call.lockHeld_of_holds (holdsLock_of_proceeds hProceeds)

/-- What another call knows stays true when a call commits: the two share neither
the lock of a text nor a row. -/
theorem World.Inv.sound_persist (hInv : w.Inv) (hCall : w.calls[i]? = some c)
    {result : ReconcileResult} {seen : Option ReconciliationRun}
    (hPhase : c.phase = .saved result seen) (acknowledged : Bool) {j : Nat} {c' : Call}
    (hj : w.calls[j]? = some c') (hNe : j ≠ i) :
    c'.Sound (w.persist i c result acknowledged).runs (w.persist i c result acknowledged).log j := by
  have hSound := hInv.sound j c' hj
  have hNewer := hInv.newer_persist hCall hPhase acknowledged hj hNe
  obtain ⟨more, hLog, hMore⟩ := persist_log w i c result acknowledged
  have hOther : ∀ e ∈ more, e.caller ≠ j := by
    intro e he
    rw [hMore e he]
    exact hNe.symm
  unfold Call.Sound at hSound ⊢
  cases hPhase' : c'.phase with
  | begun | locked =>
    -- a call that has not looked yet only has to be silent
    rw [hPhase'] at hSound
    rw [hLog]
    exact hSound.append hOther
  | pending | streamed _ | totalled _ _ _ =>
    rw [hPhase'] at hSound
    refine ⟨?_, hNewer (by rw [hPhase']; rfl) hSound.2⟩
    rw [hLog]
    exact hSound.1.append hOther
  | compared result' =>
    rw [hPhase'] at hSound
    refine ⟨?_, hNewer (by rw [hPhase']; rfl) hSound.2.1, hSound.2.2⟩
    rw [hLog]
    exact hSound.1.append hOther
  | saved result' seen' =>
    rw [hPhase'] at hSound
    obtain ⟨hSilent, hNewer', hResult, hCut, hSeen⟩ := hSound
    refine ⟨?_, hNewer (by rw [hPhase']; rfl) hNewer', hResult, hCut, ?_⟩
    · rw [hLog]
      exact hSilent.append hOther
    -- two calls that have both written hold the locks of different rows
    · rw [existingRun_persist (hInv.saved hCall hPhase).2.2.2, if_neg, hSeen]
      rintro ⟨hMerchant, hDate⟩
      refine hNe (hInv.rows j i c' c (c.merchant, c.date) hj hCall ?_ ?_)
      · simp only [Call.rowHeld, hPhase', hMerchant, hDate]
      · simp only [Call.rowHeld, hPhase]
  | returned outcome =>
    rw [hPhase'] at hSound
    rw [hLog]
    exact Call.Accounts.append hOther hSound

/-- After a commit the row that is there is the newest of the log. -/
theorem World.Inv.persisted_persist (hInv : w.Inv) (hCut : c.cut ≤ 9223372036854775807)
    (result : ReconcileResult) (acknowledged : Bool) (m : Text) (date : Int) :
    existingRun (w.persist i c result acknowledged).runs m date =
      newest (w.persist i c result acknowledged).log m date := by
  rw [existingRun_persist hCut, hInv.persisted]
  cases hWrites : overwrites (existingRun w.runs c.merchant c.date) c.cut with
  | true =>
    have hLog : (w.persist i c result acknowledged).log = w.log ++ [_] := if_pos hWrites
    rw [hLog, newest_concat]
    rfl
  | false =>
    have hLog : (w.persist i c result acknowledged).log = w.log :=
      if_neg (by rw [hWrites]; exact Bool.false_ne_true)
    rw [hLog]
    split_ifs with hKey
    · -- the row that is there is no older, so that it stays
      obtain ⟨rfl, rfl⟩ := hKey
      rw [hInv.persisted] at hWrites
      cases hNewest : newest w.log c.merchant c.date with
      | none =>
        rw [hNewest] at hWrites
        cases hWrites
      | some r =>
        rw [hNewest, overwrites, Option.all_some, decide_eq_false_iff_not] at hWrites
        rw [Option.elim_some, if_neg hWrites]
    · rfl

/-- And the cuts of a day still increase. -/
theorem World.Inv.increasing_persist (hInv : w.Inv) (result : ReconcileResult)
    (acknowledged : Bool) : (w.persist i c result acknowledged).log.Pairwise fun a b =>
      a.row.merchantID = b.row.merchantID → a.row.businessDate = b.row.businessDate →
        a.row.sourcePositionCut < b.row.sourcePositionCut := by
  unfold World.persist
  split
  · rename_i hWrites
    refine List.pairwise_append.mpr ⟨hInv.increasing, List.pairwise_singleton _ _, ?_⟩
    intro a ha b hb hMerchant hDate
    rw [List.mem_singleton.mp hb] at hMerchant hDate ⊢
    exact hInv.older_of_overwrites hWrites ha hMerchant hDate
  · exact hInv.increasing

/-- What a call may say of its own commit. -/
theorem World.Inv.accounts_persist (hInv : w.Inv) (hCall : w.calls[i]? = some c)
    {result : ReconcileResult} {seen : Option ReconciliationRun}
    (hPhase : c.phase = .saved result seen) (acknowledged : Bool) :
    c.Accounts (w.persist i c result acknowledged).log i
      (if acknowledged then .ok result else .error commitFailed) := by
  obtain ⟨hSilent, hNewer, hResult, -⟩ := hInv.saved hCall hPhase
  cases acknowledged with
  | true =>
    simp only [if_true, Call.Accounts, hResult, Bool.false_eq_true, if_false]
    unfold World.persist
    split
    · -- the row was written
      exact .inl ⟨_, List.mem_append_right _ (List.mem_singleton_self _), rfl, rfl, rfl⟩
    · -- or a call of another spelling had a newer cut
      rename_i hWrites
      exact .inr ⟨hSilent, hInv.overtaken hNewer (Bool.eq_false_iff.mpr hWrites)⟩
  | false =>
    -- the caller is told of a failure, though the run may have been written
    obtain ⟨more, hLog, hMore⟩ := persist_log w i c result false
    rw [hLog]
    intro e he hCaller
    rcases List.mem_append.mp he with he | he
    · exact absurd hCaller (hSilent e he)
    · rw [hMore e he]
      exact ⟨rfl, rfl⟩

/-- A commit that takes effect, and the outcome that is returned for it. -/
theorem World.Inv.persist (hInv : w.Inv) (hCall : w.calls[i]? = some c) {result : ReconcileResult}
    {seen : Option ReconciliationRun} (hPhase : c.phase = .saved result seen)
    (acknowledged : Bool) :
    ((w.persist i c result acknowledged).advance i
      (.returned (if acknowledged then .ok result else .error commitFailed))).Inv := by
  obtain ⟨-, -, -, hCut⟩ := hInv.saved hCall hPhase
  obtain ⟨more, hLog, hMore⟩ := persist_log w i c result acknowledged
  constructor
  · exact hInv.persisted_persist hCut result acknowledged
  · exact hInv.increasing_persist result acknowledged
  · -- each commit names its call
    intro e he
    have he' : e ∈ (w.persist i c result acknowledged).log := he
    rw [hLog] at he'
    rcases List.mem_append.mp he' with he' | he'
    · exact ⟨called_modify i _ (hInv.named e he').1, (hInv.named e he').2⟩
    · rw [hMore e he']
      exact ⟨called_modify i _ ⟨c, hCall, rfl⟩, rfl⟩
  · intro j c' hj
    rcases getElem?_modify_some hj with ⟨rfl, a, ha, rfl⟩ | ⟨hNe, hj'⟩
    · obtain rfl : c = a := Option.some.inj (hCall.symm.trans ha)
      exact hInv.accounts_persist hCall hPhase acknowledged
    · exact hInv.sound_persist hCall hPhase acknowledged hj' hNe
  · exact hInv.locks.modify hCall (.inl rfl)
  · exact hInv.rows.modify hCall (.inl rfl)

/-- One event of any kind. -/
theorem World.Inv.exec (hInv : w.Inv) (event : Event) : (w.exec event).Inv := by
  cases event with
  | project store =>
    exact ⟨hInv.persisted, hInv.increasing, hInv.named, hInv.sound, hInv.locks, hInv.rows⟩
  | call merchantID date cut =>
    refine ⟨hInv.persisted, hInv.increasing, ?_, ?_, hInv.locks.concat rfl, hInv.rows.concat rfl⟩
    · intro e he
      obtain ⟨⟨c, hCall, hText⟩, hRow⟩ := hInv.named e he
      refine ⟨⟨c, ?_, hText⟩, hRow⟩
      show (w.calls ++ [_])[e.caller]? = some c
      rw [List.getElem?_append_left (List.getElem?_eq_some_iff.mp hCall).1, hCall]
    · intro i c hi
      have hi' : (w.calls ++ [⟨merchantID, date, cut, .begun⟩])[i]? = some c := hi
      rw [List.getElem?_append] at hi'
      split at hi'
      · exact hInv.sound i c hi'
      · -- the new call
        rename_i hLength
        rw [List.getElem?_singleton] at hi'
        split at hi'
        · cases hi'
          -- nothing can be written by a call that has not begun
          intro e he hCaller
          obtain ⟨⟨c, hOld, -⟩, -⟩ := hInv.named e he
          have hLt := (List.getElem?_eq_some_iff.mp hOld).1
          omega
        · cases hi'
  | act i action =>
    cases hCall : w.calls[i]? with
    | none => simpa only [World.exec, hCall] using hInv
    | some c =>
      cases hAfter : c.after w action with
      | none => simpa only [World.exec, hCall, hAfter] using hInv
      | some phase =>
        simp only [World.exec, hCall, hAfter]
        exact hInv.act hCall (Call.moves_of_after hAfter)
  | commit i outcome =>
    cases hCall : w.calls[i]? with
    | none => simpa only [World.exec, hCall] using hInv
    | some c =>
      cases hPhase : c.phase with
      | saved result seen =>
        simp only [World.exec, hCall, hPhase]
        cases outcome with
        | committed => exact hInv.persist hCall hPhase true
        | rolledBack => exact hInv.act hCall (.fail (by rw [hPhase]; exact nofun))
        | unacknowledged => exact hInv.persist hCall hPhase false
      | begun | locked | pending | streamed _ | totalled _ _ _ | compared _ | returned _ =>
        simpa only [World.exec, hCall, hPhase] using hInv

/-- No event lets the persisted cut decrease. -/
theorem World.Inv.cut_le (hInv : w.Inv) (event : Event) {m : Text} {date : Int}
    {r : ReconciliationRun} (h : existingRun w.runs m date = some r) :
    ∃ r', existingRun (w.exec event).runs m date = some r' ∧
      r.sourcePositionCut ≤ r'.sourcePositionCut := by
  -- a commit replaces a row by one with a larger cut, or leaves it
  have hPersist : ∀ {i : Nat} {c : Call} {result : ReconcileResult}
      {seen : Option ReconciliationRun} (acknowledged : Bool), w.calls[i]? = some c →
      c.phase = .saved result seen →
      ∃ r', existingRun (w.persist i c result acknowledged).runs m date = some r' ∧
        r.sourcePositionCut ≤ r'.sourcePositionCut := by
    intro i c result seen acknowledged hCall hPhase
    rw [existingRun_persist (hInv.saved hCall hPhase).2.2.2, h]
    simp only [Option.elim_some]
    split_ifs with hKey hOlder
    · exact ⟨_, rfl, Nat.le_of_lt hOlder⟩
    · exact ⟨r, rfl, le_rfl⟩
    · exact ⟨r, rfl, le_rfl⟩
  cases event with
  | project store => exact ⟨r, h, le_rfl⟩
  | call merchantID date cut => exact ⟨r, h, le_rfl⟩
  | act i action =>
    refine ⟨r, ?_, le_rfl⟩
    simp only [World.exec]
    split
    · exact h
    · split
      · exact h
      · exact h
  | commit i outcome =>
    simp only [World.exec]
    split
    · exact ⟨r, h, le_rfl⟩
    · rename_i c hCall
      split
      · rename_i result seen hPhase
        cases outcome with
        | committed => exact hPersist true hCall hPhase
        | rolledBack => exact ⟨r, h, le_rfl⟩
        | unacknowledged => exact hPersist false hCall hPhase
      · exact ⟨r, h, le_rfl⟩

/-- What a call has returned accounts for what it has written. -/
theorem World.Inv.accounts (hInv : w.Inv) (hCall : w.calls[i]? = some c)
    {outcome : Except ReconcileError ReconcileResult} (hOutcome : c.outcome = some outcome) :
    c.Accounts w.log i outcome := by
  have hSound := hInv.sound i c hCall
  unfold Call.outcome at hOutcome
  unfold Call.Sound at hSound
  split at hOutcome
  · rename_i hPhase
    cases hOutcome
    rwa [hPhase] at hSound
  · cases hOutcome

/-- The invariant holds before any call. -/
theorem World.inv_start (store : Store) : (World.start store).Inv where
  persisted _ _ := rfl
  increasing := List.Pairwise.nil
  named := nofun
  sound := nofun
  locks := Exclusive.nil
  rows := Exclusive.nil

end Step

/-! ## Every interleaving -/

/-- Over every interleaving of calls, of changes of the projection and of failures:
the cuts written to the row of a merchant and date increase, and the row holds the
run of the greatest one; what a call has returned accounts for what it has written,
and a call that reports a comparison has written it if the merchant is spelled in one
way; the next event lets no persisted cut decrease; and a call that finds a cut not
below its own reports it and writes nothing. -/
theorem runs_compare_and_set (store : Store) (events : List Event) :
    let w := run World.exec (World.start store) events
    (∀ m date, existingRun w.runs m date = newest w.log m date) ∧
    (w.log.Pairwise fun a b => a.row.merchantID = b.row.merchantID →
      a.row.businessDate = b.row.businessDate →
        a.row.sourcePositionCut < b.row.sourcePositionCut) ∧
    (∀ (i : Nat) (c : Call) outcome, w.calls[i]? = some c → c.outcome = some outcome →
      c.Accounts w.log i outcome) ∧
    (∀ (i : Nat) (c : Call) result, w.calls[i]? = some c → c.outcome = some (.ok result) →
      result.skipped = false →
      (∀ c' ∈ w.calls, c'.merchant = c.merchant → c'.merchantID = c.merchantID) →
      ∃ e ∈ w.log, e.caller = i ∧ e.row = c.row result ∧ e.acknowledged = true) ∧
    (∀ event m date r, existingRun w.runs m date = some r →
      ∃ r', existingRun (w.exec event).runs m date = some r' ∧
        r.sourcePositionCut ≤ r'.sourcePositionCut) ∧
    ∀ (i : Nat) (c : Call) m r, w.calls[i]? = some c → c.phase = .locked →
      uuidIn c.merchantID = some m → existingRun w.runs m c.date = some r →
      c.cut ≤ r.sourcePositionCut →
      w.exec (.act i .loadExistingRun) = w.advance i (.returned (.ok (reported r))) := by
  intro w
  have hInv : w.Inv := run_invariant' World.Inv (fun w event h => h.exec event) events
    (World.start store) (World.inv_start store)
  refine ⟨hInv.persisted, hInv.increasing, fun i c outcome hCall => hInv.accounts hCall, ?_,
    fun event m date r => hInv.cut_le event, ?_⟩
  · intro i c result hCall hOutcome hCompared hSpelling
    have hAccounts := hInv.accounts hCall hOutcome
    simp only [Call.Accounts, hCompared, Bool.false_eq_true, if_false] at hAccounts
    refine hAccounts.resolve_right ?_
    -- whatever else was written for the merchant was written under the same text
    rintro ⟨-, e, he, hText, hMerchant, -, -⟩
    obtain ⟨⟨c', hc', hSame⟩, hRow⟩ := hInv.named e he
    refine hText (hSame.symm.trans (hSpelling c' (List.mem_of_getElem? hc') ?_))
    rw [← hMerchant, hRow, ← hSame]
    rfl
  · intro i c m r hCall hPhase hID hRun hCut
    -- the run that is there is new enough, so that it is reported
    have hFound : (existingRun w.runs m c.date).filter
        (fun r => decide (c.cut ≤ r.sourcePositionCut)) = some r := by
      rw [hRun, Option.filter_some, if_pos (decide_eq_true hCut)]
    simp only [World.exec, hCall, Call.after, hPhase, hID, hFound]

/-- A call that is not interrupted, up to its commit. -/
def throughSave (i : Nat) (merchantID : Text) (cut : Nat) (items : List SourceEntry) : List Event :=
  [.call merchantID 0 cut, .act i .lockMerchant, .act i .loadExistingRun,
    .act i (.stream [⟨true, items, true, false⟩]), .act i .readBalance, .act i .loadProjected,
    .act i .saveRun]

/-- An entry of the merchant on that date. -/
def sampleEntry : SourceEntry :=
  ⟨sampleID '1', sampleID 'a', 1, entryTypeCredit, 100, "BRL".toList, formatDate 0, 0, []⟩

/-- A call whose commit is not acknowledged returns an error and has written its run.
And two spellings of one merchant share no lock: both calls find no run and commit the
same cut, and the second reports counts that are not the persisted ones, without
saying that it was skipped. -/
theorem unacknowledged_and_overtaken_runs :
    (let w := run World.exec (World.start Store.empty)
      (throughSave 0 (sampleID 'a') 5 [] ++ [.commit 0 .unacknowledged])
    w.calls.map Call.outcome = [some (.error commitFailed)] ∧
      (existingRun w.runs (sampleID 'a') 0).map ReconciliationRun.sourcePositionCut = some 5) ∧
    let w := run World.exec (World.start Store.empty)
      [.call (sampleID 'a') 0 5, .call (sampleID 'A') 0 5, .act 0 .lockMerchant,
        .act 1 .lockMerchant, .act 0 .loadExistingRun, .act 1 .loadExistingRun,
        .act 0 (.stream [⟨true, [], true, false⟩]),
        .act 1 (.stream [⟨true, [sampleEntry], true, false⟩]), .act 0 .readBalance,
        .act 1 .readBalance, .act 0 .loadProjected, .act 1 .loadProjected, .act 0 .saveRun,
        .commit 0 .committed, .act 1 .saveRun, .commit 1 .committed]
    w.calls.map Call.outcome =
        [some (.ok ⟨0, 0, 0, 0, false⟩), some (.ok ⟨1, 0, 0, 100, false⟩)] ∧
      existingRun w.runs (sampleID 'a') 0 = some ⟨sampleID 'a', 0, 5, 0, 0, 0, 0⟩ := by
  decide +kernel

/-- A call with an older cut finds the newer run. -/
theorem runs_compare_and_set_older_cut :
    let w := run World.exec (World.start Store.empty) (throughSave 0 (sampleID 'a') 5 [] ++
      [.commit 0 .committed, .call (sampleID 'a') 0 3, .act 1 .lockMerchant])
    w.exec (.act 1 .loadExistingRun) =
      w.advance 1 (.returned (.ok (reported ⟨sampleID 'a', 0, 5, 0, 0, 0, 0⟩))) := by
  intro w
  obtain ⟨-, -, -, -, -, hSkip⟩ := runs_compare_and_set Store.empty
    (throughSave 0 (sampleID 'a') 5 [] ++
      [.commit 0 .committed, .call (sampleID 'a') 0 3, .act 1 .lockMerchant])
  refine hSkip 1 ⟨sampleID 'a', 0, 3, .locked⟩ (sampleID 'a') ⟨sampleID 'a', 0, 5, 0, 0, 0, 0⟩
    rfl rfl (by decide +kernel) (by decide +kernel) (by decide)

end Cashflow.Reconciliation.Runs
