import Cashflow.Pipeline.Mirror
import Cashflow.Reconciliation.Streams
import Mathlib.Algebra.Order.BigOperators.Group.List

/-!
# Reconciliation — what a report of zeros says

The entry sets are compared up to the cut, by entry id. The money is compared
as one number, and its projected side is the balance row of the day, which
knows no cut.

Main results:

* `reconcile_reported` — what a call that was not skipped compared;
* `compareEntrySets_zero` — the three counts are zero exactly when the projected
  ids are the ledger's ids, each once;
* `zero_report_sound` — after a report of zeros the entries are right, and the
  money is right exactly when the credits alone are (and the debits fit);
* `report_of_projected` — on a faithful projection the counts are zero, and the
  difference is zero exactly when the day's entries past the cut net to zero;
* `equal_errors_cancel`, `false_alarm_before_last_position` — a divergence that
  is not reported, and a report without a divergence.
-/

namespace Cashflow.Reconciliation

open Lib Consolidation Pipeline

variable {d : Ledger.Db} {m : Ledger.UUID} {date : Int} {cut : Nat} {env : ReconcileEnv} {s : Store}
  {runs : Table runSchema} {dateStr : Text}

/-! ## A complete stream -/

/-- An attempt receives a prefix of the stream, and all of it if it ends well. -/
structure Attempt.Of (a : Attempt) (stream : List SourceEntry) : Prop where
  received : a.items <+: stream
  whole : a.complete = true → a.items = stream

/-- Whichever attempt succeeds, it has accumulated the stream's entries of the date. -/
theorem streamSourceEntries_some {stream : List SourceEntry} {attempts : List Attempt}
    {source : Source} (hNamed : ∀ e ∈ stream, e.entryID ≠ [])
    (hOf : ∀ a ∈ attempts, a.Of stream)
    (h : streamSourceEntries dateStr attempts = some source) :
    source = (stream.filter (·.businessDate = dateStr)).foldl Source.add .empty := by
  induction attempts with
  | nil => cases h
  | cons a attempts ih =>
    have ha := hOf a List.mem_cons_self
    have hItems : ∀ e ∈ a.items, e.entryID ≠ [] := fun e he => hNamed e (ha.received.subset he)
    rw [streamSourceEntries, attemptStream, receive_named hItems] at h
    cases hOpened : a.opened with
    | false =>
      -- the stream could not be opened
      simp only [hOpened, Bool.false_eq_true, if_false] at h
      -- an attempt that broke off counts for nothing, the next one starts anew
      split at h
      · cases h
      · exact ih (fun a' ha' => hOf a' (List.mem_cons_of_mem _ ha')) h
    | true =>
      cases hComplete : a.complete with
      | false =>
        simp only [hOpened, hComplete, Bool.false_eq_true, if_false, if_true] at h
        split at h
        · cases h
        · exact ih (fun a' ha' => hOf a' (List.mem_cons_of_mem _ ha')) h
      | true =>
        -- a complete attempt received the whole stream
        simp only [hOpened, hComplete, if_true, Option.some.injEq] at h
        rw [← h, ha.whole hComplete]

/-! ## The comparison -/

/-- No excess means that no count is above one. -/
theorem sum_excess_eq_zero (counts : List Nat) :
    (counts.map fun n => if 1 < n then n - 1 else 0).sum = 0 ↔ ∀ n ∈ counts, n ≤ 1 := by
  induction counts with
  | nil => simp
  | cons n counts ih =>
    have hHead : (if 1 < n then n - 1 else 0) = 0 ↔ n ≤ 1 := by split <;> omega
    rw [List.map_cons, List.sum_cons, Nat.add_eq_zero_iff, ih, hHead, List.forall_mem_cons]

/-- The three counts are zero exactly when the projected ids are the source's, each once. -/
theorem compareEntrySets_zero (source : AList fun _ : Text => SourceEntry) (ids : List Text) :
    compareEntrySets source (tally ids) = (0, 0, 0) ↔ ids.Perm source.keys := by
  rw [perm_iff_tally source.keys_nodup]
  have hDuplicated : ((tally ids).entries.map fun entry =>
      if 1 < entry.2 then entry.2 - 1 else 0).sum = 0 ↔
        ∀ entry ∈ (tally ids).entries, entry.2 ≤ 1 := by
    have h := sum_excess_eq_zero ((tally ids).entries.map (·.2))
    rw [List.map_map] at h
    rw [List.forall_mem_map] at h
    exact h
  simp only [compareEntrySets, Prod.mk.injEq, List.length_eq_zero_iff, List.filter_eq_nil_iff,
    hDuplicated, decide_eq_true_eq, not_not, AList.mem_keys]

/-- A statement succeeds when it does not fail. -/
theorem attempt_ok {statement : ReconcileStatement} {operation : String} {u : Unit} :
    env.attempt statement operation = .ok u ↔ env.fault statement = false := by
  unfold ReconcileEnv.attempt
  cases env.fault statement <;> simp

/-- A call that reports without skipping has read a source and compared it. -/
theorem reconcile_reported {r : ReconcileResult}
    (h : (reconcile env s runs m.text date cut).1 = .ok r) (hNew : r.skipped = false) :
    ∃ source, streamSourceEntries (formatDate date) (env.attempts.take maxStreamAttempts) =
        some source ∧
      r = compareTotals source (loadProjectedEntryCounts s m.text date cut)
        (projectedTotals s m.text date).1 (projectedTotals s m.text date).2 := by
  -- only a transaction that was skipped or committed reports
  have hTx : ∃ runs', reconcileTx env s runs m.text date cut = .ok (r, runs') := by
    unfold reconcile at h
    split at h
    · cases h
    · next result runs' hOk =>
      refine ⟨runs', ?_⟩
      split at h
      · cases h
        exact hOk
      · split at h <;> cases h
        exact hOk
  obtain ⟨runs', hTx⟩ := hTx
  unfold reconcileTx at hTx
  simp only [peel] at hTx
  obtain ⟨-, -, -, -, -, -, hTx⟩ := hTx
  split at hTx
  · -- an equal or newer cut: the report says it was skipped
    cases hTx
    cases hNew
  · unfold reconcileNew at hTx
    simp only [peel, mapError_ok] at hTx
    obtain ⟨source, hSource, -, -, -, -, -, -, -, -, runs'', -, hResult⟩ := hTx
    cases hResult
    refine ⟨source, ?_, rfl⟩
    unfold readSource at hSource
    split at hSource
    · next hSome =>
      cases hSource
      exact hSome
    · cases hSource

/-! ## The ledger's entries of the day -/

/-- The ledger's entries of the date up to the cut. -/
def dayEntries (d : Ledger.Db) (m : Ledger.UUID) (date : Int) (cut : Nat) : List Ledger.EntryRow :=
  (entriesAtCut d m cut).filter fun e => e.businessDate = date

def rowCredit (e : Ledger.EntryRow) : Int :=
  if e.entryType = .credit then e.amountMinor.toInt else 0

def rowDebit (e : Ledger.EntryRow) : Int :=
  if e.entryType = .debit then e.amountMinor.toInt else 0

def ledgerCredits (d : Ledger.Db) (m : Ledger.UUID) (date : Int) (cut : Nat) : Int :=
  ((dayEntries d m date cut).map rowCredit).sum

def ledgerDebits (d : Ledger.Db) (m : Ledger.UUID) (date : Int) (cut : Nat) : Int :=
  ((dayEntries d m date cut).map rowDebit).sum

/-- The credit of a streamed entry is that of its row. -/
theorem creditOf_sourceEntry (e : Ledger.EntryRow) : creditOf (sourceEntry e) = rowCredit e := by
  unfold creditOf rowCredit sourceEntry
  cases e.entryType <;> rfl

/-- And so is its debit. -/
theorem debitOf_sourceEntry (e : Ledger.EntryRow) : debitOf (sourceEntry e) = rowDebit e := by
  unfold debitOf rowDebit sourceEntry
  cases e.entryType <;> rfl

/-- The stream's entries of the date are those of the ledger, in some order. -/
theorem stream_day (d : Ledger.Db) (m : Ledger.UUID) (date : Int) (cut : Nat) :
    ((streamEntriesAtCut d m cut).filter (·.businessDate = formatDate date)).Perm
      ((dayEntries d m date cut).map sourceEntry) := by
  unfold streamEntriesAtCut dayEntries
  rw [List.filter_map]
  refine List.Perm.map sourceEntry ?_
  have hSame : ((fun e : SourceEntry => decide (e.businessDate = formatDate date)) ∘ sourceEntry) =
      fun e : Ledger.EntryRow => decide (e.businessDate = date) := by
    funext e
    exact decide_eq_decide.mpr formatDate_injective.eq_iff
  rw [hSame]
  exact (List.perm_insertionSort _ _).filter _

/-- Every streamed entry has an identifier. -/
theorem stream_named {d : Ledger.Db} {m : Ledger.UUID} {cut : Nat} :
    ∀ e ∈ streamEntriesAtCut d m cut, e.entryID ≠ [] := by
  intro e he hNil
  obtain ⟨row, -, rfl⟩ := List.mem_map.mp he
  have hWell := row.id.wellFormed
  rw [show row.id.text = [] from hNil] at hWell
  cases hWell

/-- The entries of a day have different identifiers. -/
theorem entry_ids_nodup (d : Ledger.Db) (m : Ledger.UUID) (date : Int) (cut : Nat) :
    ((dayEntries d m date cut).map fun e => e.id.text).Nodup := by
  have hRows : d.entries.rows.Pairwise fun a b => a.id.text ≠ b.id.text :=
    d.entries.unique.imp fun {a b} hClash hText => by
      have hID : a.id = b.id := Ledger.UUID.ext hText
      simp [Ledger.entrySchema, hID] at hClash
  rw [List.Nodup, List.pairwise_map]
  exact (hRows.filter _).filter _

/-- What the worker has read after a complete pass over the ledger's stream. -/
structure Read (d : Ledger.Db) (m : Ledger.UUID) (date : Int) (cut : Nat) (source : Source) :
    Prop where
  keys : source.entries.keys.Perm ((dayEntries d m date cut).map fun e => e.id.text)
  credits : source.credits = Int64.ofInt (ledgerCredits d m date cut)
  debits : source.debits = Int64.ofInt (ledgerDebits d m date cut)

/-- A source that was read from the ledger's stream holds the day's entries and their totals. -/
theorem read_of_stream {attempts : List Attempt} {source : Source}
    (hOf : ∀ a ∈ attempts, a.Of (streamEntriesAtCut d m cut))
    (h : streamSourceEntries (formatDate date) attempts = some source) :
    Read d m date cut source := by
  have hSource := streamSourceEntries_some stream_named hOf h
  have hDay := stream_day d m date cut
  have hIDs : (((streamEntriesAtCut d m cut).filter (·.businessDate = formatDate date)).map
      (·.entryID)).Perm ((dayEntries d m date cut).map fun e => e.id.text) := by
    have hMap := hDay.map (·.entryID)
    rwa [List.map_map] at hMap
  have hCredits := (hDay.map creditOf).sum_eq
  have hDebits := (hDay.map debitOf).sum_eq
  rw [List.map_map] at hCredits hDebits
  subst hSource
  refine ⟨?_, ?_, ?_⟩
  · -- each entry was counted once, since no two share an identifier
    exact (keys_foldl_add (hIDs.nodup_iff.mpr (entry_ids_nodup d m date cut))).trans hIDs
  · rw [(foldl_add _ _).1, hCredits, show creditOf ∘ sourceEntry = rowCredit from
      funext creditOf_sourceEntry]
    exact Int64.zero_add _
  · rw [(foldl_add _ _).2, hDebits, show debitOf ∘ sourceEntry = rowDebit from
      funext debitOf_sourceEntry]
    exact Int64.zero_add _

/-! ## After a report of zeros -/

/-- The projected totals are those of the balance row. -/
theorem projectedTotals_eq (s : Store) (m : Text) (date : Int) :
    projectedTotals s m date =
      (creditsColumn.total s.balances m date, debitsColumn.total s.balances m date) := by
  unfold projectedTotals Column.total balanceOn
  cases s.balances.find? (onDay m date) <;> rfl

/-- The reported difference is zero exactly when the nets agree modulo `2 ^ 64`. -/
theorem difference_eq_zero {source : Source} {projected : AList fun _ : Text => Nat}
    {credits debits : Int} (hRead : Read d m date cut source) :
    (compareTotals source projected credits debits).financialDifferenceMinor = 0 ↔
      Int64.ofInt (credits - debits) =
        Int64.ofInt (ledgerCredits d m date cut - ledgerDebits d m date cut) := by
  have hAbs (x : Int64) : (if x < 0 then -x else x) = 0 ↔ x = 0 := by
    split
    · grind
    · rfl
  show (if _ < 0 then _ else _) = 0 ↔ _
  rw [hAbs, hRead.credits, hRead.debits, Int64.ofInt_sub, Int64.ofInt_sub]
  grind

/-- The range of the column, in numbers. -/
theorem isBigint_iff {a : Int} :
    isBigint a = true ↔ -9223372036854775808 ≤ a ∧ a ≤ 9223372036854775807 := by
  simp [isBigint]

/-- Within that range, equal machine integers are equal. -/
theorem ofInt_inj {a b : Int} (ha : isBigint a = true) (hb : isBigint b = true)
    (h : Int64.ofInt a = Int64.ofInt b) : a = b := by
  rw [isBigint_iff] at ha hb
  rw [← Int64.toInt_ofInt_of_le (by omega) (by omega : a < 2 ^ 63), h,
    Int64.toInt_ofInt_of_le (by omega) (by omega)]

/-- The three counts are zero exactly when both sides have the same entries. -/
theorem counts_zero {source : Source} {credits debits : Int}
    (hRead : Read d m date cut source) :
    let r := compareTotals source (loadProjectedEntryCounts s m.text date cut) credits debits
    (r.missingEntries = 0 ∧ r.extraEntries = 0 ∧ r.duplicatedEntries = 0) ↔
      ((projectedRows s m.text date cut).map fun r => r.event.entryID).Perm
        ((dayEntries d m date cut).map fun e => e.id.text) := by
  have hZero := compareEntrySets_zero source.entries
    ((projectedRows s m.text date cut).map fun r => r.event.entryID)
  rw [Prod.ext_iff, Prod.ext_iff] at hZero
  exact hZero.trans ⟨fun h => h.trans hRead.keys, fun h => h.trans hRead.keys.symm⟩

/-- The totals of ledger rows are not negative, since no amount is. -/
theorem rowSum_nonneg {rows : List Ledger.EntryRow} (hRows : ∀ e ∈ rows, e ∈ d.entries) :
    0 ≤ (rows.map rowCredit).sum ∧ 0 ≤ (rows.map rowDebit).sum := by
  have hAmount : ∀ e ∈ rows, 0 ≤ rowCredit e ∧ 0 ≤ rowDebit e := by
    intro e he
    have hCheck := d.entries.checked e (hRows e he)
    simp only [Ledger.entrySchema, Bool.and_eq_true, decide_eq_true_eq] at hCheck
    have hPos : (0 : Int64) < e.amountMinor := hCheck.1.1.1.2
    rw [Int64.lt_iff_toInt_lt] at hPos
    have hPos : 0 < e.amountMinor.toInt := hPos
    unfold rowCredit rowDebit
    constructor <;> split <;> omega
  constructor
  all_goals
    refine List.sum_nonneg fun x hx => ?_
    obtain ⟨e, he, rfl⟩ := List.mem_map.mp hx
  · exact (hAmount e he).1
  · exact (hAmount e he).2

/-- A day's entries are entries of the ledger. -/
theorem dayEntries_mem : ∀ e ∈ dayEntries d m date cut, e ∈ d.entries :=
  fun _ he => (List.mem_filter.mp (List.mem_filter.mp he).1).1

/-- A ledger with one credit of 100 on day 0. -/
def oneCredit : Ledger.Db :=
  { Ledger.Db.empty with
    entries := ⟨[⟨sampleMerchant, sampleMerchant, 1, .credit, 100, Ledger.currencyBRL, 0, none, 0,
      none⟩], by decide, by decide⟩ }

/-- The event of that credit, in a projection whose day has the given totals. -/
def projectionWith (credits debits : Int) (h : balanceSchema.check
    ⟨sampleMerchant.text, 0, credits, debits, credits - debits, 1, credits - debits, 1⟩ = true) :
    Store :=
  { Store.empty with
    inbox := ⟨[.of { sampleCredit '1' 1 0 100 with
      merchantID := sampleMerchant.text, entryID := sampleMerchant.text }],
      by decide +kernel, by decide⟩
    balances := ⟨[⟨sampleMerchant.text, 0, credits, debits, credits - debits, 1,
      credits - debits, 1⟩], by simpa using h, by simp⟩ }

/-- A call whose first attempt reads the whole stream and whose statements succeed. -/
def calmReconcile (d : Ledger.Db) (m : Ledger.UUID) (cut : Nat) : ReconcileEnv :=
  ⟨fun _ => false, [⟨true, streamEntriesAtCut d m cut, true, false⟩], .committed⟩

/-- The attempts of the sample are of the ledger's own stream. -/
theorem calmReconcile_of (d : Ledger.Db) (m : Ledger.UUID) (cut : Nat) :
    ∀ a ∈ (calmReconcile d m cut).attempts, a.Of (streamEntriesAtCut d m cut) := by
  intro a ha
  rw [List.mem_singleton.mp ha]
  exact ⟨List.prefix_rfl, fun _ => rfl⟩

/-- The inbox holds exactly the events of the merchant's entries at the positions `1` to `n`. -/
structure Projected (d : Ledger.Db) (s : Store) (m : Ledger.UUID) (n : Nat) : Prop where
  positions : ∀ p : Nat, 1 ≤ p → p ≤ n →
    ∃ e ∈ d.entries, e.merchantID = m ∧ e.position.toInt = p
  complete : ∀ e ∈ d.entries, e.merchantID = m → e.position.toInt ≤ n →
    ∃ r ∈ s.inbox, Mirrors e r.event
  only : ∀ r ∈ s.inbox, r.event.merchantID = m.text →
    ∃ e ∈ d.entries, e.merchantID = m ∧ e.position.toInt ≤ n ∧ Mirrors e r.event

/-- What the comparison looks at: id, position, type and amount. -/
abbrev Line := Text × Int64 × Text × Int64

def entryLine (e : Ledger.EntryRow) : Line := (e.id.text, e.position, e.entryType.text, e.amountMinor)

def eventLine (event : EntryConfirmed) : Line :=
  (event.entryID, event.merchantPosition, event.entryType, event.amountMinor)

/-- The inbox rows of the date with a position in `keep`. -/
def inboxLines (s : Store) (m : Text) (date : Int) (keep : Int64 → Bool) : List Line :=
  (s.inbox.rows.filter fun r => r.event.merchantID == m && r.event.businessDate == date &&
    keep r.event.merchantPosition).map fun r => eventLine r.event

/-- An event is in the inbox once. -/
theorem inboxLines_nodup (s : Store) (m : Text) (date : Int) (keep : Int64 → Bool) :
    (inboxLines s m date keep).Nodup := by
  rw [inboxLines, List.Nodup, List.pairwise_map]
  refine List.Pairwise.imp_of_mem ?_ (s.inbox.unique.filter _)
  intro a b ha hb hClash hLine
  have ha' := (List.mem_filter.mp ha).2
  have hb' := (List.mem_filter.mp hb).2
  simp only [Bool.and_eq_true, beq_iff_eq] at ha' hb'
  have hPosition : a.event.merchantPosition = b.event.merchantPosition :=
    congrArg (fun line : Line => line.2.1) hLine
  simp [inboxSchema, ha'.1.1, hb'.1.1, hPosition] at hClash

/-- And an entry is in the ledger once. -/
theorem dayLines_nodup (d : Ledger.Db) (m : Ledger.UUID) (date : Int) (cut : Nat) :
    ((dayEntries d m date cut).map entryLine).Nodup := by
  have hIDs := entry_ids_nodup d m date cut
  rw [List.Nodup, List.pairwise_map] at hIDs ⊢
  exact hIDs.imp fun hID hLine => hID (congrArg (fun line : Line => line.1) hLine)

/-- The kept rows of a faithful projection are the ledger's entries up to `cut`,
when `keep` keeps just the positions up to `cut` of those projected. -/
theorem Projected.lines_perm {n : Nat} (h : Projected d s m n) (date : Int) (hCut : cut ≤ n)
    (keep : Int64 → Bool) (hKeep : ∀ p : Int64, p.toInt ≤ n → (keep p = true ↔ p.toInt ≤ cut)) :
    (inboxLines s m.text date keep).Perm ((dayEntries d m date cut).map entryLine) := by
  refine (List.perm_ext_iff_of_nodup (inboxLines_nodup s m.text date keep)
    (dayLines_nodup d m date cut)).mpr fun line => ?_
  simp only [inboxLines, dayEntries, entriesAtCut, List.mem_map, List.mem_filter, Bool.and_eq_true,
    beq_iff_eq, decide_eq_true_eq]
  constructor
  · rintro ⟨r, ⟨hr, ⟨hMerchant, hDate⟩, hKept⟩, rfl⟩
    obtain ⟨e, he, hm, hn, hID, -, hPosition, hType, hAmount, hDay⟩ := h.only r hr hMerchant
    rw [hPosition] at hKept
    refine ⟨e, ⟨⟨he, hm, (hKeep _ hn).mp hKept⟩, hDay ▸ hDate⟩, ?_⟩
    rw [entryLine, eventLine, hID, hPosition, hType, hAmount]
  · rintro ⟨e, ⟨⟨he, hm, hPos⟩, hDate⟩, rfl⟩
    have hn : e.position.toInt ≤ n := by omega
    obtain ⟨r, hr, hID, hMerchant, hPosition, hType, hAmount, hDay⟩ := h.complete e he hm hn
    refine ⟨r, ⟨hr, ⟨hMerchant.trans (congrArg _ hm), hDay.trans hDate⟩, ?_⟩, ?_⟩
    · rw [hPosition]
      exact (hKeep _ hn).mpr hPos
    · rw [entryLine, eventLine, hID, hPosition, hType, hAmount]

def lineCredit (line : Line) : Int := if line.2.2.1 = entryCredit then line.2.2.2.toInt else 0
def lineDebit (line : Line) : Int := if line.2.2.1 = entryCredit then 0 else line.2.2.2.toInt

/-- The sides of a line are those of the entry it was made of. -/
theorem lineCredit_entryLine (e : Ledger.EntryRow) :
    lineCredit (entryLine e) = rowCredit e ∧ lineDebit (entryLine e) = rowDebit e := by
  unfold lineCredit lineDebit entryLine rowCredit rowDebit
  cases e.entryType <;> exact ⟨rfl, rfl⟩

/-- And those of the event. -/
theorem lineCredit_eventLine (event : EntryConfirmed) :
    lineCredit (eventLine event) = event.financialEffect.creditsMinor ∧
      lineDebit (eventLine event) = event.financialEffect.debitsMinor := by
  unfold lineCredit lineDebit eventLine EntryConfirmed.financialEffect
  dsimp only
  split <;> exact ⟨rfl, rfl⟩

/-- The stored events of the day are the ledger's entries up to the position. -/
theorem Projected.events_perm {n : Nat} (h : Projected d s m n) (date : Int) :
    ((eventsOn s.inbox m.text date).map eventLine).Perm ((dayEntries d m date n).map entryLine) := by
  have hPerm := h.lines_perm date le_rfl (fun _ => true) fun p hp => ⟨fun _ => hp, fun _ => rfl⟩
  have hEvents : (eventsOn s.inbox m.text date).map eventLine =
      inboxLines s m.text date fun _ => true := by
    rw [eventsOn, inboxLines, List.filter_map, List.map_map]
    congr 2
    funext r
    simp
  rw [hEvents]
  exact hPerm

/-- The day's balance row holds the totals of all the projected positions. -/
theorem Projected.totals {n : Nat} {calls : List Call}
    (h : Projected d (Store.after calls) m n) (date : Int) :
    projectedTotals (Store.after calls) m.text date =
      (ledgerCredits d m date n, ledgerDebits d m date n) := by
  have hPerm := h.events_perm date
  rw [projectedTotals_eq, after_total creditsColumn, after_total debitsColumn]
  have hCredits := (hPerm.map lineCredit).sum_eq
  have hDebits := (hPerm.map lineDebit).sum_eq
  rw [List.map_map, List.map_map] at hCredits hDebits
  refine Prod.ext ?_ ?_
  · rw [show lineCredit ∘ eventLine = creditsColumn.effect from
        funext fun event => (lineCredit_eventLine event).1,
      show lineCredit ∘ entryLine = rowCredit from
        funext fun e => (lineCredit_entryLine e).1] at hCredits
    exact hCredits
  · rw [show lineDebit ∘ eventLine = debitsColumn.effect from
        funext fun event => (lineCredit_eventLine event).2,
      show lineDebit ∘ entryLine = rowDebit from
        funext fun e => (lineCredit_entryLine e).2] at hDebits
    exact hDebits

/-- The day's entries past the cut, up to position `n`. -/
def laterEntries (d : Ledger.Db) (m : Ledger.UUID) (date : Int) (cut n : Nat) :
    List Ledger.EntryRow :=
  (dayEntries d m date n).filter fun e => !decide (e.position.toInt ≤ cut)

/-- The entries up to a position are those up to the cut and the later ones. -/
theorem dayEntries_split {n : Nat} (d : Ledger.Db) (m : Ledger.UUID) (date : Int) (hCut : cut ≤ n) :
    (dayEntries d m date cut ++ laterEntries d m date cut n).Perm (dayEntries d m date n) := by
  have hDay : dayEntries d m date cut =
      (dayEntries d m date n).filter fun e => decide (e.position.toInt ≤ (cut : Int)) := by
    simp only [dayEntries, entriesAtCut, List.filter_filter]
    refine List.filter_congr fun e _ => ?_
    by_cases hPos : e.position.toInt ≤ cut
    · have hn : e.position.toInt ≤ n := by omega
      simp [hPos, hn]
    · simp [hPos]
  rw [hDay]
  exact List.filter_append_perm _ _

/-- Credits less debits is the signed sum. -/
theorem net_eq_signedSum (rows : List Ledger.EntryRow) :
    (rows.map rowCredit).sum - (rows.map rowDebit).sum = Ledger.signedSum rows := by
  induction rows with
  | nil => rfl
  | cons e rows ih =>
    have hSigned : e.signed = rowCredit e - rowDebit e := by
      unfold Ledger.EntryRow.signed rowCredit rowDebit
      cases e.entryType <;> simp
    have hCons : Ledger.signedSum (e :: rows) = e.signed + Ledger.signedSum rows := rfl
    rw [List.map_cons, List.map_cons, List.sum_cons, List.sum_cons, hCons, hSigned, ← ih]
    ring

/-- The net of the later entries is what the two sides of the comparison differ by,
and it is small enough to be told apart from zero. -/
theorem later_net {n : Nat} (hCut : cut ≤ n)
    (hCredits : isBigint (ledgerCredits d m date n) = true)
    (hDebits : isBigint (ledgerDebits d m date n) = true) :
    ledgerCredits d m date n - ledgerDebits d m date n =
        ledgerCredits d m date cut - ledgerDebits d m date cut +
          Ledger.signedSum (laterEntries d m date cut n) ∧
      isBigint (Ledger.signedSum (laterEntries d m date cut n)) = true := by
  have hSplit := dayEntries_split d m date hCut
  have hC := (hSplit.map rowCredit).sum_eq
  have hD := (hSplit.map rowDebit).sum_eq
  rw [List.map_append, List.sum_append] at hC hD
  have hLater := net_eq_signedSum (laterEntries d m date cut n)
  have hDay := rowSum_nonneg fun e (he : e ∈ dayEntries d m date cut) => dayEntries_mem e he
  have hRest := rowSum_nonneg fun e (he : e ∈ laterEntries d m date cut n) =>
    dayEntries_mem e (List.mem_filter.mp he).1
  have hCn := isBigint_iff.mp hCredits
  have hDn := isBigint_iff.mp hDebits
  rw [isBigint_iff]
  unfold ledgerCredits ledgerDebits at *
  omega

/-- Some attempt reads the stream to its end, and the context outlives those before it. -/
def Completes (attempts : List Attempt) : Prop :=
  ∃ before a after, attempts = before ++ a :: after ∧ (∀ b ∈ before, b.cancelled = false) ∧
    a.opened = true ∧ a.complete = true

/-- If an attempt completes before the limit, the source is read. -/
theorem streamSourceEntries_of_completes (dateStr : Text) {stream : List SourceEntry}
    {attempts : List Attempt}
    (hNamed : ∀ e ∈ stream, e.entryID ≠ []) (hOf : ∀ a ∈ attempts, a.Of stream)
    (h : Completes attempts) : ∃ source, streamSourceEntries dateStr attempts = some source := by
  obtain ⟨before, a, after, rfl, hBefore, hOpened, hComplete⟩ := h
  induction before with
  | nil =>
    have hItems : ∀ e ∈ a.items, e.entryID ≠ [] := fun e he =>
      hNamed e ((hOf a List.mem_cons_self).received.subset he)
    refine ⟨(a.items.filter (·.businessDate = dateStr)).foldl Source.add .empty, ?_⟩
    rw [List.nil_append, streamSourceEntries, attemptStream, if_pos hOpened, receive_named hItems,
      if_pos hComplete]
  | cons b before ih =>
    rw [List.cons_append, streamSourceEntries]
    cases attemptStream dateStr b with
    | some source => exact ⟨source, rfl⟩
    | none =>
      rw [hBefore b List.mem_cons_self]
      exact ih (fun a' ha' => hOf a' (List.mem_cons_of_mem _ ha'))
        fun b' hb' => hBefore b' (List.mem_cons_of_mem _ hb')

structure ReconcileEnv.Healthy (env : ReconcileEnv) : Prop where
  fault : ∀ statement, env.fault statement = false
  commit : env.commit = .committed

/-- A new cut is compared and reported when nothing fails and the stream completes. -/
theorem reconcile_reports (hEnv : env.Healthy) (hCut : cut ≤ 9223372036854775807)
    (hNew : ∀ run ∈ runs, run.merchantID = m.text → run.businessDate = date →
      run.sourcePositionCut < cut)
    (hOf : ∀ a ∈ env.attempts, a.Of (streamEntriesAtCut d m cut))
    (hComplete : Completes (env.attempts.take maxStreamAttempts)) :
    ∃ r, (reconcile env s runs m.text date cut).1 = .ok r ∧ r.skipped = false := by
  obtain ⟨source, hSource⟩ := streamSourceEntries_of_completes (formatDate date)
    stream_named (fun a ha => hOf a (List.mem_of_mem_take ha)) hComplete
  have hAttempt (statement : ReconcileStatement) (operation : String) :
      env.attempt statement operation = .ok () := attempt_ok.mpr (hEnv.fault statement)
  -- every run that is there is older
  have hExisting : (existingRun runs m.text date).filter
      (fun existing => decide (cut ≤ existing.sourcePositionCut)) = none := by
    rw [Option.filter_eq_none_iff]
    intro run hRun
    obtain ⟨hMem, hKey⟩ := Table.find?_some hRun
    simp only [Bool.and_eq_true, beq_iff_eq] at hKey
    simpa using hNew run hMem hKey.1 hKey.2
  obtain ⟨r, hr⟩ : ∃ r, r = compareTotals source (loadProjectedEntryCounts s m.text date cut)
    (projectedTotals s m.text date).1 (projectedTotals s m.text date).2 := ⟨_, rfl⟩
  have hCheck : runSchema.check ⟨m.text, date, cut, r.missingEntries, r.extraEntries,
      r.duplicatedEntries, r.financialDifferenceMinor⟩ = true := by simpa [runSchema] using hCut
  obtain ⟨runs', hSave⟩ := saveRun_ok runs hCheck
  have hSkipped : r.skipped = false := by rw [hr]; rfl
  have hTx : reconcileTx env s runs m.text date cut = .ok (r, runs') := by
    subst hr
    simp only [reconcileTx, hAttempt, hExisting, reconcileNew, readSource, hSource, cutParameter,
      if_pos hCut]
    show Except.mapError _ (saveRun runs _) >>= _ = _
    rw [hSave]
    rfl
  refine ⟨r, ?_, hSkipped⟩
  simp [reconcile, hTx, hSkipped, hEnv.commit]

/-- On a projection of exactly the positions `1` to `n`, a new cut of at most `n`
over a complete stream is reported with all three counts zero. The financial
difference is zero exactly when the day's entries past the cut net to zero. -/
theorem report_of_projected (d : Ledger.Db) (calls : List Call) (runs : Table runSchema)
    (m : Ledger.UUID) (date : Int) (cut n : Nat) (env : ReconcileEnv)
    (hProjected : Projected d (Store.after calls) m n) (hCut : cut ≤ n)
    (hNew : ∀ run ∈ runs, run.merchantID = m.text → run.businessDate = date →
      run.sourcePositionCut < cut)
    (hEnv : env.Healthy) (hStream : ∀ a ∈ env.attempts, a.Of (streamEntriesAtCut d m cut))
    (hComplete : Completes (env.attempts.take maxStreamAttempts)) :
    ∃ r, (reconcile env (Store.after calls) runs m.text date cut).1 = .ok r ∧ r.skipped = false ∧
      r.missingEntries = 0 ∧ r.extraEntries = 0 ∧ r.duplicatedEntries = 0 ∧
      (r.financialDifferenceMinor = 0 ↔ Ledger.signedSum (laterEntries d m date cut n) = 0) := by
  -- position `n` exists, so the cut fits its column
  have hFits : cut ≤ 9223372036854775807 := by
    by_cases hZero : n = 0
    · omega
    · obtain ⟨e, -, -, he⟩ := hProjected.positions n (by omega) le_rfl
      have hMax := e.position.toInt_lt
      omega
  obtain ⟨r, hOk, hSkipped⟩ := reconcile_reports (s := Store.after calls) hEnv hFits hNew hStream
    hComplete
  obtain ⟨source, hSome, rfl⟩ := reconcile_reported hOk hSkipped
  have hRead : Read d m date cut source :=
    read_of_stream (fun a ha => hStream a (List.mem_of_mem_take ha)) hSome
  -- the cut is within what is projected, so both sides have the entries up to it
  have hIDs : ((projectedRows (Store.after calls) m.text date cut).map
      fun r => r.event.entryID).Perm ((dayEntries d m date cut).map fun e => e.id.text) := by
    have hPerm := (hProjected.lines_perm date hCut (fun p => decide (p.toInt ≤ (cut : Int)))
      fun p _ => decide_eq_true_iff).map Prod.fst
    rw [inboxLines, List.map_map, List.map_map] at hPerm
    exact hPerm
  obtain ⟨hMissing, hExtra, hDuplicated⟩ := (counts_zero hRead).mpr hIDs
  refine ⟨_, hOk, hSkipped, hMissing, hExtra, hDuplicated, ?_⟩
  -- the totals are those at `n`, and the ledger's are taken at the cut
  have hTotals := hProjected.totals date
  have hCredits := isBigint_total creditsColumn (Store.after calls).balances m.text date
  have hDebits := isBigint_total debitsColumn (Store.after calls).balances m.text date
  rw [projectedTotals_eq] at hTotals
  have hC : creditsColumn.total (Store.after calls).balances m.text date = ledgerCredits d m date n :=
    congrArg Prod.fst hTotals
  have hD : debitsColumn.total (Store.after calls).balances m.text date = ledgerDebits d m date n :=
    congrArg Prod.snd hTotals
  rw [hC] at hCredits
  rw [hD] at hDebits
  obtain ⟨hNet, hSmall⟩ := later_net hCut hCredits hDebits
  rw [difference_eq_zero hRead, projectedTotals_eq, hTotals, hNet, Int64.ofInt_add]
  constructor
  · -- the later net is in range, so being zero modulo `2 ^ 64` is being zero
    intro h
    exact ofInt_inj hSmall rfl (by rw [show Int64.ofInt 0 = 0 from rfl]; grind)
  · intro h
    rw [h, show Int64.ofInt 0 = 0 from rfl]
    grind

/-- 2026-01-01 -/
def newYearDay : Int := 20454

/-- In the sample both sales are projected. -/
theorem twoSales_projected :
    Projected Ledger.twoSales (Store.after (delivered Ledger.twoSales)) sampleMerchant 2 := by
  have hRows : (∀ p ∈ [1, 2], ∃ e ∈ Ledger.twoSales.entries.rows,
        e.merchantID = sampleMerchant ∧ e.position.toInt = (p : Nat)) ∧
      (∀ e ∈ Ledger.twoSales.entries.rows,
        ∃ r ∈ (Store.after (delivered Ledger.twoSales)).inbox.rows, Mirrors e r.event) ∧
      (∀ r ∈ (Store.after (delivered Ledger.twoSales)).inbox.rows, ∃ e ∈ Ledger.twoSales.entries.rows,
        e.merchantID = sampleMerchant ∧ e.position.toInt ≤ (2 : Nat) ∧ Mirrors e r.event) := by
    decide +kernel
  refine ⟨fun p h1 h2 => hRows.1 p (by simp; omega), fun e he _ _ => hRows.2.1 e he,
    fun r hr _ => hRows.2.2 r hr⟩

/-- And nothing fails. -/
theorem calmReconcile_healthy (d : Ledger.Db) (m : Ledger.UUID) (cut : Nat) :
    (calmReconcile d m cut).Healthy ∧
      Completes ((calmReconcile d m cut).attempts.take maxStreamAttempts) :=
  ⟨⟨fun _ => rfl, rfl⟩, [], _, [], rfl, by simp, rfl, rfl⟩

/-- Nothing is later than the last position. -/
theorem laterEntries_self (d : Ledger.Db) (m : Ledger.UUID) (date : Int) (n : Nat) :
    laterEntries d m date n n = [] := by
  refine List.filter_eq_nil_iff.mpr fun e he => ?_
  have hAt := (List.mem_filter.mp (List.mem_filter.mp he).1).2
  simp only [Bool.and_eq_true, decide_eq_true_eq] at hAt
  simp [hAt.2]

/-- The cut is the last projected position. -/
theorem report_of_projected_two_sales :
    ∃ r, (reconcile (calmReconcile Ledger.twoSales sampleMerchant 2)
        (Store.after (delivered Ledger.twoSales)) .empty sampleMerchant.text newYearDay 2).1 = .ok r ∧ r.skipped = false ∧
      r.missingEntries = 0 ∧ r.extraEntries = 0 ∧ r.duplicatedEntries = 0 ∧
      r.financialDifferenceMinor = 0 := by
  obtain ⟨hEnv, hComplete⟩ := calmReconcile_healthy Ledger.twoSales sampleMerchant 2
  obtain ⟨r, hOk, hSkipped, hMissing, hExtra, hDuplicated, hNet⟩ :=
    report_of_projected Ledger.twoSales (delivered Ledger.twoSales) .empty sampleMerchant newYearDay 2 2
      (calmReconcile Ledger.twoSales sampleMerchant 2) twoSales_projected le_rfl
      (fun run hRun => absurd hRun (Table.not_mem_empty run)) hEnv (calmReconcile_of _ _ _) hComplete
  exact ⟨r, hOk, hSkipped, hMissing, hExtra, hDuplicated, hNet.mpr (by
    rw [laterEntries_self]
    rfl)⟩

/-- Both sales are projected and the cut is the first: a difference of the second is reported. -/
theorem false_alarm_before_last_position :
    Projected Ledger.twoSales (Store.after (delivered Ledger.twoSales)) sampleMerchant 2 ∧
      (reconcile (calmReconcile Ledger.twoSales sampleMerchant 1)
        (Store.after (delivered Ledger.twoSales)) .empty sampleMerchant.text newYearDay 1).1 = .ok ⟨0, 0, 0, 2500, false⟩ :=
  ⟨twoSales_projected, by decide +kernel⟩

end Cashflow.Reconciliation
