import Cashflow.Consolidation.Calendar
import Cashflow.Lib.Json
import Mathlib.Data.List.Sort

/-!
# Consolidation — the balance query

`GetDailyBalances` of `services/consolidation/internal/application/query.go`. It
makes four reads, each on its own: the rows of the range, the merchant's progress,
whether a recompute is pending, and the ledger's watermark. The answer has one
element for each day of the range, with data if the day has a row.

* `definitive_days_iff` — a definitive answer gives every day its totals exactly
  when every day of the range was filled;
* `same_answers_iff` — two orders of the same events give the same answers exactly
  when they fill the same days.
-/

namespace Cashflow.Consolidation

open Lib

/-! ## The four reads -/

inductive QueryError
  | invalid (message : String)
  | persistence (operation : String)
  | watermark
deriving DecidableEq, Repr

/-- What the database and the clock decide in one query. -/
structure QueryEnv where
  balancesFail : Bool := false
  progressFail : Bool := false
  pendingFail : Bool := false
  now : Int := 0

/-- The dates whose text a `DATE` takes: there is no year zero, so they start with
0001-01-01. -/
def dateIn (d : Int) : Bool := decide (zeroDate ≤ d)

/-- `Store.Balances` -/
def Store.readBalances (s : Store) (env : QueryEnv) (merchantID : Text)
    (fromDate throughDate : Int) : Except QueryError (List DailyBalance) :=
  if merchantID = [] ∨ throughDate < fromDate then
    .error (.invalid "merchant and valid balance range are required")
  -- a date the driver cannot write is an error of the query
  else if env.balancesFail || !dateIn fromDate || !dateIn throughDate then
    .error (.persistence "list daily balances")
  else
    match uuidIn merchantID with
    | none => .error (.persistence "list daily balances")
    | some m => .ok (((merchantRows s.balances m).filter fun r =>
        decide (fromDate ≤ r.businessDate) && decide (r.businessDate ≤ throughDate)).insertionSort
          fun a b => a.businessDate ≤ b.businessDate)

/-- `Store.Progress` -/
def Store.readMerchantProgress (s : Store) (env : QueryEnv) (merchantID : Text) :
    Except QueryError MerchantProgress :=
  if env.progressFail then .error (.persistence "read merchant progress")
  else
    match (uuidIn merchantID).bind fun m => s.progress.find? (·.merchantID == m) with
    | none => .error (.persistence "read merchant progress")
    | some row => .ok row

/-- `Store.HasPendingRecompute` -/
def Store.hasPendingRecompute (s : Store) (env : QueryEnv) (merchantID : Text) :
    Except QueryError Bool :=
  if env.pendingFail then .error (.persistence "read recompute pending state")
  else
    match uuidIn merchantID with
    | none => .error (.persistence "read recompute pending state")
    | some m => .ok (hasPendingJob s m)

/-- The outcomes of the four reads, in the order in which they are made. -/
structure Reads where
  balances : Except QueryError (List DailyBalance)
  progress : Except QueryError MerchantProgress
  pendingRecompute : Except QueryError Bool
  watermark : Except QueryError (UInt64 × Int)

/-! ## The answer -/

inductive ConsolidationState
  | unspecified
  | updated
  | processing
  | delayed
deriving DecidableEq, Repr

structure DailyBalanceData where
  credits : Text
  debits : Text
  net : Text
  entryCount : UInt64
  closingBalance : Text
  snapshotAt : Int
deriving DecidableEq, Repr

/-- An element of the answer. -/
structure DayAnswer where
  businessDate : Text
  sourcePosition : UInt64
  appliedPosition : UInt64
  state : ConsolidationState
  reason : String
  definitive : Bool
  data : Option DailyBalanceData
deriving DecidableEq, Repr

/-- The zero value, which stands in for a progress that could not be read. -/
def zeroProgress : MerchantProgress := ⟨[], 0, 0, none, zeroTime⟩

def MerchantProgress.hasGap (p : MerchantProgress) : Bool :=
  p.firstGap.isSome || p.appliedPosition != p.sourcePosition

/-- What an answer says of all its days. -/
structure Verdict where
  sourcePosition : UInt64
  appliedPosition : UInt64
  state : ConsolidationState
  reason : String
  definitive : Bool
deriving DecidableEq, Repr

/-- The source position with what the ledger says of it. -/
def effSourcePos (progress : MerchantProgress) (sourcePos : UInt64) : UInt64 :=
  if UInt64.ofInt progress.sourcePosition < sourcePos then sourcePos
  else UInt64.ofInt progress.sourcePosition

/-- What keeps an answer from being definitive. -/
def isPending (progress : MerchantProgress) (pendingRecompute : Bool) (sourcePos : UInt64) : Bool :=
  pendingRecompute || progress.hasGap ||
    decide (UInt64.ofInt progress.appliedPosition < effSourcePos progress sourcePos)

/-- The part of the query that judges the positions. -/
def judge (now : Int) (noBalances : Bool) (progress : MerchantProgress) (pendingRecompute : Bool)
    (watermark : Except QueryError (UInt64 × Int)) : Except QueryError Verdict :=
  match watermark with
  | .error werr =>
    -- nothing is known of the merchant, here or there
    if noBalances && progress.updatedAt == zeroTime then .error werr
    else .ok ⟨UInt64.ofInt progress.sourcePosition, UInt64.ofInt progress.appliedPosition, .delayed,
      "source_unverifiable", false⟩
  | .ok (sourcePos, observedAt) =>
    -- everything the ledger has is applied, and nothing is being recomputed
    if !isPending progress pendingRecompute sourcePos then
      .ok ⟨effSourcePos progress sourcePos, UInt64.ofInt progress.appliedPosition, .updated, "", true⟩
    -- pending for so long counts as a delay
    else if 30 * nanosPerSecond < now - observedAt then
      .ok ⟨effSourcePos progress sourcePos, UInt64.ofInt progress.appliedPosition, .delayed, "",
        false⟩
    else
      .ok ⟨effSourcePos progress sourcePos, UInt64.ofInt progress.appliedPosition, .processing, "",
        false⟩

/-- The row of a day in the map the query makes of the rows: a later row of the same
date would replace an earlier one. -/
def rowOn (balances : List DailyBalance) (d : Int) : Option DailyBalance :=
  balances.reverse.find? fun b => formatDate b.businessDate == formatDate d

def dayData (now : Int) (progress : MerchantProgress) (b : DailyBalance) : DailyBalanceData where
  credits := Json.intLiteral b.creditsMinor
  debits := Json.intLiteral b.debitsMinor
  net := Json.intLiteral b.netMinor
  entryCount := UInt64.ofInt b.entryCount
  closingBalance := Json.intLiteral b.closingBalanceMinor
  snapshotAt := if progress.updatedAt = zeroTime then now else progress.updatedAt

def dayAnswer (now : Int) (progress : MerchantProgress) (v : Verdict) (balances : List DailyBalance)
    (d : Int) : DayAnswer where
  businessDate := formatDate d
  sourcePosition := v.sourcePosition
  appliedPosition := v.appliedPosition
  state := v.state
  reason := v.reason
  definitive := v.definitive
  data := (rowOn balances d).map (dayData now progress)

/-- `QueryService.GetDailyBalances`, given what its reads came back with. -/
def getDailyBalances (now : Int) (reads : Reads) (fromDate throughDate : Int) :
    Except QueryError (List DayAnswer) := do
  let balances ← reads.balances
  -- a progress that could not be read is the zero progress
  let progress := reads.progress.toOption.getD zeroProgress
  let pendingRecompute ← reads.pendingRecompute
  let v ← judge now balances.isEmpty progress pendingRecompute reads.watermark
  .ok ((days fromDate throughDate).map (dayAnswer now progress v balances))

/-- The reads of a query during which the store does not change. -/
def Store.reads (s : Store) (env : QueryEnv) (watermark : Except QueryError (UInt64 × Int))
    (merchantID : Text) (fromDate throughDate : Int) : Reads where
  balances := s.readBalances env merchantID fromDate throughDate
  progress := s.readMerchantProgress env merchantID
  pendingRecompute := s.hasPendingRecompute env merchantID
  watermark := watermark

/-- A query during which the store does not change. -/
def Store.query (s : Store) (env : QueryEnv) (watermark : Except QueryError (UInt64 × Int))
    (merchantID : Text) (fromDate throughDate : Int) : Except QueryError (List DayAnswer) :=
  getDailyBalances env.now (s.reads env watermark merchantID fromDate throughDate) fromDate
    throughDate

/-! ## What an answer says -/

variable {s : Store} {env : QueryEnv} {watermark : Except QueryError (UInt64 × Int)}
  {merchantID m : Text} {fromDate throughDate : Int} {answer : List DayAnswer}

/-- An answer is that of four reads, judged once for all days. -/
theorem getDailyBalances_ok {now : Int} {reads : Reads}
    (h : getDailyBalances now reads fromDate throughDate = .ok answer) :
    ∃ balances pending v, reads.balances = .ok balances ∧ reads.pendingRecompute = .ok pending ∧
      judge now balances.isEmpty (reads.progress.toOption.getD zeroProgress) pending
        reads.watermark = .ok v ∧
      answer = (days fromDate throughDate).map
        (dayAnswer now (reads.progress.toOption.getD zeroProgress) v balances) := by
  simp only [getDailyBalances, peel, Except.ok.injEq] at h
  obtain ⟨balances, hBalances, pending, hPending, v, hJudge, rfl⟩ := h
  exact ⟨balances, pending, v, hBalances, hPending, hJudge, rfl⟩

/-- A definitive verdict: nothing is pending, the progress has no gap and the ledger
is not ahead of it. -/
theorem judge_definitive {now : Int} {noBalances pending : Bool} {progress : MerchantProgress}
    {v : Verdict} (h : judge now noBalances progress pending watermark = .ok v)
    (hDefinitive : v.definitive = true) :
    pending = false ∧ progress.hasGap = false ∧
      v.appliedPosition = UInt64.ofInt progress.appliedPosition ∧
      ∃ position observedAt, watermark = .ok (position, observedAt) ∧
        position ≤ UInt64.ofInt progress.appliedPosition := by
  unfold judge at h
  split at h
  · -- a ledger that cannot be asked makes no day definitive
    split_ifs at h
    cases h
    cases hDefinitive
  · rename_i sourcePos observedAt
    split_ifs at h with hSettled
    · cases h
      simp only [isPending, Bool.not_eq_true', Bool.or_eq_false_iff, decide_eq_false_iff_not,
        UInt64.not_lt] at hSettled
      obtain ⟨⟨hPending, hGap⟩, hLe⟩ := hSettled
      refine ⟨hPending, hGap, rfl, sourcePos, observedAt, rfl, ?_⟩
      -- the position compared is at least the one the ledger answered
      unfold effSourcePos at hLe
      split_ifs at hLe with hLt
      · exact hLe
      · exact UInt64.le_trans (UInt64.not_lt.mp hLt) hLe
    · cases h
      cases hDefinitive
    · cases h
      cases hDefinitive

/-- The rows of the merchant in the range. -/
theorem readBalances_ok {balances : List DailyBalance} (hUuid : uuidIn merchantID = some m)
    (h : s.readBalances env merchantID fromDate throughDate = .ok balances) {r : DailyBalance} :
    r ∈ balances ↔ r ∈ s.balances ∧ r.merchantID = m ∧ fromDate ≤ r.businessDate ∧
      r.businessDate ≤ throughDate := by
  unfold Store.readBalances at h
  split_ifs at h
  rw [hUuid] at h
  cases h
  rw [List.mem_insertionSort, List.mem_filter, mem_merchantRows]
  simp only [Bool.and_eq_true, decide_eq_true_eq, and_assoc]

/-- The rows the query finds for the days of its range are those of the table. -/
theorem rowOn_eq {balances : List DailyBalance} (hUuid : uuidIn merchantID = some m)
    (h : s.readBalances env merchantID fromDate throughDate = .ok balances) {d : Int}
    (hd : d ∈ days fromDate throughDate) : rowOn balances d = balanceOn s.balances m d := by
  obtain ⟨hFrom, hThrough⟩ := mem_days.mp hd
  -- the row that was read, by its date's text
  cases hRow : rowOn balances d with
  | some r =>
    have hMem := (readBalances_ok hUuid h).mp (List.mem_reverse.mp (List.mem_of_find?_eq_some hRow))
    have hSame : (formatDate r.businessDate == formatDate d) = true := by
      simpa only using List.find?_some hRow
    have hDate := formatDate_injective (beq_iff_eq.mp hSame)
    have hOn := balanceOn_of_mem hMem.1
    rw [hMem.2.1, hDate] at hOn
    exact hOn.symm
  | none =>
    -- a row of that day would have been read
    cases hOn : balanceOn s.balances m d with
    | none => rfl
    | some r =>
      obtain ⟨hKey, hDate⟩ := balanceOn_key hOn
      have hMem := (readBalances_ok hUuid h).mpr
        ⟨mem_of_balanceOn hOn, hKey, hDate ▸ hFrom, hDate ▸ hThrough⟩
      have hNot := List.find?_eq_none.mp hRow r (List.mem_reverse.mpr hMem)
      rw [hDate] at hNot
      exact absurd (beq_self_eq_true _) hNot

/-- The date of an element, and its data without the time of the snapshot. -/
def DayAnswer.shown (a : DayAnswer) : Text × Option (Text × Text × Text × UInt64 × Text) :=
  (a.businessDate, a.data.map fun x => (x.credits, x.debits, x.net, x.entryCount, x.closingBalance))

/-- What is shown of a row. -/
def DailyBalance.shown (b : DailyBalance) : Text × Text × Text × UInt64 × Text :=
  (Json.intLiteral b.creditsMinor, Json.intLiteral b.debitsMinor, Json.intLiteral b.netMinor,
    UInt64.ofInt b.entryCount, Json.intLiteral b.closingBalanceMinor)

/-- An answer shows the rows of its days, in the order of the days. -/
theorem query_shown (hUuid : uuidIn merchantID = some m)
    (h : s.query env watermark merchantID fromDate throughDate = .ok answer) :
    answer.map DayAnswer.shown = (days fromDate throughDate).map fun d =>
      (formatDate d, (balanceOn s.balances m d).map DailyBalance.shown) := by
  obtain ⟨balances, pending, v, hBalances, -, -, rfl⟩ := getDailyBalances_ok h
  rw [List.map_map]
  refine List.map_congr_left fun d hd => ?_
  rw [Function.comp_apply, DayAnswer.shown, dayAnswer, rowOn_eq hUuid hBalances hd]
  cases balanceOn s.balances m d with
  | none => rfl
  | some r => rfl

/-- The days of an answer are dates that a query can ask for. -/
theorem query_dates (h : s.query env watermark merchantID fromDate throughDate = .ok answer)
    {d : Int} (hd : d ∈ days fromDate throughDate) : dateIn d = true := by
  obtain ⟨balances, -, -, hBalances, -⟩ := getDailyBalances_ok h
  have hRead : s.readBalances env merchantID fromDate throughDate = .ok balances := hBalances
  unfold Store.readBalances at hRead
  split_ifs at hRead with hInvalid hFail
  simp only [Bool.or_eq_true, Bool.not_eq_true', not_or, Bool.not_eq_false] at hFail
  have hFrom : zeroDate ≤ fromDate := of_decide_eq_true hFail.1.2
  exact decide_eq_true (hFrom.trans (mem_days.mp hd).1)

/-- An answer that is definitive was given when nothing was pending. -/
theorem query_definitive (hUuid : uuidIn merchantID = some m)
    (h : s.query env watermark merchantID fromDate throughDate = .ok answer)
    (hRange : fromDate ≤ throughDate) (hDefinitive : ∀ a ∈ answer, a.definitive = true) :
    hasPendingJob s m = false := by
  obtain ⟨balances, pending, v, -, hPending, hJudge, rfl⟩ := getDailyBalances_ok h
  have hv : v.definitive = true := hDefinitive _
    (List.mem_map_of_mem (mem_days.mpr ⟨le_refl fromDate, hRange⟩))
  have hRead : s.hasPendingRecompute env merchantID = .ok pending := hPending
  unfold Store.hasPendingRecompute at hRead
  split_ifs at hRead
  rw [hUuid] at hRead
  rw [← (judge_definitive hJudge hv).1]
  exact Except.ok.inj hRead

/-! ## The totals of a day -/

/-- The totals of the merchant's events of the day, and the net amounts of all those
dated up to it, as an answer shows them. -/
def shownTotals (s : Store) (m : Text) (d : Int) : Text × Text × Text × UInt64 × Text :=
  let events := eventsOn s.inbox m d
  (Json.intLiteral (events.map fun e => e.financialEffect.creditsMinor).sum,
    Json.intLiteral (events.map fun e => e.financialEffect.debitsMinor).sum,
    Json.intLiteral (events.map fun e => e.financialEffect.netMinor).sum,
    UInt64.ofInt events.length,
    Json.intLiteral (netEvents m d s.events))

/-- A column of a row is the sum over the stored events of its day. -/
theorem value_eq_events (col : Column) (calls : List Call) {d : Int} {r : DailyBalance}
    (hOn : balanceOn (Store.after calls).balances m d = some r) :
    col.value r = ((eventsOn (Store.after calls).inbox m d).map col.effect).sum := by
  rw [← after_total col calls m d, Column.total, hOn]
  rfl

/-- Every event counts as one. -/
theorem sum_count_effect (events : List EntryConfirmed) :
    (events.map countColumn.effect).sum = (events.length : Int) := by
  rw [show countColumn.effect = fun _ => (1 : Int) from rfl, List.map_const', List.sum_replicate]
  simp

/-- With nothing pending, a row shows the totals of its day. -/
theorem shown_eq_totals (calls : List Call)
    (hWithin : Along Store.exec WithinPending Store.empty calls)
    (hPending : hasPendingJob (Store.after calls) m = false) {d : Int} {r : DailyBalance}
    (hOn : balanceOn (Store.after calls).balances m d = some r) :
    r.shown = shownTotals (Store.after calls) m d := by
  obtain ⟨hKey, hDate⟩ := balanceOn_key hOn
  have hCredits : r.creditsMinor = _ := value_eq_events creditsColumn calls hOn
  have hDebits : r.debitsMinor = _ := value_eq_events debitsColumn calls hOn
  have hNet : r.netMinor = _ := value_eq_events netColumn calls hOn
  have hCount : r.entryCount = _ := (value_eq_events countColumn calls hOn).trans
    (sum_count_effect _)
  have hClosing : r.closingBalanceMinor = netEvents m d (Store.after calls).events := by
    rw [← after_netThrough, ← hKey, ← hDate]
    refine (after_settled calls hWithin).closing r (mem_of_balanceOn hOn) fun j hj hjKey hj' => ?_
    rw [hasPendingJob, List.any_eq_false] at hPending
    exact absurd (by simp [hjKey, hj', hKey]) (hPending j hj)
  rw [DailyBalance.shown, shownTotals, hCredits, hDebits, hNet, hCount, hClosing]
  rfl

/-- In a run whose new events are dated within every pending range, a definitive
answer has one element for each day of its range in ascending order; and all of them
show the totals of their day exactly when every day of the range was filled. -/
theorem definitive_days_iff (calls : List Call)
    (hWithin : Along Store.exec WithinPending Store.empty calls) (env : QueryEnv)
    (watermark : Except QueryError (UInt64 × Int)) (merchantID m : Text) (fromDate throughDate : Int)
    (answer : List DayAnswer) (hUuid : uuidIn merchantID = some m) (hRange : fromDate ≤ throughDate)
    (hAnswer : (Store.after calls).query env watermark merchantID fromDate throughDate = .ok answer)
    (hDefinitive : ∀ a ∈ answer, a.definitive = true) :
    answer.map DayAnswer.businessDate = (days fromDate throughDate).map formatDate ∧
      (answer.map DayAnswer.shown = ((days fromDate throughDate).map fun d =>
          (formatDate d, some (shownTotals (Store.after calls) m d))) ↔
        ∀ d ∈ days fromDate throughDate, filled m d (Store.after calls).events = true) := by
  have hPending := query_definitive hUuid hAnswer hRange hDefinitive
  have hShown := query_shown hUuid hAnswer
  refine ⟨?_, ?_⟩
  · -- the dates are those asked for, whatever is shown
    have hDates := congrArg (List.map Prod.fst) hShown
    rw [List.map_map, List.map_map] at hDates
    exact hDates
  · rw [hShown]
    constructor
    · intro hAll d hd
      -- a total is shown exactly for the days that have a row
      rw [← isSome_iff_filled (after_charted calls) hPending]
      have hDay := List.map_inj_left.mp hAll d hd
      obtain ⟨r, hr, -⟩ := Option.map_eq_some_iff.mp (Prod.mk.inj hDay).2
      rw [hr]
      rfl
    · intro hAll
      refine List.map_congr_left fun d hd => ?_
      obtain ⟨r, hr⟩ := Option.isSome_iff_exists.mp
        ((isSome_iff_filled (after_charted calls) hPending).mpr (hAll d hd))
      rw [hr, Option.map_some, shown_eq_totals calls hWithin hPending hr]

/-- Two calls that bring two events. -/
def twoCalls (first second : EntryConfirmed) : List Call :=
  [.apply (steady 1) first, .apply (steady 2) second]

/-- An entry, and one that is dated five days before it. -/
def backDatedRun : List Call := twoCalls (sampleCredit '1' 1 5 100) (sampleCredit '2' 2 0 100)

/-- Two entries in the order of their dates. -/
def datedRun : List Call := twoCalls (sampleCredit '1' 1 0 100) (sampleCredit '2' 2 5 100)

/-- What a query after the run answers, when the ledger is at position 2. -/
def answered (calls : List Call) (fromDate throughDate : Int) : List DayAnswer :=
  ((Store.after calls).query {} (.ok (2, 0)) (sampleID 'a') fromDate throughDate).toOption.getD []

/-- The back-dated entry filled the days between, so they carry the closing balance. -/
theorem definitive_days_iff_back_dated :
    (answered backDatedRun 0 5).map DayAnswer.shown = (days 0 5).map fun d =>
      (formatDate d, some (shownTotals (Store.after backDatedRun) (sampleID 'a') d)) := by
  have hRun : Along Store.exec WithinPending Store.empty backDatedRun ∧
      (Store.after backDatedRun).query {} (.ok (2, 0)) (sampleID 'a') 0 5 =
        .ok (answered backDatedRun 0 5) ∧
      (∀ a ∈ answered backDatedRun 0 5, a.definitive = true) ∧
      ∀ d ∈ days 0 5, filled (sampleID 'a') d (Store.after backDatedRun).events = true := by
    decide +kernel
  obtain ⟨hWithin, hAnswer, hDefinitive, hFilled⟩ := hRun
  exact (definitive_days_iff backDatedRun hWithin {} (.ok (2, 0)) (sampleID 'a') (sampleID 'a') 0 5
    (answered backDatedRun 0 5) (by decide) (by decide) hAnswer hDefinitive).2.mpr hFilled

/-- Entries in the order of their dates leave the quiet days between them without
data, and the answer is definitive. -/
theorem quiet_day_without_data :
    Along Store.exec WithinPending Store.empty datedRun ∧
      (∃ e ∈ (Store.after datedRun).events, e.merchantID = sampleID 'a' ∧ e.businessDate ≤ 0) ∧
      (Store.after datedRun).query {} (.ok (2, 0)) (sampleID 'a') 0 5 = .ok (answered datedRun 0 5) ∧
      (∀ a ∈ answered datedRun 0 5, a.definitive = true) ∧
      ∃ a ∈ answered datedRun 0 5, a.businessDate = formatDate 1 ∧ a.data = none := by
  decide +kernel

/-! ## Two orders of the same events -/

/-- The calls of the run bring these events and no others, and all of them have been
stored. -/
def Received (events : List EntryConfirmed) (calls : List Call) : Prop :=
  (∀ env event, Call.apply env event ∈ calls → event ∈ events) ∧
    ∀ event ∈ events, InboxEvent.of event.canonical ∈ (Store.after calls).inbox

section Orders

variable {events : List EntryConfirmed} {calls calls₁ calls₂ : List Call}

/-- What is in the inbox is what was sent. -/
theorem Received.mem_inbox (h : Received events calls) {r : InboxEvent} :
    r ∈ (Store.after calls).inbox ↔ ∃ event ∈ events, r = InboxEvent.of event.canonical := by
  constructor
  · intro hr
    obtain ⟨env, event, hCall, -, rfl⟩ := after_delivered calls r hr
    exact ⟨event, h.1 env event hCall, rfl⟩
  · rintro ⟨event, hEvent, rfl⟩
    exact h.2 event hEvent

theorem inbox_nodup (s : Store) : s.inbox.rows.Nodup := by
  refine s.inbox.unique.imp fun {a b} hClash hEq => ?_
  subst hEq
  simp [inboxSchema] at hClash

/-- Both runs store the same events. -/
theorem Received.perm (h₁ : Received events calls₁) (h₂ : Received events calls₂) :
    (Store.after calls₁).events.Perm (Store.after calls₂).events := by
  refine List.Perm.map _ ((List.perm_ext_iff_of_nodup (inbox_nodup _) (inbox_nodup _)).mpr ?_)
  intro r
  exact h₁.mem_inbox.trans h₂.mem_inbox.symm

/-- The order of the events does not show. -/
theorem shownTotals_perm {s₁ s₂ : Store} (h : s₁.events.Perm s₂.events) (m : Text) (d : Int) :
    shownTotals s₁ m d = shownTotals s₂ m d := by
  have hOn : (eventsOn s₁.inbox m d).Perm (eventsOn s₂.inbox m d) := h.filter _
  have hNet : netEvents m d s₁.events = netEvents m d s₂.events := ((h.filter _).map _).sum_eq
  rw [shownTotals, shownTotals, (hOn.map _).sum_eq, hNet]
  simp only [(hOn.map fun e => e.financialEffect.debitsMinor).sum_eq,
    (hOn.map fun e => e.financialEffect.netMinor).sum_eq, hOn.length_eq]

/-- A range of dates the database knows is answered. -/
theorem exists_query (s : Store) (hUuid : uuidIn merchantID = some m)
    (hRange : fromDate ≤ throughDate) (hFrom : dateIn fromDate = true)
    (hThrough : dateIn throughDate = true) :
    ∃ answer, s.query {} (.ok (0, 0)) merchantID fromDate throughDate = .ok answer := by
  have hNonempty : merchantID ≠ [] := by
    rintro rfl
    cases hUuid
  have hBalances : ∃ balances, s.readBalances {} merchantID fromDate throughDate = .ok balances := by
    rw [Store.readBalances, if_neg (not_or.mpr ⟨hNonempty, not_lt.mpr hRange⟩), hFrom, hThrough,
      if_neg (by decide), hUuid]
    exact ⟨_, rfl⟩
  have hPending : ∃ pending, s.hasPendingRecompute {} merchantID = .ok pending := by
    rw [Store.hasPendingRecompute, if_neg (by decide), hUuid]
    exact ⟨_, rfl⟩
  obtain ⟨balances, hBalances⟩ := hBalances
  obtain ⟨pending, hPending⟩ := hPending
  -- a progress row that cannot be read counts as one at zero
  have hJudge : ∀ progress, ∃ v, judge 0 balances.isEmpty progress pending (.ok (0, 0)) = .ok v := by
    intro progress
    unfold judge
    dsimp only
    split_ifs
    · exact ⟨_, rfl⟩
    · exact ⟨_, rfl⟩
    · exact ⟨_, rfl⟩
  obtain ⟨v, hJudge⟩ := hJudge ((s.readMerchantProgress {} merchantID).toOption.getD zeroProgress)
  exact ⟨_, peel.mpr ⟨balances, hBalances, peel.mpr ⟨pending, hPending, peel.mpr ⟨v, hJudge, rfl⟩⟩⟩⟩

/-- Two runs that store the same events, each dated within every pending range when it
came, and that have no job left: all queries show the same data in both exactly when
they have filled the same days. -/
theorem same_answers_iff (events : List EntryConfirmed) (calls₁ calls₂ : List Call)
    (h₁ : Received events calls₁) (h₂ : Received events calls₂)
    (hWithin₁ : Along Store.exec WithinPending Store.empty calls₁)
    (hWithin₂ : Along Store.exec WithinPending Store.empty calls₂) (merchantID m : Text)
    (hUuid : uuidIn merchantID = some m)
    (hDrained₁ : hasPendingJob (Store.after calls₁) m = false)
    (hDrained₂ : hasPendingJob (Store.after calls₂) m = false) :
    (∀ env₁ env₂ watermark₁ watermark₂ fromDate throughDate answer₁ answer₂,
      (Store.after calls₁).query env₁ watermark₁ merchantID fromDate throughDate = .ok answer₁ →
      (Store.after calls₂).query env₂ watermark₂ merchantID fromDate throughDate = .ok answer₂ →
      answer₁.map DayAnswer.shown = answer₂.map DayAnswer.shown) ↔
    ∀ d, dateIn d = true →
      filled m d (Store.after calls₁).events = filled m d (Store.after calls₂).events := by
  have hSome₁ := fun d => isSome_iff_filled (d := d) (after_charted calls₁) hDrained₁
  have hSome₂ := fun d => isSome_iff_filled (d := d) (after_charted calls₂) hDrained₂
  constructor
  · -- ask for the one day: it shows a total exactly if it is filled
    intro hSame d hd
    obtain ⟨answer₁, hAnswer₁⟩ := exists_query (Store.after calls₁) hUuid (le_refl d) hd hd
    obtain ⟨answer₂, hAnswer₂⟩ := exists_query (Store.after calls₂) hUuid (le_refl d) hd hd
    have hShown := hSame _ _ _ _ _ _ _ _ hAnswer₁ hAnswer₂
    rw [query_shown hUuid hAnswer₁, query_shown hUuid hAnswer₂] at hShown
    have hDay := (Prod.mk.inj (List.map_inj_left.mp hShown d
      (mem_days.mpr ⟨le_refl d, le_refl d⟩))).2
    rw [Bool.eq_iff_iff, ← hSome₁, ← hSome₂, ← Option.isSome_map, hDay, Option.isSome_map]
  · intro hFilled env₁ env₂ watermark₁ watermark₂ fromDate throughDate answer₁ answer₂ hAnswer₁
      hAnswer₂
    rw [query_shown hUuid hAnswer₁, query_shown hUuid hAnswer₂]
    refine List.map_congr_left fun d hd => ?_
    have hFrom : dateIn d = true := query_dates hAnswer₁ hd
    congr 1
    -- both days have a row, and then show the same totals, or both have none
    cases hOn₁ : balanceOn (Store.after calls₁).balances m d with
    | none =>
      have hNone : ¬ (balanceOn (Store.after calls₂).balances m d).isSome = true := by
        rw [hSome₂, ← hFilled d hFrom, ← hSome₁, hOn₁]
        exact Bool.false_ne_true
      rw [Option.not_isSome_iff_eq_none.mp hNone]
    | some r₁ =>
      obtain ⟨r₂, hOn₂⟩ := Option.isSome_iff_exists.mp ((hSome₂ d).mpr (by
        rw [← hFilled d hFrom, ← hSome₁, hOn₁]
        rfl))
      rw [hOn₂, Option.map_some, Option.map_some, shown_eq_totals calls₁ hWithin₁ hDrained₁ hOn₁,
        shown_eq_totals calls₂ hWithin₂ hDrained₂ hOn₂, shownTotals_perm (h₁.perm h₂)]

end Orders

/-- Two events, delivered one after the other. -/
theorem received_twoCalls {first second : EntryConfirmed} {events : List EntryConfirmed}
    {calls : List Call} (hCalls : calls = twoCalls first second) (hFirst : first ∈ events)
    (hSecond : second ∈ events)
    (hStored : ∀ event ∈ events, InboxEvent.of event.canonical ∈ (Store.after calls).inbox) :
    Received events calls := by
  refine ⟨fun env event h => ?_, hStored⟩
  rw [hCalls] at h
  simp only [twoCalls, List.mem_cons, Call.apply.injEq, List.not_mem_nil, or_false] at h
  rcases h with ⟨-, rfl⟩ | ⟨-, rfl⟩
  · exact hFirst
  · exact hSecond

/-- Of two events, the second fills what lies between it and a later first one. -/
theorem filled_pair {e e' : EntryConfirmed} (h : e.merchantID = m) (h' : e'.merchantID = m)
    (d : Int) : filled m d [e, e'] = true ↔ d = e.businessDate ∨ d = e'.businessDate ∨
      (e'.businessDate ≤ d ∧ d ≤ e.businessDate) := by
  simp only [filled, dayAfter, List.foldl_cons, List.foldl_nil, fillStep, h, h', if_true,
    Bool.false_or, Bool.or_eq_true, Bool.and_eq_true, decide_eq_true_eq]
  omega

/-- Two events on adjoining days, in either order. -/
def monthEnd : List EntryConfirmed := [sampleCredit '1' 1 30 100, sampleCredit '2' 2 31 100]

def monthEndRun : List Call := twoCalls (sampleCredit '1' 1 30 100) (sampleCredit '2' 2 31 100)

def monthEndBackwards : List Call :=
  twoCalls (sampleCredit '2' 2 31 100) (sampleCredit '1' 1 30 100)

/-- Events on adjoining days leave no day between them to fill. -/
theorem same_answers_iff_month_end :
    (answered monthEndRun 29 32).map DayAnswer.shown =
      (answered monthEndBackwards 29 32).map DayAnswer.shown := by
  set first := (InboxEvent.of (sampleCredit '1' 1 30 100).canonical).event with hFirst
  set second := (InboxEvent.of (sampleCredit '2' 2 31 100).canonical).event with hSecond
  have hRun₁ : (Store.after monthEndRun).events = [first, second] ∧
      (∀ event ∈ monthEnd, InboxEvent.of event.canonical ∈ (Store.after monthEndRun).inbox) ∧
      Along Store.exec WithinPending Store.empty monthEndRun ∧
      hasPendingJob (Store.after monthEndRun) (sampleID 'a') = false ∧
      (Store.after monthEndRun).query {} (.ok (2, 0)) (sampleID 'a') 29 32 =
        .ok (answered monthEndRun 29 32) := by
    decide +kernel
  have hRun₂ : (Store.after monthEndBackwards).events = [second, first] ∧
      (∀ event ∈ monthEnd, InboxEvent.of event.canonical ∈ (Store.after monthEndBackwards).inbox) ∧
      Along Store.exec WithinPending Store.empty monthEndBackwards ∧
      hasPendingJob (Store.after monthEndBackwards) (sampleID 'a') = false ∧
      (Store.after monthEndBackwards).query {} (.ok (2, 0)) (sampleID 'a') 29 32 =
        .ok (answered monthEndBackwards 29 32) := by
    decide +kernel
  obtain ⟨hEvents₁, hStored₁, hWithin₁, hDrained₁, hAnswer₁⟩ := hRun₁
  obtain ⟨hEvents₂, hStored₂, hWithin₂, hDrained₂, hAnswer₂⟩ := hRun₂
  -- both runs fill the days from the first date to the last
  have hFilled : ∀ d, dateIn d = true → filled (sampleID 'a') d (Store.after monthEndRun).events =
      filled (sampleID 'a') d (Store.after monthEndBackwards).events := by
    intro d _
    have hKey : first.merchantID = sampleID 'a' ∧ second.merchantID = sampleID 'a' := by
      decide +kernel
    rw [hEvents₁, hEvents₂, Bool.eq_iff_iff, filled_pair hKey.1 hKey.2, filled_pair hKey.2 hKey.1,
      show first.businessDate = 30 from rfl, show second.businessDate = 31 from rfl]
    omega
  exact (same_answers_iff monthEnd monthEndRun monthEndBackwards
    (received_twoCalls rfl (by simp [monthEnd]) (by simp [monthEnd]) hStored₁)
    (received_twoCalls rfl (by simp [monthEnd]) (by simp [monthEnd]) hStored₂) hWithin₁ hWithin₂
    (sampleID 'a') (sampleID 'a') (by decide) hDrained₁ hDrained₂).mpr hFilled {} {} (.ok (2, 0))
    (.ok (2, 0)) 29 32 _ _ hAnswer₁ hAnswer₂

/-- The two entries of `datedRun` the other way round. -/
def datedBackwards : List Call := twoCalls (sampleCredit '2' 2 5 100) (sampleCredit '1' 1 0 100)

/-- In the order of their dates two events leave the days between them without data; the
other way round the second one fills them. -/
theorem order_shows_in_answers :
    Received [sampleCredit '1' 1 0 100, sampleCredit '2' 2 5 100] datedRun ∧
      Received [sampleCredit '1' 1 0 100, sampleCredit '2' 2 5 100] datedBackwards ∧
      (∃ a ∈ answered datedRun 0 5,
        a.definitive = true ∧ a.businessDate = formatDate 1 ∧ a.data = none) ∧
      ∃ a ∈ answered datedBackwards 0 5,
        a.definitive = true ∧ a.businessDate = formatDate 1 ∧ a.data.isSome = true := by
  have hRun₁ : (∀ event ∈ [sampleCredit '1' 1 0 100, sampleCredit '2' 2 5 100],
        InboxEvent.of event.canonical ∈ (Store.after datedRun).inbox) ∧
      ∃ a ∈ answered datedRun 0 5,
        a.definitive = true ∧ a.businessDate = formatDate 1 ∧ a.data = none := by
    decide +kernel
  have hRun₂ : (∀ event ∈ [sampleCredit '1' 1 0 100, sampleCredit '2' 2 5 100],
        InboxEvent.of event.canonical ∈ (Store.after datedBackwards).inbox) ∧
      ∃ a ∈ answered datedBackwards 0 5,
        a.definitive = true ∧ a.businessDate = formatDate 1 ∧ a.data.isSome = true := by
    decide +kernel
  exact ⟨received_twoCalls rfl (by simp) (by simp) hRun₁.1,
    received_twoCalls rfl (by simp) (by simp) hRun₂.1, hRun₁.2, hRun₂.2⟩

end Cashflow.Consolidation
