import Cashflow.Consolidation.Recompute
import Cashflow.Pipeline.Mirror

/-!
# Pipeline — back-dated entries and the recompute block

The ledger lets an entry be dated at most 30 days before the merchant's local
day. The projector recomputes 31 days at once, from the entry's date to the
latest date projected so far. The two fit when that latest date is at most the
local day of the entry, that is, when the local day has not gone back since any
earlier entry.

A local day can go back although the clock does not: where daylight saving time
ends shortly after midnight, the clocks fall back into the evening before.

Main results:

* `entries_dated` — every entry is dated within 30 days of the local day at its
  clock reading;
* `nothing_pending_applied` — the step: applying events in position order leaves
  no job of the merchant pending;
* `applied_in_order_nothing_pending` — the run, when local days do not go back;
* `fall_back_leaves_job` — a clock reading after midnight, one after the clocks
  fell back, and a job that stays pending.
-/

namespace Cashflow.Pipeline

open Lib Consolidation

variable {d : Ledger.Db} {m : Ledger.UUID} {z : Ledger.Zone} {s s' : Store}

/-! ## The ledger's dates -/

/-- The ledger after a sequence of requests. -/
def ledgerAfter (platform : Ledger.Platform) (requests : List (Ledger.Env × Ledger.Request)) :
    Ledger.Db :=
  run (fun d c => (c.2.run platform c.1 d).2) Ledger.Db.empty requests

/-- Dated no later than the local day of its clock reading, and at most 30 days before. -/
def DatedIn (z : Ledger.Zone) (e : Ledger.EntryRow) : Prop :=
  z.today e.confirmedAt - Ledger.maximumBackdateDays ≤ e.businessDate ∧
    e.businessDate ≤ z.today e.confirmedAt

/-- A date is at most thirty days before today, and not after it. -/
theorem resolve_dated {now date : Int} {requested : Option Int}
    (h : z.resolve now requested = .ok date) :
    z.today now - Ledger.maximumBackdateDays ≤ date ∧ date ≤ z.today now := by
  have hBack : Ledger.maximumBackdateDays = 30 := rfl
  unfold Ledger.Zone.resolve at h
  split at h
  · cases h
    omega
  · split at h
    · cases h
    · cases h
      omega

/-- So is every entry of a merchant that keeps to one zone. -/
theorem entries_dated {platform : Ledger.Platform}
    {requests : List (Ledger.Env × Ledger.Request)}
    (hZone : ∀ c ∈ requests, lower c.2.merchantID = m.text →
      Ledger.newCalendar platform.zones c.2.timeZone = .ok z) :
    ∀ e ∈ (ledgerAfter platform requests).entries, e.merchantID = m → DatedIn z e := by
  refine run_invariant (fun d : Ledger.Db => ∀ e ∈ d.entries, e.merchantID = m → DatedIn z e)
    (fun _ c => lower c.2.merchantID = m.text →
      Ledger.newCalendar platform.zones c.2.timeZone = .ok z) ?_ requests Ledger.Db.empty
    (fun e he => absurd he (Table.not_mem_empty e)) (along_of_forall _ fun _ c hc => hZone c hc)
  intro d c hInv hGuard e he hMerchant
  rcases Ledger.run_cases platform c.1 c.2 d with hSame | ⟨p, hAttempts, hPosts, hMade, hDates⟩
  · rw [hSame] at he
    exact hInv e he hMerchant
  · rcases hPosts.mem_entries.mp he with he | rfl
    · exact hInv e he hMerchant
    · -- the new entry's date was resolved by the merchant's calendar
      have hText : lower c.2.merchantID = m.text := by
        rw [← hAttempts.merchantID, ← hMerchant]
        exact congrArg Ledger.UUID.text hPosts.merchant
      obtain ⟨z', requested, hCalendar, hDate⟩ := hDates
      rw [hGuard hText] at hCalendar
      cases hCalendar
      have hResolved := resolve_dated hDate
      rw [← hMade.confirmedAt] at hResolved
      exact hResolved

/-! ## The projector's jobs -/

/-- The events of the merchant come from the ledger, and a new one has a greater
position than those stored. -/
def InOrder (d : Ledger.Db) (m : Ledger.UUID) (s : Store) : Call → Prop
  | .apply _ event => event.canonical.merchantID = m.text →
      (∃ e ∈ d.entries, Mirrors e event.canonical) ∧
      (InboxEvent.of event.canonical ∈ s.inbox ∨ ∀ r ∈ s.inbox, r.event.merchantID = m.text →
        r.event.merchantPosition < event.merchantPosition)
  | .resumeNext _ _ => True

instance decidableInOrder (d : Ledger.Db) (m : Ledger.UUID) (s : Store) :
    (c : Call) → Decidable (InOrder d m s c)
  | .apply _ event => inferInstanceAs (Decidable (event.canonical.merchantID = m.text →
      (∃ e ∈ d.entries.rows, Mirrors e event.canonical) ∧
      (InboxEvent.of event.canonical ∈ s.inbox ∨ ∀ r ∈ s.inbox.rows, r.event.merchantID = m.text →
        r.event.merchantPosition < event.merchantPosition)))
  | .resumeNext _ _ => isTrue trivial

/-- No job of the merchant is pending, and no row of the merchant is dated past
every event stored. -/
structure NothingPending (d : Ledger.Db) (m : Ledger.UUID) (s : Store) : Prop where
  stored : ∀ r ∈ s.inbox, r.event.merchantID = m.text → ∃ e ∈ d.entries, Mirrors e r.event
  rows : ∀ b ∈ s.balances, b.merchantID = m.text →
    ∃ r ∈ s.inbox, r.event.merchantID = m.text ∧ b.businessDate ≤ r.event.businessDate
  jobs : ∀ j ∈ s.jobs, j.merchantID = m.text → j.isPending = false

/-- The local day never goes back from an entry to a later one. -/
def LocalDaysOrdered (z : Ledger.Zone) (m : Ledger.UUID) (d : Ledger.Db) : Prop :=
  ∀ e ∈ d.entries, ∀ e' ∈ d.entries, e.merchantID = m → e'.merchantID = m →
    e.position < e'.position → z.today e.confirmedAt ≤ z.today e'.confirmedAt

/-- An event in order is dated at most 30 days before any event stored. -/
theorem date_le_backdate (hDated : ∀ e ∈ d.entries, e.merchantID = m → DatedIn z e)
    (hDays : LocalDaysOrdered z m d) {e e' : Ledger.EntryRow} (he : e ∈ d.entries)
    (he' : e' ∈ d.entries) (hm : e.merchantID = m) (hm' : e'.merchantID = m)
    (hPosition : e.position < e'.position) : e.businessDate ≤ e'.businessDate + 30 := by
  have hEarlier := (hDated e he hm).2
  have hLater := (hDated e' he' hm').1
  have hDay := hDays e he e' he' hm hm' hPosition
  have hBack : Ledger.maximumBackdateDays = 30 := rfl
  omega

theorem mirrors_merchant {e : Ledger.EntryRow} {event : EntryConfirmed} (h : Mirrors e event)
    (hMerchant : event.merchantID = m.text) : e.merchantID = m :=
  Ledger.UUID.ext (h.2.1.symm.trans hMerchant)

/-- The rows a block leaves behind, by key: those before it, and those it materializes. -/
theorem block_row (job : RecomputeJob) {next n : Int}
    (hDone : BlockDone (job.continuation next) n s s') {b : DailyBalance} (hb : b ∈ s'.balances) :
    (∃ b' ∈ s.balances, b'.merchantID = b.merchantID ∧ b'.businessDate = b.businessDate) ∨
      (b.merchantID = job.merchantID ∧ b.businessDate ≤ job.throughDate) := by
  obtain ⟨b', rfl, -, hOld | ⟨hKey, -, hThrough⟩⟩ := exists_row_before hDone hb
  · rw [(setClosing_key _ _ _ _ b').1, (setClosing_key _ _ _ _ b').2]
    exact .inl ⟨b', hOld, rfl, rfl⟩
  · rw [(setClosing_key _ _ _ _ b').1, (setClosing_key _ _ _ _ b').2]
    exact .inr ⟨hKey, hThrough.trans (blockThrough_le job next)⟩

/-- A block of another merchant's job changes nothing of this one. -/
theorem nothing_pending_block {job : RecomputeJob} {next : Int} (hInv : NothingPending d m s)
    (hAt : JobAt s job next) (hDone : BlockDone (job.continuation next) 1 s s') :
    NothingPending d m s' := by
  -- a block is one of a pending job, and this merchant has none
  have hOther : job.merchantID ≠ m.text := by
    intro hMerchant
    have hFalse := hInv.jobs job hAt.mem hMerchant
    rw [hAt.isPending] at hFalse
    cases hFalse
  refine ⟨?_, ?_, ?_⟩
  · -- a block leaves the inbox as it is
    rw [hDone.inbox]
    exact hInv.stored
  · intro b hb hMerchant
    rw [hDone.inbox]
    -- a row it adds is of another merchant
    rcases block_row job hDone hb with ⟨b', hb', hKey, hDate⟩ | ⟨hKey, -⟩
    · rw [← hDate]
      exact hInv.rows b' hb' (hKey.trans hMerchant)
    · exact absurd (hKey.symm.trans hMerchant) hOther
  · intro j hj hMerchant
    cases hPending : j.isPending with
    | false => rfl
    | true =>
      obtain ⟨j', hj', hPending', hKey, -⟩ := exists_job_before hDone hj hAt hPending
      rw [hInv.jobs j' hj' (hKey.trans hMerchant)] at hPending'
      cases hPending'

/-- The first block of a new job reaches its end, or the job is another merchant's. -/
theorem new_job_done {env : Env} {event : EntryConfirmed} {through : Int} {mid done : Store}
    (hInv : NothingPending d m s)
    (hJobs : mid.jobs.rows = s.jobs.rows ++ [newJob env event through])
    (hDone : BlockDone (newContinuation env event through) 0 mid done)
    (hReach : event.merchantID = m.text → through ≤ event.businessDate + 30) :
    ∀ j ∈ done.jobs, j.merchantID = m.text → j.isPending = false := by
  intro j hj hMerchant
  rcases mem_jobs_new hJobs hDone hj with hOld | rfl
  · exact hInv.jobs j hOld hMerchant
  · rw [(advanceJob_key _ _ _).1] at hMerchant
    rw [RecomputeJob.isPending, new_job_completed (hReach hMerchant)]
    rfl

/-- A new event in order keeps the invariant: its range fits one block. -/
theorem nothing_pending_applied (hDated : ∀ e ∈ d.entries, e.merchantID = m → DatedIn z e)
    (hDays : LocalDaysOrdered z m d) {env : Env} {event : EntryConfirmed}
    (hInv : NothingPending d m s) (hOrder : InOrder d m s (.apply env event))
    (hApplied : Applied env event.canonical s s') : NothingPending d m s' := by
  obtain ⟨mid, through, hUpsert, hMax, hJobs, done, hDone, hBalances, hJobs'⟩ := hApplied.block
  have hMem {r : InboxEvent} : r ∈ s'.inbox ↔ _ := hApplied.mem_inbox
  -- every row in reach of the maximum is dated like a stored event or like this one
  have hRows : ∀ b ∈ mid.balances, b.merchantID = m.text → ∃ r ∈ s'.inbox,
      r.event.merchantID = m.text ∧ b.businessDate ≤ r.event.businessDate := by
    intro b hb hMerchant
    rcases mem_upsert hUpsert hb with hb | ⟨hKey, hDate⟩
    · obtain ⟨r, hr, hrm, hrd⟩ := hInv.rows b hb hMerchant
      exact ⟨r, hMem.mpr (.inl hr), hrm, hrd⟩
    · exact ⟨_, hMem.mpr (.inr rfl), hKey.symm.trans hMerchant, hDate.le⟩
  have hStored : ∀ r ∈ s'.inbox, r.event.merchantID = m.text →
      ∃ e ∈ d.entries, Mirrors e r.event := by
    intro r hr hMerchant
    rcases hMem.mp hr with hr | rfl
    · exact hInv.stored r hr hMerchant
    · exact (hOrder hMerchant).1
  have hReach : event.canonical.merchantID = m.text →
      through ≤ event.canonical.businessDate + 30 := by
    intro hMerchant
    obtain ⟨⟨e, he, hMirror⟩, hNew⟩ := hOrder hMerchant
    obtain ⟨⟨b, hb, hbKey, rfl⟩, -⟩ := maxBusinessDate_spec hMax
    obtain ⟨r, hr, hrm, hrd⟩ := hRows b hb (hbKey.trans hMerchant)
    rcases hMem.mp hr with hr | rfl
    · -- an earlier event, dated at most 30 days after this one
      obtain ⟨e', he', hMirror'⟩ := hInv.stored r hr hrm
      -- it was applied for the first time, so its place in the order is after the stored ones
      have hBefore : r.event.merchantPosition < event.merchantPosition := by
        rcases hNew with hSame | hNew
        · have hFree := hApplied.free
          rw [conflicts_of_mem hSame] at hFree
          cases hFree
        · exact hNew r hr hrm
      have hPosition : e'.position < e.position := by
        rw [← hMirror'.2.2.1, ← hMirror.2.2.1]
        exact hBefore
      have hDate := date_le_backdate hDated hDays he' he (mirrors_merchant hMirror' hrm)
        (mirrors_merchant hMirror hMerchant) hPosition
      rw [hMirror'.2.2.2.2.2] at hrd
      rw [hMirror.2.2.2.2.2]
      omega
    · have hrd : b.businessDate ≤ event.canonical.businessDate := hrd
      omega
  refine ⟨hStored, ?_, ?_⟩
  · intro b hb hMerchant
    rw [hBalances] at hb
    -- a row of before, or of the block, which ends on the day of the last row
    rcases block_row (newJob env event.canonical through) hDone hb with
      ⟨b', hb', hKey, hDate⟩ | ⟨hKey, hThrough⟩
    · rw [← hDate]
      exact hRows b' hb' (hKey.trans hMerchant)
    · obtain ⟨⟨top, hTop, hTopKey, hTopDate⟩, -⟩ := maxBusinessDate_spec hMax
      obtain ⟨r, hr, hrm, hrd⟩ := hRows top hTop (hTopKey.trans (hKey.symm.trans hMerchant))
      exact ⟨r, hr, hrm, (hThrough.trans hTopDate.ge).trans hrd⟩
  · rw [hJobs']
    exact new_job_done hInv hJobs hDone hReach

/-- The flag is read off the jobs. -/
theorem readPendingRecompute_ok {env : Env} {merchantID : Text} {pending : Bool}
    (h : readPendingRecompute env s merchantID = .ok pending) :
    pending = hasPendingJob s merchantID := by
  simp only [readPendingRecompute, peel, Except.ok.injEq] at h
  obtain ⟨_, -, h⟩ := h
  exact h.symm

/-- The flag in the answer of `Apply` is read from the tables it leaves. -/
theorem applyTx_pending {env : Env} {event : EntryConfirmed} {r : ProjectionResult}
    (h : applyTx env s event = .ok (r, s')) :
    r.recomputePending = hasPendingJob s' event.canonical.merchantID := by
  simp only [applyTx, peel, attempt_ok, mapError_ok] at h
  obtain ⟨_, -, _, -, _, -, s₁, -, ⟨inserted, s₂⟩, -, h⟩ := h
  cases inserted with
  | true =>
    simp only [if_true, applyNew, peel] at h
    -- every step before the flag is read has succeeded
    obtain ⟨s₃, -, s₄, -, h⟩ := h
    split at h
    · cases h
    · simp only [peel] at h
      obtain ⟨_, -, h⟩ := h
      split at h
      · cases h
      · simp only [peel] at h
        obtain ⟨_, -, jobs, -, ⟨block, s₅⟩, -, ⟨result, s₆⟩, -, pending, hPending, h⟩ := h
        cases h
        exact readPendingRecompute_ok hPending
  | false =>
    -- a duplicate changes nothing, and the flag is read all the same
    simp only [Bool.false_eq_true, if_false, peel, Except.ok.injEq, Prod.mk.injEq] at h
    obtain ⟨result, hResolve, rfl, rfl⟩ := h
    simp only [resolveDuplicate, peel] at hResolve
    obtain ⟨_, -, hResolve⟩ := hResolve
    split at hResolve
    · cases hResolve
    · split at hResolve
      · cases hResolve
      · simp only [peel, Except.ok.injEq] at hResolve
        obtain ⟨progress, -, pending, hPending, rfl⟩ := hResolve
        exact readPendingRecompute_ok hPending

/-- What `Apply` reports is the flag of the tables it leaves. -/
theorem apply_pending {env : Env} {event : EntryConfirmed} {r : ProjectionResult}
    (h : (apply env s event).1 = .ok r) :
    r.recomputePending = hasPendingJob (apply env s event).2 event.canonical.merchantID := by
  unfold apply commit at h ⊢
  split at h
  · cases h
  · next result s₁ hTx =>
    split at h
    · cases h
      exact applyTx_pending hTx
    · cases h
    · cases h

/-- No pending job of the merchant. -/
theorem hasPendingJob_false {t : Text} (h : ∀ j ∈ s.jobs, j.merchantID = t → j.isPending = false) :
    hasPendingJob s t = false := by
  rw [hasPendingJob, List.any_eq_false]
  intro j hj hBoth
  rw [Bool.and_eq_true, beq_iff_eq] at hBoth
  rw [h j hj hBoth.1] at hBoth
  cases hBoth.2

/-- A run in the order of the ledger leaves nothing pending. -/
theorem nothing_pending_run (hDated : ∀ e ∈ d.entries, e.merchantID = m → DatedIn z e)
    (hDays : LocalDaysOrdered z m d) (calls : List Call)
    (hOrder : Along Store.exec (InOrder d m) Store.empty calls) :
    NothingPending d m (Store.after calls) := by
  refine after_invariant (NothingPending d m) (InOrder d m) ?_
    (fun hInv _ hGuard hApplied => nothing_pending_applied hDated hDays hInv hGuard hApplied)
    (fun hInv hAt hDone => nothing_pending_block hInv hAt hDone) calls hOrder
  exact ⟨fun r hr => absurd hr (Table.not_mem_empty r), fun b hb => absurd hb (Table.not_mem_empty b),
    fun j hj => absurd hj (Table.not_mem_empty j)⟩

/-- Entries created in one time zone, whose local day never goes back from one
position to a later one, and events applied in position order with any
redeliveries: no job of the merchant is pending after any call, and the answer
of `Apply` says so. -/
theorem applied_in_order_nothing_pending (platform : Ledger.Platform) (z : Ledger.Zone)
    (m : Ledger.UUID) (requests : List (Ledger.Env × Ledger.Request)) (calls : List Call)
    (hZone : ∀ c ∈ requests, lower c.2.merchantID = m.text →
      Ledger.newCalendar platform.zones c.2.timeZone = .ok z)
    (hDays : LocalDaysOrdered z m (ledgerAfter platform requests))
    (hOrder : Along Store.exec (InOrder (ledgerAfter platform requests) m) Store.empty calls) :
    hasPendingJob (Store.after calls) m.text = false ∧
      ∀ before env event r, calls = before ++ [.apply env event] →
        event.canonical.merchantID = m.text → (apply env (Store.after before) event).1 = .ok r →
        r.recomputePending = false := by
  have hDated := entries_dated hZone
  have hNone := hasPendingJob_false (nothing_pending_run hDated hDays calls hOrder).jobs
  refine ⟨hNone, ?_⟩
  rintro before env event r rfl hMerchant hOk
  rw [apply_pending hOk, hMerchant]
  rw [Store.after, run_append] at hNone
  exact hNone

/-- A sale on New Year's Day 2026, and then one that is dated 30 days back. -/
def backDatedSales : List (Ledger.Env × Ledger.Request) :=
  [(Ledger.calmEnv Ledger.newYear 0, Ledger.saleRequest),
    (Ledger.calmEnv Ledger.newYear 16,
      Ledger.saleOf "sale-2".toList 2500 (some "2025-12-02".toList) [])]

def backDatedLedger : Ledger.Db := ledgerAfter Ledger.utcPlatform backDatedSales

/-- Both events, each delivered twice. -/
def backDatedCalls : List Call := delivered backDatedLedger ++ delivered backDatedLedger

/-- The job of the second sale covers 31 days, from 2 December to New Year's Day, and one block
does them all. -/
theorem applied_in_order_nothing_pending_back_dated :
    backDatedLedger.entries.rows.map (fun e => (e.position, formatDate e.businessDate)) =
        [(1, "2026-01-01".toList), (2, "2025-12-02".toList)] ∧
      (Store.after backDatedCalls).jobs.rows.map (fun j => j.throughDate - j.fromDate + 1) =
        [1, 31] ∧
      hasPendingJob (Store.after backDatedCalls) sampleMerchant.text = false ∧
      ∀ before env event r, backDatedCalls = before ++ [.apply env event] →
        event.canonical.merchantID = sampleMerchant.text →
        (apply env (Store.after before) event).1 = .ok r → r.recomputePending = false := by
  have facts :
      Along Store.exec (InOrder backDatedLedger sampleMerchant) Store.empty backDatedCalls ∧
      backDatedLedger.entries.rows.map (fun e => (e.position, formatDate e.businessDate)) =
        [(1, "2026-01-01".toList), (2, "2025-12-02".toList)] ∧
      (Store.after backDatedCalls).jobs.rows.map (fun j => j.throughDate - j.fromDate + 1) =
        [1, 31] ∧
      ∀ e ∈ backDatedLedger.entries.rows, ∀ e' ∈ backDatedLedger.entries.rows,
        e.merchantID = sampleMerchant → e'.merchantID = sampleMerchant → e.position < e'.position →
        Ledger.utcZone.today e.confirmedAt ≤ Ledger.utcZone.today e'.confirmedAt := by
    decide +kernel
  have hLocal : LocalDaysOrdered Ledger.utcZone sampleMerchant backDatedLedger :=
    fun e he e' he' => facts.2.2.2 e (Table.mem_def.mp he) e' (Table.mem_def.mp he')
  refine ⟨facts.2.1, facts.2.2.1, applied_in_order_nothing_pending Ledger.utcPlatform
    Ledger.utcZone sampleMerchant backDatedSales backDatedCalls (fun c _ _ => rfl) hLocal ?_⟩
  rw [← backDatedLedger]
  -- At the default transparency the two sides are compared by running the calls.
  with_reducible exact facts.1

/-- The zone of Newfoundland around the end of daylight saving time in 2010: at
one minute past midnight on 7 November, 02:31 UTC, the clocks fell back an hour. -/
def newfoundland : Ledger.Zone :=
  ⟨fun t => if t < 1289097060 then -9000 else -12600, fun t => by split <;> omega⟩

def newfoundlandPlatform : Ledger.Platform := ⟨fun _ => some newfoundland, .sorted⟩

/-- A sale in that zone, dated by the request or on the local day. -/
def localSale (key : Text) (date : Option Text) : Ledger.Request :=
  Ledger.saleOf key 1500 date "America/St_Johns".toList

/-- 00:00:30 on 7 November 2010, local time. -/
def afterMidnight : Ledger.Instant := ⟨1289097030000000, by decide⟩

/-- Half a minute later: 23:01 on 6 November, local time. -/
def fellBack : Ledger.Instant := ⟨1289097060000000, by decide⟩

/-- A sale just after midnight, and one after the clocks fell back, dated 7 October. -/
def fallBackRequests : List (Ledger.Env × Ledger.Request) :=
  [(Ledger.calmEnv afterMidnight 0, localSale "sale-1".toList none),
    (Ledger.calmEnv fellBack 16, localSale "sale-2".toList (some "2010-10-07".toList))]

/-- The clock goes on, the local day goes back, and the second job stays pending. -/
theorem fall_back_leaves_job :
    let d := ledgerAfter newfoundlandPlatform fallBackRequests
    d.entries.rows.map (fun e => (e.position.toInt, e.confirmedAt)) =
        [(1, afterMidnight.nanos), (2, fellBack.nanos)] ∧
      (delivered d).length = 2 ∧
      hasPendingJob (Store.after (delivered d)) sampleMerchant.text = true := by
  decide +kernel

end Cashflow.Pipeline
