import Cashflow.Consolidation.Totals

/-!
# Consolidation — closing balances and pending jobs

A pending job marks where the chain of closing balances may be broken: every
row dated before the next date of all pending jobs of its merchant has the
right closing balance. A job's range is frozen when it is created, so the
chain is repaired to its end only if no later day appears while a job is
pending.

Main results:

* `settled_block`, `settled_upsert` — the invariant survives a block of any
  pending job, and a new event dated within every pending range;
* `closing_when_nothing_pending` — in a run whose new events all are, no
  merchant without a pending job has a wrong closing balance;
* `stale_without_pending` — a run with an event dated past a pending range
  leaves a wrong closing balance that no job will repair.
-/

namespace Cashflow.Consolidation

open Lib

variable {env : Env} {s s' : Store} {event : EntryConfirmed} {t u : Table balanceSchema} {m : Text}

/-! ## The sum a closing balance should be -/

/-- The sum of the net amounts of a merchant's rows dated at most `d`. -/
def netThrough (t : Table balanceSchema) (m : Text) (d : Int) : Int :=
  sumThrough DailyBalance.businessDate DailyBalance.netMinor (merchantRows t m) d

/-- A merchant's rows. -/
theorem mem_merchantRows {r : DailyBalance} : r ∈ merchantRows t m ↔ r ∈ t ∧ r.merchantID = m := by
  simp [merchantRows, Table.mem_def]

/-- A rewriting that keeps the merchants keeps each merchant's rows together. -/
theorem merchantRows_map {f : DailyBalance → DailyBalance} (hRows : u.rows = t.rows.map f)
    (hKey : ∀ r, (f r).merchantID = r.merchantID) (m : Text) :
    merchantRows u m = (merchantRows t m).map f := by
  rw [merchantRows, hRows, List.filter_map]
  congr 1
  apply List.filter_congr
  intro r _
  simp [hKey r]

/-- It keeps the net up to a day if it keeps the net of each row up to it. -/
theorem netThrough_map {f : DailyBalance → DailyBalance} (hRows : u.rows = t.rows.map f)
    (hKey : ∀ r, (f r).merchantID = r.merchantID ∧ (f r).businessDate = r.businessDate) {d : Int}
    (hNet : ∀ r, r.merchantID = m → r.businessDate ≤ d → (f r).netMinor = r.netMinor) :
    netThrough u m d = netThrough t m d := by
  rw [netThrough, merchantRows_map hRows (fun r => (hKey r).1)]
  refine sumThrough_map_congr _ _ (fun r _ => (hKey r).2) fun r hr hd => ?_
  exact hNet r (mem_merchantRows.mp hr).2 hd

/-- New rows count only by their nets. -/
theorem netThrough_append {extra : List DailyBalance} (hRows : u.rows = t.rows ++ extra) {d : Int}
    (hExtra : ∀ r ∈ extra, r.merchantID = m → r.businessDate ≤ d → r.netMinor = 0) :
    netThrough u m d = netThrough t m d := by
  have hZero : sumThrough DailyBalance.businessDate DailyBalance.netMinor
      (extra.filter (·.merchantID == m)) d = 0 := by
    refine List.sum_eq_zero fun x hx => ?_
    obtain ⟨r, hr, rfl⟩ := List.mem_map.mp hx
    simp only [List.mem_filter, decide_eq_true_eq, beq_iff_eq] at hr
    exact hExtra r hr.1.1 hr.1.2 hr.2
  rw [netThrough, merchantRows, hRows, List.filter_append, sumThrough_append, hZero, add_zero]
  rfl

/-- The rows a block adds have none. -/
theorem netThrough_materialize (t : Table balanceSchema) (m m' : Text) (first last d : Int) :
    netThrough (materialize t m' first last) m d = netThrough t m d := by
  obtain ⟨extra, hRows, hExtra⟩ := rows_materialize t m' first last
  refine netThrough_append hRows fun r hr _ _ => ?_
  obtain ⟨_, -, -, rfl⟩ := hExtra r hr
  rfl

/-- Setting a closing leaves the net. -/
theorem setClosing_net (t : Table balanceSchema) (m : Text) (first last : Int) (r : DailyBalance) :
    (setClosing t m first last r).netMinor = r.netMinor := netColumn.value_setClosing t m first last r

/-- An event counts from its own day on, for its own merchant. -/
theorem netThrough_upsert (h : upsertBalance t event = .ok u) {d : Int}
    (hBefore : ¬ (event.merchantID = m ∧ event.businessDate ≤ d)) :
    netThrough u m d = netThrough t m d := by
  unfold upsertBalance at h
  split_ifs at h
  · refine netThrough_map (Table.update_eq_ok.mp h).2 (addEffect_key event) fun r hm hd => ?_
    rw [addEffect_of_not_onDay]
    rw [onDay_iff]
    rintro ⟨hMerchant, hDate⟩
    exact hBefore ⟨hMerchant.symm.trans hm, hDate ▸ hd⟩
  · refine netThrough_append (Table.insert_eq_ok.mp h).2.2 fun r hr hm hd => ?_
    rw [List.mem_singleton.mp hr] at hm hd
    exact absurd ⟨hm, hd⟩ hBefore

/-! ## The baseline of a block -/

/-- The closing before a range is the sum of the nets before it, where closings are right. -/
theorem baseline_eq (t : Table balanceSchema) (m : Text) {first : Int}
    (hRight : ∀ r ∈ t, r.merchantID = m → r.businessDate < first →
      r.closingBalanceMinor = netThrough t m r.businessDate) :
    baseline t m first =
      sumBefore DailyBalance.businessDate DailyBalance.netMinor (merchantRows t m) first := by
  unfold baseline
  cases hLast : ((merchantRows t m).filter (·.businessDate < first)).argmax
      DailyBalance.businessDate with
  | none =>
    rw [List.argmax_eq_none, List.filter_eq_nil_iff] at hLast
    exact (sumBefore_eq_zero _ _ fun r hr => by simpa using hLast r hr).symm
  | some b =>
    have hMem := List.mem_filter.mp (List.argmax_mem hLast)
    have hBefore : b.businessDate < first := of_decide_eq_true hMem.2
    obtain ⟨hIn, hKey⟩ := mem_merchantRows.mp hMem.1
    show b.closingBalanceMinor = _
    rw [hRight b hIn hKey hBefore]
    refine (sumBefore_eq_sumThrough _ _ hBefore fun r hr hd => ?_).symm
    exact List.le_of_mem_argmax (List.mem_filter.mpr ⟨hr, decide_eq_true hd⟩) hLast

/-! ## The invariant -/

/-- The row lies before every pending job of its merchant. -/
def Untouched (s : Store) (r : DailyBalance) : Prop :=
  ∀ j ∈ s.jobs, j.merchantID = r.merchantID → j.isPending = true →
    ∀ next, j.nextDate = some next → r.businessDate < next

/-- Rows before every pending job are right, and pending jobs reach the end of
their merchant's calendar. -/
structure Store.Settled (s : Store) : Prop where
  closing : ∀ r ∈ s.balances, Untouched s r →
    r.closingBalanceMinor = netThrough s.balances r.merchantID r.businessDate
  reaches : ∀ j ∈ s.jobs, j.isPending = true → ∀ r ∈ s.balances, r.merchantID = j.merchantID →
    r.businessDate ≤ j.throughDate
  ends : ∀ j ∈ s.jobs, j.isPending = true → ∃ r ∈ s.balances, r.merchantID = j.merchantID ∧
    r.businessDate = j.throughDate

/-! ### A block -/

/-- Another job stays as it is. -/
theorem advanceJob_other {job : Continuation} {n : Int} {j : RecomputeJob} (h : j.id ≠ job.id) :
    advanceJob job n j = j := by
  rw [advanceJob, if_neg h]

/-- No job changes its merchant or its last day. -/
theorem advanceJob_key (job : Continuation) (n : Int) (j : RecomputeJob) :
    (advanceJob job n j).merchantID = j.merchantID ∧
      (advanceJob job n j).throughDate = j.throughDate := by
  unfold advanceJob
  split_ifs <;> exact ⟨rfl, rfl⟩

section Block

variable {job : RecomputeJob} {next n : Int}

/-- A job that is pending has not passed its last day. -/
theorem JobAt.next_le (h : JobAt s job next) : next ≤ job.throughDate := by
  have hCheck := s.jobs.checked job h.mem
  simp only [jobSchema, RecomputeJob.isPending, h.status, h.nextDate, Bool.and_eq_true] at hCheck
  have hRange : (decide (job.fromDate ≤ next) && decide (next ≤ job.throughDate)) = true := hCheck.2
  exact of_decide_eq_true ((Bool.and_eq_true _ _).mp hRange).2

/-- A job that stands somewhere is pending. -/
theorem JobAt.isPending (h : JobAt s job next) : job.isPending = true := by
  rw [RecomputeJob.isPending, h.status]
  rfl

/-- A job other than the one whose block is done stays as it is. -/
theorem mem_jobs_block (hDone : BlockDone (job.continuation next) n s s') {j : RecomputeJob}
    (hj : j ∈ s.jobs) (hAt : JobAt s job next) : j = job ∨ j ∈ s'.jobs := by
  by_cases hId : j.id = job.id
  · exact .inl (Table.eq_of_clash hj hAt.mem (beq_iff_eq.mpr hId))
  · right
    rw [Table.mem_def, hDone.jobs]
    exact List.mem_map.mpr ⟨j, hj, advanceJob_other hId⟩

/-- Every job after the block was there before, with the same range. -/
theorem exists_job_before (hDone : BlockDone (job.continuation next) n s s') {j' : RecomputeJob}
    (hj' : j' ∈ s'.jobs) (hAt : JobAt s job next) (hPending : j'.isPending = true) :
    ∃ j ∈ s.jobs, j.isPending = true ∧ j.merchantID = j'.merchantID ∧
      j.throughDate = j'.throughDate := by
  rw [Table.mem_def, hDone.jobs] at hj'
  obtain ⟨j, hj, rfl⟩ := List.mem_map.mp hj'
  have hKey := advanceJob_key (job.continuation next) n j
  refine ⟨j, hj, ?_, hKey.1.symm, hKey.2.symm⟩
  by_cases hId : j.id = job.id
  · rw [Table.eq_of_clash hj hAt.mem (beq_iff_eq.mpr hId)]
    exact hAt.isPending
  · rwa [advanceJob_other hId] at hPending

/-- A row after the block is a row from before, or a zero row of the block. -/
theorem exists_row_before (hDone : BlockDone (job.continuation next) n s s') {r' : DailyBalance}
    (hr' : r' ∈ s'.balances) : ∃ r, r' = setClosing (materialize s.balances job.merchantID next
        (job.continuation next).blockThrough) job.merchantID next
        (job.continuation next).blockThrough r ∧
      r ∈ materialize s.balances job.merchantID next (job.continuation next).blockThrough ∧
      (r ∈ s.balances ∨ (r.merchantID = job.merchantID ∧ next ≤ r.businessDate ∧
        r.businessDate ≤ (job.continuation next).blockThrough)) := by
  rw [Table.mem_def, hDone.balances] at hr'
  obtain ⟨r, hr, rfl⟩ := List.mem_map.mp hr'
  refine ⟨r, rfl, hr, ?_⟩
  obtain ⟨extra, hRows, hExtra⟩ := rows_materialize s.balances job.merchantID next
    (job.continuation next).blockThrough
  rw [show (job.continuation next).merchantID = job.merchantID from rfl,
    show (job.continuation next).next = next from rfl, hRows] at hr
  rcases List.mem_append.mp hr with hr | hr
  · exact .inl hr
  · obtain ⟨d, h1, h2, rfl⟩ := hExtra r hr
    exact .inr ⟨rfl, h1, h2⟩

/-- A block leaves every net. -/
theorem netThrough_block (hDone : BlockDone (job.continuation next) n s s') (m : Text) (d : Int) :
    netThrough s'.balances m d = netThrough s.balances m d := by
  rw [netThrough_map hDone.balances (setClosing_key _ _ _ _) fun r _ _ => setClosing_net _ _ _ _ r,
    netThrough_materialize]

/-- And does not go past the job's last day. -/
theorem blockThrough_le (job : RecomputeJob) (next : Int) :
    (job.continuation next).blockThrough ≤ job.throughDate := min_le_right _ _

/-- A row that the block leaves alone and no pending job lies before was
untouched before the block. -/
theorem untouched_before (hDone : BlockDone (job.continuation next) n s s') (hAt : JobAt s job next)
    {r : DailyBalance} (hUntouched : Untouched s' r)
    (hJob : r.merchantID = job.merchantID → r.businessDate < next) : Untouched s r := by
  intro j hj hMerchant hPending nextDate hNext
  rcases mem_jobs_block hDone hj hAt with rfl | hj'
  · rw [hAt.nextDate] at hNext
    rw [← Option.some.inj hNext]
    exact hJob hMerchant.symm
  · exact hUntouched j hj' hMerchant hPending nextDate hNext

/-- An untouched row of the merchant is not dated after the block. -/
theorem le_blockThrough (hInv : s.Settled) (hDone : BlockDone (job.continuation next) n s s')
    (hAt : JobAt s job next) {r : DailyBalance} (hr : r ∈ s.balances)
    (hMerchant : r.merchantID = job.merchantID) (hUntouched : Untouched s' r) :
    r.businessDate ≤ (job.continuation next).blockThrough := by
  by_cases hMore : (job.continuation next).blockThrough < job.throughDate
  · -- the job goes on after its block, and the row lies before it
    have hMem : advanceJob (job.continuation next) n job ∈ s'.jobs := by
      rw [Table.mem_def, hDone.jobs]
      exact List.mem_map_of_mem hAt.mem
    have hAdvance : advanceJob (job.continuation next) n job =
        { job with
          status := .pending
          nextDate := some ((job.continuation next).blockThrough + 1)
          attempts := job.attempts + n } := (if_pos rfl).trans (if_pos hMore)
    rw [hAdvance] at hMem
    exact Int.lt_add_one_iff.mp (hUntouched _ hMem hMerchant.symm rfl _ rfl)
  · exact (hInv.reaches job hAt.mem hAt.isPending r hr hMerchant).trans (not_lt.mp hMore)

/-- The rows a block starts from are right: they lie before it, and so before every
pending job of the merchant. -/
theorem baseline_block (hInv : s.Settled) (hAt : JobAt s job next)
    (hDone : BlockDone (job.continuation next) n s s') {r : DailyBalance}
    (hUntouched : Untouched s' r) (hMerchant : r.merchantID = job.merchantID)
    (hFirst : next ≤ r.businessDate) {last : Int} :
    baseline (materialize s.balances job.merchantID next last) job.merchantID next =
      sumBefore DailyBalance.businessDate DailyBalance.netMinor
        (merchantRows (materialize s.balances job.merchantID next last) job.merchantID) next := by
  refine baseline_eq _ job.merchantID fun b hb hbMerchant hbDate => ?_
  -- a row that is added lies in the block, not before it
  have hbOld : b ∈ s.balances := by
    obtain ⟨extra, hRows, hExtra⟩ := rows_materialize s.balances job.merchantID next last
    rw [Table.mem_def, hRows] at hb
    rcases List.mem_append.mp hb with hb | hb
    · exact hb
    · obtain ⟨d, hd, -, rfl⟩ := hExtra b hb
      exact absurd hbDate (not_lt.mpr hd)
  -- a job that reaches it reaches every later row, `r` among them
  have hbUntouched : Untouched s b := by
    refine untouched_before hDone hAt (fun j hj hKey hPending x hx => ?_) fun _ => hbDate
    exact (hbDate.trans_le hFirst).trans
      (hUntouched j hj (hKey.trans (hbMerchant.trans hMerchant.symm)) hPending x hx)
  rw [hInv.closing b hbOld hbUntouched, hbMerchant]
  exact (netThrough_materialize _ _ _ _ _ _).symm

/-- After a block the closings of untouched rows are right. -/
theorem closing_block (hInv : s.Settled) (hAt : JobAt s job next)
    (hDone : BlockDone (job.continuation next) n s s') {r' : DailyBalance}
    (hr' : r' ∈ s'.balances) (hUntouched' : Untouched s' r') :
    r'.closingBalanceMinor = netThrough s'.balances r'.merchantID r'.businessDate := by
  obtain ⟨r, rfl, hrMid, hr⟩ := exists_row_before hDone hr'
  obtain ⟨hMerchant, hDate⟩ := setClosing_key (materialize s.balances job.merchantID next
    (job.continuation next).blockThrough) job.merchantID next
    (job.continuation next).blockThrough r
  have hUntouched : Untouched s' r := by
    intro j hj hKey
    rw [← hDate]
    exact hUntouched' j hj (hKey.trans hMerchant.symm)
  rw [hMerchant, hDate, netThrough_block hDone]
  unfold setClosing
  split_ifs with hBlock
  · -- inside the block: the baseline is right, so the running sum is
    obtain ⟨hJob, hFirst, -⟩ := hBlock
    rw [withClosing_closingBalanceMinor, baseline_block hInv hAt hDone hUntouched hJob hFirst,
      ← sumThrough_eq_add _ _ _ hFirst, hJob]
    exact netThrough_materialize _ _ _ _ _ _
  · -- outside: the row was there, and untouched, before
    rcases hr with hr | hNew
    · refine hInv.closing r hr (untouched_before hDone hAt hUntouched fun hJob => ?_)
      by_contra hNot
      exact hBlock ⟨hJob, not_lt.mp hNot, le_blockThrough hInv hDone hAt hr hJob hUntouched⟩
    · exact absurd hNew hBlock

/-- And every pending job still reaches the merchant's last row. -/
theorem reaches_block (hInv : s.Settled) (hAt : JobAt s job next)
    (hDone : BlockDone (job.continuation next) n s s') {j' : RecomputeJob} (hj' : j' ∈ s'.jobs)
    (hPending : j'.isPending = true) {r' : DailyBalance} (hr' : r' ∈ s'.balances)
    (hKey : r'.merchantID = j'.merchantID) : r'.businessDate ≤ j'.throughDate := by
  obtain ⟨j, hj, hjPending, hjMerchant, hjThrough⟩ := exists_job_before hDone hj' hAt hPending
  obtain ⟨r, rfl, -, hr⟩ := exists_row_before hDone hr'
  obtain ⟨hMerchant, hDate⟩ := setClosing_key (materialize s.balances job.merchantID next
    (job.continuation next).blockThrough) job.merchantID next
    (job.continuation next).blockThrough r
  rw [hMerchant] at hKey
  rw [hDate, ← hjThrough]
  rcases hr with hr | ⟨h1, -, h3⟩
  · exact hInv.reaches j hj hjPending r hr (hKey.trans hjMerchant.symm)
  · -- a new row lies within the job's range, whose end has a row
    obtain ⟨e, he, heMerchant, heDate⟩ := hInv.ends job hAt.mem hAt.isPending
    calc r.businessDate ≤ job.throughDate := h3.trans (blockThrough_le job next)
      _ = e.businessDate := heDate.symm
      _ ≤ j.throughDate := hInv.reaches j hj hjPending e he
          (heMerchant.trans (h1.symm.trans (hKey.trans hjMerchant.symm)))

/-- Recomputing a block of any pending job keeps the invariant. -/
theorem settled_block (hInv : s.Settled) (hAt : JobAt s job next)
    (hDone : BlockDone (job.continuation next) n s s') : s'.Settled where
  closing _ hr' hUntouched := closing_block hInv hAt hDone hr' hUntouched
  reaches _ hj' hPending _ hr' hKey := reaches_block hInv hAt hDone hj' hPending hr' hKey
  ends := by
    intro j' hj' hPending
    obtain ⟨j, hj, hjPending, hjMerchant, hjThrough⟩ := exists_job_before hDone hj' hAt hPending
    obtain ⟨r, hr, hMerchant, hDate⟩ := hInv.ends j hj hjPending
    obtain ⟨extra, hRows, -⟩ := rows_materialize s.balances job.merchantID next
      (job.continuation next).blockThrough
    -- the block rewrites rows and adds some, so the last one is still there
    -- a rewritten row keeps its merchant and its day
    have hKey := setClosing_key (materialize s.balances job.merchantID next
      (job.continuation next).blockThrough) job.merchantID next
      (job.continuation next).blockThrough r
    refine ⟨_, ?_, hKey.1.trans (hMerchant.trans hjMerchant),
      hKey.2.trans (hDate.trans hjThrough)⟩
    rw [Table.mem_def, hDone.balances]
    refine List.mem_map_of_mem ?_
    show r ∈ (materialize s.balances job.merchantID next
      (job.continuation next).blockThrough).rows
    rw [hRows]
    exact List.mem_append_left _ hr

end Block

/-! ### A new event -/

/-- A new event is not dated past the range of a pending job of its merchant. This is asked of every
`Apply` that brings an event whose keys are free, of whichever merchant, whether or not its
transaction commits. -/
def WithinPending (s : Store) : Call → Prop
  | .apply _ event => s.inbox.conflicts (InboxEvent.of event.canonical) = false →
      ∀ j ∈ s.jobs, j.merchantID = event.canonical.merchantID → j.isPending = true →
        event.businessDate ≤ j.throughDate
  | .resumeNext _ _ => True

instance (s : Store) (c : Call) : Decidable (WithinPending s c) :=
  match c with
  | .apply _ event => inferInstanceAs (Decidable
      (s.inbox.conflicts (InboxEvent.of event.canonical) = false →
        ∀ j ∈ s.jobs.rows, j.merchantID = event.canonical.merchantID → j.isPending = true →
          event.businessDate ≤ j.throughDate))
  | .resumeNext _ _ => isTrue trivial

/-- The first block of a new job advances that job only: identifiers are unique. -/
theorem mem_jobs_new {through : Int} {mid done : Store}
    (hJobs : mid.jobs.rows = s.jobs.rows ++ [newJob env event through])
    (hDone : BlockDone (newContinuation env event through) 0 mid done) {j : RecomputeJob}
    (hj : j ∈ done.jobs) :
    j ∈ s.jobs ∨ j = advanceJob (newContinuation env event through) 0 (newJob env event through) := by
  rw [Table.mem_def, hDone.jobs, hJobs] at hj
  obtain ⟨j', hj', rfl⟩ := List.mem_map.mp hj
  rcases List.mem_append.mp hj' with hOld | hNew
  · left
    have hUnique := mid.jobs.unique
    rw [hJobs, List.pairwise_append] at hUnique
    have hClash := hUnique.2.2 j' hOld _ List.mem_cons_self
    rw [jobSchema, beq_eq_false_iff_ne] at hClash
    rw [advanceJob_other (show j'.id ≠ (newContinuation env event through).id from hClash)]
    exact hOld
  · right
    rw [List.mem_singleton.mp hNew]

/-- A range of at most one block is done at once. -/
theorem new_job_completed {through : Int}
    (hReach : through ≤ event.businessDate + (maxRecomputeSpanDays - 1)) :
    (advanceJob (newContinuation env event through) 0 (newJob env event through)).status =
      .completed := by
  have hLast : ¬ (newContinuation env event through).blockThrough <
      (newContinuation env event through).through := by
    show ¬ min (event.businessDate + (maxRecomputeSpanDays - 1)) through < through
    omega
  rw [advanceJob, if_pos (by rfl), if_neg hLast]

/-- The upsert keeps every row but the event's own, and that one is on its day. -/
theorem mem_upsert (h : upsertBalance t event = .ok u) {r : DailyBalance} (hr : r ∈ u) :
    r ∈ t ∨ (r.merchantID = event.merchantID ∧ r.businessDate = event.businessDate) := by
  have hOn := balanceOn_of_mem hr
  rw [balanceOn_upsert h] at hOn
  split_ifs at hOn with hDay
  · exact .inr ⟨hDay.1.symm, hDay.2.symm⟩
  · exact .inl (mem_of_balanceOn hOn)

/-- A row stays, with its merchant and day. -/
theorem exists_mem_upsert (h : upsertBalance t event = .ok u) {r : DailyBalance} (hr : r ∈ t) :
    ∃ r' ∈ u, r'.merchantID = r.merchantID ∧ r'.businessDate = r.businessDate := by
  obtain ⟨r', hr'⟩ : ∃ r', balanceOn u r.merchantID r.businessDate = some r' := by
    rw [balanceOn_upsert h, balanceOn_of_mem hr]
    split_ifs
    · exact ⟨_, rfl⟩
    · exact ⟨_, rfl⟩
  exact ⟨r', mem_of_balanceOn hr', balanceOn_key hr'⟩

/-- The last day of a merchant is that of a row, and no row is later. -/
theorem maxBusinessDate_spec {d : Int} (h : maxBusinessDate t m = some d) :
    (∃ r ∈ t, r.merchantID = m ∧ r.businessDate = d) ∧
      ∀ r ∈ t, r.merchantID = m → r.businessDate ≤ d := by
  obtain ⟨hMem, hMax⟩ := List.max?_eq_some_iff.mp h
  constructor
  · obtain ⟨r, hr, rfl⟩ := List.mem_map.mp hMem
    obtain ⟨hIn, hKey⟩ := mem_merchantRows.mp hr
    exact ⟨r, hIn, hKey, rfl⟩
  · intro r hr hKey
    exact hMax _ (List.mem_map_of_mem (mem_merchantRows.mpr ⟨hr, hKey⟩))

/-- Adding a new event to its day, with the job that starts there, keeps the
invariant. -/
theorem settled_upsert {mid : Store} {through : Int} (hInv : s.Settled)
    (hWithin : ∀ j ∈ s.jobs, j.merchantID = event.merchantID → j.isPending = true →
      event.businessDate ≤ j.throughDate)
    (hUpsert : upsertBalance s.balances event = .ok mid.balances)
    (hThrough : maxBusinessDate mid.balances event.merchantID = some through)
    (hJobs : mid.jobs.rows = s.jobs.rows ++ [newJob env event through]) : mid.Settled := by
  have hMem : ∀ j, j ∈ mid.jobs ↔ j ∈ s.jobs ∨ j = newJob env event through := by
    intro j
    rw [Table.mem_def, hJobs, List.mem_append, List.mem_singleton, Table.mem_def]
  obtain ⟨hEnd, hMax⟩ := maxBusinessDate_spec hThrough
  refine ⟨?_, ?_, ?_⟩
  · intro r hr hUntouched
    -- an untouched row of the merchant is dated before the event
    have hBefore : ¬ (event.merchantID = r.merchantID ∧ event.businessDate ≤ r.businessDate) := by
      rintro ⟨hKey, hLe⟩
      exact absurd (hUntouched _ ((hMem _).mpr (.inr rfl)) hKey rfl _ rfl) (not_lt.mpr hLe)
    rw [netThrough_upsert hUpsert hBefore]
    rcases mem_upsert hUpsert hr with hr | ⟨hKey, hDate⟩
    · exact hInv.closing r hr fun j hj => hUntouched j ((hMem j).mpr (.inl hj))
    · exact absurd ⟨hKey.symm, hDate.ge⟩ hBefore
  · -- a pending job of before reaches the event's day, the new one the last day of all
    intro j hj hPending r hr hKey
    rcases (hMem j).mp hj with hj | rfl
    · rcases mem_upsert hUpsert hr with hr | ⟨hMerchant, hDate⟩
      · exact hInv.reaches j hj hPending r hr hKey
      · rw [hDate]
        exact hWithin j hj (hKey.symm.trans hMerchant) hPending
    · exact hMax r hr hKey
  · intro j hj hPending
    -- a job of before ends at a row that is still there
    rcases (hMem j).mp hj with hj | rfl
    · obtain ⟨r, hr, hKey, hDate⟩ := hInv.ends j hj hPending
      obtain ⟨r', hr', hKey', hDate'⟩ := exists_mem_upsert hUpsert hr
      exact ⟨r', hr', hKey'.trans hKey, hDate'.trans hDate⟩
    · exact hEnd

/-- The invariant looks at the balances and the jobs only. -/
theorem settled_congr (hBalances : s'.balances = s.balances) (hJobs : s'.jobs = s.jobs)
    (h : s.Settled) : s'.Settled := by
  obtain ⟨inbox, receipts, balances, progress, jobs⟩ := s
  obtain ⟨inbox', receipts', balances', progress', jobs'⟩ := s'
  cases hBalances
  cases hJobs
  exact ⟨h.closing, h.reaches, h.ends⟩

/-- A new event within every pending range keeps the invariant. -/
theorem settled_applied (hInv : s.Settled) (hWithin : WithinPending s (.apply env event))
    (h : Applied env event.canonical s s') : s'.Settled := by
  obtain ⟨mid, through, hUpsert, hThrough, hJobs, done, hDone, hBalances, hJobs'⟩ := h.block
  have hMid := settled_upsert hInv (hWithin h.free) hUpsert hThrough hJobs
  have hAt : JobAt mid (newJob env event.canonical through) event.canonical.businessDate :=
    ⟨by rw [Table.mem_def, hJobs]; exact List.mem_append_right _ List.mem_cons_self, rfl, rfl⟩
  exact settled_congr hBalances hJobs' (settled_block hMid hAt hDone)

/-- So every run whose events fall within the pending ranges leaves settled tables. -/
theorem after_settled (calls : List Call)
    (hWithin : Along Store.exec WithinPending Store.empty calls) : (Store.after calls).Settled := by
  refine after_invariant Store.Settled WithinPending ?_ (fun hInv _ hGuard h =>
    settled_applied hInv hGuard h) (fun hInv hAt h => settled_block hInv hAt h) calls hWithin
  exact ⟨fun r hr => absurd hr (Table.not_mem_empty r), fun j hj => absurd hj (Table.not_mem_empty j),
    fun j hj => absurd hj (Table.not_mem_empty j)⟩

/-- In every run whose new events are dated within every pending range of their
merchant, a merchant without a pending job has right closing balances. -/
theorem closing_when_nothing_pending (calls : List Call)
    (hWithin : Along Store.exec WithinPending Store.empty calls) (m : Text)
    (hPending : hasPendingJob (Store.after calls) m = false) :
    ∀ r ∈ (Store.after calls).balances, r.merchantID = m →
      r.closingBalanceMinor = netThrough (Store.after calls).balances m r.businessDate := by
  rintro r hr rfl
  refine (after_settled calls hWithin).closing r hr fun j hj hKey hj' => ?_
  rw [hasPendingJob, List.any_eq_false] at hPending
  exact absurd (by simp [hKey, hj']) (hPending j hj)

/-- A back-dated entry whose job takes two blocks, and the second block. -/
theorem closing_when_nothing_pending_two_blocks :
    let calls : List Call := [.apply (steady 1) (sampleCredit '1' 1 0 100),
      .apply (steady 2) (sampleCredit '2' 2 (-32) 100), .resumeNext (steady 3) (sampleID 'a')]
    ∀ r ∈ (Store.after calls).balances, r.merchantID = sampleID 'a' →
      r.closingBalanceMinor = netThrough (Store.after calls).balances (sampleID 'a') r.businessDate :=
  closing_when_nothing_pending _ (by decide +kernel) _ (by decide +kernel)

/-- An entry, a back-dated one whose job does not finish in its first block, an
entry on the day after that job's range, and the job's last block. -/
def staleRun : List Call :=
  [.apply (steady 1) (sampleCredit '1' 1 0 100), .apply (steady 2) (sampleCredit '2' 2 (-32) 100),
    .apply (steady 3) (sampleCredit '3' 3 1 100), .resumeNext (steady 4) (sampleID 'a')]

/-- The entry of the later day took its baseline from a row that the pending
job had not reached, and no job comes back to it. -/
theorem stale_without_pending :
    hasPendingJob (Store.after staleRun) (sampleID 'a') = false ∧
      (⟨sampleID 'a', 1, 100, 0, 100, 1, 200, 2⟩ : DailyBalance) ∈ (Store.after staleRun).balances ∧
      netThrough (Store.after staleRun).balances (sampleID 'a') 1 = 300 := by
  decide +kernel

end Cashflow.Consolidation
