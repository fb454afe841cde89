import Cashflow.Consolidation.Blocks

/-!
# Consolidation — which days have a row

A recompute writes a row for every day from its event's date through the latest
date there is then. So a day without entries has a row exactly when an event dated
before it came after one dated past it; in any other order the day is skipped.

* `after_charted` — the rows there are, in terms of the order in which the events
  came;
* `after_netThrough` — what the closing balances should be, in terms of the events.
-/

namespace Cashflow.Consolidation

open Lib

variable {env : Env} {s s' : Store} {event : EntryConfirmed} {t u : Table balanceSchema} {m : Text}
  {d : Int}

/-- The stored events, in the order in which they came. -/
def Store.events (s : Store) : List EntryConfirmed := s.inbox.rows.map InboxEvent.event

/-! ## The order of the events -/

/-- What an event does to a day of the merchant: the first component says that one
dated on or after the day has come, the second that the day has been filled. -/
def fillStep (m : Text) (d : Int) (day : Bool × Bool) (e : EntryConfirmed) : Bool × Bool :=
  if e.merchantID = m then
    (day.1 || decide (d ≤ e.businessDate),
      day.2 || ((day.1 || decide (d ≤ e.businessDate)) && decide (e.businessDate ≤ d)))
  else day

def dayAfter (m : Text) (d : Int) (events : List EntryConfirmed) : Bool × Bool :=
  events.foldl (fillStep m d) (false, false)

/-- Some event dated on or before the day came when one dated on or after it had. -/
def filled (m : Text) (d : Int) (events : List EntryConfirmed) : Bool := (dayAfter m d events).2

/-- One event more. -/
theorem dayAfter_concat (m : Text) (d : Int) (events : List EntryConfirmed) (e : EntryConfirmed) :
    dayAfter m d (events ++ [e]) = fillStep m d (dayAfter m d events) e :=
  List.foldl_concat _ _ _ _

/-- Whether some event of the merchant is dated on the day or later. -/
theorem dayAfter_fst (events : List EntryConfirmed) :
    (dayAfter m d events).1 = true ↔ ∃ e ∈ events, e.merchantID = m ∧ d ≤ e.businessDate := by
  induction events using List.reverseRecOn with
  | nil => simp [dayAfter]
  | append_singleton events e ih =>
    rw [dayAfter_concat]
    by_cases hKey : e.merchantID = m
    · rw [fillStep, if_pos hKey, Bool.or_eq_true, ih, decide_eq_true_eq]
      simp only [List.mem_append, List.mem_singleton, or_and_right, exists_or, exists_eq_left]
      exact or_congr_right ⟨fun h => ⟨hKey, h⟩, fun h => h.2⟩
    · rw [fillStep, if_neg hKey, ih]
      simp only [List.mem_append, List.mem_singleton, or_and_right, exists_or, exists_eq_left]
      exact ⟨Or.inl, fun h => h.resolve_right fun hNew => hKey hNew.1⟩

/-- A day is filled by an event up to it, if another has reached it. -/
theorem filled_concat (events : List EntryConfirmed) (e : EntryConfirmed) :
    filled m d (events ++ [e]) = true ↔ filled m d events = true ∨
      (e.merchantID = m ∧ e.businessDate ≤ d ∧
        ((dayAfter m d events).1 = true ∨ d ≤ e.businessDate)) := by
  rw [filled, dayAfter_concat, filled]
  by_cases hKey : e.merchantID = m
  · rw [fillStep, if_pos hKey]
    simp only [Bool.or_eq_true, Bool.and_eq_true, decide_eq_true_eq]
    exact or_congr_right ⟨fun h => ⟨hKey, h.2, h.1⟩, fun h => ⟨h.2.2, h.2.1⟩⟩
  · rw [fillStep, if_neg hKey]
    exact ⟨Or.inl, fun h => h.resolve_right fun hNew => hKey hNew.1⟩

/-- A filled day has an event on or after it. -/
theorem exists_later_of_filled {events : List EntryConfirmed} (h : filled m d events = true) :
    ∃ e ∈ events, e.merchantID = m ∧ d ≤ e.businessDate := by
  induction events using List.reverseRecOn with
  | nil => cases h
  | append_singleton events e ih =>
    rcases (filled_concat events e).mp h with h | ⟨hKey, -, h | h⟩
    · obtain ⟨e', he', h'⟩ := ih h
      exact ⟨e', List.mem_append_left _ he', h'⟩
    · obtain ⟨e', he', h'⟩ := (dayAfter_fst events).mp h
      exact ⟨e', List.mem_append_left _ he', h'⟩
    · exact ⟨e, List.mem_append_right _ List.mem_cons_self, hKey, h⟩

/-! ## The rows -/

/-- The day lies in the part of its range that the job has recomputed. -/
def RecomputeJob.Reached (j : RecomputeJob) (d : Int) : Prop :=
  j.fromDate ≤ d ∧ d ≤ j.throughDate ∧ ∀ next, j.nextDate = some next → d < next

/-- The days that have rows, and the ranges of the jobs, as the order of the events
made them. -/
structure Store.Charted (s : Store) : Prop where
  rows : ∀ m d, (balanceOn s.balances m d).isSome = true ↔
    ∃ j ∈ s.jobs, j.merchantID = m ∧ j.Reached d
  ranges : ∀ m d, (∃ j ∈ s.jobs, j.merchantID = m ∧ j.fromDate ≤ d ∧ d ≤ j.throughDate) ↔
    filled m d s.events = true
  dated : ∀ e ∈ s.events, (balanceOn s.balances e.merchantID e.businessDate).isSome = true

section Block

variable {job : RecomputeJob} {next n : Int}

/-- A job is not before its first day. -/
theorem JobAt.from_le (h : JobAt s job next) : job.fromDate ≤ next := by
  have hCheck := s.jobs.checked job h.mem
  simp only [jobSchema, RecomputeJob.isPending, h.status, h.nextDate, Bool.and_eq_true] at hCheck
  have hRange : (decide (job.fromDate ≤ next) && decide (next ≤ job.throughDate)) = true := hCheck.2
  exact of_decide_eq_true ((Bool.and_eq_true _ _).mp hRange).1

/-- Nor does it change that day. -/
theorem advanceJob_from (c : Continuation) (n : Int) (j : RecomputeJob) :
    (advanceJob c n j).fromDate = j.fromDate := by
  unfold advanceJob
  split_ifs
  · rfl
  · rfl
  · rfl

/-- A block gives rows to its days. -/
theorem isSome_block (hDone : BlockDone (job.continuation next) n s s') (m : Text) (d : Int) :
    (balanceOn s'.balances m d).isSome = true ↔ (balanceOn s.balances m d).isSome = true ∨
      (m = job.merchantID ∧ next ≤ d ∧ d ≤ (job.continuation next).blockThrough) := by
  rw [hDone.balanceOn, recomputedOn]
  split_ifs with hIn
  · simp [hIn]
  · simp [hIn]

/-- What the job itself has reached after its block. -/
theorem reached_advanceJob (h : JobAt s job next) :
    (advanceJob (job.continuation next) n job).Reached d ↔
      job.Reached d ∨ (next ≤ d ∧ d ≤ (job.continuation next).blockThrough) := by
  have hFrom := h.from_le
  have hLe := h.next_le_blockThrough
  have hThrough := blockThrough_le job next
  have hBefore : job.Reached d ↔ job.fromDate ≤ d ∧ d < next := by
    simp only [RecomputeJob.Reached, h.nextDate, Option.some.injEq, forall_eq']
    omega
  rw [hBefore]
  by_cases hMore : (job.continuation next).blockThrough < job.throughDate
  · rw [advanceJob_more hMore]
    simp only [RecomputeJob.Reached, Option.some.injEq, forall_eq']
    omega
  · rw [advanceJob_last hMore]
    simp only [RecomputeJob.Reached, reduceCtorEq, false_implies, implies_true, and_true]
    omega

/-- What the jobs have reached after a block. -/
theorem reached_block (h : JobAt s job next) (hDone : BlockDone (job.continuation next) n s s')
    (m : Text) (d : Int) :
    (∃ j ∈ s'.jobs, j.merchantID = m ∧ j.Reached d) ↔
      (∃ j ∈ s.jobs, j.merchantID = m ∧ j.Reached d) ∨
        (m = job.merchantID ∧ next ≤ d ∧ d ≤ (job.continuation next).blockThrough) := by
  have hMem : ∀ j', j' ∈ s'.jobs ↔ ∃ j ∈ s.jobs, advanceJob (job.continuation next) n j = j' := by
    intro j'
    rw [Table.mem_def, hDone.jobs, List.mem_map]
    rfl
  constructor
  · rintro ⟨j', hj', hKey, hReached⟩
    obtain ⟨j, hj, rfl⟩ := (hMem j').mp hj'
    rw [(advanceJob_key _ _ j).1] at hKey
    by_cases hId : j.id = job.id
    · -- the job itself has reached its block on top of what it had
      cases Table.eq_of_clash hj h.mem (beq_iff_eq.mpr hId)
      rcases (reached_advanceJob h).mp hReached with hOld | hNew
      · exact .inl ⟨job, hj, hKey, hOld⟩
      · exact .inr ⟨hKey.symm, hNew⟩
    · rw [advanceJob_other hId] at hReached
      exact .inl ⟨j, hj, hKey, hReached⟩
  · rintro (⟨j, hj, hKey, hReached⟩ | ⟨rfl, hNew⟩)
    · refine ⟨_, (hMem _).mpr ⟨j, hj, rfl⟩, (advanceJob_key _ _ j).1.trans hKey, ?_⟩
      by_cases hId : j.id = job.id
      · cases Table.eq_of_clash hj h.mem (beq_iff_eq.mpr hId)
        exact (reached_advanceJob h).mpr (.inl hReached)
      · rw [advanceJob_other hId]
        exact hReached
    · exact ⟨_, (hMem _).mpr ⟨job, h.mem, rfl⟩, (advanceJob_key _ _ job).1,
        (reached_advanceJob h).mpr (.inr hNew)⟩

/-- A block leaves the ranges of the jobs. -/
theorem ranges_block (hDone : BlockDone (job.continuation next) n s s') (m : Text) (d : Int) :
    (∃ j ∈ s'.jobs, j.merchantID = m ∧ j.fromDate ≤ d ∧ d ≤ j.throughDate) ↔
      ∃ j ∈ s.jobs, j.merchantID = m ∧ j.fromDate ≤ d ∧ d ≤ j.throughDate := by
  simp only [Table.mem_def, hDone.jobs, List.mem_map, exists_exists_and_eq_and, advanceJob_key,
    advanceJob_from]

/-- A block keeps the chart: the days it fills are those its job has then reached. -/
theorem charted_block (hInv : s.Charted) (h : JobAt s job next)
    (hDone : BlockDone (job.continuation next) n s s') : s'.Charted where
  rows m d := by rw [isSome_block hDone, reached_block h hDone, hInv.rows]
  ranges m d := by rw [ranges_block hDone, hInv.ranges, Store.events, Store.events, hDone.inbox]
  dated e he := by
    rw [Store.events, hDone.inbox] at he
    exact (isSome_block hDone _ _).mpr (.inl (hInv.dated e he))

end Block

/-- An event has a row on its own day, and the others keep theirs. -/
theorem isSome_upsert (h : upsertBalance t event = .ok u) (m : Text) (d : Int) :
    (balanceOn u m d).isSome = true ↔ (balanceOn t m d).isSome = true ∨
      (event.merchantID = m ∧ event.businessDate = d) := by
  rw [balanceOn_upsert h]
  split_ifs with hIn
  · simp [hIn]
  · simp [hIn]

/-- The end of a new job's range: the day reaches it when an event does. -/
theorem le_through {through : Int} (hInv : s.Charted)
    (hUpsert : upsertBalance s.balances event = .ok u)
    (hThrough : maxBusinessDate u event.merchantID = some through) (d : Int) :
    d ≤ through ↔ (dayAfter event.merchantID d s.events).1 = true ∨ d ≤ event.businessDate := by
  obtain ⟨⟨last, hLast, hKey, hDate⟩, hMax⟩ := maxBusinessDate_spec hThrough
  -- a day with a row is not past the end
  have hRow : ∀ x, (balanceOn u event.merchantID x).isSome = true → x ≤ through := by
    intro x hx
    obtain ⟨r, hr⟩ := Option.isSome_iff_exists.mp hx
    obtain ⟨hrKey, hrDate⟩ := balanceOn_key hr
    exact hrDate ▸ hMax r (mem_of_balanceOn hr) hrKey
  rw [dayAfter_fst]
  constructor
  · intro hd
    have hOn : (balanceOn u event.merchantID through).isSome = true := by
      rw [← hKey, ← hDate, balanceOn_of_mem hLast]
      rfl
    rcases (isSome_upsert hUpsert _ _).mp hOn with hOld | ⟨-, hNew⟩
    · -- the last row was there, so an earlier event reached it
      obtain ⟨j, hj, hjKey, hReached⟩ := (hInv.rows _ _).mp hOld
      obtain ⟨e, he, heKey, heDate⟩ := exists_later_of_filled
        ((hInv.ranges _ _).mp ⟨j, hj, hjKey, hReached.1, hReached.2.1⟩)
      exact .inl ⟨e, he, heKey, hd.trans heDate⟩
    · exact .inr (hNew ▸ hd)
  · rintro (⟨e, he, heKey, heDate⟩ | hd)
    · refine heDate.trans (hRow _ ((isSome_upsert hUpsert _ _).mpr (.inl ?_)))
      rw [← heKey]
      exact hInv.dated e he
    · exact hd.trans (hRow _ ((isSome_upsert hUpsert _ _).mpr (.inr ⟨rfl, rfl⟩)))

/-- An applied event is the last of the inbox. -/
theorem events_applied (h : Applied env event s s') :
    s'.events = s.events ++ [(InboxEvent.of event).event] := by
  rw [Store.events, h.inbox, List.map_append]
  rfl

/-- An applied event keeps the chart. -/
theorem charted_applied (hInv : s.Charted) (h : Applied env event s s') : s'.Charted := by
  obtain ⟨mid, through, hUpsert, hThrough, hJobs, done, hDone, hBalances, hJobs'⟩ := h.block
  have hLe := le_through hInv hUpsert hThrough
  have hAt : JobAt mid (newJob env event through) event.businessDate :=
    ⟨by rw [Table.mem_def, hJobs]; exact List.mem_append_right _ List.mem_cons_self, rfl, rfl⟩
  have hDone : BlockDone ((newJob env event through).continuation event.businessDate) 0 mid done :=
    hDone
  have hMem : ∀ j, j ∈ mid.jobs ↔ j ∈ s.jobs ∨ j = newJob env event through := by
    intro j
    rw [Table.mem_def, hJobs, List.mem_append, List.mem_singleton]
    rfl
  refine ⟨?_, ?_, ?_⟩
  · intro m d
    -- the new job has not done any of its range
    have hNew : ¬ (newJob env event through).Reached d := by
      rintro ⟨hFrom, -, hNext⟩
      exact absurd (hNext event.businessDate rfl) (not_lt.mpr hFrom)
    have hReached : (∃ j ∈ mid.jobs, j.merchantID = m ∧ j.Reached d) ↔
        ∃ j ∈ s.jobs, j.merchantID = m ∧ j.Reached d := by
      simp only [hMem, or_and_right, exists_or, exists_eq_left, hNew, and_false, or_false]
    rw [hBalances, hJobs', isSome_block hDone, reached_block hAt hDone, hReached,
      isSome_upsert hUpsert, hInv.rows]
    -- the event's own day is the first of the block
    have hFirst := hAt.next_le_blockThrough
    constructor
    · rintro ((hOld | ⟨rfl, rfl⟩) | hBlock)
      · exact .inl hOld
      · exact .inr ⟨rfl, le_refl _, hFirst⟩
      · exact .inr hBlock
    · rintro (hOld | hBlock)
      · exact .inl (.inl hOld)
      · exact .inr hBlock
  · -- the new job's range is from the event to the merchant's last day
    intro m d
    rw [hJobs', ranges_block hDone, events_applied h, filled_concat, ← hInv.ranges]
    simp only [hMem, or_and_right, exists_or, exists_eq_left]
    refine or_congr_right ⟨?_, ?_⟩
    · rintro ⟨hKey, hFrom, hTo⟩
      subst hKey
      exact ⟨rfl, hFrom, (hLe d).mp hTo⟩
    · rintro ⟨hKey, hFrom, hTo⟩
      subst hKey
      exact ⟨rfl, hFrom, (hLe d).mpr hTo⟩
  · -- and the event's own day has a row
    intro e he
    rw [hBalances]
    refine (isSome_block hDone _ _).mpr (.inl ((isSome_upsert hUpsert _ _).mpr ?_))
    rw [events_applied h] at he
    rcases List.mem_append.mp he with he | he
    · exact .inl (hInv.dated e he)
    · rw [List.mem_singleton.mp he]
      exact .inr ⟨rfl, rfl⟩

/-- So every run keeps it. -/
theorem after_charted (calls : List Call) : (Store.after calls).Charted := by
  refine after_invariant Store.Charted (fun _ _ => True) ?_
    (fun hInv _ _ h => charted_applied hInv h) (fun hInv hAt h => charted_block hInv hAt h) calls
    (along_of_forall _ fun _ _ _ => trivial)
  refine ⟨fun m d => ?_, fun m d => ?_, fun e he => ?_⟩
  · exact ⟨fun h => (by cases h), fun ⟨j, hj, _⟩ => absurd hj (Table.not_mem_empty j)⟩
  · exact ⟨fun ⟨j, hj, _⟩ => absurd hj (Table.not_mem_empty j), fun h => (by cases h)⟩
  · cases he

/-- With nothing pending, the days that have rows are the days that were filled. -/
theorem isSome_iff_filled (hInv : s.Charted) (hPending : hasPendingJob s m = false) :
    (balanceOn s.balances m d).isSome = true ↔ filled m d s.events = true := by
  have hNext : ∀ j ∈ s.jobs, j.merchantID = m → j.nextDate = none := by
    intro j hj hKey
    rw [hasPendingJob, List.any_eq_false] at hPending
    have hDone : j.isPending = false := by
      have hNot := hPending j hj
      rw [hKey] at hNot
      simpa using hNot
    have hCheck := s.jobs.checked j hj
    simp only [jobSchema, hDone, Bool.and_eq_true] at hCheck
    exact beq_iff_eq.mp hCheck.2
  rw [hInv.rows, ← hInv.ranges]
  constructor
  · rintro ⟨j, hj, hKey, hReached⟩
    exact ⟨j, hj, hKey, hReached.1, hReached.2.1⟩
  · rintro ⟨j, hj, hKey, hFrom, hTo⟩
    refine ⟨j, hj, hKey, hFrom, hTo, fun next hSome => ?_⟩
    rw [hNext j hj hKey] at hSome
    cases hSome

/-! ## The sum a closing balance should be, over the events -/

/-- The net amounts of the merchant's events dated at most `d`. -/
def netEvents (m : Text) (d : Int) (events : List EntryConfirmed) : Int :=
  ((events.filter fun e => e.merchantID == m && decide (e.businessDate ≤ d)).map
    fun e => e.financialEffect.netMinor).sum

/-- What an event adds to the days from its own on. -/
def netShare (m : Text) (d : Int) (e : EntryConfirmed) : Int :=
  if e.merchantID = m ∧ e.businessDate ≤ d then e.financialEffect.netMinor else 0

/-- One event more adds its share. -/
theorem netEvents_concat (events : List EntryConfirmed) (e : EntryConfirmed) :
    netEvents m d (events ++ [e]) = netEvents m d events + netShare m d e := by
  rw [netEvents, List.filter_append, List.map_append, List.sum_append, netEvents, netShare]
  congr 1
  rw [List.filter_singleton]
  by_cases h : e.merchantID = m ∧ e.businessDate ≤ d
  · simp [h]
  · have hFalse : (e.merchantID == m && decide (e.businessDate ≤ d)) = false := by simpa using h
    rw [if_neg h, hFalse]
    rfl

/-- The running sum as a sum over all rows. -/
theorem netThrough_eq (t : Table balanceSchema) (m : Text) (d : Int) :
    netThrough t m d = (t.rows.map fun r =>
      if r.merchantID = m ∧ r.businessDate ≤ d then r.netMinor else 0).sum := by
  rw [netThrough, merchantRows]
  induction t.rows with
  | nil => rfl
  | cons r rows ih =>
    rw [List.filter_cons, List.map_cons, List.sum_cons, ← ih]
    by_cases hKey : r.merchantID = m
    · rw [if_pos (beq_iff_eq.mpr hKey), sumThrough_cons]
      simp [hKey]
    · rw [if_neg (by simpa using hKey), if_neg (fun h => hKey h.1), zero_add]

/-- The upsert adds the event's net amount to the days from its own on. -/
theorem netThrough_upsert_add (h : upsertBalance t event = .ok u) (m : Text) (d : Int) :
    netThrough u m d = netThrough t m d + netShare m d event := by
  unfold upsertBalance at h
  split_ifs at h with hAny
  · obtain ⟨r, hr, hOn⟩ := List.any_eq_true.mp hAny
    obtain ⟨before, after, hRows, hOthers⟩ := Table.exists_split hr
    have hKey := onDay_iff.mp hOn
    -- only the row of the day changes, and it is the only one of that day
    have hSame : ∀ l : List DailyBalance, (∀ a ∈ l, a ∈ before ++ after) →
        l.map (addEffect event) = l := by
      intro l hl
      refine (List.map_congr_left fun a ha => addEffect_of_not_onDay fun haOn => ?_).trans
        (List.map_id l)
      have hClash := hOthers a (hl a ha)
      simp [balanceSchema, onDay_iff.mp haOn, hKey] at hClash
    rw [netThrough_eq, netThrough_eq, (Table.update_eq_ok.mp h).2, hRows]
    simp only [List.map_append, List.map_cons, List.sum_append, List.sum_cons,
      hSame before fun a ha => List.mem_append_left _ ha,
      hSame after fun a ha => List.mem_append_right _ ha]
    rw [addEffect, if_pos hOn, netShare]
    simp only [hKey]
    split_ifs
    · ring
    · ring
  · -- a day without a row is given one
    rw [netThrough_eq, netThrough_eq, (Table.insert_eq_ok.mp h).2.2, List.map_append,
      List.sum_append, List.map_singleton, List.sum_singleton]
    rfl

/-- The net up to a day is that of the events up to it. -/
theorem after_netThrough (calls : List Call) (m : Text) (d : Int) :
    netThrough (Store.after calls).balances m d = netEvents m d (Store.after calls).events := by
  refine after_invariant (fun s => netThrough s.balances m d = netEvents m d s.events)
    (fun _ _ => True) rfl ?_ ?_ calls (along_of_forall _ fun _ _ _ => trivial)
  · intro s s' env event hInv _ _ h
    obtain ⟨mid, through, hUpsert, -, -, done, hDone, hBalances, -⟩ := h.block
    have hDone : BlockDone ((newJob env event.canonical through).continuation
        event.canonical.businessDate) 0 mid done := hDone
    rw [hBalances, netThrough_block hDone, netThrough_upsert_add hUpsert, events_applied h,
      netEvents_concat, hInv]
    rfl
  · intro s s' job next hInv _ hDone
    rw [netThrough_block hDone, hInv, Store.events, Store.events, hDone.inbox]

end Cashflow.Consolidation
