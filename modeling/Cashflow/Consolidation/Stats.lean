import Cashflow.Consolidation.Progress
import Cashflow.Consolidation.Recompute

/-!
# Consolidation — the two gauges of the consumer

`Store.SystemStats` counts the merchants with a gap and the recomputes that are "active or
failed" for the gauges the consumer exports.  The second count looks for the statuses `failed`
and `running`; `Apply` and `ResumeNext` write `pending` and `completed` only.

Main results:

* `after_statuses` — no run leaves a job in another status than those two;
* `stats_agree_iff` — so the gauge counts the unfinished jobs exactly while there are none,
  which every run keeps whose events are dated within one block of the latest day.
-/

namespace Cashflow.Consolidation

open Lib

/-! ## The statistics -/

inductive StatsQuery
  | countGaps
  | countRecomputes
deriving DecidableEq, Repr

/-- The rows the first query counts. -/
def countGaps (s : Store) : Nat := s.progress.rows.countP fun p => p.firstGap.isSome

/-- The rows the second query counts. -/
def countRecomputes (s : Store) : Nat :=
  s.jobs.rows.countP fun j => j.status == .failed || j.status == .running

/-- `Store.SystemStats`.  The two queries are statements of their own, so the second may find
the tables in a later state. -/
def systemStats (fault : StatsQuery → Bool) (s later : Store) : Except StoreError (Nat × Nat) :=
  if fault .countGaps then .error (.persistence "count gaps")
  else if fault .countRecomputes then .error (.persistence "count recomputes")
  else .ok (countGaps s, countRecomputes later)

/-- The statistics of a state say what they are exported as. -/
structure StatsAgree (s : Store) (gaps recomputes : Nat) : Prop where
  unfinished : recomputes = s.jobs.rows.countP fun j => j.status != .completed
  positive : ∀ m, hasPendingJob s m = true → 0 < recomputes
  behind : gaps = s.progress.rows.countP fun p => decide (p.appliedPosition < p.sourcePosition)

/-! ## The statuses of a run -/

variable {env : Env} {s s' : Store} {event : EntryConfirmed}

theorem advanceJob_status (job : Continuation) (n : Int) {j : RecomputeJob}
    (h : j.status = .pending ∨ j.status = .completed) :
    (advanceJob job n j).status = .pending ∨ (advanceJob job n j).status = .completed := by
  unfold advanceJob
  split_ifs
  · exact .inl rfl
  · exact .inr rfl
  · exact h

/-- No statement writes another status than `pending` and `completed`. -/
theorem after_statuses (calls : List Call) :
    ∀ j ∈ (Store.after calls).jobs, j.status = .pending ∨ j.status = .completed := by
  refine after_invariant (fun s => ∀ j ∈ s.jobs, j.status = .pending ∨ j.status = .completed)
    (fun _ _ => True) (fun j hj => absurd hj (Table.not_mem_empty j)) ?_ ?_ calls
    (along_of_forall _ fun _ _ _ => trivial)
  · intro s s' env event hInv _ _ h j hj
    obtain ⟨mid, through, -, -, hJobs, done, hDone, -, hJobs'⟩ := h.block
    rw [hJobs'] at hj
    rcases mem_jobs_new hJobs hDone hj with hOld | rfl
    · exact hInv j hOld
    · exact advanceJob_status _ _ (.inl rfl)
  · intro s s' job next hInv _ hDone j hj
    rw [Table.mem_def, hDone.jobs] at hj
    obtain ⟨j', hj', rfl⟩ := List.mem_map.mp hj
    exact advanceJob_status _ _ (hInv j' hj')

theorem countRecomputes_after (calls : List Call) : countRecomputes (Store.after calls) = 0 := by
  refine List.countP_eq_zero.mpr fun j hj => ?_
  rcases after_statuses calls j hj with h | h
  · simp [h]
  · simp [h]

/-! ## The gaps -/

/-- The gap of a row is set exactly when positions are missing. -/
theorem countGaps_after (calls : List Call) :
    countGaps (Store.after calls) =
      (Store.after calls).progress.rows.countP
        fun p => decide (p.appliedPosition < p.sourcePosition) := by
  refine List.countP_congr fun p hp => ?_
  rw [((after_progress calls).describes p hp).gap]
  by_cases h : p.appliedPosition < p.sourcePosition
  · simp [h]
  · simp [h]

/-! ## Runs that finish each recompute at once -/

/-- A new event is dated at most one block before the latest day of its merchant. -/
def WithinBlock (s : Store) : Call → Prop
  | .apply _ event => s.inbox.conflicts (InboxEvent.of event.canonical) = false →
      ∀ b ∈ s.balances, b.merchantID = event.canonical.merchantID →
        b.businessDate ≤ event.businessDate + (maxRecomputeSpanDays - 1)
  | .resumeNext _ _ => True

instance decidableWithinBlock (s : Store) : (c : Call) → Decidable (WithinBlock s c)
  | .apply _ event => inferInstanceAs (Decidable
      (s.inbox.conflicts (InboxEvent.of event.canonical) = false →
        ∀ b ∈ s.balances.rows, b.merchantID = event.canonical.merchantID →
          b.businessDate ≤ event.businessDate + (maxRecomputeSpanDays - 1)))
  | .resumeNext _ _ => isTrue trivial

/-- The range of such an event fits its first block. -/
theorem completed_applied (hInv : ∀ j ∈ s.jobs, j.status = .completed)
    (hWithin : WithinBlock s (.apply env event)) (h : Applied env event.canonical s s') :
    ∀ j ∈ s'.jobs, j.status = .completed := by
  obtain ⟨mid, through, hUpsert, hMax, hJobs, done, hDone, -, hJobs'⟩ := h.block
  have hReach : through ≤ event.canonical.businessDate + (maxRecomputeSpanDays - 1) := by
    obtain ⟨⟨b, hb, hKey, rfl⟩, -⟩ := maxBusinessDate_spec hMax
    rcases mem_upsert hUpsert hb with hOld | ⟨-, hDate⟩
    · exact hWithin h.free b hOld hKey
    · -- the latest day is the event's own
      have hSpan : maxRecomputeSpanDays = 31 := rfl
      omega
  intro j hj
  rw [hJobs'] at hj
  rcases mem_jobs_new hJobs hDone hj with hOld | rfl
  · exact hInv j hOld
  · exact new_job_completed hReach

theorem after_completed (calls : List Call)
    (hWithin : Along Store.exec WithinBlock Store.empty calls) :
    ∀ j ∈ (Store.after calls).jobs, j.status = .completed := by
  refine after_invariant (fun s => ∀ j ∈ s.jobs, j.status = .completed) WithinBlock
    (fun j hj => absurd hj (Table.not_mem_empty j))
    (fun hInv _ hGuard h => completed_applied hInv hGuard h) ?_ calls hWithin
  intro s s' job next hInv hAt _
  -- there is no job to resume
  have hStatus := hInv job hAt.mem
  rw [hAt.status] at hStatus
  cases hStatus

/-! ## The gauges -/

/-- In every state a run reaches, the first statistic is right; the second is right exactly when
no job is pending.  In a run whose new events are all dated within one block of the latest day
of their merchant, both are right in every state. -/
theorem stats_agree_iff (calls : List Call) :
    ∃ gaps recomputes,
      systemStats (fun _ => false) (Store.after calls) (Store.after calls) =
        .ok (gaps, recomputes) ∧
      gaps = ((Store.after calls).progress.rows.countP fun p =>
        decide (p.appliedPosition < p.sourcePosition)) ∧
      (StatsAgree (Store.after calls) gaps recomputes ↔
        ∀ j ∈ (Store.after calls).jobs, j.status ≠ .pending) ∧
      (Along Store.exec WithinBlock Store.empty calls →
        StatsAgree (Store.after calls) gaps recomputes) := by
  have hIff : StatsAgree (Store.after calls) (countGaps (Store.after calls))
      (countRecomputes (Store.after calls)) ↔
        ∀ j ∈ (Store.after calls).jobs, j.status ≠ .pending := by
    rw [countRecomputes_after]
    constructor
    · intro h j hj hPending
      -- a pending job is unfinished, and the query counts statuses no job has
      have hNone := List.countP_eq_zero.mp h.unfinished.symm j hj
      simp [hPending] at hNone
    · intro h
      have hDone : ∀ j ∈ (Store.after calls).jobs, j.status = .completed :=
        fun j hj => (after_statuses calls j hj).resolve_left (h j hj)
      refine ⟨?_, fun m hm => ?_, countGaps_after calls⟩
      · exact (List.countP_eq_zero.mpr fun j hj => by simp [hDone j hj]).symm
      · obtain ⟨j, hj, hBoth⟩ := List.any_eq_true.mp hm
        simp [RecomputeJob.isPending, hDone j hj] at hBoth
  refine ⟨_, _, rfl, countGaps_after calls, hIff, fun hWithin => hIff.mpr fun j hj => ?_⟩
  rw [after_completed calls hWithin j hj]
  decide

/-- An entry and one dated five days before it. -/
theorem stats_agree_iff_within :
    let calls : List Call := [.apply (steady 1) (sampleCredit '1' 1 5 100),
      .apply (steady 2) (sampleCredit '2' 2 0 100)]
    ∃ gaps recomputes, systemStats (fun _ => false) (Store.after calls) (Store.after calls) =
      .ok (gaps, recomputes) ∧ StatsAgree (Store.after calls) gaps recomputes := by
  intro calls
  obtain ⟨gaps, recomputes, hStats, -, -, hAgree⟩ := stats_agree_iff calls
  exact ⟨gaps, recomputes, hStats, hAgree (by decide +kernel)⟩

/-- An entry dated 32 days before another leaves its job pending, and the gauge at zero. -/
theorem pending_job_not_counted :
    let s := Store.after [.apply (steady 1) (sampleCredit '1' 1 32 100),
      .apply (steady 2) (sampleCredit '2' 2 0 100)]
    systemStats (fun _ => false) s s = .ok (0, 0) ∧ hasPendingJob s (sampleID 'a') = true ∧
      (s.jobs.rows.countP fun j => j.status != .completed) = 1 := by
  decide +kernel

end Cashflow.Consolidation
