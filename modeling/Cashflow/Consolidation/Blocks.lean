import Cashflow.Consolidation.Recompute

/-!
# Consolidation — a recompute in blocks

`processRecomputeBlock` of
`services/consolidation/internal/adapters/outbound/postgres/store.go` advances a
job by at most 31 days; each block takes its baseline from what the block before
has written. `recomputedOn` says what a recompute of a whole range is: on each of
its days the closing balance is that of the last earlier row plus the net amounts
of the days since, and nothing else changes but the version of a row with another
closing balance.

* `recomputedOn_append` — two adjoining recomputes are one;
* `advanceBlocks_recomputed` — a job advanced block by block recomputes its range;
* `blocks_recompute_range` — the same against the statements run once over the
  range, and `ResumeNext` alone comes to an end;
* `blocks_stuck` — what keeps a job pending for ever: a full `attempts` or `version`
  column, no `next_date`, a closing balance out of range.
-/

namespace Cashflow.Consolidation

open Lib

variable {env : Env} {s s' : Store} {t u : Table balanceSchema} {m : Text}

/-! ## The recompute of a range -/

/-- The closing balance of the last row before `first`, and the net amounts of the
calendar days since. -/
def runningClosing (t : Table balanceSchema) (m : Text) (first d : Int) : Int :=
  baseline t m first + ((days first d).map (netColumn.total t m)).sum

/-- The row of a day of the range after a recompute from `first` on. -/
def recomputedRow (t : Table balanceSchema) (m : Text) (first d : Int) : DailyBalance :=
  ((balanceOn t m d).getD (zeroBalance m d)).withClosing (runningClosing t m first d)

/-- The row of each day after a recompute of the merchant's days from `first`
through `last`. -/
def recomputedOn (t : Table balanceSchema) (m : Text) (first last : Int) (m' : Text) (d : Int) :
    Option DailyBalance :=
  if m' = m ∧ first ≤ d ∧ d ≤ last then some (recomputedRow t m first d) else balanceOn t m' d

/-- The statements of a block, run once over a whole range. -/
def recomputeRange (t : Table balanceSchema) (m : Text) (first last : Int) :
    Except Violation (Table balanceSchema) :=
  recomputeClosing (materialize t m first last) m first last

/-- No closing balance of the range leaves its column. -/
def ClosingsFit (t : Table balanceSchema) (m : Text) (first last : Int) : Prop :=
  ∀ d ∈ days first last, isBigint (runningClosing t m first d) = true

/-- No version of a row of the range leaves its column when it is counted up. -/
def VersionsFit (t : Table balanceSchema) (m : Text) (first last : Int) : Prop :=
  ∀ d ∈ days first last, isBigint (recomputedRow t m first d).version = true

instance (t : Table balanceSchema) (m : Text) (first last : Int) :
    Decidable (ClosingsFit t m first last) :=
  inferInstanceAs (Decidable (∀ d ∈ days first last, isBigint (runningClosing t m first d) = true))

instance (t : Table balanceSchema) (m : Text) (first last : Int) :
    Decidable (VersionsFit t m first last) :=
  inferInstanceAs (Decidable (∀ d ∈ days first last,
    isBigint (recomputedRow t m first d).version = true))

/-! ### Sums over days -/

/-- A range of days in two pieces. -/
theorem days_append {a b d : Int} (hab : a ≤ b + 1) (hbd : b ≤ d) :
    days a d = days a b ++ days (b + 1) d := by
  have hLength : (d - a + 1).toNat = (b - a + 1).toNat + (d - (b + 1) + 1).toNat := by omega
  unfold days
  rw [hLength, List.range_add, List.map_append, List.map_map]
  congr 1
  refine List.map_congr_left fun i _ => ?_
  show a + ((b - a + 1).toNat + i : Nat) = b + 1 + i
  omega

/-- The range of one day. -/
theorem days_self (d : Int) : days d d = [d] := by
  simp [days]

/-- The rows of one day are the row of that day. -/
theorem sumBetween_self (t : Table balanceSchema) (m : Text) (d : Int) :
    sumBetween DailyBalance.businessDate DailyBalance.netMinor (merchantRows t m) d d =
      netColumn.total t m d := by
  have hFilter : (merchantRows t m).filter
      (fun r => decide (d ≤ r.businessDate) && decide (r.businessDate ≤ d)) =
      t.rows.filter (onDay m d) := by
    rw [merchantRows, List.filter_filter]
    -- being dated between `d` and `d` is being dated on `d`
    refine List.filter_congr fun r _ => ?_
    rw [Bool.eq_iff_iff]
    simp only [Bool.and_eq_true, decide_eq_true_eq, beq_iff_eq, onDay]
    constructor
    · rintro ⟨h, hm⟩
      exact ⟨hm, by omega⟩
    · rintro ⟨hm, h⟩
      exact ⟨by omega, hm⟩
  rw [sumBetween, hFilter, Column.total]
  -- a day has at most one row, so the sum over it is that row's net
  cases hOn : balanceOn t m d with
  | none =>
    have hNil : t.rows.filter (onDay m d) = [] := by
      refine List.filter_eq_nil_iff.mpr fun r hr hOnDay => ?_
      rw [Table.find?_none.mp hOn r hr] at hOnDay
      cases hOnDay
    rw [hNil]
    rfl
  | some r =>
    have hKey := balanceOn_key hOn
    rw [Table.filter_eq_of_mem (mem_of_balanceOn hOn) (onDay_iff.mpr hKey) fun a ha => by
      simp [balanceSchema, onDay_iff.mp ha, hKey]]
    exact add_zero _

/-- The sum of a window is the sum over its calendar days. -/
theorem sumBetween_days (t : Table balanceSchema) (m : Text) (first : Int) (n : Nat) :
    sumBetween DailyBalance.businessDate DailyBalance.netMinor (merchantRows t m) first
      (first + n) = ((days first (first + n)).map (netColumn.total t m)).sum := by
  induction n with
  | zero =>
    rw [Int.ofNat_zero, add_zero, days_self, sumBetween_self]
    simp
  | succ n ih =>
    have hSplit := sumBetween_split DailyBalance.businessDate DailyBalance.netMinor
      (merchantRows t m) (a := first) (b := first + n) (c := first + n + 1)
      (d := first + n + 1) (by omega) (by omega) fun x => by omega
    rw [show first + ((n + 1 : Nat) : Int) = first + n + 1 by omega, hSplit, ih, sumBetween_self,
      days_append (a := first) (b := first + n) (d := first + n + 1) (by omega) (by omega),
      days_self, List.map_append, List.sum_append]
    simp

/-! ### What the statements compute -/

/-- Rows that are added from a day on do not change the baseline of that day. -/
theorem baseline_materialize (t : Table balanceSchema) (m : Text) (first last : Int) :
    baseline (materialize t m first last) m first = baseline t m first := by
  obtain ⟨extra, hRows, hExtra⟩ := rows_materialize t m first last
  have hSame : (merchantRows (materialize t m first last) m).filter (·.businessDate < first) =
      (merchantRows t m).filter (·.businessDate < first) := by
    rw [merchantRows, hRows, List.filter_append, List.filter_append]
    have hNil : (extra.filter (·.merchantID == m)).filter (·.businessDate < first) = [] := by
      refine List.filter_eq_nil_iff.mpr fun r hr hBefore => ?_
      obtain ⟨d, hd, -, rfl⟩ := hExtra r (List.mem_of_mem_filter hr)
      have hLt : d < first := of_decide_eq_true hBefore
      omega
    rw [hNil, List.append_nil]
    rfl
  rw [baseline, hSame, baseline]

/-- The closing balance the statements write on a day. -/
theorem closing_materialize (t : Table balanceSchema) (m : Text) {first last d : Int}
    (hFirst : first ≤ d) :
    baseline (materialize t m first last) m first +
        sumBetween DailyBalance.businessDate DailyBalance.netMinor
          (merchantRows (materialize t m first last) m) first d = runningClosing t m first d := by
  have hDays := sumBetween_days (materialize t m first last) m first (d - first).toNat
  rw [show first + ((d - first).toNat : Int) = d by omega] at hDays
  rw [baseline_materialize, hDays, runningClosing]
  congr 2
  exact List.map_congr_left fun x _ => netColumn.total_materialize t m m x first last

/-- The statements rewrite a row of the range. -/
theorem setClosing_materialize {first last : Int} {r : DailyBalance}
    (hIn : r.merchantID = m ∧ first ≤ r.businessDate ∧ r.businessDate ≤ last) :
    setClosing (materialize t m first last) m first last r =
      r.withClosing (runningClosing t m first r.businessDate) := by
  rw [setClosing, if_pos hIn, closing_materialize t m hIn.2.1]

/-- The row of each day after the two statements. -/
theorem balanceOn_recomputed {first last : Int}
    (hRows : u.rows = (materialize t m first last).rows.map
      (setClosing (materialize t m first last) m first last))
    (m' : Text) (d : Int) : balanceOn u m' d = recomputedOn t m first last m' d := by
  rw [balanceOn_map hRows (setClosing_key _ _ _ _), balanceOn_materialize, recomputedOn]
  by_cases hIn : m' = m ∧ first ≤ d ∧ d ≤ last
  · obtain ⟨rfl, hFirst, hLast⟩ := hIn
    rw [if_pos ⟨rfl, hFirst, hLast⟩, if_pos ⟨rfl, hFirst, hLast⟩, recomputedRow]
    cases hOn : balanceOn t m' d with
    | none =>
      -- a day of the range without a row is given one
      exact congrArg some
        (setClosing_materialize (m := m') (r := zeroBalance m' d) ⟨rfl, hFirst, hLast⟩)
    | some r =>
      obtain ⟨hm, hd⟩ := balanceOn_key hOn
      show some (setClosing _ m' first last r) = _
      rw [setClosing_materialize ⟨hm, hd ▸ hFirst, hd ▸ hLast⟩, hd]
      rfl
  · -- a day outside the range keeps its row
    rw [if_neg hIn, if_neg hIn, Option.or_none]
    cases hOn : balanceOn t m' d with
    | none => rfl
    | some r =>
      obtain ⟨hm, hd⟩ := balanceOn_key hOn
      rw [Option.map_some, setClosing, if_neg]
      rintro ⟨hMerchant, hFirst, hLast⟩
      exact hIn ⟨hm ▸ hMerchant, hd ▸ hFirst, hd ▸ hLast⟩

/-- A row keeps the constraints of its table under a closing balance and a version
that fit. -/
theorem check_withClosing {r : DailyBalance} {closing : Int} (hCheck : balanceSchema.check r = true)
    (hClosing : isBigint closing = true) (hVersion : isBigint (r.withClosing closing).version = true) :
    balanceSchema.check (r.withClosing closing) = true := by
  have hPositive : r.version ≤ (r.withClosing closing).version := by
    unfold DailyBalance.withClosing
    split
    · exact le_refl _
    · exact Int.le_of_lt (Int.lt_succ _)
  simp only [balanceSchema, Bool.and_eq_true, decide_eq_true_eq, withClosing_creditsMinor,
    withClosing_debitsMinor, withClosing_entryCount, withClosing_netMinor,
    withClosing_closingBalanceMinor] at hCheck ⊢
  obtain ⟨⟨⟨hTotals, -⟩, hOld⟩, -⟩ := hCheck
  exact ⟨⟨⟨hTotals, hClosing⟩, by omega⟩, hVersion⟩

/-- A row of the materialized range is the one there was, or the row of zeros. -/
theorem row_materialize {first last : Int} {r : DailyBalance}
    (hr : r ∈ materialize t m first last) (hKey : r.merchantID = m)
    (hIn : first ≤ r.businessDate ∧ r.businessDate ≤ last) :
    r = (balanceOn t m r.businessDate).getD (zeroBalance m r.businessDate) := by
  have hOn := balanceOn_of_mem hr
  rw [hKey, balanceOn_materialize, if_pos ⟨rfl, hIn.1, hIn.2⟩] at hOn
  cases hRow : balanceOn t m r.businessDate with
  | none =>
    rw [hRow] at hOn
    exact (Option.some.inj hOn).symm
  | some r' =>
    rw [hRow] at hOn
    exact (Option.some.inj hOn).symm

/-- A recomputation within the column's limits succeeds, and leaves the rows `recomputedOn` says. -/
theorem exists_recomputeRange {first last : Int} (hFit : ClosingsFit t m first last)
    (hVersions : VersionsFit t m first last) :
    ∃ u, recomputeRange t m first last = .ok u ∧
      ∀ m' d, balanceOn u m' d = recomputedOn t m first last m' d := by
  obtain ⟨u, hUpdate, hRows⟩ := Table.exists_update (t := materialize t m first last)
    (f := setClosing (materialize t m first last) m first last)
    (fun a b => by simp only [balanceSchema, setClosing_key]) (by
      intro r hr
      have hChecked := (materialize t m first last).checked r hr
      by_cases hIn : r.merchantID = m ∧ first ≤ r.businessDate ∧ r.businessDate ≤ last
      · have hVersion := hVersions r.businessDate (mem_days.mpr hIn.2)
        rw [recomputedRow, ← row_materialize hr hIn.1 hIn.2] at hVersion
        rw [setClosing_materialize hIn]
        exact check_withClosing hChecked (hFit r.businessDate (mem_days.mpr hIn.2)) hVersion
      · rw [setClosing, if_neg hIn]
        exact hChecked)
  exact ⟨u, hUpdate, balanceOn_recomputed hRows⟩

/-! ### Adjoining ranges -/

/-- A recomputation sets closings and versions, no other column. -/
theorem total_recomputed {first last : Int}
    (hOn : ∀ m' d, balanceOn u m' d = recomputedOn t m first last m' d) (col : Column) (d : Int) :
    col.total u m d = col.total t m d := by
  rw [Column.total, hOn, recomputedOn, Column.total]
  split_ifs with hIn
  · rw [recomputedRow]
    cases balanceOn t m d with
    | none => exact (col.closing _ _).trans (col.zero m d)
    | some r => exact col.closing r _
  · rfl

/-- The baseline after a day that has a row is the closing balance of that row. -/
theorem baseline_succ {r : DailyBalance} {d : Int} (hOn : balanceOn t m d = some r) :
    baseline t m (d + 1) = r.closingBalanceMinor := by
  obtain ⟨hKey, hDate⟩ := balanceOn_key hOn
  have hMem : r ∈ (merchantRows t m).filter (·.businessDate < d + 1) :=
    List.mem_filter.mpr ⟨mem_merchantRows.mpr ⟨mem_of_balanceOn hOn, hKey⟩,
      decide_eq_true (by omega)⟩
  unfold baseline
  cases hLast : ((merchantRows t m).filter (·.businessDate < d + 1)).argmax
      DailyBalance.businessDate with
  | none =>
    rw [List.argmax_eq_none] at hLast
    rw [hLast] at hMem
    cases hMem
  | some b =>
    -- the latest row is dated on the day itself, so it is that row
    have hLe : r.businessDate ≤ b.businessDate := List.le_of_mem_argmax hMem hLast
    have hb := List.mem_filter.mp (List.argmax_mem hLast)
    have hLt : b.businessDate < d + 1 := of_decide_eq_true hb.2
    obtain ⟨hIn, hbKey⟩ := mem_merchantRows.mp hb.1
    have hSame := balanceOn_of_mem hIn
    rw [hbKey, show b.businessDate = d by omega, hOn] at hSame
    rw [Option.some.inj hSame]

section Append

variable {a b c : Int} (hOn : ∀ m' d, balanceOn u m' d = recomputedOn t m a b m' d) (hab : a ≤ b)
include hOn hab

/-- A running balance that starts from the closing of the block before is that of the whole range.
-/
theorem runningClosing_append {d : Int} (hbd : b ≤ d) :
    runningClosing u m (b + 1) d = runningClosing t m a d := by
  have hRow := hOn m b
  rw [recomputedOn, if_pos ⟨rfl, hab, le_refl b⟩] at hRow
  have hTotals : (days (b + 1) d).map (netColumn.total u m) =
      (days (b + 1) d).map (netColumn.total t m) :=
    List.map_congr_left fun x _ => total_recomputed hOn netColumn x
  rw [runningClosing, baseline_succ hRow, hTotals, recomputedRow, withClosing_closingBalanceMinor,
    runningClosing, runningClosing,
    days_append (a := a) (b := b) (by omega) hbd, List.map_append, List.sum_append, add_assoc]

/-- So the row is the same, in one piece or two. -/
theorem recomputedRow_append {d : Int} (hbd : b < d) :
    recomputedRow u m (b + 1) d = recomputedRow t m a d := by
  have hRow : balanceOn u m d = balanceOn t m d := by
    rw [hOn, recomputedOn, if_neg (fun h => by omega)]
  rw [recomputedRow, hRow, runningClosing_append hOn hab (by omega), recomputedRow]

/-- A recompute that starts where one has ended continues it. -/
theorem recomputedOn_append (hbc : b ≤ c) (m' : Text) (d : Int) :
    recomputedOn u m (b + 1) c m' d = recomputedOn t m a c m' d := by
  by_cases hLater : m' = m ∧ b + 1 ≤ d ∧ d ≤ c
  · obtain ⟨rfl, hFirst, hLast⟩ := hLater
    rw [recomputedOn, if_pos ⟨rfl, hFirst, hLast⟩, recomputedOn, if_pos ⟨rfl, by omega, hLast⟩,
      recomputedRow_append hOn hab (by omega)]
  · -- the second range leaves the first and what lies outside both
    rw [recomputedOn, if_neg hLater, hOn, recomputedOn, recomputedOn]
    refine if_congr ⟨fun h => ⟨h.1, h.2.1, by omega⟩, fun h => ⟨h.1, h.2.1, ?_⟩⟩ rfl rfl
    by_contra hNot
    exact hLater ⟨h.1, by omega, h.2.2⟩

/-- What is left of a range fits if the range does. -/
theorem ClosingsFit.append (hFit : ClosingsFit t m a c) :
    ClosingsFit u m (b + 1) c := by
  intro d hd
  obtain ⟨hFirst, hLast⟩ := mem_days.mp hd
  rw [runningClosing_append hOn hab (by omega)]
  exact hFit d (mem_days.mpr ⟨by omega, hLast⟩)

/-- For the versions as for the closings. -/
theorem VersionsFit.append (hFit : VersionsFit t m a c) : VersionsFit u m (b + 1) c := by
  intro d hd
  obtain ⟨hFirst, hLast⟩ := mem_days.mp hd
  rw [recomputedRow_append hOn hab (by omega)]
  exact hFit d (mem_days.mpr ⟨by omega, hLast⟩)

end Append

/-! ## The blocks of a job -/

/-- The blocks a pending job still has to go. -/
def RecomputeJob.blocksLeft (j : RecomputeJob) : Nat :=
  if j.status = .pending then
    j.nextDate.elim 0 fun next => ((j.throughDate - next) / maxRecomputeSpanDays + 1).toNat
  else 0

/-- The largest value of the `attempts` column. -/
def maxAttempts : Int := 2147483647

/-- One block of the job with this id, while it is pending. -/
def advanceBlock (id : Int) (s : Store) (env : Env) : Except StoreError Store :=
  match s.jobs.find? (·.id == id) with
  | none => .ok s
  | some job =>
    match job.status, job.nextDate with
    | .pending, some next => do
      let (_, s) ← processRecomputeBlock env s (job.continuation next) true
      .ok s
    | _, _ => .ok s

/-- The job advanced by one block in each of the transactions. -/
def advanceBlocks (id : Int) (s : Store) (envs : List Env) : Except StoreError Store :=
  envs.foldlM (advanceBlock id) s

section Block

variable {job : RecomputeJob} {next : Int}

/-- The blocks left, by the days left. -/
theorem JobAt.blocksLeft (h : JobAt s job next) :
    (job.blocksLeft : Int) = (job.throughDate - next) / 31 + 1 := by
  have hLe := h.next_le
  have hNonneg : 0 ≤ (job.throughDate - next) / 31 := Int.ediv_nonneg (by omega) (by omega)
  rw [RecomputeJob.blocksLeft, if_pos h.status, h.nextDate]
  show (((job.throughDate - next) / 31 + 1).toNat : Int) = _
  omega

/-- A block has 31 days, or the rest. -/
theorem blockThrough_eq (job : RecomputeJob) (next : Int) :
    (job.continuation next).blockThrough = min (next + 30) job.throughDate := rfl

/-- It has one day at least. -/
theorem JobAt.next_le_blockThrough (h : JobAt s job next) :
    next ≤ (job.continuation next).blockThrough := by
  have hLe := h.next_le
  rw [blockThrough_eq]
  omega

/-- The job is found by its identifier. -/
theorem JobAt.find (h : JobAt s job next) : s.jobs.find? (·.id == job.id) = some job :=
  Table.find?_eq_some_of_mem h.mem (beq_self_eq_true job.id) fun _ ha => ha

/-- The job after a block that does not reach its end. -/
theorem advanceJob_more {n : Int} (h : (job.continuation next).blockThrough < job.throughDate) :
    advanceJob (job.continuation next) n job =
      { job with
        status := .pending
        nextDate := some ((job.continuation next).blockThrough + 1)
        attempts := job.attempts + n } :=
  (if_pos rfl).trans (if_pos h)

/-- The job after its last block. -/
theorem advanceJob_last {n : Int} (h : ¬ (job.continuation next).blockThrough < job.throughDate) :
    advanceJob (job.continuation next) n job =
      { job with status := .completed, nextDate := none, attempts := job.attempts + n } :=
  (if_pos rfl).trans (if_neg h)

/-- A block that is done is one fewer. -/
theorem blocksLeft_advanceJob (h : JobAt s job next) :
    (advanceJob (job.continuation next) 1 job).blocksLeft + 1 = job.blocksLeft := by
  have hLe := h.next_le
  have hBlocks := h.blocksLeft
  by_cases hMore : (job.continuation next).blockThrough < job.throughDate
  · rw [advanceJob_more hMore]
    rw [blockThrough_eq] at hMore ⊢
    show ((job.throughDate - (min (next + 30) job.throughDate + 1)) / 31 + 1).toNat + 1 = _
    omega
  · rw [advanceJob_last hMore]
    rw [blockThrough_eq] at hMore
    show 0 + 1 = job.blocksLeft
    omega

/-- The advanced job passes the table's checks, if the attempts do not overflow. -/
theorem check_advanceJob (h : JobAt s job next) (hRoom : job.attempts + 1 ≤ maxAttempts)
    {j : RecomputeJob} (hj : j ∈ s.jobs) :
    jobSchema.check (advanceJob (job.continuation next) 1 j) = true := by
  -- the job itself is advanced, every other row is as it was
  by_cases hId : j.id = job.id
  · have hCheck := s.jobs.checked job h.mem
    have hNext := h.next_le_blockThrough
    simp only [jobSchema, RecomputeJob.isPending, h.status, h.nextDate, Bool.and_eq_true,
      decide_eq_true_eq] at hCheck
    obtain ⟨⟨⟨hRange, hAttempts⟩, -⟩, hDate⟩ := hCheck
    have hFrom : job.fromDate ≤ next ∧ next ≤ job.throughDate := by simpa using hDate
    have hMax : job.attempts + 1 ≤ 2147483647 := hRoom
    rw [Table.eq_of_clash hj h.mem (beq_iff_eq.mpr hId)]
    -- the job stays in range while it goes on, and needs no date once it is done
    by_cases hMore : (job.continuation next).blockThrough < job.throughDate
    · rw [advanceJob_more hMore]
      simp only [jobSchema, RecomputeJob.isPending, Bool.and_eq_true, decide_eq_true_eq]
      refine ⟨⟨⟨hRange, by omega⟩, hMax⟩, ?_⟩
      simp only [beq_self_eq_true, Bool.true_or, if_true, Option.all_some, Bool.and_eq_true,
        decide_eq_true_eq]
      omega
    · rw [advanceJob_last hMore]
      simp only [jobSchema, RecomputeJob.isPending, Bool.and_eq_true, decide_eq_true_eq]
      exact ⟨⟨⟨hRange, by omega⟩, hMax⟩, rfl⟩
  · rw [advanceJob_other hId]
    exact s.jobs.checked j hj

/-- A block whose closing balances and versions fit is recomputed. -/
theorem exists_processRecomputeBlock (hEnv : env.Healthy) (h : JobAt s job next)
    (hRoom : job.attempts + 1 ≤ maxAttempts)
    (hFit : ClosingsFit s.balances job.merchantID next (job.continuation next).blockThrough)
    (hVersions : VersionsFit s.balances job.merchantID next (job.continuation next).blockThrough) :
    ∃ r s', processRecomputeBlock env s (job.continuation next) true = .ok (r, s') ∧
      r.processed = true := by
  obtain ⟨balances, hBalances, -⟩ := exists_recomputeRange hFit hVersions
  obtain ⟨jobs, hJobs, -⟩ := Table.exists_update (t := s.jobs)
    (f := advanceJob (job.continuation next) 1)
    (fun a b => by simp only [jobSchema, advanceJob_id]) fun j hj => check_advanceJob h hRoom hj
  have hClosing : recomputeClosing (materialize s.balances (job.continuation next).merchantID
      (job.continuation next).next (job.continuation next).blockThrough)
      (job.continuation next).merchantID (job.continuation next).next
      (job.continuation next).blockThrough = .ok balances := hBalances
  rw [processRecomputeBlock]
  simp only [hEnv.attempt, hClosing, hJobs, classified, if_true]
  exact ⟨_, _, rfl, rfl⟩

/-- What a block leaves on each day. -/
theorem BlockDone.balanceOn {n : Int} (hDone : BlockDone (job.continuation next) n s s')
    (m' : Text) (d : Int) :
    balanceOn s'.balances m' d = recomputedOn s.balances job.merchantID next
      (job.continuation next).blockThrough m' d :=
  balanceOn_recomputed hDone.balances m' d

/-- And of its job. -/
theorem BlockDone.mem (hDone : BlockDone (job.continuation next) 1 s s') (h : JobAt s job next) :
    advanceJob (job.continuation next) 1 job ∈ s'.jobs := by
  rw [Table.mem_def, hDone.jobs]
  exact List.mem_map_of_mem h.mem

/-- A job that goes on after its block is at the day after it. -/
theorem BlockDone.jobAt (hDone : BlockDone (job.continuation next) 1 s s') (h : JobAt s job next)
    (hMore : (job.continuation next).blockThrough < job.throughDate) :
    JobAt s' (advanceJob (job.continuation next) 1 job)
      ((job.continuation next).blockThrough + 1) :=
  ⟨hDone.mem h, by rw [advanceJob_more hMore], by rw [advanceJob_more hMore]⟩

/-- A block within the limits succeeds when nothing fails. -/
theorem exists_advanceBlock (hEnv : env.Healthy) (h : JobAt s job next)
    (hRoom : job.attempts + 1 ≤ maxAttempts)
    (hFit : ClosingsFit s.balances job.merchantID next (job.continuation next).blockThrough)
    (hVersions : VersionsFit s.balances job.merchantID next (job.continuation next).blockThrough) :
    ∃ s', advanceBlock job.id s env = .ok s' ∧ BlockDone (job.continuation next) 1 s s' := by
  obtain ⟨r, s', hBlock, -⟩ := exists_processRecomputeBlock hEnv h hRoom hFit hVersions
  refine ⟨s', ?_, processRecomputeBlock_ok hBlock⟩
  rw [advanceBlock, h.find]
  simp only [h.status, h.nextDate, hBlock]
  rfl

end Block

/-- A shorter range fits, too. -/
theorem ClosingsFit.mono {first b c : Int} (hbc : b ≤ c) (h : ClosingsFit t m first c) :
    ClosingsFit t m first b := by
  intro d hd
  obtain ⟨hFirst, hLast⟩ := mem_days.mp hd
  exact h d (mem_days.mpr ⟨hFirst, hLast.trans hbc⟩)

/-- In both columns. -/
theorem VersionsFit.mono {first b c : Int} (hbc : b ≤ c) (h : VersionsFit t m first c) :
    VersionsFit t m first b := by
  intro d hd
  obtain ⟨hFirst, hLast⟩ := mem_days.mp hd
  exact h d (mem_days.mpr ⟨hFirst, hLast.trans hbc⟩)

/-- A job advanced block by block to its end has recomputed its range. -/
theorem advanceBlocks_recomputed (envs : List Env) (hEnvs : ∀ env ∈ envs, env.Healthy)
    (s : Store) {job : RecomputeJob} {next : Int} (h : JobAt s job next)
    (hLength : envs.length = job.blocksLeft)
    (hRoom : job.attempts + job.blocksLeft ≤ maxAttempts)
    (hFit : ClosingsFit s.balances job.merchantID next job.throughDate)
    (hVersions : VersionsFit s.balances job.merchantID next job.throughDate) :
    ∃ s', advanceBlocks job.id s envs = .ok s' ∧
      { job with
        status := .completed
        nextDate := none
        attempts := job.attempts + job.blocksLeft } ∈ s'.jobs ∧
      ∀ m d, balanceOn s'.balances m d =
        recomputedOn s.balances job.merchantID next job.throughDate m d := by
  -- induction on the blocks; the job and its next day change from one to the next
  induction envs generalizing s job next with
  | nil =>
    have hBlocks := blocksLeft_advanceJob h
    rw [← hLength] at hBlocks
    exact absurd hBlocks (Nat.succ_ne_zero _)
  | cons env envs ih =>
    have hBlocks := blocksLeft_advanceJob h
    have hThrough := blockThrough_le job next
    obtain ⟨s₁, hStep, hDone⟩ := exists_advanceBlock (hEnvs env List.mem_cons_self) h (by omega)
      (hFit.mono hThrough) (hVersions.mono hThrough)
    rw [advanceBlocks, List.foldlM_cons, hStep]
    show ∃ s', advanceBlocks job.id s₁ envs = .ok s' ∧ _
    by_cases hMore : (job.continuation next).blockThrough < job.throughDate
    · -- the next block starts where this one has ended
      have hAppend := recomputedOn_append hDone.balanceOn h.next_le_blockThrough hThrough
      have hJob := advanceJob_more (n := 1) hMore
      -- one block and one attempt fewer
      have hLater := hDone.jobAt h hMore
      rw [hJob] at hLater hBlocks
      obtain ⟨s', hRun, hMem, hOn⟩ := ih (fun e he => hEnvs e (List.mem_cons_of_mem _ he)) s₁ hLater
        (by rw [List.length_cons] at hLength; omega)
        (by show job.attempts + 1 + _ ≤ _; omega)
        (ClosingsFit.append hDone.balanceOn h.next_le_blockThrough hFit)
        (VersionsFit.append hDone.balanceOn h.next_le_blockThrough hVersions)
      refine ⟨s', hRun, ?_, fun m d => (hOn m d).trans (hAppend m d)⟩
      rw [← hBlocks]
      convert hMem using 2
      push_cast
      omega
    · -- this block is the last one
      have hJob := hDone.mem h
      rw [advanceJob_last hMore] at hJob hBlocks
      have hNone : job.blocksLeft = 1 := hBlocks.symm
      have hEnd : (job.continuation next).blockThrough = job.throughDate := by omega
      have hNil : envs = [] := List.length_eq_zero_iff.mp (by
        rw [List.length_cons] at hLength
        omega)
      subst hNil
      refine ⟨s₁, rfl, ?_, fun m d => ?_⟩
      · rw [hNone]
        exact hJob
      · rw [hDone.balanceOn, hEnd]

/-! ## Draining a merchant's jobs -/

/-- The tables after `n` calls of `ResumeNext`, each in a transaction of its own. -/
def resumed (env : Nat → Env) (merchantID : Text) (s : Store) : Nat → Store
  | 0 => s
  | n + 1 => (resumeNext (env n) (resumed env merchantID s n) merchantID).2

/-- The blocks all the merchant's pending jobs still have to go. -/
def blocksLeft (s : Store) (m : Text) : Nat :=
  (s.jobs.rows.map fun j => if j.merchantID = m then j.blocksLeft else 0).sum

/-- Every pending job of the merchant has a next date, and room in its `attempts`
column for the blocks it has to go. -/
def Resumable (s : Store) (m : Text) : Prop :=
  ∀ j ∈ s.jobs, j.merchantID = m → j.status = .pending →
    j.nextDate.isSome = true ∧ j.attempts + j.blocksLeft ≤ maxAttempts

/-- The closing balances and versions of the block that `ResumeNext` would recompute
fit. -/
def NextFits (s : Store) (m : Text) : Prop :=
  ∀ job ∈ nextJob s m, ∀ next ∈ job.nextDate,
    ClosingsFit s.balances m next (job.continuation next).blockThrough ∧
      VersionsFit s.balances m next (job.continuation next).blockThrough

instance (s : Store) (m : Text) : Decidable (Resumable s m) :=
  inferInstanceAs (Decidable (∀ j ∈ s.jobs.rows, j.merchantID = m → j.status = .pending →
    j.nextDate.isSome = true ∧ j.attempts + j.blocksLeft ≤ maxAttempts))

instance (s : Store) (m : Text) : Decidable (NextFits s m) :=
  inferInstanceAs (Decidable (∀ job ∈ nextJob s m, ∀ next ∈ job.nextDate,
    ClosingsFit s.balances m next (job.continuation next).blockThrough ∧
      VersionsFit s.balances m next (job.continuation next).blockThrough))

section Drain

variable {job : RecomputeJob} {next : Int}

/-- A block takes one from the blocks that are left. -/
theorem blocksLeft_block (h : JobAt s job next) (hKey : job.merchantID = m)
    (hDone : BlockDone (job.continuation next) 1 s s') : blocksLeft s' m + 1 = blocksLeft s m := by
  obtain ⟨before, after, hRows, hOthers⟩ := Table.exists_split h.mem
  have hSame : ∀ l : List RecomputeJob, (∀ j ∈ l, j ∈ before ++ after) →
      l.map (advanceJob (job.continuation next) 1) = l := by
    intro l hl
    refine (List.map_congr_left fun j hj => advanceJob_other ?_).trans (List.map_id l)
    intro hId
    exact absurd (hOthers j (hl j hj)) (by simp [jobSchema, hId, RecomputeJob.continuation])
  have hBlocks := blocksLeft_advanceJob h
  have hMerchant := (advanceJob_key (job.continuation next) 1 job).1
  rw [blocksLeft, hDone.jobs, hRows, List.map_append, List.map_cons,
    hSame before fun j hj => List.mem_append_left _ hj,
    hSame after fun j hj => List.mem_append_right _ hj, blocksLeft, hRows]
  simp only [List.map_append, List.map_cons, List.sum_append, List.sum_cons, hMerchant, hKey,
    if_true]
  omega

/-- A block leaves the merchant's jobs resumable. -/
theorem Resumable.block (hInv : Resumable s m) (h : JobAt s job next) (hKey : job.merchantID = m)
    (hDone : BlockDone (job.continuation next) 1 s s') : Resumable s' m := by
  intro j' hj' hMerchant hStatus
  rw [Table.mem_def, hDone.jobs] at hj'
  obtain ⟨j, hj, rfl⟩ := List.mem_map.mp hj'
  by_cases hId : j.id = job.id
  · rw [Table.eq_of_clash hj h.mem (beq_iff_eq.mpr hId)] at hStatus ⊢
    obtain ⟨-, hRoom⟩ := hInv job h.mem hKey h.status
    have hBlocks := blocksLeft_advanceJob h
    by_cases hMore : (job.continuation next).blockThrough < job.throughDate
    · rw [advanceJob_more hMore] at hBlocks ⊢
      refine ⟨rfl, ?_⟩
      show job.attempts + 1 + _ ≤ _
      omega
    · rw [advanceJob_last hMore] at hStatus
      cases hStatus
  · rw [advanceJob_other hId] at hMerchant hStatus ⊢
    exact hInv j hj hMerchant hStatus

end Drain

variable {merchantID : Text}

/-- What a call of `ResumeNext` does to the merchant's jobs: it advances one of
them by a block, or leaves the tables alone. -/
theorem resumeNext_cases (hUuid : uuidIn (lower merchantID) = some m) :
    (resumeNext env s merchantID).2 = s ∨
      ∃ job next, JobAt s job next ∧ job.merchantID = m ∧
        BlockDone (job.continuation next) 1 s (resumeNext env s merchantID).2 := by
  rcases commit_snd env s _ (resumeNextTx env s merchantID) with h | ⟨r, s', hTx, h⟩
  · exact .inl h
  · rw [resumeNext, h]
    simp only [resumeNextTx, hUuid, peel, attempt_ok] at hTx
    obtain ⟨_, _, _, _, _, _, hTx⟩ := hTx
    split at hTx
    · cases hTx
      exact .inl rfl
    · rename_i job hJob
      obtain ⟨hMem, hKey, hStatus⟩ := nextJob_mem hJob
      split at hTx
      · cases hTx
      · rename_i next hNext
        exact .inr ⟨job, next, ⟨hMem, hStatus, hNext⟩, hKey, processRecomputeBlock_ok hTx⟩

/-- A call that nothing disturbs recomputes a block if a job is pending. -/
theorem resumeNext_healthy (hEnv : env.Healthy) (hUuid : uuidIn (lower merchantID) = some m)
    (hInv : Resumable s m) (hFits : NextFits s m) :
    (nextJob s m = none ∧ (resumeNext env s merchantID).1 = .ok {}) ∨
      blocksLeft (resumeNext env s merchantID).2 m + 1 = blocksLeft s m := by
  cases hJob : nextJob s m with
  | none =>
    left
    refine ⟨rfl, ?_⟩
    have hTx : resumeNextTx env s merchantID = .ok ({}, s) := by
      rw [resumeNextTx]
      simp only [hEnv.attempt, hUuid, hJob]
      rfl
    rw [resumeNext, hTx, commit, hEnv.commit]
  | some job =>
    -- the oldest pending job is resumed where it stands, for one block
    right
    obtain ⟨hMem, hKey, hStatus⟩ := nextJob_mem hJob
    obtain ⟨hNext, hRoom⟩ := hInv job hMem hKey hStatus
    obtain ⟨next, hNext⟩ := Option.isSome_iff_exists.mp hNext
    have hAt : JobAt s job next := ⟨hMem, hStatus, hNext⟩
    have hBlocks := blocksLeft_advanceJob hAt
    obtain ⟨hClosings, hVersions⟩ := hFits job hJob next hNext
    rw [← hKey] at hClosings hVersions
    obtain ⟨r, s', hBlock, -⟩ := exists_processRecomputeBlock hEnv hAt (by omega) hClosings
      hVersions
    have hTx : resumeNextTx env s merchantID = .ok (r, s') := by
      rw [resumeNextTx]
      simp only [hEnv.attempt, hUuid, hJob, hNext]
      exact hBlock
    have hResult : (resumeNext env s merchantID).2 = s' := by
      rw [resumeNext, hTx, commit, hEnv.commit]
    rw [hResult]
    exact blocksLeft_block hAt hKey (processRecomputeBlock_ok hBlock)

/-- Calls that go on being undisturbed from time to time find nothing to do in
the end. -/
theorem exists_drained (env : Nat → Env) (hUuid : uuidIn (lower merchantID) = some m)
    (hEnv : ∀ n, ∃ k, n ≤ k ∧ (env k).Healthy) (hInv : Resumable s m)
    (hFits : ∀ n, NextFits (resumed env merchantID s n) m) :
    ∃ n, nextJob (resumed env merchantID s n) m = none ∧
      (resumeNext (env n) (resumed env merchantID s n) merchantID).1 = .ok {} := by
  -- no call adds a block, and each undisturbed one takes one away
  have hStep : ∀ n, Resumable (resumed env merchantID s n) m →
      Resumable (resumed env merchantID s (n + 1)) m ∧
        blocksLeft (resumed env merchantID s (n + 1)) m ≤
          blocksLeft (resumed env merchantID s n) m := by
    intro n hn
    rcases @resumeNext_cases (env n) (resumed env merchantID s n) m merchantID hUuid with
      h | ⟨job, next, hAt, hKey, hDone⟩
    · rw [resumed, h]
      exact ⟨hn, le_refl _⟩
    · have hLess := blocksLeft_block hAt hKey hDone
      refine ⟨hn.block hAt hKey hDone, ?_⟩
      rw [resumed]
      omega
  have hAll : ∀ n, Resumable (resumed env merchantID s n) m := by
    intro n
    induction n with
    | zero => exact hInv
    | succ n ih => exact (hStep n ih).1
  have hMono : ∀ n k, n ≤ k → blocksLeft (resumed env merchantID s k) m ≤
      blocksLeft (resumed env merchantID s n) m := by
    intro n k hnk
    induction k, hnk using Nat.le_induction with
    | base => exact le_refl _
    | succ k _ ih => exact ((hStep k (hAll k)).2).trans ih
  -- induction on the blocks left: the next undisturbed call takes one away, or there is none
  have hDrain : ∀ left n, blocksLeft (resumed env merchantID s n) m = left →
      ∃ k, nextJob (resumed env merchantID s k) m = none ∧
        (resumeNext (env k) (resumed env merchantID s k) merchantID).1 = .ok {} := by
    intro left
    induction left using Nat.strong_induction_on with
    | _ left ih =>
      intro n hLeft
      obtain ⟨k, hnk, hHealthy⟩ := hEnv n
      rcases resumeNext_healthy hHealthy hUuid (hAll k) (hFits k) with h | h
      · exact ⟨k, h⟩
      · have hLe := hMono n k hnk
        exact ih (blocksLeft (resumed env merchantID s (k + 1)) m) (by rw [resumed]; omega)
          (k + 1) rfl
  exact hDrain _ 0 rfl

/-- A row of the table is the one of its merchant and day. -/
theorem mem_iff_balanceOn {r : DailyBalance} :
    r ∈ t ↔ balanceOn t r.merchantID r.businessDate = some r :=
  ⟨balanceOn_of_mem, mem_of_balanceOn⟩

/-- A recompute keeps every row but its closing balance and version. -/
theorem mem_recomputed {first last : Int}
    (hOn : ∀ m' d, balanceOn u m' d = recomputedOn t m first last m' d) {r : DailyBalance}
    (hr : r ∈ t) : ∃ c, r.withClosing c ∈ u := by
  have hRow := hOn r.merchantID r.businessDate
  rw [recomputedOn] at hRow
  split_ifs at hRow with hIn
  · rw [recomputedRow, ← hIn.1, balanceOn_of_mem hr] at hRow
    exact ⟨_, mem_of_balanceOn hRow⟩
  · rw [balanceOn_of_mem hr] at hRow
    refine ⟨r.closingBalanceMinor, ?_⟩
    rw [DailyBalance.withClosing, if_pos rfl]
    exact mem_of_balanceOn hRow

/-- A pending job advanced block by block to its end leaves the rows that the
statements run once over its range leave, each closing balance running on from
the last earlier row; and the calls of `ResumeNext` come to an end. -/
theorem blocks_recompute_range :
    (∀ (envs : List Env) (s : Store) (job : RecomputeJob) (next : Int),
      (∀ env ∈ envs, env.Healthy) → JobAt s job next → envs.length = job.blocksLeft →
      job.attempts + job.blocksLeft ≤ maxAttempts →
      ClosingsFit s.balances job.merchantID next job.throughDate →
      VersionsFit s.balances job.merchantID next job.throughDate →
      ∃ s' whole, advanceBlocks job.id s envs = .ok s' ∧
        (∃ j ∈ s'.jobs, j.id = job.id ∧ j.status = .completed) ∧
        recomputeRange s.balances job.merchantID next job.throughDate = .ok whole ∧
        (∀ r, r ∈ s'.balances ↔ r ∈ whole) ∧
        (∀ d, next ≤ d → d ≤ job.throughDate → ∃ r ∈ s'.balances, r.merchantID = job.merchantID ∧
          r.businessDate = d ∧
          r.closingBalanceMinor = runningClosing s.balances job.merchantID next d) ∧
        (∀ r ∈ s.balances, ∃ c, r.withClosing c ∈ s'.balances) ∧
        ∀ r, ¬ (r.merchantID = job.merchantID ∧ next ≤ r.businessDate ∧
          r.businessDate ≤ job.throughDate) → (r ∈ s'.balances ↔ r ∈ s.balances)) ∧
    ∀ (env : Nat → Env) (s : Store) (merchantID m : Text),
      uuidIn (lower merchantID) = some m → (∀ n, ∃ k, n ≤ k ∧ (env k).Healthy) →
      Resumable s m → (∀ n, NextFits (resumed env merchantID s n) m) →
      ∃ n, (resumeNext (env n) (resumed env merchantID s n) merchantID).1 = .ok {} := by
  refine ⟨?_, ?_⟩
  · intro envs s job next hEnvs hAt hLength hRoom hFit hVersions
    obtain ⟨s', hRun, hJob, hOn⟩ :=
      advanceBlocks_recomputed envs hEnvs s hAt hLength hRoom hFit hVersions
    obtain ⟨whole, hWhole, hWholeOn⟩ := exists_recomputeRange hFit hVersions
    refine ⟨s', whole, hRun, ⟨_, hJob, rfl, rfl⟩, hWhole, ?_, ?_, ?_, ?_⟩
    · intro r
      -- both tables have, day for day, the row that one pass computes
      rw [mem_iff_balanceOn, hOn, ← hWholeOn, ← mem_iff_balanceOn]
    · intro d hFirst hLast
      have hRow := hOn job.merchantID d
      rw [recomputedOn, if_pos ⟨rfl, hFirst, hLast⟩] at hRow
      obtain ⟨hKey, hDate⟩ := balanceOn_key hRow
      exact ⟨_, mem_of_balanceOn hRow, hKey, hDate, withClosing_closingBalanceMinor _ _⟩
    · exact fun r hr => mem_recomputed hOn hr
    · intro r hOut
      rw [mem_iff_balanceOn, hOn, recomputedOn, if_neg hOut, ← mem_iff_balanceOn]
  · intro env s merchantID m hUuid hEnv hInv hFits
    obtain ⟨n, -, hIdle⟩ := exists_drained env hUuid hEnv hInv hFits
    exact ⟨n, hIdle⟩

/-- A job that has two blocks to go. -/
def behindJob : RecomputeJob :=
  ⟨2, sampleID '2', sampleID 'a', -32, 0, some (-32), .pending, 1⟩

/-- An entry, and one back-dated by 32 days whose days are still to be recomputed. -/
def behindStore : Store :=
  { Store.empty with
    balances := ⟨[⟨sampleID 'a', 0, 100, 0, 100, 1, 100, 1⟩,
      ⟨sampleID 'a', -32, 100, 0, 100, 1, 100, 1⟩], by decide, by decide⟩
    jobs := ⟨[behindJob], by decide, by decide⟩ }

/-- After two blocks the sample is drained, and stays as it is. -/
theorem resumed_behind (n : Nat) :
    resumed (fun _ => steady 3) (sampleID 'a') behindStore (n + 2) =
      resumed (fun _ => steady 3) (sampleID 'a') behindStore 2 := by
  induction n with
  | zero => rfl
  | succ n ih =>
    rw [resumed, ih]
    decide +kernel

/-- The blocks that are left are recomputed, and then nothing is left to do. -/
theorem blocks_recompute_range_behind :
    (∃ s' whole, advanceBlocks 2 behindStore [steady 3, steady 4] = .ok s' ∧
      recomputeRange behindStore.balances (sampleID 'a') (-32) 0 = .ok whole ∧
      ∀ r, r ∈ s'.balances ↔ r ∈ whole) ∧
    ∃ n, (resumeNext (steady 3) (resumed (fun _ => steady 3) (sampleID 'a') behindStore n)
      (sampleID 'a')).1 = .ok {} := by
  have hEnvs : ∀ env ∈ [steady 3, steady 4], env.Healthy := by
    intro env hEnv
    simp only [List.mem_cons, List.not_mem_nil, or_false] at hEnv
    rcases hEnv with rfl | rfl
    · exact steady_healthy 3
    · exact steady_healthy 4
  constructor
  · obtain ⟨s', whole, hRun, -, hWhole, hSame, -⟩ := blocks_recompute_range.1 [steady 3, steady 4]
      behindStore behindJob (-32) hEnvs ⟨by decide, rfl, rfl⟩ (by decide) (by decide)
      (by decide +kernel) (by decide +kernel)
    exact ⟨s', whole, hRun, hWhole, hSame⟩
  · refine blocks_recompute_range.2 (fun _ => steady 3) behindStore (sampleID 'a') (sampleID 'a')
      (by decide) (fun n => ⟨n, le_refl n, steady_healthy 3⟩) (by decide) ?_
    intro n
    -- two calls finish the job, and from then on nothing changes
    rcases n with - | - | n
    · decide +kernel
    · decide +kernel
    · rw [resumed_behind]
      decide +kernel

/-! ### What keeps a job pending for ever -/

/-- Every further call of `ResumeNext` fails, though nothing disturbs it. -/
def Stuck (s : Store) (merchantID : Text) (e : StoreError) : Prop :=
  ∀ n, (resumeNext (steady 3) (resumed (fun _ => steady 3) merchantID s n) merchantID).1 = .error e

/-- A call that fails leaves the next one the same tables. -/
theorem stuck_of_failed {e : StoreError}
    (h : resumeNext (steady 3) s merchantID = (.error e, s)) : Stuck s merchantID e := by
  have hSame : ∀ n, resumed (fun _ => steady 3) merchantID s n = s := by
    intro n
    induction n with
    | zero => rfl
    | succ n ih => rw [resumed, ih, h]
  intro n
  rw [hSame, h]

/-- The tables of a job with these rows of its merchant. -/
def jobStore (job : RecomputeJob) (rows : List DailyBalance)
    (hJob : jobSchema.check job = true) (hRows : ∀ r ∈ rows, balanceSchema.check r = true)
    (hUnique : rows.Pairwise fun a b => balanceSchema.clash a b = false) : Store :=
  { Store.empty with
    balances := ⟨rows, hRows, hUnique⟩
    jobs := ⟨[job], by simpa using hJob, List.pairwise_singleton _ _⟩ }

/-- The `attempts` column of the job is full. -/
def exhaustedStore : Store :=
  jobStore { behindJob with attempts := maxAttempts } behindStore.balances.rows
    (by decide) (by decide) (by decide)

/-- The `version` column of a row with a closing balance to be rewritten is full. -/
def versionStore : Store :=
  jobStore behindJob [⟨sampleID 'a', -32, 100, 0, 100, 1, 0, 9223372036854775807⟩]
    (by decide) (by decide) (by decide)

/-- The job has no date to go on from: its `CHECK` is NULL then, and passes. -/
def datelessStore : Store :=
  jobStore { behindJob with nextDate := none } [] (by decide) (by decide) (by decide)

/-- The net amounts of two days leave the range of a closing balance. -/
def overflowStore : Store :=
  jobStore behindJob
    [⟨sampleID 'a', -32, 9223372036854775807, 0, 9223372036854775807, 1, 0, 1⟩,
      ⟨sampleID 'a', -31, 100, 0, 100, 1, 100, 1⟩] (by decide) (by decide) (by decide)

/-- A full `attempts` column and a full `version` column each stop a job whose
closing balances fit, and then `ResumeNext` fails for ever; so it does on a job
without a next date, and where a closing balance leaves its range. -/
theorem blocks_stuck :
    (JobAt exhaustedStore { behindJob with attempts := maxAttempts } (-32) ∧
      ClosingsFit exhaustedStore.balances (sampleID 'a') (-32) 0 ∧
      VersionsFit exhaustedStore.balances (sampleID 'a') (-32) 0 ∧
      advanceBlocks 2 exhaustedStore [steady 3] =
        .error (.conflict "advance recompute continuation violates a financial invariant") ∧
      Stuck exhaustedStore (sampleID 'a')
        (.conflict "advance recompute continuation violates a financial invariant")) ∧
    (JobAt versionStore behindJob (-32) ∧ ClosingsFit versionStore.balances (sampleID 'a') (-32) 0 ∧
      advanceBlocks 2 versionStore [steady 3] =
        .error (.conflict "recompute closing balance block violates a financial invariant") ∧
      Stuck versionStore (sampleID 'a')
        (.conflict "recompute closing balance block violates a financial invariant")) ∧
    Stuck datelessStore (sampleID 'a') (.persistence "select recompute continuation") ∧
    Stuck overflowStore (sampleID 'a')
      (.conflict "recompute closing balance block violates a financial invariant") := by
  refine ⟨⟨⟨by decide, rfl, rfl⟩, by decide +kernel, by decide +kernel, by decide +kernel, ?_⟩,
    ⟨⟨by decide, rfl, rfl⟩, by decide +kernel, by decide +kernel, ?_⟩, ?_, ?_⟩
  · exact stuck_of_failed (by decide +kernel)
  · exact stuck_of_failed (by decide +kernel)
  · exact stuck_of_failed (by decide +kernel)
  · exact stuck_of_failed (by decide +kernel)

end Cashflow.Consolidation
