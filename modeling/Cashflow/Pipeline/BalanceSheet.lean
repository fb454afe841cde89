import Cashflow.Pipeline.Refinement

/-!
# Pipeline — what a definitive answer says about the ledger

A projection that has caught up shows, for every day, the sums of the ledger's own
entries: those of the day, and those up to it.

* `Projected.netEvents` — the stored events of a faithful projection net to the
  ledger's entries;
* `caught_up` — behind a definitive answer every entry of the ledger is projected;
* `definitive_answer_shows_ledger` — so it shows the ledger's totals and balances,
  whatever the pipeline went through.
-/

namespace Cashflow.Reconciliation

open Lib Consolidation Pipeline

/-! ## Net amounts -/

def lineNet (line : Line) : Int := lineCredit line - lineDebit line

theorem lineNet_entryLine (e : Ledger.EntryRow) : lineNet (entryLine e) = e.signed := by
  rw [lineNet, (lineCredit_entryLine e).1, (lineCredit_entryLine e).2]
  unfold Ledger.EntryRow.signed rowCredit rowDebit
  cases e.entryType with
  | credit => simp
  | debit => simp

theorem lineNet_eventLine (event : EntryConfirmed) :
    lineNet (eventLine event) = event.financialEffect.netMinor := by
  rw [lineNet, (lineCredit_eventLine event).1, (lineCredit_eventLine event).2]
  unfold EntryConfirmed.financialEffect
  split <;> simp

variable {d : Ledger.Db} {s : Store} {m : Ledger.UUID} {n : Nat}

/-- The merchant's stored events dated up to a day are the ledger's entries dated up
to it. -/
theorem Projected.lines_through (h : Projected d s m n) (date : Int) :
    ((s.inbox.rows.filter fun r => r.event.merchantID == m.text &&
        decide (r.event.businessDate ≤ date)).map fun r => eventLine r.event).Perm
      (((entriesAtCut d m n).filter fun e => decide (e.businessDate ≤ date)).map entryLine) := by
  -- a merchant has one event for each position
  have hEvents : ((s.inbox.rows.filter fun r => r.event.merchantID == m.text &&
      decide (r.event.businessDate ≤ date)).map fun r => eventLine r.event).Nodup := by
    rw [List.Nodup, List.pairwise_map]
    refine List.Pairwise.imp_of_mem ?_ (s.inbox.unique.filter _)
    intro a b ha hb hClash hLine
    have ha' := (List.mem_filter.mp ha).2
    have hb' := (List.mem_filter.mp hb).2
    simp only [Bool.and_eq_true, beq_iff_eq] at ha' hb'
    have hPosition : a.event.merchantPosition = b.event.merchantPosition :=
      congrArg (fun line : Line => line.2.1) hLine
    simp [inboxSchema, ha'.1, hb'.1, hPosition] at hClash
  -- and entries have identifiers of their own
  have hEntries : (((entriesAtCut d m n).filter fun e =>
      decide (e.businessDate ≤ date)).map entryLine).Nodup := by
    rw [List.Nodup, List.pairwise_map]
    refine ((d.entries.unique.filter _).filter _).imp fun {a b} hClash hLine => ?_
    have hID : a.id = b.id := Ledger.UUID.ext (congrArg (fun line : Line => line.1) hLine)
    simp [Ledger.entrySchema, hID] at hClash
  -- two lists without repetitions are compared by their members
  refine (List.perm_ext_iff_of_nodup hEvents hEntries).mpr fun line => ?_
  simp only [entriesAtCut, List.mem_map, List.mem_filter, Bool.and_eq_true, beq_iff_eq,
    decide_eq_true_eq]
  constructor
  · rintro ⟨r, ⟨hr, hMerchant, hDate⟩, rfl⟩
    obtain ⟨e, he, hm, hn, hID, -, hPosition, hType, hAmount, hDay⟩ := h.only r hr hMerchant
    refine ⟨e, ⟨⟨he, hm, hn⟩, hDay ▸ hDate⟩, ?_⟩
    rw [entryLine, eventLine, hID, hPosition, hType, hAmount]
  · rintro ⟨e, ⟨⟨he, hm, hPos⟩, hDate⟩, rfl⟩
    obtain ⟨r, hr, hID, hMerchant, hPosition, hType, hAmount, hDay⟩ := h.complete e he hm hPos
    refine ⟨r, ⟨hr, hMerchant.trans (congrArg _ hm), hDay.symm ▸ hDate⟩, ?_⟩
    rw [entryLine, eventLine, hID, hPosition, hType, hAmount]

/-- So their sums agree. -/
theorem Projected.netEvents (h : Projected d s m n) (date : Int) :
    Consolidation.netEvents m.text date s.events =
      Ledger.signedSum ((entriesAtCut d m n).filter fun e => decide (e.businessDate ≤ date)) := by
  have hSum := ((h.lines_through date).map lineNet).sum_eq
  rw [List.map_map, List.map_map, show lineNet ∘ entryLine = Ledger.EntryRow.signed from
    funext lineNet_entryLine] at hSum
  rw [Ledger.signedSum, ← hSum, Consolidation.netEvents, Store.events, List.filter_map,
    List.map_map]
  refine congrArg List.sum (List.map_congr_left fun r _ => ?_)
  exact (lineNet_eventLine r.event).symm

end Cashflow.Reconciliation

namespace Cashflow.Pipeline

open Lib Consolidation
open Reconciliation (Projected entriesAtCut)

/-! ## A projection that has caught up -/

variable {platform : Ledger.Platform} {s : Services} {m : Ledger.UUID} {merchantID : Text}

/-- The watermark is the merchant's last position. -/
theorem readWatermark_ok {d : Ledger.Db} (hUuid : uuidIn merchantID = some m.text) {fails : Bool}
    {position : UInt64} {observedAt : Int}
    (h : readWatermark fails d merchantID = .ok (position, observedAt)) :
    (position.toNat : Int) = (d.lastPosition m).toInt := by
  -- the row is looked up by the text of the merchant
  have hSame : (d.positions.find? fun r => r.merchantID.text == m.text) = d.position? m := by
    rw [Ledger.Db.position?]
    congr 1
    funext r
    rw [Bool.eq_iff_iff, beq_iff_eq, decide_eq_true_eq]
    exact ⟨Ledger.UUID.ext, congrArg _⟩
  unfold readWatermark at h
  split_ifs at h
  simp only [hUuid, hSame] at h
  have hNonneg := Ledger.lastPosition_nonneg d m
  have hBound := (d.lastPosition m).toInt_lt
  rw [Ledger.Db.lastPosition] at hNonneg hBound ⊢
  cases hRow : d.position? m with
  | none =>
    -- no row: the merchant has posted nothing
    rw [hRow] at h
    cases h
    rfl
  | some row =>
    rw [hRow] at h hNonneg hBound
    cases h
    have hNonneg' : 0 ≤ row.lastPosition.toInt := hNonneg
    have hBound' : row.lastPosition.toInt < 9223372036854775808 := hBound
    rw [toNat_ofInt hNonneg' (by omega)]
    exact Int.toNat_of_nonneg hNonneg'

section Answer

variable {env : QueryEnv} {fails : Bool} {fromDate throughDate : Int} {answer : List DayAnswer}
  {a : DayAnswer}

/-- Behind a definitive answer nothing is pending, and the projected entries are all the
ledger has of the merchant. -/
theorem caught_up (hSound : s.Sound platform) (hUuid : uuidIn merchantID = some m.text)
    (hAnswer : s.store.query env (readWatermark fails s.ledger merchantID) merchantID fromDate
      throughDate = .ok answer) (ha : a ∈ answer) (hDefinitive : a.definitive = true) :
    hasPendingJob s.store m.text = false ∧
      (a.appliedPosition.toNat : Int) = (s.ledger.lastPosition m).toInt ∧
      Projected s.ledger s.store m a.appliedPosition.toNat := by
  obtain ⟨balances, pending, v, -, hPending, hJudge, rfl⟩ := getDailyBalances_ok hAnswer
  obtain ⟨date, -, rfl⟩ := List.mem_map.mp ha
  obtain ⟨hNone, hGap, hApplied, position, observedAt, hWatermark, hLe⟩ :=
    judge_definitive hJudge hDefinitive
  have hBooked := Ledger.reached_booked hSound.ledger
  refine ⟨?_, ?_⟩
  · have hRead : s.store.hasPendingRecompute env merchantID = .ok pending := hPending
    unfold Store.hasPendingRecompute at hRead
    split_ifs at hRead
    rw [hUuid] at hRead
    rw [← hNone]
    exact Except.ok.inj hRead
  have hLast := readWatermark_ok hUuid hWatermark
  set progress := (s.store.readMerchantProgress env merchantID).toOption.getD zeroProgress
    with hProgress
  have hGap : progress.hasGap = false := hGap
  have hLe : position.toNat ≤ (UInt64.ofInt progress.appliedPosition).toNat :=
    UInt64.le_iff_toNat_le.mp hLe
  have hApplied : v.appliedPosition = UInt64.ofInt progress.appliedPosition := hApplied
  show (v.appliedPosition.toNat : Int) = _ ∧ Projected _ _ _ v.appliedPosition.toNat
  rcases @readMerchantProgress_getD m merchantID s.store env hUuid with
    hZero | ⟨p, hp, hKey, hRead⟩
  · -- nothing was ever received, and the ledger has posted nothing
    rw [← hProgress] at hZero
    rw [hApplied, hZero]
    rw [hZero] at hLe
    have hNothing : position.toNat = 0 := Nat.le_zero.mp hLe
    rw [hNothing] at hLast
    have hEntries : ∀ e ∈ s.ledger.entries, e.merchantID ≠ m := by
      intro e he hMerchant
      have hRange := (hBooked.positions m _).mp ⟨e, he, hMerchant, rfl⟩
      omega
    refine ⟨hLast, fun q hOne hLe => ?_, fun e he hMerchant => absurd hMerchant (hEntries e he), ?_⟩
    · have hZero : (UInt64.ofInt zeroProgress.appliedPosition).toNat = 0 := rfl
      omega
    · intro r hr hMerchant
      obtain ⟨e, he, hMirrors⟩ := hSound.mirrored r hr
      exact absurd (Ledger.UUID.ext (hMirrors.2.1.symm.trans hMerchant)) (hEntries e he)
  · rw [← hProgress] at hRead
    rw [hRead] at hGap hLe
    obtain ⟨hNonneg, hFits, hProjected⟩ := projected_when_settled hSound
      ⟨.start, [], (List.append_nil _).symm⟩ hSound.ledger hp hKey hGap
    rw [hApplied, hRead, toNat_ofInt hNonneg hFits]
    rw [toNat_ofInt hNonneg hFits] at hLe
    refine ⟨?_, hProjected⟩
    -- the last projected position is one of the ledger's
    have hUpper : (p.appliedPosition.toNat : Int) ≤ (s.ledger.lastPosition m).toInt := by
      rcases Nat.eq_zero_or_pos p.appliedPosition.toNat with h | h
      · rw [h]
        exact Ledger.lastPosition_nonneg s.ledger m
      · obtain ⟨e, he, hMerchant, hPosition⟩ := hProjected.positions _ h le_rfl
        exact ((hBooked.positions m _).mp ⟨e, he, hMerchant, hPosition⟩).2
    omega

/-- All entries of the merchant are at or below its last position. -/
theorem entriesAtCut_last {d : Ledger.Db} (hBooked : Ledger.Booked d) {n : Nat}
    (hLast : (n : Int) = (d.lastPosition m).toInt) : entriesAtCut d m n = d.entriesOf m := by
  refine List.filter_congr fun e he => ?_
  by_cases hMerchant : e.merchantID = m
  · have hRange := (hBooked.positions m _).mp ⟨e, he, hMerchant, rfl⟩
    have hLe : e.position.toInt ≤ n := by omega
    simp [hMerchant, hLe]
  · simp [hMerchant]

end Answer

/-- What the ledger says of a merchant's day: the totals of the day's entries, and what
all entries dated up to the day come to. -/
structure ShowsLedger (data : DailyBalanceData) (d : Ledger.Db) (m : Ledger.UUID) (date : Int) :
    Prop where
  totals : ShowsTotals data d m date (d.lastPosition m).toInt.toNat
  closing : data.closingBalance = Json.intLiteral (Ledger.signedSum
    ((d.entriesOf m).filter fun e => decide (e.businessDate ≤ date)))

/-- The state of publication does not show in it. -/
theorem SameBooks.showsLedger {d d₀ : Ledger.Db} (h : SameBooks d d₀) {data : DailyBalanceData}
    {date : Int} (hShows : ShowsLedger data d₀ m date) : ShowsLedger data d m date := by
  obtain ⟨positions, entries, idempotency, outbox⟩ := d
  obtain ⟨positions₀, entries₀, idempotency₀, outbox₀⟩ := d₀
  obtain ⟨rfl, rfl, rfl, -⟩ := h
  obtain ⟨⟨hCredits, hDebits, hNet, hCount⟩, hClosing⟩ := hShows
  exact ⟨⟨hCredits, hDebits, hNet, hCount⟩, hClosing⟩

theorem SameBooks.balance {d d₀ : Ledger.Db} (h : SameBooks d d₀) (hPaired : Ledger.Paired d₀) :
    Ledger.signedSum (d.entriesOf m) = Ledger.signedSum ((d.entriesOf m).filter d.stands) := by
  obtain ⟨positions, entries, idempotency, outbox⟩ := d
  obtain ⟨positions₀, entries₀, idempotency₀, outbox₀⟩ := d₀
  obtain ⟨rfl, rfl, rfl, -⟩ := h
  exact hPaired.balance m

/-- The calls behind a run of commits, which have met the guard. -/
theorem CommitIf.calls {guard : Store → Consolidation.Call → Prop}
    (h : Reachable (CommitIf guard platform) .start s) :
    ∃ calls, s.store = Store.after calls ∧ Along Store.exec guard Store.empty calls := by
  induction h with
  | start => exact ⟨[], rfl, trivial⟩
  | next _ hCommit ih =>
    obtain ⟨calls, hStore, hAlong⟩ := ih
    cases hCommit with
    | post hPosted => exact ⟨calls, hStore, hAlong⟩
    | call c hFrom hGuard =>
      rw [hStore] at hGuard
      refine ⟨calls ++ [c], ?_, along_append.mpr ⟨hAlong, hGuard, trivial⟩⟩
      rw [hStore, Store.after, Store.after, run_append]
      rfl

/-- After commits that date new events within every pending range, a definitive answer
shows what the ledger says. -/
theorem showsLedger_of_commits (hReach : Reachable (CommitIf WithinPending platform) .start s)
    (hUuid : uuidIn merchantID = some m.text) {env : QueryEnv} {fails : Bool}
    {fromDate throughDate : Int} {answer : List DayAnswer} {a : DayAnswer}
    (hAnswer : s.store.query env (readWatermark fails s.ledger merchantID) merchantID fromDate
      throughDate = .ok answer) (ha : a ∈ answer) (hDefinitive : a.definitive = true) {date : Int}
    (hDate : a.businessDate = formatDate date) {data : DailyBalanceData}
    (hData : a.data = some data) : ShowsLedger data s.ledger m date := by
  -- the projection of a state that commits reach mirrors the ledger
  have hSound := (sound_reachable sound_start (CommitIf.reachable hReach)).1
  obtain ⟨calls, hStore, hWithin⟩ := CommitIf.calls hReach
  obtain ⟨hPending, hLast, hProjected⟩ := caught_up hSound hUuid hAnswer ha hDefinitive
  have hBooked := Ledger.reached_booked hSound.ledger
  -- the day is one of the rows read
  obtain ⟨balances, pending, v, hBalances, -, -, rfl⟩ := getDailyBalances_ok hAnswer
  obtain ⟨date', hDay, rfl⟩ := List.mem_map.mp ha
  cases formatDate_injective hDate
  obtain ⟨r, hRow, rfl⟩ := Option.map_eq_some_iff.mp hData
  have hOn := (rowOn_eq hUuid hBalances hDay).symm.trans hRow
  have hLast : (v.appliedPosition.toNat : Int) = (s.ledger.lastPosition m).toInt := hLast
  have hProjected : Projected s.ledger s.store m v.appliedPosition.toNat := hProjected
  rw [hStore] at hOn hPending hProjected
  constructor
  · -- what the row counts
    have hPosition : (s.ledger.lastPosition m).toInt.toNat = v.appliedPosition.toNat := by
      rw [← hLast]
      rfl
    rw [hPosition]
    exact (showsTotals_iff (List.append_nil _).symm hProjected hOn).mpr fun row hr _ _ => hr
  · -- and its closing balance
    have hShown := shown_eq_totals calls hWithin hPending hOn
    have hClosing : Json.intLiteral r.closingBalanceMinor =
        Json.intLiteral (netEvents m.text date (Store.after calls).events) :=
      congrArg (fun t : Text × Text × Text × UInt64 × Text => t.2.2.2.2) hShown
    rw [hProjected.netEvents, entriesAtCut_last hBooked hLast] at hClosing
    exact hClosing

namespace Delivery

/-- The event that a happening applies is dated within every pending range of its
merchant. -/
def DatedWithin (config : Config) (w : World) (happening : Happening) : Prop :=
  ∀ c ∈ calls config w happening, WithinPending w.projection.store c

instance (config : Config) (w : World) (happening : Happening) :
    Decidable (DatedWithin config w happening) :=
  inferInstanceAs (Decidable (∀ c ∈ calls config w happening, _))

/-- After every run of the pipeline whose events are dated within every pending range,
a day of a definitive answer shows what the ledger says of it at that moment, up to its
last entry. If no entry is dated later, the closing balance is what the entries come to
that stand, neither reversals nor reversed. -/
theorem definitive_answer_shows_ledger (config : Config) (happenings : List Happening)
    (hWithin : Along (World.exec config) (DatedWithin config) World.start happenings)
    (env : QueryEnv) (fails : Bool) (merchantID : Text) (m : Ledger.UUID)
    (hUuid : uuidIn merchantID = some m.text) (fromDate throughDate : Int)
    (answer : List DayAnswer) :
    let w := run (World.exec config) World.start happenings
    w.projection.store.query env (readWatermark fails w.ledger merchantID) merchantID fromDate
        throughDate = .ok answer →
      ∀ a ∈ answer, a.definitive = true → ∀ date, a.businessDate = formatDate date →
        ∀ data, a.data = some data →
          ShowsLedger data w.ledger m date ∧
          ((∀ e ∈ w.ledger.entriesOf m, e.businessDate ≤ date) →
            data.closingBalance = Json.intLiteral (Ledger.signedSum
              ((w.ledger.entriesOf m).filter w.ledger.stands))) := by
  intro w hAnswer a ha hDefinitive date hDate data hData
  obtain ⟨s, hReach, hBooks, hStore⟩ := World.refines_run config WithinPending happenings hWithin
  have hWatermark : readWatermark fails w.ledger merchantID =
      readWatermark fails s.ledger merchantID := by
    unfold readWatermark
    rw [hBooks.positions]
  rw [hWatermark, ← hStore] at hAnswer
  have hShows := hBooks.showsLedger
    (showsLedger_of_commits hReach hUuid hAnswer ha hDefinitive hDate hData)
  refine ⟨hShows, fun hEarlier => ?_⟩
  have hAll : (w.ledger.entriesOf m).filter (fun e => decide (e.businessDate ≤ date)) =
      w.ledger.entriesOf m :=
    List.filter_eq_self.mpr fun e he => decide_eq_true (hEarlier e he)
  -- reversals cancel what they take back
  have hPaired := Ledger.reached_paired
    (sound_reachable sound_start (CommitIf.reachable hReach)).1.ledger
  rw [hShows.closing, hAll, hBooks.balance hPaired]

/-! ### Two sales and a refund -/

def saleConfig : Config where
  platform := Ledger.utcPlatform
  interval := id
  schema _ := true
  consumer := ⟨fun _ => true, .sorted, 5⟩

/-- 2026-01-20T00:00:00Z -/
def january20 : Ledger.Instant := ⟨1768867200000000, by decide⟩

/-- On New Year's Day a sale dated 2 December; on 20 January another one, and the refund of the
first. -/
def saleRequests : List Happening :=
  [.request (Ledger.calmEnv Ledger.newYear 0)
      (Ledger.saleOf "sale-1".toList 1500 (some "2025-12-02".toList) []),
    .request (Ledger.calmEnv january20 16) Ledger.secondSale,
    .request (Ledger.calmEnv january20 32) Ledger.refundRequest]

/-- One worker for each event claims and publishes it; the first one crashes before it learns of
the confirmation. -/
def salesPublished : List Happening :=
  ((List.range 3).flatMap fun k =>
    [.claim k "worker".toList 1000 ⟨january20.nanos, 0, []⟩ true, .send k, .route k]) ++
  [.workerCrash 0]

/-- The second sale is applied before the first, whose days are then recomputed up to it. The
refund is applied while that job is pending, and is dated on its last day. -/
def salesProcessed : List Happening :=
  [.deliver 0 1, .process 0 ⟨steady 1, false, false, false, false⟩,
    .deliver 1 0, .process 1 ⟨steady 2, false, false, false, false⟩,
    .deliver 2 0, .process 2 ⟨steady 3, false, false, false, false⟩,
    .resumeNext (steady 4) sampleMerchant.text]

def salesDelivered : List Happening := saleRequests ++ salesPublished ++ salesProcessed

def beforeRefund : World :=
  run (World.exec saleConfig) World.start (saleRequests ++ salesPublished ++ salesProcessed.take 5)

def refundDay : DailyBalanceData :=
  ⟨"2500".toList, "1500".toList, "1000".toList, 2, "2500".toList, 0⟩

/-- A job is pending when the refund is applied. Once it is done, the answer for 20 January shows
the ledger, and its closing balance is the sale that stands. -/
theorem definitive_answer_shows_ledger_refund :
    let w := run (World.exec saleConfig) World.start salesDelivered
    hasPendingJob beforeRefund.projection.store sampleMerchant.text = true ∧
      ShowsLedger refundDay w.ledger sampleMerchant 20473 ∧
      refundDay.closingBalance = Json.intLiteral (Ledger.signedSum
        ((w.ledger.entriesOf sampleMerchant).filter w.ledger.stands)) := by
  intro w
  have facts : Along (World.exec saleConfig) (DatedWithin saleConfig) World.start salesDelivered ∧
      hasPendingJob beforeRefund.projection.store sampleMerchant.text = true ∧
      w.projection.store.query {} (readWatermark false w.ledger sampleMerchant.text)
        sampleMerchant.text 20473 20473 =
          .ok [⟨formatDate 20473, 3, 3, .updated, "", true, some refundDay⟩] ∧
      ∀ e ∈ w.ledger.entriesOf sampleMerchant, e.businessDate ≤ 20473 := by
    decide +kernel
  obtain ⟨hShows, hStands⟩ := definitive_answer_shows_ledger saleConfig salesDelivered facts.1 {}
    false sampleMerchant.text sampleMerchant (by decide) 20473 20473 _ facts.2.2.1 _
    List.mem_cons_self rfl 20473 rfl refundDay rfl
  exact ⟨facts.2.1, hShows, hStands facts.2.2.2⟩

end Delivery

end Cashflow.Pipeline
