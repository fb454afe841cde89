import Cashflow.Consolidation.Progress
import Cashflow.Consolidation.Query
import Cashflow.Ledger.Pagination
import Cashflow.Reconciliation.Verdicts

/-!
# Pipeline — a query among commits

`GetDailyBalances` makes its four reads one after the other, outside a transaction,
while the ledger posts entries and the projector applies them. A definitive answer
names a position; the rows it shows were read before that position was.

* `projected_when_settled` — a progress without a gap describes the ledger up to its
  position;
* `definitive_totals_iff` — a day of a definitive answer shows the totals of the
  ledger's entries up to the answer's position exactly when no event of that day was
  stored between the first read and the second;
* `stale_row_definitive` — a sale applied between the two reads.
-/

namespace Cashflow.Pipeline

open Lib Consolidation
open Reconciliation (Projected dayEntries ledgerCredits ledgerDebits projectedTotals_eq
  isBigint_iff)

/-! ## The two services -/

/-- The ledger's database and the projection's. -/
structure Services where
  ledger : Ledger.Db
  store : Store

def Services.start : Services := ⟨Ledger.Db.empty, Store.empty⟩

/-- The event of a call says what an entry of the ledger says. -/
def FromLedger (d : Ledger.Db) : Call → Prop
  | .apply _ event => ∃ e ∈ d.entries, Mirrors e event.canonical
  | .resumeNext _ _ => True

/-- What can be committed: a posting, or a call of the projector. -/
inductive Commit (platform : Ledger.Platform) : Services → Services → Prop
  | post {w : Services} {d : Ledger.Db} (h : Ledger.Posted platform w.ledger d) :
    Commit platform w { w with ledger := d }
  | call {w : Services} (c : Call) (h : FromLedger w.ledger c) :
    Commit platform w { w with store := w.store.exec c }

variable {platform : Ledger.Platform} {w w' : Services} {m : Ledger.UUID} {merchantID : Text}

/-- What holds of the two services whatever was committed. -/
structure Services.Sound (platform : Ledger.Platform) (w : Services) : Prop where
  ledger : Ledger.Reached platform w.ledger
  store : ∃ calls, w.store = Store.after calls
  mirrored : ∀ r ∈ w.store.inbox, ∃ e ∈ w.ledger.entries, Mirrors e r.event

/-- What commits leave in place: the ledger goes on, and so does the inbox. -/
structure Services.Later (platform : Ledger.Platform) (w w' : Services) : Prop where
  ledger : Reachable (Ledger.Posted platform) w.ledger w'.ledger
  inbox : ∃ more, w'.store.inbox.rows = w.store.inbox.rows ++ more

/-- Entries stay. -/
theorem Services.Later.entries (h : w.Later platform w') {e : Ledger.EntryRow}
    (he : e ∈ w.ledger.entries) : e ∈ w'.ledger.entries := by
  obtain ⟨-, more, hRows, -⟩ := Ledger.grown h.ledger
  rw [Table.mem_def, hRows]
  exact List.mem_append_left _ he

/-- A call stores at most its own event. -/
theorem exec_inbox {s : Store} (hTracked : s.Tracked) (c : Call) :
    (s.exec c).inbox = s.inbox ∨ ∃ env event, c = .apply env event ∧
      (s.exec c).inbox.rows = s.inbox.rows ++ [InboxEvent.of event.canonical] := by
  rcases exec_cases hTracked c with h | ⟨env, event, rfl, -, h⟩ | ⟨job, next, -, h⟩
  · exact .inl (by rw [h])
  · exact .inr ⟨env, event, rfl, h.inbox⟩
  · exact .inl h.inbox

/-- A commit keeps what is known of the two databases, and loses nothing. -/
theorem sound_commit (hSound : w.Sound platform) (h : Commit platform w w') :
    w'.Sound platform ∧ w.Later platform w' := by
  obtain ⟨calls, hStore⟩ := hSound.store
  cases h with
  | post hPosted =>
    have hLater : Services.Later platform w { w with ledger := _ } :=
      ⟨Reachable.start.next hPosted, [], (List.append_nil _).symm⟩
    refine ⟨⟨hSound.ledger.next hPosted, ⟨calls, hStore⟩, fun r hr => ?_⟩, hLater⟩
    obtain ⟨e, he, hMirrors⟩ := hSound.mirrored r hr
    exact ⟨e, hLater.entries he, hMirrors⟩
  | call c hFrom =>
    have hTracked : w.store.Tracked := hStore ▸ after_tracked calls
    have hRun : w.store.exec c = Store.after (calls ++ [c]) := by
      rw [hStore, Store.after, Store.after, run_append]
      rfl
    -- a call stores its event or leaves the inbox as it is
    rcases exec_inbox hTracked c with hSame | ⟨env, event, rfl, hNew⟩
    · refine ⟨⟨hSound.ledger, ⟨_, hRun⟩, fun r hr => ?_⟩, .start, [], ?_⟩
      · exact hSound.mirrored r (by rw [← hSame]; exact hr)
      · rw [List.append_nil]
        exact congrArg Table.rows hSame
    · refine ⟨⟨hSound.ledger, ⟨_, hRun⟩, fun r hr => ?_⟩, .start, _, hNew⟩
      have hMem : r ∈ w.store.inbox.rows ++ [InboxEvent.of event.canonical] := hNew ▸ hr
      rcases List.mem_append.mp hMem with hr | hr
      · exact hSound.mirrored r hr
      · rw [List.mem_singleton.mp hr]
        exact hFrom

/-- And so do any number of them. -/
theorem sound_reachable (hSound : w.Sound platform) (h : Reachable (Commit platform) w w') :
    w'.Sound platform ∧ w.Later platform w' := by
  induction h with
  | start => exact ⟨hSound, .start, [], (List.append_nil _).symm⟩
  | next _ hCommit ih =>
    obtain ⟨hMid, hLater⟩ := ih
    obtain ⟨hNext, hStep⟩ := sound_commit hMid hCommit
    obtain ⟨more, hMore⟩ := hLater.inbox
    obtain ⟨last, hLast⟩ := hStep.inbox
    exact ⟨hNext, hLater.ledger.trans hStep.ledger, more ++ last, by
      rw [hLast, hMore, List.append_assoc]⟩

/-- At the start there is nothing. -/
theorem sound_start : Services.start.Sound platform :=
  ⟨.start, ⟨[], rfl⟩, fun r hr => absurd hr (Table.not_mem_empty r)⟩

/-! ## A progress without a gap -/

/-- The merchant's stored events up to a position without a gap are those of the
ledger's entries up to that position. -/
theorem projected_when_settled (hSound : w.Sound platform) (hLater : w.Later platform w')
    (hReached : Ledger.Reached platform w'.ledger) {p : MerchantProgress}
    (hp : p ∈ w.store.progress) (hKey : p.merchantID = m.text) (hGap : p.hasGap = false) :
    0 ≤ p.appliedPosition ∧ p.appliedPosition ≤ 9223372036854775807 ∧
      Projected w'.ledger w.store m p.appliedPosition.toNat := by
  obtain ⟨calls, hStore⟩ := hSound.store
  -- the progress row describes the receipts, which are those of the inbox
  have hDescribes : Describes (received w.store.receipts m.text) p := by
    rw [← hKey, hStore]
    exact (after_progress calls).describes p (hStore ▸ hp)
  have hLinked : w.store.Linked := hStore ▸ after_linked calls
  simp only [MerchantProgress.hasGap, Bool.or_eq_false_iff, bne_eq_false_iff_eq] at hGap
  have hEqual : p.appliedPosition = p.sourcePosition := hGap.2
  obtain ⟨hNonneg, hAll⟩ := hDescribes.applied.1
  have hCast : (p.appliedPosition.toNat : Int) = p.appliedPosition := Int.toNat_of_nonneg hNonneg
  -- the row of a position, and the entry it mirrors
  have hRow : ∀ q : Int, 1 ≤ q → q ≤ p.appliedPosition → ∃ r ∈ w.store.inbox,
      r.event.merchantPosition.toInt = q ∧ ∃ e ∈ w'.ledger.entries, e.merchantID = m ∧
        e.position.toInt = q ∧ Mirrors e r.event := by
    intro q hOne hLe
    obtain ⟨t, ht, hMerchant, rfl⟩ := received_iff.mp (hAll q hOne hLe)
    obtain ⟨r, hr, rfl⟩ := hLinked.mem.mp ht
    obtain ⟨e, he, hMirrors⟩ := hSound.mirrored r hr
    refine ⟨r, hr, rfl, e, hLater.entries he, ?_, ?_, hMirrors⟩
    · exact Ledger.UUID.ext (hMirrors.2.1.symm.trans hMerchant)
    · exact congrArg Int64.toInt hMirrors.2.2.1.symm
  -- a position is a column of the inbox, so it fits
  have hFits : p.sourcePosition ≤ 9223372036854775807 := by
    have hSource : received w.store.receipts m.text p.sourcePosition = true := hDescribes.source.1
    obtain ⟨t, -, -, hPosition⟩ := received_iff.mp hSource
    have hLt := t.position.toInt_lt
    omega
  refine ⟨hNonneg, hEqual ▸ hFits, ?_, ?_, ?_⟩
  · intro q hOne hLe
    obtain ⟨r, -, -, e, he, hMerchant, hPosition, -⟩ := hRow q (by omega) (by omega)
    exact ⟨e, he, hMerchant, hPosition⟩
  · intro e he hMerchant hLe
    have hOne := (((Ledger.reached_booked hReached).positions m _).mp ⟨e, he, hMerchant, rfl⟩).1
    obtain ⟨r, hr, -, e', he', hMerchant', hPosition, hMirrors⟩ := hRow e.position.toInt hOne
      (by omega)
    -- positions are unique in the ledger
    have hSame : e' = e := Table.eq_of_clash he' he (by
      simp [Ledger.entrySchema, hMerchant, hMerchant', Int64.toInt_inj.mp hPosition])
    exact ⟨r, hr, hSame ▸ hMirrors⟩
  · intro r hr hMerchant
    obtain ⟨e, he, hMirrors⟩ := hSound.mirrored r hr
    have hSeen : received w.store.receipts m.text r.event.merchantPosition.toInt = true :=
      received_iff.mpr ⟨r.event.receipt, hLinked.mem.mpr ⟨r, hr, rfl⟩, hMerchant, rfl⟩
    have hLe : r.event.merchantPosition.toInt ≤ p.sourcePosition := hDescribes.source.2 hSeen
    refine ⟨e, hLater.entries he, Ledger.UUID.ext (hMirrors.2.1.symm.trans hMerchant), ?_, hMirrors⟩
    rw [← hMirrors.2.2.1]
    omega

/-! ## The reads -/

/-- `InternalServer.GetMerchantWatermark` of the ledger, as the query's client sees it. -/
def readWatermark (fails : Bool) (d : Ledger.Db) (merchantID : Text) :
    Except QueryError (UInt64 × Int) :=
  if fails then .error .watermark
  else
    match uuidIn merchantID with
    | none => .error .watermark
    | some text =>
      match d.positions.find? fun r => r.merchantID.text == text with
      | none => .ok (0, zeroTime)
      | some row => .ok (UInt64.ofInt row.lastPosition.toInt, row.updatedAt)

/-- A query whose four reads see the services at four moments. -/
def queryAmong (env : QueryEnv) (watermarkFails : Bool) (w₁ w₂ w₃ w₄ : Services) (merchantID : Text)
    (fromDate throughDate : Int) : Except QueryError (List DayAnswer) :=
  getDailyBalances env.now
    { balances := w₁.store.readBalances env merchantID fromDate throughDate
      progress := w₂.store.readMerchantProgress env merchantID
      pendingRecompute := w₃.store.hasPendingRecompute env merchantID
      watermark := readWatermark watermarkFails w₄.ledger merchantID }
    fromDate throughDate

/-- A number that is in range is converted to itself. -/
theorem toNat_ofInt {n : Int} (h0 : 0 ≤ n) (h1 : n ≤ 9223372036854775807) :
    (UInt64.ofInt n).toNat = n.toNat := by
  have hMod : n % 2 ^ 64 = n := Int.emod_eq_of_lt h0 (by omega)
  show (n % 2 ^ 64).toNat % 2 ^ 64 = n.toNat
  rw [hMod]
  omega

/-- A watermark of zero means that the ledger has no entry of the merchant. -/
theorem readWatermark_zero {d : Ledger.Db} (hReached : Ledger.Reached platform d)
    (hUuid : uuidIn merchantID = some m.text) {fails : Bool} {observedAt : Int}
    (h : readWatermark fails d merchantID = .ok (0, observedAt)) :
    ∀ e ∈ d.entries, e.merchantID ≠ m := by
  intro e he hMerchant
  have hRange := ((Ledger.reached_booked hReached).positions m _).mp ⟨e, he, hMerchant, rfl⟩
  have hSame : (d.positions.find? fun r => r.merchantID.text == m.text) = d.position? m := by
    rw [Ledger.Db.position?]
    congr 1
    funext r
    rw [Bool.eq_iff_iff, beq_iff_eq, decide_eq_true_eq]
    exact ⟨Ledger.UUID.ext, congrArg _⟩
  unfold readWatermark at h
  split_ifs at h
  simp only [hUuid, hSame] at h
  cases hRow : d.position? m with
  | none =>
    -- no row: no position has been given out
    rw [Ledger.Db.lastPosition, hRow] at hRange
    have hZero : ((Option.map Ledger.PositionRow.lastPosition none).getD 0 : Int64).toInt = 0 := rfl
    omega
  | some row =>
    rw [hRow] at h
    have hLast : d.lastPosition m = row.lastPosition := by rw [Ledger.Db.lastPosition, hRow]; rfl
    have hZero : UInt64.ofInt row.lastPosition.toInt = 0 := (Prod.mk.inj (Except.ok.inj h)).1
    have hBound := row.lastPosition.toInt_lt
    rw [hLast] at hRange
    -- positions are not negative, so that the conversion keeps the value
    have hNat := toNat_ofInt (n := row.lastPosition.toInt) (by omega) (by omega)
    rw [hZero] at hNat
    have hNil : (0 : UInt64).toNat = 0 := rfl
    omega

/-- The progress a query goes on with: the merchant's row, or nothing. -/
theorem readMerchantProgress_getD {s : Store} {env : QueryEnv}
    (hUuid : uuidIn merchantID = some m.text) :
    (s.readMerchantProgress env merchantID).toOption.getD zeroProgress = zeroProgress ∨
      ∃ p ∈ s.progress, p.merchantID = m.text ∧
        (s.readMerchantProgress env merchantID).toOption.getD zeroProgress = p := by
  unfold Store.readMerchantProgress
  split_ifs
  · exact .inl rfl
  · rw [hUuid, Option.bind_some]
    cases hRow : s.progress.find? (·.merchantID == m.text) with
    | none => exact .inl rfl
    | some p =>
      obtain ⟨hp, hKey⟩ := Table.find?_some hRow
      exact .inr ⟨p, hp, beq_iff_eq.mp hKey, rfl⟩

/-- A merchant that has a row has a stored event. -/
theorem exists_event_of_row {s : Store} (hCharted : s.Charted) {text : Text} {d : Int}
    {r : DailyBalance} (hOn : balanceOn s.balances text d = some r) :
    ∃ e ∈ s.inbox, e.event.merchantID = text := by
  obtain ⟨j, hj, hKey, hReached⟩ := (hCharted.rows text d).mp (by rw [hOn]; rfl)
  obtain ⟨e, he, heKey, -⟩ := exists_later_of_filled
    ((hCharted.ranges text d).mp ⟨j, hj, hKey, hReached.1, hReached.2.1⟩)
  obtain ⟨row, hRow, rfl⟩ := List.mem_map.mp he
  exact ⟨row, hRow, heKey⟩

/-! ## The totals of a definitive answer -/

/-- The data shows the totals of the ledger's entries of the day up to a position. -/
structure ShowsTotals (data : DailyBalanceData) (d : Ledger.Db) (m : Ledger.UUID) (date : Int)
    (position : Nat) : Prop where
  credits : data.credits = Json.intLiteral (ledgerCredits d m date position)
  debits : data.debits = Json.intLiteral (ledgerDebits d m date position)
  net : data.net = Json.intLiteral
    (ledgerCredits d m date position - ledgerDebits d m date position)
  entryCount : data.entryCount = UInt64.ofInt (dayEntries d m date position).length

/-- The rows of one store show the totals of a later one exactly when no event of the
day came in between. -/
theorem showsTotals_iff {calls calls' : List Call} {more : List InboxEvent} {d : Ledger.Db}
    {n : Nat} {date now : Int} {progress : MerchantProgress} {r : DailyBalance}
    (hMore : (Store.after calls').inbox.rows = (Store.after calls).inbox.rows ++ more)
    (hProjected : Projected d (Store.after calls') m n)
    (hOn : balanceOn (Store.after calls).balances m.text date = some r) :
    ShowsTotals (dayData now progress r) d m date n ↔
      ∀ row ∈ (Store.after calls').inbox, row.event.merchantID = m.text →
        row.event.businessDate = date → row ∈ (Store.after calls).inbox := by
  set before := eventsOn (Store.after calls).inbox m.text date with hBefore
  set between := (more.map InboxEvent.event).filter
    fun e => e.merchantID == m.text && e.businessDate == date with hBetween
  have hAfter : eventsOn (Store.after calls').inbox m.text date = before ++ between := by
    rw [eventsOn, hMore, List.map_append, List.filter_append]
    rfl
  -- nothing in between is what the right side says
  have hNone : (∀ row ∈ (Store.after calls').inbox, row.event.merchantID = m.text →
      row.event.businessDate = date → row ∈ (Store.after calls).inbox) ↔ between = [] := by
    have hNodup := inbox_nodup (Store.after calls')
    rw [hMore, List.nodup_append] at hNodup
    constructor
    · intro hAll
      rw [hBetween, List.filter_eq_nil_iff]
      intro e he hOnDay
      obtain ⟨row, hRow, rfl⟩ := List.mem_map.mp he
      simp only [Bool.and_eq_true, beq_iff_eq] at hOnDay
      have hOld := hAll row (by rw [Table.mem_def, hMore]; exact List.mem_append_right _ hRow)
        hOnDay.1 hOnDay.2
      exact hNodup.2.2 row hOld row hRow rfl
    · -- an event that is new would be one of those in between
      intro hNil row hRow hKey hDate
      rw [Table.mem_def, hMore] at hRow
      rcases List.mem_append.mp hRow with hRow | hRow
      · exact hRow
      · have hMem : row.event ∈ between :=
          List.mem_filter.mpr ⟨List.mem_map_of_mem hRow, by simp [hKey, hDate]⟩
        rw [hNil] at hMem
        cases hMem
  rw [hNone]
  have hPerm := hProjected.events_perm date
  have hLength : (dayEntries d m date n).length = before.length + between.length := by
    have hEq := hPerm.length_eq
    rw [List.length_map, List.length_map, hAfter, List.length_append] at hEq
    exact hEq.symm
  have hCount : r.entryCount = (before.length : Int) :=
    (value_eq_events countColumn calls hOn).trans (sum_count_effect _)
  constructor
  · intro hShows
    -- the counts agree, and they fit their column
    have hFits := isBigint_total countColumn (Store.after calls').balances m.text date
    rw [after_total countColumn, sum_count_effect, hAfter, List.length_append, isBigint_iff]
      at hFits
    have hEqual : UInt64.ofInt r.entryCount = UInt64.ofInt (dayEntries d m date n).length :=
      hShows.entryCount
    have hNat := congrArg UInt64.toNat hEqual
    rw [toNat_ofInt (by omega) (by omega), toNat_ofInt (by omega) (by omega)] at hNat
    exact List.length_eq_zero_iff.mp (by omega)
  · -- with nothing in between, the totals read are those of the inbox at the second read
    intro hNil
    rw [hNil, List.append_nil] at hAfter
    have hTotals := hProjected.totals date
    rw [projectedTotals_eq, after_total creditsColumn, after_total debitsColumn, hAfter] at hTotals
    have hCredits : r.creditsMinor = ledgerCredits d m date n :=
      (value_eq_events creditsColumn calls hOn).trans (congrArg Prod.fst hTotals)
    have hDebits : r.debitsMinor = ledgerDebits d m date n :=
      (value_eq_events debitsColumn calls hOn).trans (congrArg Prod.snd hTotals)
    have hNet : r.netMinor = r.creditsMinor - r.debitsMinor := by
      have hCheck := (Store.after calls).balances.checked r (mem_of_balanceOn hOn)
      simp only [balanceSchema, Bool.and_eq_true, decide_eq_true_eq] at hCheck
      exact hCheck.1.1.1.1.1.1.1.2
    rw [hNil] at hLength
    refine ⟨?_, ?_, ?_, ?_⟩
    · rw [dayData, hCredits]
    · rw [dayData, hDebits]
    · rw [dayData, hNet, hCredits, hDebits]
    · rw [dayData, hCount, hLength]
      rfl

/-- Among any commits of the two services: a day of a definitive answer that has data
shows the totals of the ledger's entries up to the answer's position exactly when every
event of that day that was stored when the progress was read was stored when the rows
were. -/
theorem definitive_totals_iff (platform : Ledger.Platform) (w₁ w₂ w₃ w₄ : Services)
    (h₁ : Reachable (Commit platform) .start w₁) (h₂ : Reachable (Commit platform) w₁ w₂)
    (h₃ : Reachable (Commit platform) w₂ w₃) (h₄ : Reachable (Commit platform) w₃ w₄)
    (env : QueryEnv) (watermarkFails : Bool) (merchantID : Text) (m : Ledger.UUID)
    (hUuid : uuidIn merchantID = some m.text) (fromDate throughDate : Int) (answer : List DayAnswer)
    (hAnswer : queryAmong env watermarkFails w₁ w₂ w₃ w₄ merchantID fromDate throughDate =
      .ok answer)
    (a : DayAnswer) (ha : a ∈ answer) (hDefinitive : a.definitive = true) (date : Int)
    (hDate : a.businessDate = formatDate date) (data : DailyBalanceData)
    (hData : a.data = some data) :
    ShowsTotals data w₄.ledger m date a.appliedPosition.toNat ↔
      ∀ row ∈ w₂.store.inbox, row.event.merchantID = m.text → row.event.businessDate = date →
        row ∈ w₁.store.inbox := by
  obtain ⟨hSound₁, -⟩ := sound_reachable sound_start h₁
  obtain ⟨hSound₂, hLater₂⟩ := sound_reachable hSound₁ h₂
  obtain ⟨hSound₄, hLater₄⟩ := sound_reachable hSound₂ (h₃.trans h₄)
  obtain ⟨calls, hStore⟩ := hSound₁.store
  obtain ⟨calls', hStore'⟩ := hSound₂.store
  -- each answer reads the row of its date, and the verdict is one for all
  obtain ⟨balances, pending, v, hBalances, -, hJudge, rfl⟩ := getDailyBalances_ok hAnswer
  obtain ⟨date', hDay, rfl⟩ := List.mem_map.mp ha
  cases formatDate_injective hDate
  obtain ⟨r, hRow, rfl⟩ := Option.map_eq_some_iff.mp hData
  have hOn := (rowOn_eq hUuid hBalances hDay).symm.trans hRow
  obtain ⟨-, hGap, hApplied, position, observedAt, hWatermark, hLe⟩ :=
    judge_definitive hJudge hDefinitive
  set progress := (w₂.store.readMerchantProgress env merchantID).toOption.getD zeroProgress
    with hProgress
  have hLe : position ≤ UInt64.ofInt progress.appliedPosition := hLe
  rcases readMerchantProgress_getD hUuid with hZero | ⟨p, hp, hKey, hRead⟩
  · -- without a progress the ledger would have no entry of the merchant, but the row had an event
    rw [hProgress, hZero] at hLe
    have hNat : position.toNat ≤ 0 := UInt64.le_iff_toNat_le.mp hLe
    have hPosition : position = 0 := UInt64.toNat_inj.mp (Nat.le_zero.mp hNat)
    rw [hPosition] at hWatermark
    obtain ⟨row, hRow', hMerchant⟩ := exists_event_of_row (hStore ▸ after_charted calls) hOn
    obtain ⟨e, he, hMirrors⟩ := hSound₁.mirrored row hRow'
    exact absurd (Ledger.UUID.ext (hMirrors.2.1.symm.trans hMerchant))
      (readWatermark_zero hSound₄.ledger hUuid hWatermark e (hLater₄.entries (hLater₂.entries he)))
  · have hGap : progress.hasGap = false := hGap
    rw [hProgress, hRead] at hGap
    obtain ⟨hNonneg, hFits, hProjected⟩ := projected_when_settled hSound₂ hLater₄ hSound₄.ledger hp
      hKey hGap
    obtain ⟨more, hMore⟩ := hLater₂.inbox
    have hPosition : v.appliedPosition.toNat = p.appliedPosition.toNat := by
      rw [hApplied, ← toNat_ofInt hNonneg hFits]
      exact congrArg (fun q : MerchantProgress => (UInt64.ofInt q.appliedPosition).toNat) hRead
    show ShowsTotals _ _ m date v.appliedPosition.toNat ↔ _
    rw [hPosition, hStore, hStore']
    rw [hStore, hStore'] at hMore
    rw [hStore'] at hProjected
    rw [hStore] at hOn
    exact showsTotals_iff hMore hProjected hOn

/-! ### Two sales -/

/-- The services once both sales are posted and the first `n` of them are applied. -/
def salesApplied (n : Nat) : Services :=
  ⟨Ledger.twoSales, Store.after ((delivered Ledger.twoSales).take n)⟩

/-- The element of a definitive answer at position 2 that shows these amounts. -/
def salesDay (amount : String) (entryCount : UInt64) : DayAnswer :=
  ⟨formatDate Reconciliation.newYearDay, 2, 2, .updated, "", true,
    some ⟨amount.toList, "0".toList, amount.toList, entryCount, amount.toList, 0⟩⟩

/-- Postings are commits of the ledger. -/
theorem reachable_post {d d' : Ledger.Db} {s : Store}
    (h : Reachable (Ledger.Posted platform) d d') :
    Reachable (Commit platform) ⟨d, s⟩ ⟨d', s⟩ := by
  induction h with
  | start => exact .start
  | next _ hPosted ih => exact ih.next (.post hPosted)

/-- Calls with events from the ledger are commits of the projection. -/
theorem reachable_calls {d : Ledger.Db} (calls : List Call) (s : Store)
    (h : ∀ c ∈ calls, FromLedger d c) :
    Reachable (Commit platform) ⟨d, s⟩ ⟨d, run Store.exec s calls⟩ := by
  induction calls generalizing s with
  | nil => exact .start
  | cons c calls ih =>
    have hFirst : Reachable (Commit platform) ⟨d, s⟩ ⟨d, s.exec c⟩ :=
      Reachable.start.next (.call c (h c List.mem_cons_self))
    exact hFirst.trans (ih (s.exec c) fun c' hc' => h c' (List.mem_cons_of_mem _ hc'))

instance decidableFromLedger (d : Ledger.Db) : (c : Call) → Decidable (FromLedger d c)
  | .apply _ event => inferInstanceAs (Decidable (∃ e ∈ d.entries.rows, Mirrors e event.canonical))
  | .resumeNext _ _ => isTrue trivial

/-- The deliveries of the sample are from its ledger. -/
theorem delivered_from_ledger :
    ∀ c ∈ delivered Ledger.twoSales, FromLedger Ledger.twoSales c := by
  decide +kernel

/-- Each delivery comes after those before it. -/
theorem salesApplied_later (n k : Nat) :
    Reachable (Commit Ledger.utcPlatform) (salesApplied n) (salesApplied (n + k)) := by
  have hRun : (salesApplied (n + k)).store = run Store.exec (salesApplied n).store
      (((delivered Ledger.twoSales).drop n).take k) := by
    rw [salesApplied, salesApplied, List.take_add, Store.after, run_append]
    rfl
  have hCalls : Reachable (Commit Ledger.utcPlatform) (salesApplied n)
      ⟨Ledger.twoSales, run Store.exec (salesApplied n).store
        (((delivered Ledger.twoSales).drop n).take k)⟩ :=
    reachable_calls _ _ fun c hc =>
      delivered_from_ledger c (List.mem_of_mem_drop (List.mem_of_mem_take hc))
  rw [← hRun] at hCalls
  exact hCalls

/-- And every stage is reached from the start. -/
theorem salesApplied_reachable (n : Nat) :
    Reachable (Commit Ledger.utcPlatform) .start (salesApplied n) := by
  have hFirst := Ledger.posted_after Ledger.utcPlatform (Ledger.calmEnv Ledger.newYear 0)
    Ledger.saleRequest Ledger.Db.empty
  have hSecond := Ledger.posted_after Ledger.utcPlatform (Ledger.calmEnv Ledger.newYear 16)
    Ledger.secondSale Ledger.oneSale
  have hPosted : Reachable (Commit Ledger.utcPlatform) .start (salesApplied 0) :=
    reachable_post (hFirst.trans hSecond)
  have hApplied := salesApplied_later 0 n
  rw [Nat.zero_add] at hApplied
  exact hPosted.trans hApplied

/-- The ledger has both sales throughout. -/
theorem salesApplied_ledger (n : Nat) : (salesApplied n).ledger = Ledger.twoSales := by
  rw [salesApplied]

/-- With both sales applied before the first read, the day shows them both. -/
theorem definitive_totals_iff_two_sales :
    ShowsTotals ⟨"4000".toList, "0".toList, "4000".toList, 2, "4000".toList, 0⟩
      Ledger.twoSales sampleMerchant Reconciliation.newYearDay 2 := by
  have hShows := (definitive_totals_iff Ledger.utcPlatform (salesApplied 2) (salesApplied 2)
    (salesApplied 2) (salesApplied 2) (salesApplied_reachable 2) .start .start .start {} false
    sampleMerchant.text sampleMerchant (by decide) Reconciliation.newYearDay
    Reconciliation.newYearDay [salesDay "4000" 2] (by decide +kernel) (salesDay "4000" 2)
    List.mem_cons_self rfl Reconciliation.newYearDay rfl _ rfl).mpr fun row hRow _ _ => hRow
  rw [salesApplied_ledger] at hShows
  exact hShows

/-- The second sale is applied between the first read and the second: the answer is
definitive at position 2 and shows the first sale alone. -/
theorem stale_row_definitive :
    Reachable (Commit Ledger.utcPlatform) .start (salesApplied 1) ∧
      Reachable (Commit Ledger.utcPlatform) (salesApplied 1) (salesApplied 2) ∧
      queryAmong {} false (salesApplied 1) (salesApplied 2) (salesApplied 2) (salesApplied 2)
        sampleMerchant.text Reconciliation.newYearDay Reconciliation.newYearDay =
          .ok [salesDay "1500" 1] ∧
      ledgerCredits Ledger.twoSales sampleMerchant Reconciliation.newYearDay 2 = 4000 :=
  ⟨salesApplied_reachable 1, salesApplied_later 1 1, by decide +kernel, by decide +kernel⟩

end Cashflow.Pipeline
