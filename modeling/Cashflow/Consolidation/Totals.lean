import Cashflow.Consolidation.Balances

/-!
# Consolidation — the totals are the stored events

Main results:

* `after_total` — in every state a run reaches, each total of each day is the
  sum of the effects of the events stored for that merchant and day;
* `after_linked` — the inbox and the receipts hold the same triples;
* `apply_stored`, `apply_conflicting`, `apply_overflow` — what a redelivery, a
  reused key and a total out of range do;
* `totals_match_inbox` — all of it, over every run.
-/

namespace Cashflow.Consolidation

open Lib

variable {env : Env} {s s' : Store} {event : EntryConfirmed}

/-! ## Columns -/

/-- A column of the daily totals, and what an event adds to it. -/
structure Column where
  value : DailyBalance → Int
  effect : EntryConfirmed → Int
  zero : ∀ m d, value (zeroBalance m d) = 0
  first : ∀ e, value (firstBalance e) = effect e
  add : ∀ e r, onDay e.merchantID e.businessDate r = true →
    value (addEffect e r) = value r + effect e
  closing : ∀ r c, value (r.withClosing c) = value r
  stored : ∀ e, effect (InboxEvent.of e).event = effect e
  inRange : ∀ r, balanceSchema.check r = true → isBigint (value r) = true

/-- The four columns of a row are within their type. -/
theorem check_ranges {r : DailyBalance} (h : balanceSchema.check r = true) :
    isBigint r.creditsMinor = true ∧ isBigint r.debitsMinor = true ∧
      isBigint r.netMinor = true ∧ isBigint r.entryCount = true := by
  simp only [balanceSchema, Bool.and_eq_true] at h
  exact ⟨h.1.1.1.1.1.1.2, h.1.1.1.1.1.2, h.1.1.1.1.2, h.1.1.1.2⟩

def creditsColumn : Column where
  value := DailyBalance.creditsMinor
  effect e := e.financialEffect.creditsMinor
  zero _ _ := rfl
  first _ := rfl
  add e r h := by rw [addEffect, if_pos h]
  closing := withClosing_creditsMinor
  stored _ := rfl
  inRange _ h := (check_ranges h).1

def debitsColumn : Column where
  value := DailyBalance.debitsMinor
  effect e := e.financialEffect.debitsMinor
  zero _ _ := rfl
  first _ := rfl
  add e r h := by rw [addEffect, if_pos h]
  closing := withClosing_debitsMinor
  stored _ := rfl
  inRange _ h := (check_ranges h).2.1

def netColumn : Column where
  value := DailyBalance.netMinor
  effect e := e.financialEffect.netMinor
  zero _ _ := rfl
  first _ := rfl
  add e r h := by rw [addEffect, if_pos h]
  closing := withClosing_netMinor
  stored _ := rfl
  inRange _ h := (check_ranges h).2.2.1

def countColumn : Column where
  value := DailyBalance.entryCount
  effect _ := 1
  zero _ _ := rfl
  first _ := rfl
  add e r h := by rw [addEffect, if_pos h]
  closing := withClosing_entryCount
  stored _ := rfl
  inRange _ h := (check_ranges h).2.2.2

namespace Column

variable (col : Column)

/-- The column's value on a day, zero without a row. -/
def total (t : Table balanceSchema) (m : Text) (d : Int) : Int :=
  (balanceOn t m d).elim 0 col.value

/-- A materialised row has no totals. -/
theorem total_materialize (t : Table balanceSchema) (m m' : Text) (d first last : Int) :
    col.total (materialize t m' first last) m d = col.total t m d := by
  rw [total, total, balanceOn_materialize]
  cases balanceOn t m d with
  | some r => rfl
  | none =>
    split_ifs
    · exact col.zero m d
    · rfl

/-- Setting a closing leaves the totals. -/
theorem value_setClosing (t : Table balanceSchema) (m : Text) (first last : Int)
    (r : DailyBalance) : col.value (setClosing t m first last r) = col.value r := by
  unfold setClosing
  split_ifs
  · exact col.closing r _
  · rfl

/-- An event adds its effect to its own day, and to no other. -/
theorem total_upsert {t u : Table balanceSchema} (h : upsertBalance t event = .ok u)
    (m : Text) (d : Int) :
    col.total u m d = col.total t m d +
      if event.merchantID = m ∧ event.businessDate = d then col.effect event else 0 := by
  rw [total, total, balanceOn_upsert h]
  split_ifs with hDay
  · cases hRow : balanceOn t m d with
    | none => simpa using col.first event
    | some r =>
      refine col.add event r ?_
      rw [onDay_iff, (balanceOn_key hRow).1, (balanceOn_key hRow).2]
      exact ⟨hDay.1.symm, hDay.2.symm⟩
  · rw [add_zero]

/-- Recomputing a block changes no total. -/
theorem total_block {job : Continuation} {n : Int} (h : BlockDone job n s s') (m : Text)
    (d : Int) : col.total s'.balances m d = col.total s.balances m d := by
  rw [← col.total_materialize s.balances m job.merchantID d job.next job.blockThrough, total, total,
    balanceOn_map h.balances (setClosing_key _ _ _ _)]
  cases balanceOn (materialize s.balances job.merchantID job.next job.blockThrough) m d with
  | none => rfl
  | some r => exact col.value_setClosing _ _ _ _ r

/-- A new event adds its effect to the total of its day. -/
theorem total_applied (h : Applied env event s s') (m : Text) (d : Int) :
    col.total s'.balances m d = col.total s.balances m d +
      if event.merchantID = m ∧ event.businessDate = d then col.effect event else 0 := by
  obtain ⟨mid, through, hUpsert, -, -, done, hDone, hBalances, -⟩ := h.block
  rw [hBalances, col.total_block hDone, col.total_upsert hUpsert]

end Column

/-! ## The stored events -/

/-- The stored events of a merchant's day. -/
def eventsOn (inbox : Table inboxSchema) (m : Text) (d : Int) : List EntryConfirmed :=
  (inbox.rows.map InboxEvent.event).filter fun e => e.merchantID == m && e.businessDate == d

/-- An applied event is one more of its day. -/
theorem eventsOn_applied (h : Applied env event s s') (m : Text) (d : Int) :
    eventsOn s'.inbox m d = eventsOn s.inbox m d ++
      if event.merchantID = m ∧ event.businessDate = d then [(InboxEvent.of event).event] else [] := by
  have hFilter : [(InboxEvent.of event).event].filter (fun e => e.merchantID == m &&
      e.businessDate == d) =
      if event.merchantID = m ∧ event.businessDate = d then [(InboxEvent.of event).event] else [] := by
    rw [List.filter_singleton]
    simp [InboxEvent.of]
  rw [eventsOn, h.inbox, List.map_append, List.filter_append, List.map_singleton, hFilter]
  rfl

/-- The total of a day is the sum of the effects of the events stored for it. -/
def Column.Accounts (col : Column) (s : Store) : Prop :=
  ∀ m d, col.total s.balances m d = ((eventsOn s.inbox m d).map col.effect).sum

/-- Every column accounts for the inbox after any calls. -/
theorem after_total (col : Column) (calls : List Call) : col.Accounts (Store.after calls) := by
  refine after_invariant col.Accounts (fun _ _ => True) (fun m d => rfl) ?_ ?_ calls
    (along_of_forall _ fun _ _ _ => trivial)
  · intro s s' env event hInv _ _ hApplied m d
    rw [col.total_applied hApplied, eventsOn_applied hApplied, hInv m d]
    split_ifs
    · simp [col.stored]
    · simp
  · intro s s' job next hInv _ hDone m d
    rw [col.total_block hDone, hInv m d, hDone.inbox]

/-! ## The inbox and the receipts -/

/-- Each receipt is the receipt of one stored event, in the same order. -/
def Store.Linked (s : Store) : Prop := s.receipts.rows = s.inbox.rows.map fun r => r.event.receipt

/-- After any calls there is a receipt for each event, in the same order. -/
theorem after_linked (calls : List Call) : (Store.after calls).Linked := by
  refine after_invariant Store.Linked (fun _ _ => True) rfl ?_ ?_ calls
    (along_of_forall _ fun _ _ _ => trivial)
  · intro s s' env event hInv _ _ hApplied
    rw [Store.Linked, hApplied.receipts, hApplied.inbox, List.map_append, hInv]
    rfl
  · intro s s' job next hInv _ hDone
    rw [Store.Linked, hDone.receipts, hDone.inbox]
    exact hInv

/-- A receipt is that of an event in the inbox. -/
theorem Store.Linked.mem (h : s.Linked) {t : PositionReceipt} :
    t ∈ s.receipts ↔ ∃ r ∈ s.inbox, r.event.receipt = t := by
  rw [Table.mem_def, h, List.mem_map]
  rfl

/-- Every stored event was delivered by one of the calls. -/
def Store.DeliveredBy (calls : List Call) (s : Store) : Prop :=
  ∀ r ∈ s.inbox, ∃ env event, Call.apply env event ∈ calls ∧ event.Valid ∧
    r = InboxEvent.of event.canonical

/-- What is in the inbox was delivered in one of the calls. -/
theorem after_delivered (calls : List Call) : (Store.after calls).DeliveredBy calls := by
  refine after_invariant (Store.DeliveredBy calls) (fun _ c => c ∈ calls)
    (fun r hr => absurd hr (Table.not_mem_empty r)) ?_ ?_ calls (along_of_forall _ fun _ _ hc => hc)
  · intro s s' env event hInv hValid hGuard hApplied r hr
    rcases hApplied.mem_inbox.mp hr with hr | rfl
    · exact hInv r hr
    · exact ⟨env, event, hGuard, hValid, rfl⟩
  · intro s s' job next hInv _ hDone r hr
    rw [hDone.inbox] at hr
    exact hInv r hr

/-! ## A redelivery, a reused key, a total out of range -/

/-- For machine integers, too, at least one is positive. -/
theorem int64_pos {n : Int64} (h : 1 ≤ n) : 0 < n := by
  rw [Int64.le_iff_toInt_le] at h
  exact Int64.lt_iff_toInt_lt.mpr h

/-- A valid event passes the checks of its row. -/
theorem inbox_check (h : event.Valid) : inboxSchema.check (InboxEvent.of event) = true := by
  simp only [inboxSchema, InboxEvent.of, Bool.and_eq_true, Bool.or_eq_true, decide_eq_true_eq,
    beq_iff_eq]
  exact ⟨⟨⟨⟨⟨h.eventType, fingerprint_isLowerHex event⟩, int64_pos h.merchantPosition⟩,
    h.entryType⟩, int64_pos h.amountMinor⟩, h.currency⟩

/-- A healthy transaction up to the point where the inbox decides. -/
theorem applyTx_healthy (hEnv : env.Healthy) (hValid : event.Valid) :
    applyTx env s event =
      if s.inbox.conflicts (InboxEvent.of event.canonical) then
        (resolveDuplicate env
          { s with progress := progressFor s event.canonical.merchantID env.now }
          event.canonical).map fun r =>
            (r, { s with progress := progressFor s event.canonical.merchantID env.now })
      else
        applyNew env { s with
          progress := progressFor s event.canonical.merchantID env.now
          inbox := s.inbox.insertOrIgnore (InboxEvent.of event.canonical)
            (inbox_check (canonical_valid hValid)) } event.canonical := by
  rw [applyTx, (validate_iff event).mpr hValid]
  simp only [hEnv.attempt, initializeProgress, insertInbox, bind, Except.bind, Except.mapError,
    dif_pos (inbox_check (canonical_valid hValid))]
  cases hConflict : s.inbox.conflicts (InboxEvent.of event.canonical) with
  | false => rfl
  | true =>
    simp only [Bool.not_true, Bool.false_eq_true, if_false, if_true,
      Table.insertOrIgnore_of_conflict hConflict]
    cases resolveDuplicate env
      { s with progress := progressFor s event.canonical.merchantID env.now } event.canonical <;> rfl

/-- A row that is stored conflicts with itself. -/
theorem conflicts_of_mem {r : InboxEvent} (h : r ∈ s.inbox) : s.inbox.conflicts r = true :=
  Table.conflicts_eq_true.mpr ⟨r, h, by simp [inboxSchema]⟩

/-- And is the one that is found. -/
theorem persistedRow_of_mem (h : InboxEvent.of event ∈ s.inbox) :
    persistedRow s event = some (InboxEvent.of event) := by
  have hFind : (s.inbox.find? fun r => r.event.eventID == event.eventID) =
      some (InboxEvent.of event) := by
    refine Table.find?_eq_some_of_mem h (beq_self_eq_true event.eventID) fun a ha => ?_
    simp only [inboxSchema, Bool.or_eq_true]
    exact .inl ha
  rw [persistedRow, hFind, Option.some_or]

/-- A stored event is recognised as a duplicate. -/
theorem resolveDuplicate_stored (hEnv : env.Healthy) (hStored : InboxEvent.of event ∈ s.inbox)
    {p : MerchantProgress} (hp : p ∈ s.progress) (hKey : p.merchantID = event.merchantID) :
    ∃ r, resolveDuplicate env s event = .ok r ∧ r.duplicate = true := by
  have hFind : s.progress.find? (·.merchantID == event.merchantID) = some p :=
    Table.find?_eq_some_of_mem hp (beq_iff_eq.mpr hKey) fun a ha => by
      simpa [progressSchema, hKey] using ha
  refine ⟨{ duplicate := true, sourcePosition := p.sourcePosition,
            appliedPosition := p.appliedPosition, firstGap := p.firstGap,
            recomputePending := hasPendingJob s event.merchantID }, ?_, rfl⟩
  simp only [resolveDuplicate, hEnv.attempt, persistedRow_of_mem hStored, readProgress, hFind,
    readPendingRecompute, bind, Except.bind, InboxEvent.of, bne_self_eq_false, Bool.or_false,
    Bool.false_eq_true, if_false]

/-- Delivering a stored event again reports a duplicate and changes nothing. -/
theorem apply_stored (hTracked : s.Tracked) (hValid : event.Valid)
    (hStored : InboxEvent.of event.canonical ∈ s.inbox) :
    (apply env s event).2 = s ∧
      (∀ r, (apply env s event).1 = .ok r → r.duplicate = true) ∧
      (env.Healthy → ∃ r, (apply env s event).1 = .ok r ∧ r.duplicate = true) := by
  obtain ⟨p, hp, hKey⟩ := hTracked _ hStored
  have hSame : ({ s with progress := progressFor s event.canonical.merchantID env.now } : Store) =
      s := by
    rw [show event.canonical.merchantID = p.merchantID from hKey.symm, progressFor_of_mem hp]
  have hConflict := conflicts_of_mem hStored
  -- whatever the database does, the transaction cannot take the event for a new one
  have hAny : (apply env s event).2 = s ∧
      ∀ r, (apply env s event).1 = .ok r → r.duplicate = true := by
    cases hTx : applyTx env s event with
    | error error =>
      rw [apply_of_error hTx]
      -- a failed transaction leaves the tables
      exact ⟨rfl, fun r hr => nomatch hr⟩
    | ok outcome =>
      obtain ⟨hTables, hResult⟩ := apply_of_ok hTx
      -- a duplicate changes nothing; a new event would have been free
      obtain ⟨-, ⟨hDuplicate, -, hNow⟩ | ⟨-, hApplied⟩⟩ := applyTx_ok hTx
      · rw [hNow, hSame, or_self] at hTables
        exact ⟨hTables, fun r hr => by rw [hResult r hr, hDuplicate]⟩
      · rw [hApplied.free] at hConflict
        cases hConflict
  refine ⟨hAny.1, hAny.2, fun hEnv => ?_⟩
  obtain ⟨r, hResolve, hDuplicate⟩ := resolveDuplicate_stored hEnv hStored hp hKey
  refine ⟨r, ?_, hDuplicate⟩
  rw [apply, applyTx_healthy hEnv hValid, hSame, if_pos hConflict, hResolve]
  simp only [Except.map, commit, hEnv.commit]

/-- The bytes hashed for a delivery, once it is validated. -/
def Call.hashedStream : Call → Option (List UInt8)
  | .apply _ event => if event.validate = .ok () then some event.fingerprintStream else none
  | .resumeNext _ _ => none

/-- The bytes hashed for the deliveries of some calls. -/
def hashedStreams (calls : List Call) : List (List UInt8) := calls.filterMap Call.hashedStream

/-- The stream of a delivered event was hashed. -/
theorem mem_hashedStreams {calls : List Call} (h : Call.apply env event ∈ calls)
    (hValid : event.Valid) : event.fingerprintStream ∈ hashedStreams calls :=
  List.mem_filterMap.mpr ⟨_, h, if_pos ((validate_iff event).mpr hValid)⟩

/-- The stream is written from the canonical event. -/
theorem fingerprintStream_canonical (e : EntryConfirmed) :
    e.canonical.fingerprintStream = e.fingerprintStream := by
  rw [EntryConfirmed.fingerprintStream, EntryConfirmed.fingerprintStream, canonical_canonical]

/-- Only the stored event itself has the fingerprint of its row. -/
theorem persisted_is_stored {calls : List Call} (hSha : CollisionFree (hashedStreams calls))
    (hDelivered : s.DeliveredBy calls) (hEvent : Call.apply env event ∈ calls)
    (hValid : event.Valid) {row : InboxEvent} (hRow : Persisted s event.canonical row) :
    InboxEvent.of event.canonical ∈ s.inbox := by
  obtain ⟨env₀, event₀, hCall, hValid₀, rfl⟩ := hDelivered row hRow.mem
  have hFingerprint := (fingerprint_eq_iff (canonical_valid hValid₀) (canonical_valid hValid)
    (by
      rw [fingerprintStream_canonical, fingerprintStream_canonical]
      exact hSha _ (mem_hashedStreams hCall hValid₀) _ (mem_hashedStreams hEvent hValid))).mp
    hRow.fingerprint
  rw [canonical_canonical, canonical_canonical] at hFingerprint
  rw [← hFingerprint]
  exact hRow.mem

/-- A key that is taken by other content is refused. -/
theorem resolveDuplicate_reused (hEnv : env.Healthy)
    (hConflict : s.inbox.conflicts (InboxEvent.of event) = true)
    (hNone : ∀ row, ¬ Persisted s event row) :
    resolveDuplicate env s event = .error (.conflict reusedContent) := by
  obtain ⟨row, hRow⟩ : ∃ row, persistedRow s event = some row := by
    obtain ⟨a, ha, hClash⟩ := Table.conflicts_eq_true.mp hConflict
    rw [← Option.isSome_iff_exists, persistedRow, Option.isSome_or, Bool.or_eq_true]
    simp only [inboxSchema, Bool.or_eq_true] at hClash
    rcases hClash with hID | hPosition
    · exact .inl (List.find?_isSome.mpr ⟨a, ha, hID⟩)
    · exact .inr (List.find?_isSome.mpr ⟨a, ha, hPosition⟩)
  have hDiffer : (row.event.merchantID != event.merchantID ||
      row.event.merchantPosition != event.merchantPosition ||
      row.payloadFingerprint != event.fingerprint) = true := by
    by_contra hSame
    simp only [Bool.or_eq_true, bne_iff_ne, not_or, not_not] at hSame
    exact hNone row ⟨persistedRow_mem hRow, hSame.1.1, hSame.1.2, hSame.2⟩
  simp only [resolveDuplicate, hEnv.attempt, hRow, bind, Except.bind, hDiffer, if_true]

/-- An event that reuses a key of a stored one with other content is rejected. -/
theorem apply_conflicting (hValid : event.Valid)
    (hConflict : s.inbox.conflicts (InboxEvent.of event.canonical) = true)
    (hNone : ∀ row, ¬ Persisted s event.canonical row) :
    (apply env s event).2 = s ∧ (∃ error, (apply env s event).1 = .error error) ∧
      (env.Healthy → (apply env s event).1 = .error (.conflict reusedContent)) := by
  obtain ⟨error, hTx⟩ : ∃ error, applyTx env s event = .error error := by
    cases hTx : applyTx env s event with
    | error error => exact ⟨error, rfl⟩
    | ok outcome =>
      obtain ⟨-, ⟨-, ⟨row, hRow⟩, -⟩ | ⟨-, hApplied⟩⟩ := applyTx_ok hTx
      · -- a duplicate is one of a stored row, of which there is none
        exact absurd hRow (hNone row)
      · rw [hApplied.free] at hConflict
        cases hConflict
  rw [apply_of_error hTx]
  refine ⟨rfl, ⟨error, rfl⟩, fun hEnv => ?_⟩
  have hResolve : resolveDuplicate env
      { s with progress := progressFor s event.canonical.merchantID env.now } event.canonical =
        .error (.conflict reusedContent) :=
    resolveDuplicate_reused hEnv hConflict fun row hRow =>
      hNone row ⟨hRow.mem, hRow.merchantID, hRow.merchantPosition, hRow.fingerprint⟩
  rw [applyTx_healthy hEnv hValid, if_pos hConflict, hResolve] at hTx
  cases hTx
  rfl

/-- A total is within the column's type. -/
theorem isBigint_total (col : Column) (t : Table balanceSchema) (m : Text) (d : Int) :
    isBigint (col.total t m d) = true := by
  unfold Column.total
  cases h : balanceOn t m d with
  | none => rfl
  | some r => exact col.inRange r (t.checked r (mem_of_balanceOn h))

/-- A free event has no receipt yet, so its own can be inserted. -/
theorem insertReceipt_healthy (hEnv : env.Healthy) (hLinked : s.Linked) (hValid : event.Valid)
    (hFree : s.inbox.conflicts (InboxEvent.of event) = false) {progress : Table progressSchema}
    {inbox : Table inboxSchema} : ∃ receipts,
      insertReceipt env { s with progress, inbox } event =
        .ok { s with progress, inbox, receipts } := by
  have hCheck : receiptSchema.check event.receipt = true :=
    decide_eq_true (int64_pos hValid.merchantPosition)
  have hConflict : s.receipts.conflicts event.receipt = false := by
    rw [Table.conflicts_eq_false]
    intro t ht
    obtain ⟨r, hr, rfl⟩ := hLinked.mem.mp ht
    have hClash := Table.conflicts_eq_false.mp hFree r hr
    simp only [inboxSchema, InboxEvent.of, Bool.or_eq_false_iff] at hClash
    simp only [receiptSchema, EntryConfirmed.receipt, Bool.or_eq_false_iff]
    exact ⟨hClash.2, hClash.1⟩
  refine ⟨s.receipts.push event.receipt hCheck hConflict, ?_⟩
  simp only [insertReceipt, hEnv.attempt, bind, Except.bind, classified, Table.insert,
    dif_pos hCheck, dif_pos hConflict, Except.mapError]

/-- An event that would take a total of its day out of the `BIGINT` range is
rejected. -/
theorem apply_overflow (col : Column) (hValid : event.Valid) (hLinked : s.Linked)
    (hFree : s.inbox.conflicts (InboxEvent.of event.canonical) = false)
    (hOut : isBigint (col.total s.balances event.canonical.merchantID event.businessDate +
      col.effect event.canonical) = false) :
    (apply env s event).2 = s ∧ (∃ error, (apply env s event).1 = .error error) ∧
      (env.Healthy → (apply env s event).1 =
        .error (.conflict "update daily totals violates a financial invariant")) := by
  -- no table can hold such a total
  have hTotal : ∀ t, col.total t event.canonical.merchantID event.businessDate ≠
      col.total s.balances event.canonical.merchantID event.businessDate +
        col.effect event.canonical := by
    intro t hEq
    rw [← hEq, isBigint_total] at hOut
    cases hOut
  obtain ⟨error, hTx⟩ : ∃ error, applyTx env s event = .error error := by
    cases hTx : applyTx env s event with
    | error error => exact ⟨error, rfl⟩
    | ok outcome =>
      obtain ⟨-, ⟨-, ⟨row, hRow⟩, -⟩ | ⟨-, hApplied⟩⟩ := applyTx_ok hTx
      · -- a persisted row shares the position
        have hClash := Table.conflicts_eq_false.mp hFree row hRow.mem
        simp [inboxSchema, InboxEvent.of, hRow.merchantID, hRow.merchantPosition] at hClash
      · refine absurd (col.total_applied hApplied event.canonical.merchantID event.businessDate) ?_
        rw [if_pos ⟨rfl, rfl⟩]
        exact hTotal _
  rw [apply_of_error hTx]
  refine ⟨rfl, ⟨error, rfl⟩, fun hEnv => ?_⟩
  -- when nothing fails, the failure is that of the totals
  rw [applyTx_healthy hEnv hValid, hFree, if_neg Bool.false_ne_true, applyNew] at hTx
  obtain ⟨receipts, hReceipt⟩ := insertReceipt_healthy hEnv hLinked (canonical_valid hValid) hFree
  rw [hReceipt] at hTx
  simp only [updateTotals, hEnv.attempt, bind, Except.bind] at hTx
  cases hUpsert : upsertBalance s.balances event.canonical with
  | error violation =>
    rw [hUpsert] at hTx
    cases hTx
    rfl
  | ok u =>
    refine absurd (col.total_upsert hUpsert event.canonical.merchantID event.businessDate) ?_
    rw [if_pos ⟨rfl, rfl⟩]
    exact hTotal u

/-! ## The whole account -/

/-- The four totals of a day. -/
def totalColumns : List Column := [creditsColumn, debitsColumn, netColumn, countColumn]

/-- In every state a run reaches, every balance row carries the sums of the
stored events of its day and a day without a row has none; events and receipts
are stored once and agree; and a further delivery is a duplicate that changes
nothing when its event is stored, and is rejected with every table unchanged
when it reuses a key with other content or takes a total out of range. -/
theorem totals_match_inbox (calls : List Call) :
    let s := Store.after calls
    (∀ r ∈ s.balances,
      r.creditsMinor = ((eventsOn s.inbox r.merchantID r.businessDate).map
        (·.financialEffect.creditsMinor)).sum ∧
      r.debitsMinor = ((eventsOn s.inbox r.merchantID r.businessDate).map
        (·.financialEffect.debitsMinor)).sum ∧
      r.netMinor = ((eventsOn s.inbox r.merchantID r.businessDate).map
        (·.financialEffect.netMinor)).sum ∧
      r.entryCount = (eventsOn s.inbox r.merchantID r.businessDate).length) ∧
    (∀ m d, (∀ r ∈ s.balances, ¬ (r.merchantID = m ∧ r.businessDate = d)) →
      eventsOn s.inbox m d = []) ∧
    s.inbox.rows.Pairwise (fun a b => a.event.eventID ≠ b.event.eventID ∧
      ¬ (a.event.merchantID = b.event.merchantID ∧
        a.event.merchantPosition = b.event.merchantPosition)) ∧
    (∀ t, t ∈ s.receipts ↔ ∃ r ∈ s.inbox, r.event.receipt = t) ∧
    (∀ env event, event.Valid → InboxEvent.of event.canonical ∈ s.inbox →
      (apply env s event).2 = s ∧
      (∀ r, (apply env s event).1 = .ok r → r.duplicate = true) ∧
      (env.Healthy → ∃ r, (apply env s event).1 = .ok r ∧ r.duplicate = true)) ∧
    (∀ env event, event.Valid → CollisionFree (hashedStreams (.apply env event :: calls)) →
      s.inbox.conflicts (InboxEvent.of event.canonical) = true →
      InboxEvent.of event.canonical ∉ s.inbox →
      (apply env s event).2 = s ∧ (∃ error, (apply env s event).1 = .error error) ∧
      (env.Healthy → (apply env s event).1 = .error (.conflict reusedContent))) ∧
    (∀ env event, event.Valid → s.inbox.conflicts (InboxEvent.of event.canonical) = false →
      (∃ col ∈ totalColumns, isBigint (((eventsOn s.inbox event.canonical.merchantID
        event.businessDate).map col.effect).sum + col.effect event.canonical) = false) →
      (apply env s event).2 = s ∧ (∃ error, (apply env s event).1 = .error error) ∧
      (env.Healthy → (apply env s event).1 =
        .error (.conflict "update daily totals violates a financial invariant"))) := by
  intro s
  refine ⟨?_, ?_, ?_, ?_, ?_, ?_, ?_⟩
  · -- each column of a row accounts for the day's events
    intro r hr
    have hTotal : ∀ col : Column, col.value r =
        ((eventsOn s.inbox r.merchantID r.businessDate).map col.effect).sum := by
      intro col
      rw [← after_total col calls, Column.total, balanceOn_of_mem hr]
      rfl
    refine ⟨hTotal creditsColumn, hTotal debitsColumn, hTotal netColumn, ?_⟩
    exact (hTotal countColumn).trans (by simp [countColumn])
  · intro m d hNone
    have hRow : balanceOn s.balances m d = none := by
      cases h : balanceOn s.balances m d with
      | none => rfl
      | some r => exact absurd (balanceOn_key h) (hNone r (mem_of_balanceOn h))
    -- a day without a row counts no events
    have hCount := after_total countColumn calls m d
    rw [Column.total, hRow] at hCount
    have hLength : 0 = ((eventsOn s.inbox m d).length : Int) := by
      simpa [countColumn] using hCount
    exact List.length_eq_zero_iff.mp (by omega)
  · refine s.inbox.unique.imp fun {a b} h => ?_
    simp only [inboxSchema, Bool.or_eq_false_iff, beq_eq_false_iff_ne, Bool.and_eq_false_iff] at h
    exact ⟨h.1, by tauto⟩
  · exact fun t => (after_linked calls).mem
  · exact fun env event hValid hStored => apply_stored (after_tracked calls) hValid hStored
  · intro env event hValid hSha hConflict hNew
    refine apply_conflicting hValid hConflict fun row hRow => hNew ?_
    -- the stored rows come from the calls, which with this one do not collide
    have hDelivered : s.DeliveredBy (.apply env event :: calls) := by
      intro r hr
      obtain ⟨env₀, event₀, hCall, h⟩ := after_delivered calls r hr
      exact ⟨env₀, event₀, List.mem_cons_of_mem _ hCall, h⟩
    exact persisted_is_stored hSha hDelivered List.mem_cons_self hValid hRow
  · rintro env event hValid hFree ⟨col, -, hOut⟩
    rw [← after_total col calls] at hOut
    exact apply_overflow col hValid (after_linked calls) hFree hOut

/-- An identifier for concrete runs. -/
def sampleID (c : Char) : Text :=
  hyphenated (List.replicate 12 '0' ++ '4' :: List.replicate 3 '0' ++ '8' ::
    List.replicate 14 '0' ++ [c])

/-- A credit of one merchant, for concrete runs. -/
def sampleCredit (id : Char) (position : Int64) (date : Int) (amount : Int64) : EntryConfirmed where
  eventID := sampleID id
  eventType := entryConfirmedV1
  occurredAt := 0
  merchantID := sampleID 'a'
  merchantPosition := position
  entryID := sampleID id
  entryType := entryCredit
  amountMinor := amount
  currency := currencyBRL
  businessDate := date
  confirmedAt := 0
  originalEntryID := none
  traceparent := ['0', '0', '-'] ++ List.replicate 32 '1' ++ '-' :: List.replicate 16 '1' ++
    ['-', '0', '1']

/-- A database that fails nowhere. -/
def steady (jobID : Int) : Env := ⟨fun _ => false, jobID, 0, .committed⟩

/-- The steady environment is healthy. -/
theorem steady_healthy (jobID : Int) : (steady jobID).Healthy := ⟨fun _ => rfl, rfl⟩

/-- The largest amount, then a second credit on its day, and a second event at
its position. -/
theorem totals_match_inbox_full_day :
    let s := Store.after [.apply (steady 1) (sampleCredit '1' 1 0 9223372036854775807)]
    (apply (steady 2) s (sampleCredit '1' 1 0 9223372036854775807)).2 = s ∧
    (apply (steady 2) s (sampleCredit '2' 1 0 5)).1 = .error (.conflict reusedContent) ∧
    (apply (steady 2) s (sampleCredit '2' 2 0 5)).1 =
      .error (.conflict "update daily totals violates a financial invariant") := by
  have h := totals_match_inbox [.apply (steady 1) (sampleCredit '1' 1 0 9223372036854775807)]
  obtain ⟨-, -, -, -, hStored, hReused, hOverflow⟩ := h
  refine ⟨(hStored _ _ ?_ ?_).1, (hReused _ _ ?_ ?_ ?_ ?_).2.2 (steady_healthy 2),
    (hOverflow _ _ ?_ ?_ ⟨creditsColumn, List.mem_cons_self, ?_⟩).2.2 (steady_healthy 2)⟩
  · exact (validate_iff _).mp (by decide +kernel)
  · decide +kernel
  · exact (validate_iff _).mp (by decide +kernel)
  · decide +kernel
  · decide +kernel
  · decide +kernel
  · exact (validate_iff _).mp (by decide +kernel)
  · decide +kernel
  · decide +kernel

end Cashflow.Consolidation
