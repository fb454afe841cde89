import Cashflow.Ledger.Interleaving

/-!
# Ledger — consistency under concurrency

What the tables of the ledger satisfy whatever requests run at the same time:

* `committed_consistent` — a merchant's positions are numbered without gap, and
  entries, events and completed records belong to each other one to one; a
  transaction that fails changes nothing;
* `committed_reversals` — an entry is reversed at most once, a reversal never,
  and what is reversed adds nothing to a merchant's balance.
-/

namespace Cashflow.Ledger

open Lib

/-! ## One entry, one event, one record -/

/-- The positions of a merchant's entries. -/
def Db.positionsOf (d : Db) (m : UUID) : List Int := (d.entriesOf m).map fun e => e.position.toInt

structure Consistent (d : Db) : Prop where
  numbered : ∀ m, (d.positionsOf m).Nodup ∧
    ∀ n, n ∈ d.positionsOf m ↔ 1 ≤ n ∧ n ≤ (d.lastPosition m).toInt
  announced : ∀ e ∈ d.entries, ∃ o ∈ d.outbox, o.aggregateID = e.id ∧
    o.merchantID = e.merchantID ∧ o.merchantPosition = e.position ∧
    ∀ o' ∈ d.outbox, o'.aggregateID = e.id → o' = o
  recorded : ∀ e ∈ d.entries, ∃ r ∈ d.idempotency, r.entryID = some e.id ∧
    r.merchantID = e.merchantID ∧ ∀ r' ∈ d.idempotency, r'.entryID = some e.id → r' = r
  completed : ∀ r ∈ d.idempotency, r.completedAt.isSome = true ∧
    ∃ e ∈ d.entries, r.entryID = some e.id ∧ r.merchantID = e.merchantID

/-- No two entries have one identifier. -/
theorem entries_nodup_id (d : Db) : (d.entries.rows.map EntryRow.id).Nodup := by
  rw [List.Nodup, List.pairwise_map]
  refine d.entries.unique.imp ?_
  intro a b hClash hEq
  rw [entrySchema, decide_eq_false_iff_not] at hClash
  exact hClash (Or.inl hEq)

/-- Nor do two entries of a merchant have one position. -/
theorem positionsOf_nodup (d : Db) (m : UUID) : (d.positionsOf m).Nodup := by
  rw [Db.positionsOf, List.Nodup, List.pairwise_map]
  refine List.Pairwise.imp_of_mem ?_ (d.entries.unique.filter _)
  intro a b ha hb hClash hEq
  have hMerchant : a.merchantID = b.merchantID :=
    (of_decide_eq_true (List.mem_filter.mp ha).2).trans
      (of_decide_eq_true (List.mem_filter.mp hb).2).symm
  rw [entrySchema, decide_eq_false_iff_not] at hClash
  exact hClash (Or.inr (Or.inl ⟨hMerchant, Int64.toInt_inj.mp hEq⟩))

/-- Books that are kept are consistent. -/
theorem Booked.consistent {d : Db} (h : Booked d) : Consistent d where
  numbered m := by
    refine ⟨positionsOf_nodup d m, fun n => ?_⟩
    rw [← h.positions m n]
    simp [Db.positionsOf, Db.entriesOf, Table.mem_def, and_assoc]
  announced e he := by
    have hMem : (e.id, e.merchantID, e.position) ∈
        d.outbox.rows.map fun o => (o.aggregateID, o.merchantID, o.merchantPosition) := by
      rw [h.outbox]
      exact List.mem_map_of_mem he
    obtain ⟨o, ho, hEq⟩ := List.mem_map.mp hMem
    simp only [Prod.mk.injEq] at hEq
    -- the events' entries are the entries, so no two events have the same
    have hIds : (d.outbox.rows.map OutboxRow.aggregateID).Nodup := by
      have hSame := congrArg (List.map Prod.fst) h.outbox
      simp only [List.map_map, Function.comp_def] at hSame
      rw [hSame]
      exact entries_nodup_id d
    refine ⟨o, ho, hEq.1, hEq.2.1, hEq.2.2, fun o' ho' hId => ?_⟩
    exact List.inj_on_of_nodup_map hIds ho' ho (hId.trans hEq.1.symm)
  recorded e he := by
    have hMem : (some e.id, e.merchantID) ∈
        d.idempotency.rows.map fun r => (r.entryID, r.merchantID) := by
      rw [h.records]
      exact List.mem_map_of_mem (f := fun e : EntryRow => (some e.id, e.merchantID)) he
    obtain ⟨r, hr, hEq⟩ := List.mem_map.mp hMem
    simp only [Prod.mk.injEq] at hEq
    -- and no two records are of one entry
    have hIds : (d.idempotency.rows.map IdempotencyRow.entryID).Nodup := by
      have hSame := congrArg (List.map Prod.fst) h.records
      simp only [List.map_map, Function.comp_def] at hSame
      rw [hSame, ← Function.comp_def some EntryRow.id, ← List.map_map]
      exact (entries_nodup_id d).map (Option.some_injective _)
    refine ⟨r, hr, hEq.1, hEq.2, fun r' hr' hId => ?_⟩
    exact List.inj_on_of_nodup_map hIds hr' hr (hId.trans hEq.1.symm)
  completed r hr := by
    obtain ⟨e, he, hId, hMerchant, -, hCompleted⟩ := h.completed hr
    exact ⟨hCompleted, e, he, hId, hMerchant⟩

/-- A request whose transaction fails, at whatever statement and for whatever
reason, returns an error and leaves the tables as they were. -/
theorem run_error {platform : Platform} {env : Env} {req : Request} {d : Db} {tx : Tx EntryResult}
    {attempt : IdempotencyAttempt} {e : LedgerError}
    (hPrepare : req.prepare platform env = .ok (attempt, tx))
    (hExec : ((engine platform.jsonb).withFaults env.fault).exec tx d = .error e) :
    ∃ e', req.run platform env d = (.error e', d) := by
  rw [Request.run, hPrepare]
  show ∃ e', execute platform.jsonb env tx d = (.error e', d)
  unfold execute
  split
  · exact ⟨_, rfl⟩
  · rw [hExec]
    exact ⟨e, rfl⟩

/-- Only the commit of a transaction whose callback succeeded changes the
tables. -/
theorem step_db {platform : Platform} {w w' : LedgerWorld}
    (h : World.Step (engine platform.jsonb) locks (OfRequest platform) w w') :
    w'.db = w.db ∨ ∃ i result writes held,
      w.sessions i = some ⟨.done (.ok result), writes, held⟩ := by
  cases h with
  | commit i h => exact Or.inr ⟨i, _, _, _, h⟩
  | _ => exact Or.inl rfl

/-- Whatever requests run between each other, statement by statement: in the committed
tables a merchant's positions are numbered without gap, and entries, events and
completed records belong to each other one to one; only the commit of a transaction
whose callback succeeded changes them; and a request whose transaction fails answers
an error and leaves them as they were. -/
theorem committed_consistent {platform : Platform} {w : LedgerWorld} (h : Concurrent platform w) :
    Consistent w.db ∧
    (∀ w', World.Step (engine platform.jsonb) locks (OfRequest platform) w w' →
      w'.db = w.db ∨ ∃ i result writes held,
        w.sessions i = some ⟨.done (.ok result), writes, held⟩) ∧
    (∀ env req attempt tx e, Request.prepare platform env req = .ok (attempt, tx) →
      ((engine platform.jsonb).withFaults env.fault).exec tx w.db = .error e →
      ∃ e', req.run platform env w.db = (.error e', w.db)) :=
  ⟨(reached_booked (committed_reached h)).consistent, fun _ hStep => step_db hStep,
    fun _ _ _ _ _ hPrepare hExec => run_error hPrepare hExec⟩

/-- Requests made one after the other are among the interleavings. -/
theorem Concurrent.after {platform : Platform} {d : Db} (h : Concurrent platform (World.start d))
    (env : Env) (req : Request) : Concurrent platform (World.start (req.after platform env d)) := by
  unfold Request.after Request.run
  split
  · exact h
  · rename_i attempt tx hPrepare
    unfold execute
    split
    · exact h
    · -- a transaction that fails leaves the database
      split
      · exact h
      · rename_i result d' hExec
        have hAfter : Concurrent platform (World.start d') :=
          World.reachable_alone (h.next (.begin 0 tx rfl ⟨env, req, attempt, hPrepare⟩))
            (Engine.exec_of_withFaults _ hExec)
        split
        · -- committed, whether the caller learns of it or not
          exact hAfter
        · exact h
        · exact hAfter

/-! ### A sample -/

def utcZone : Zone := ⟨fun _ => 0, fun _ => by decide⟩

/-- A platform whose only zone is UTC. -/
def utcPlatform : Platform := ⟨fun _ => some utcZone, .sorted⟩

/-- A moment without faults; the seed tells identifiers apart. -/
def calmEnv (now : Instant) (seed : UInt8) : Env where
  claimedAt := now
  createdAt := now
  completedAt := now
  attemptEntropy := some fun _ => seed
  entryEntropy := some fun _ => seed + 1
  eventEntropy := some fun _ => seed + 2
  dbNow := now.nanos
  begins := none
  fault _ := none
  commit := .committed

/-- 2026-01-01T00:00:00Z -/
def newYear : Instant := ⟨1767225600000000, by decide⟩

def saleRequest : Request := .create
  { merchantID := "0b2d5c9e-8f1a-4d3b-9c6e-7a8b9c0d1e2f".toList
    idempotencyKey := "sale-1".toList
    type := "credit".toList
    amountMinor := 1500
    currency := "BRL".toList
    businessDate := none
    description := "Sale".toList
    timeZone := []
    traceparent := "00-4bf92f3577b34da6a3ce929d0e0e4736-00f067aa0ba902b7-01".toList }

/-- Other sales of the same merchant. -/
def saleOf (key : Text) (amountMinor : Int64) (date : Option Text) (timeZone : Text) : Request := .create
  { merchantID := "0b2d5c9e-8f1a-4d3b-9c6e-7a8b9c0d1e2f".toList
    idempotencyKey := key
    type := "credit".toList
    amountMinor := amountMinor
    currency := "BRL".toList
    businessDate := date
    description := []
    timeZone := timeZone
    traceparent := "00-4bf92f3577b34da6a3ce929d0e0e4736-00f067aa0ba902b7-01".toList }

def secondSale : Request := saleOf "sale-2".toList 2500 none []

/-- The ledger with one sale. -/
def oneSale : Db := saleRequest.after utcPlatform (calmEnv newYear 0) Db.empty

/-- The ledger with two sales of one merchant. -/
def twoSales : Db := secondSale.after utcPlatform (calmEnv newYear 16) oneSale

/-- The first sale taken back. -/
def refundRequest : Request := .reverse
  { merchantID := "0b2d5c9e-8f1a-4d3b-9c6e-7a8b9c0d1e2f".toList
    originalEntryID := "019b76da-a800-7101-8101-010101010101".toList
    idempotencyKey := "refund-1".toList
    timeZone := []
    traceparent := "00-4bf92f3577b34da6a3ce929d0e0e4736-00f067aa0ba902b7-01".toList }

def saleAndRefund : Db := refundRequest.after utcPlatform (calmEnv newYear 16) oneSale

/-- The transaction of a request at some moment. -/
def transactionOf (platform : Platform) (x : Env × Request) : Option (Tx EntryResult) :=
  (x.2.prepare platform x.1).toOption.map Prod.snd

/-- The transactions of the sample are those of requests. -/
theorem ofRequest_transactionOf {platform : Platform} (x : Env × Request) (tx : Tx EntryResult)
    (h : transactionOf platform x = some tx) : OfRequest platform tx := by
  unfold transactionOf at h
  cases hPrepare : x.2.prepare platform x.1 with
  | error e =>
    rw [hPrepare] at h
    cases h
  | ok prepared =>
    rw [hPrepare] at h
    cases h
    exact ⟨x.1, x.2, prepared.1, hPrepare⟩

/-- Two sales of one merchant between each other: the second asks for its position
while the first holds the counter, and has to wait until the first has committed. -/
def interleavedSales : Bench Stmt Stmt.Result DbError LedgerError EntryResult Db Write Lock :=
  .schedule (transactionOf utcPlatform) (engine utcPlatform.jsonb) locks Db.empty
    [.begin (calmEnv newYear 0, saleRequest), .begin (calmEnv newYear 16, secondSale),
      .next 0, .next 1, .next 0, .next 1, .next 0, .next 0, .next 0, .commit 1, .commit 0,
      .next 1, .next 1, .next 1, .next 1, .commit 1]

/-- Two sales of one merchant whose statements take turns. -/
theorem committed_consistent_interleaved :
    Concurrent utcPlatform interleavedSales.world ∧
      (interleavedSales.db.entries.rows.map fun e => (e.position, e.merchantID.text)) =
        [(1, saleRequest.merchantID), (2, saleRequest.merchantID)] ∧
      Consistent interleavedSales.world.db := by
  have h : Concurrent utcPlatform interleavedSales.world :=
    Bench.reachable_schedule _ ofRequest_transactionOf _ _
  exact ⟨h, by decide +kernel, (committed_consistent h).1⟩

/-! ## Reversals -/

structure ReversalRules (d : Db) : Prop where
  once : ∀ o, ∀ r ∈ d.entries, ∀ r' ∈ d.entries, r.originalEntryID = some o →
    r'.originalEntryID = some o → r = r'
  final : ∀ r ∈ d.entries, r.originalEntryID ≠ none →
    ∀ r' ∈ d.entries, r'.originalEntryID ≠ some r.id
  original : ∀ r ∈ d.entries, ∀ o, r.originalEntryID = some o → ∃ e ∈ d.entries, e.id = o ∧
    r.merchantID = e.merchantID ∧ r.entryType = e.entryType.opposite ∧
    r.amountMinor = e.amountMinor ∧ r.currency = e.currency ∧ e.position < r.position
  balance : ∀ m, signedSum (d.entriesOf m) = signedSum ((d.entriesOf m).filter d.stands)

/-- Reversals that are paired follow the rules. -/
theorem Paired.rules {d : Db} (h : Paired d) : ReversalRules d where
  once o r hr r' hr' hOriginal hOriginal' := by
    refine Table.eq_of_clash hr hr' (decide_eq_true (Or.inr (Or.inr ⟨?_, ?_⟩)))
    · rw [hOriginal]
      exact Option.some_ne_none o
    · rw [hOriginal, hOriginal']
  final r hr hReversal r' hr' hOriginal := by
    -- what `r'` takes back is no reversal, and it would be `r`
    obtain ⟨e, he, hTakes⟩ := h.original r' hr' (by rw [hOriginal]; exact Option.some_ne_none _)
    have hId : e.id = r.id := Option.some.inj (hTakes.id.symm.trans hOriginal)
    exact hReversal (entry_eq_of_id he hr hId ▸ hTakes.root)
  original r hr o hOriginal := by
    obtain ⟨e, he, hTakes⟩ := h.original r hr (by rw [hOriginal]; exact Option.some_ne_none _)
    exact ⟨e, he, Option.some.inj (hTakes.id.symm.trans hOriginal), hTakes.merchantID,
      hTakes.entryType, hTakes.amountMinor, hTakes.currency, hTakes.position⟩
  balance := h.balance

/-- Whatever requests run between each other: an entry is reversed at most once and a
reversal never, a reversal mirrors its original, and what is reversed adds nothing to
a merchant's balance. -/
theorem committed_reversals {platform : Platform} {w : LedgerWorld} (h : Concurrent platform w) :
    ReversalRules w.db :=
  (reached_paired (committed_reached h)).rules

/-- A sale and its refund. -/
theorem committed_reversals_refund :
    Concurrent utcPlatform (World.start saleAndRefund) ∧
      (∃ r ∈ saleAndRefund.entries.rows, r.originalEntryID ≠ none) ∧
      ReversalRules saleAndRefund := by
  have h : Concurrent utcPlatform (World.start saleAndRefund) :=
    Concurrent.after (Concurrent.after .start _ _) _ _
  have hRules := committed_reversals h
  rw [World.start_db] at hRules
  exact ⟨h, by decide +kernel, hRules⟩

end Cashflow.Ledger
