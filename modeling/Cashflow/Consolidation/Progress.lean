import Cashflow.Consolidation.Totals

/-!
# Consolidation — the progress row follows the received positions

Main results:

* `after_progress` — in every state a run reaches, the source position is the
  greatest received one, the applied position ends the contiguous prefix, and
  the first gap is where it ends;
* `received_iff_committed` — a position is received exactly when a delivery
  that carried it committed;
* `progress_follows_receipts` — so the row depends on the set of received
  positions only, and the applied position never goes back.
-/

namespace Cashflow.Consolidation

open Lib

variable {env : Env} {s s' : Store} {event : EntryConfirmed}

/-! ## One advance -/

/-- A position is received if there is a receipt of it. -/
theorem received_iff {receipts : Table receiptSchema} {m : Text} {q : Int} :
    received receipts m q = true ↔
      ∃ t ∈ receipts, t.merchantID = m ∧ t.position.toInt = q := by
  simp [received, Table.mem_def]

/-- And positions start at one. -/
theorem received_pos {receipts : Table receiptSchema} {m : Text} {q : Int}
    (h : received receipts m q = true) : 1 ≤ q := by
  obtain ⟨t, ht, -, rfl⟩ := received_iff.mp h
  exact Int64.lt_iff_toInt_lt.mp (of_decide_eq_true (receipts.checked t ht))

/-- A new event adds its own position. -/
theorem received_applied (h : Applied env event s s') {m : Text} {q : Int} :
    received s'.receipts m q = true ↔ received s.receipts m q = true ∨
      (event.merchantID = m ∧ event.merchantPosition.toInt = q) := by
  simp only [received_iff, Table.mem_def, h.receipts, List.mem_append, List.mem_singleton]
  constructor
  · rintro ⟨t, ht | rfl, hKey⟩
    · exact .inl ⟨t, ht, hKey⟩
    · exact .inr hKey
  · rintro (⟨t, ht, hKey⟩ | hKey)
    · exact ⟨t, .inl ht, hKey⟩
    · exact ⟨event.receipt, .inr rfl, hKey⟩

/-- The row describes the positions seen. -/
structure Describes (seen : Int → Bool) (p : MerchantProgress) : Prop where
  source : IsGreatest {q | seen q = true} p.sourcePosition
  applied : IsGreatest {q | Prefix seen q} p.appliedPosition
  gap : p.firstGap =
    if p.appliedPosition < p.sourcePosition then some (p.appliedPosition + 1) else none

/-- What an advance needs of the row it starts from; the initial row of a
merchant has it too. -/
structure Behind (seen : Int → Bool) (p : MerchantProgress) : Prop where
  bound : ∀ q, seen q = true → q ≤ p.sourcePosition
  source : p.sourcePosition = 0 ∨ seen p.sourcePosition = true
  applied : Prefix seen p.appliedPosition

/-- A row that describes the receipts is not ahead of them. -/
theorem Describes.behind {seen : Int → Bool} {p : MerchantProgress} (h : Describes seen p) :
    Behind seen p :=
  ⟨fun _ hq => h.source.2 hq, .inr h.source.1, h.applied.1⟩

/-- Nor is a merchant's first row. -/
theorem behind_initial {seen : Int → Bool} (m : Text) (now : Int) (h : ∀ q, ¬ seen q = true) :
    Behind seen (initialProgress m now) :=
  ⟨fun q hq => absurd hq (h q), .inl rfl, prefix_zero seen⟩

/-- Rows that describe the same positions agree. -/
theorem Describes.unique {seen : Int → Bool} {p p' : MerchantProgress} (h : Describes seen p)
    (h' : Describes seen p') :
    p.sourcePosition = p'.sourcePosition ∧ p.appliedPosition = p'.appliedPosition ∧
      p.firstGap = p'.firstGap := by
  have hSource := h.source.unique h'.source
  have hApplied := h.applied.unique h'.applied
  exact ⟨hSource, hApplied, by rw [h.gap, h'.gap, hSource, hApplied]⟩

/-- What is received without a gap stays so as more is received. -/
theorem prefix_mono {seen seen' : Int → Bool} (h : ∀ q, seen q = true → seen' q = true) {p : Int}
    (hp : Prefix seen p) : Prefix seen' p :=
  ⟨hp.1, fun q h1 h2 => h q (hp.2 q h1 h2)⟩

/-- The advance of a new event brings the row up to date. -/
theorem describes_advanced (h : Applied env event s s') {row : MerchantProgress}
    (hRow : Behind (received s.receipts event.merchantID) row) (now : Int) :
    Describes (received s'.receipts event.merchantID)
      (advanced s'.receipts event now row) := by
  have hNew : received s'.receipts event.merchantID event.merchantPosition.toInt = true :=
    (received_applied h).mpr (.inr ⟨rfl, rfl⟩)
  have hOld : ∀ q, received s.receipts event.merchantID q = true →
      received s'.receipts event.merchantID q = true :=
    fun q hq => (received_applied h).mpr (.inl hq)
  have hBound : ∀ q, received s'.receipts event.merchantID q = true →
      q ≤ max row.sourcePosition event.merchantPosition.toInt := by
    intro q hq
    -- received before, or this very position
    rcases (received_applied h).mp hq with hq | ⟨-, rfl⟩
    · exact le_max_of_le_left (hRow.bound q hq)
    · exact le_max_right _ _
  refine ⟨⟨?_, hBound⟩, ?_, rfl⟩
  · -- the maximum is the new position or the old source, and both are received
    show received s'.receipts event.merchantID (max row.sourcePosition _) = true
    rcases max_choice row.sourcePosition event.merchantPosition.toInt with hMax | hMax
    · rw [hMax]
      rcases hRow.source with hZero | hReceived
      · have hPos := received_pos hNew
        rw [hZero] at hMax
        omega
      · exact hOld _ hReceived
    · rw [hMax]
      exact hNew
  · -- the prefix of before still holds, and the search goes on from there
    refine contiguous_isGreatest (prefix_mono hOld hRow.applied) fun q hq => ?_
    have := hBound q hq
    omega

/-! ## Every reachable state -/

/-- Every progress row describes its merchant's receipts, and every receipt's
merchant has a row. -/
structure Store.Progressed (s : Store) : Prop where
  describes : ∀ p ∈ s.progress, Describes (received s.receipts p.merchantID) p
  covered : ∀ t ∈ s.receipts, ∃ p ∈ s.progress, p.merchantID = t.merchantID

/-- The row that is about to be advanced is not ahead of the receipts. -/
theorem behind_progressFor (h : s.Progressed) {m : Text} {now : Int} {row : MerchantProgress}
    (hRow : row ∈ progressFor s m now) : Behind (received s.receipts row.merchantID) row := by
  rcases Table.mem_insertOrIgnore.mp hRow with hRow | ⟨hFree, rfl⟩
  · exact (h.describes row hRow).behind
  · -- a merchant without a row has no receipts
    refine behind_initial m now fun q hq => ?_
    obtain ⟨t, ht, hMerchant, -⟩ := received_iff.mp hq
    obtain ⟨p, hp, hKey⟩ := h.covered t ht
    have hClash := Table.conflicts_eq_false.mp hFree p hp
    simp [progressSchema, hKey, hMerchant] at hClash

/-- Another merchant has received nothing new. -/
theorem received_other (h : Applied env event s s') {m : Text} (hm : m ≠ event.merchantID) :
    received s'.receipts m = received s.receipts m := by
  funext q
  rw [Bool.eq_iff_iff, received_applied h]
  simp [hm.symm]

/-- An applied event leaves every row describing its merchant's receipts. -/
theorem progressed_applied (hInv : s.Progressed) (h : Applied env event s s') : s'.Progressed := by
  obtain ⟨row, hRow, hKey, hProgress⟩ := h.progress
  have hBehind := behind_progressFor hInv hRow
  rw [hKey] at hBehind
  have hDescribes := describes_advanced h hBehind env.now
  constructor
  · -- the merchant's own row was advanced
    intro p hp
    rw [Table.mem_def, hProgress] at hp
    obtain ⟨p₀, hp₀, rfl⟩ := List.mem_map.mp hp
    rw [setProgress_key]
    unfold setProgress
    split_ifs with hSame
    · rw [show p₀.merchantID = event.merchantID from hSame.trans hKey]
      exact hDescribes
    · -- another merchant's row: it was there, and its receipts did not change
      have hOther : p₀.merchantID ≠ event.merchantID := fun hEq => hSame (hEq.trans hKey.symm)
      rw [received_other h hOther]
      rcases Table.mem_insertOrIgnore.mp hp₀ with hOld | ⟨-, rfl⟩
      · exact hInv.describes p₀ hOld
      · exact absurd rfl hOther
  · intro t ht
    obtain ⟨p, hp, hpKey⟩ : ∃ p ∈ progressFor s event.merchantID env.now,
        p.merchantID = t.merchantID := by
      rw [Table.mem_def, h.receipts, List.mem_append, List.mem_singleton] at ht
      rcases ht with ht | rfl
      · obtain ⟨p, hp, hpKey⟩ := hInv.covered t ht
        exact ⟨p, Table.mem_insertOrIgnore.mpr (.inl hp), hpKey⟩
      · exact ⟨row, hRow, hKey⟩
    obtain ⟨q, hq, hqKey⟩ := setProgress_mem _ hp
    exact ⟨q, by rw [Table.mem_def, hProgress]; exact hq, hqKey.trans hpKey⟩

/-- So every run does. -/
theorem after_progress (calls : List Call) : (Store.after calls).Progressed := by
  refine after_invariant Store.Progressed (fun _ _ => True)
    ⟨fun p hp => absurd hp (Table.not_mem_empty p), fun t ht => absurd ht (Table.not_mem_empty t)⟩
    (fun hInv _ _ h => progressed_applied hInv h) ?_ calls (along_of_forall _ fun _ _ _ => trivial)
  intro s s' job next hInv _ hDone
  exact ⟨by rw [hDone.progress, hDone.receipts]; exact hInv.describes,
    by rw [hDone.progress, hDone.receipts]; exact hInv.covered⟩

/-! ## Received means committed -/

/-- The event a call got committed, new or not. -/
def Call.committed (s : Store) : Call → Option EntryConfirmed
  | .apply env event =>
    match applyTx env s event with
    | .ok _ => if env.commit = .rolledBack then none else some event.canonical
    | .error _ => none
  | .resumeNext _ _ => none

/-- The events a run got committed. -/
def committedFrom (s : Store) : List Call → List EntryConfirmed
  | [] => []
  | c :: calls => (c.committed s).toList ++ committedFrom (s.exec c) calls

/-- The events committed by one run after another. -/
theorem committedFrom_append (calls later : List Call) (s : Store) :
    committedFrom s (calls ++ later) =
      committedFrom s calls ++ committedFrom (run Store.exec s calls) later := by
  induction calls generalizing s with
  | nil => rfl
  | cons c calls ih =>
    rw [List.cons_append, committedFrom, committedFrom, ih, run_cons, List.append_assoc]

/-- A transaction that reaches its commit leaves its position received. -/
theorem received_applyTx (hLinked : s.Linked) {r : ProjectionResult}
    (h : applyTx env s event = .ok (r, s')) {m : Text} {q : Int} :
    received s'.receipts m q = true ↔ received s.receipts m q = true ∨
      (event.canonical.merchantID = m ∧ event.canonical.merchantPosition.toInt = q) := by
  obtain ⟨-, ⟨-, ⟨row, hRow⟩, rfl⟩ | ⟨-, hApplied⟩⟩ := applyTx_ok h
  · -- a duplicate has its receipt already
    refine ⟨.inl, fun h => h.elim id ?_⟩
    rintro ⟨rfl, rfl⟩
    exact received_iff.mpr ⟨row.event.receipt, hLinked.mem.mpr ⟨row, hRow.mem, rfl⟩,
      hRow.merchantID, congrArg Int64.toInt hRow.merchantPosition⟩
  · exact received_applied hApplied

/-- A call adds the position of the event it commits, and no other. -/
theorem received_exec (hTracked : s.Tracked) (hLinked : s.Linked) (c : Call) {m : Text} {q : Int} :
    received (s.exec c).receipts m q = true ↔ received s.receipts m q = true ∨
      ∃ e, c.committed s = some e ∧ e.merchantID = m ∧ e.merchantPosition.toInt = q := by
  cases c with
  | apply env event =>
    cases hTx : applyTx env s event with
    | error error => simp [Store.exec, apply_of_error hTx, Call.committed, hTx]
    | ok outcome =>
      have hTx' := received_applyTx hLinked hTx (m := m) (q := q)
      cases hCommit : env.commit <;>
        simp [Store.exec, apply, commit, Call.committed, hTx, hCommit, hTx']
  | resumeNext env merchantID =>
    have hSame : (s.exec (.resumeNext env merchantID)).receipts = s.receipts := by
      rcases exec_cases hTracked (.resumeNext env merchantID) with h | ⟨_, _, h, -⟩ | ⟨_, _, -, h⟩
      · rw [h]
      · cases h
      · exact h.receipts
    simp [hSame, Call.committed]

/-- What is received is what was committed. -/
theorem received_iff_committed (calls : List Call) {m : Text} {q : Int} :
    received (Store.after calls).receipts m q = true ↔
      ∃ e ∈ committedFrom Store.empty calls, e.merchantID = m ∧ e.merchantPosition.toInt = q := by
  induction calls using List.reverseRecOn with
  | nil => simp [Store.after, Store.empty, received, committedFrom]
  | append_singleton calls c ih =>
    have hAfter : Store.after (calls ++ [c]) = (Store.after calls).exec c := by
      rw [Store.after, run_append]
      rfl
    rw [hAfter, received_exec (after_tracked calls) (after_linked calls), ih, committedFrom_append]
    simp only [committedFrom, List.append_nil, List.mem_append, Option.mem_toList, or_and_right,
      exists_or]
    rfl

/-- In every state a run of deliveries reaches: the positions with a receipt
are those of the committed deliveries; the source position is the greatest of
them, the applied position is the greatest one below which none is missing, and
the first gap is the one after it; every merchant with a receipt has its row.
The row is a function of the set of positions, and the applied position never
goes back. -/
theorem progress_follows_receipts (calls : List Call) :
    let s := Store.after calls
    (∀ m q, received s.receipts m q = true ↔
      ∃ e ∈ committedFrom Store.empty calls, e.merchantID = m ∧ e.merchantPosition.toInt = q) ∧
    (∀ p ∈ s.progress,
      IsGreatest {q | received s.receipts p.merchantID q = true} p.sourcePosition ∧
      IsGreatest {q | 0 ≤ q ∧ ∀ i, 1 ≤ i → i ≤ q → received s.receipts p.merchantID i = true}
        p.appliedPosition ∧
      p.firstGap =
        if p.appliedPosition < p.sourcePosition then some (p.appliedPosition + 1) else none) ∧
    (∀ m, (∃ q, received s.receipts m q = true) → ∃ p ∈ s.progress, p.merchantID = m) ∧
    (∀ calls', ∀ p ∈ s.progress, ∀ p' ∈ (Store.after calls').progress,
      (∀ q, received s.receipts p.merchantID q =
        received (Store.after calls').receipts p'.merchantID q) →
      p.sourcePosition = p'.sourcePosition ∧ p.appliedPosition = p'.appliedPosition ∧
        p.firstGap = p'.firstGap) ∧
    (∀ later, ∀ p ∈ s.progress, ∃ p' ∈ (Store.after (calls ++ later)).progress,
      p'.merchantID = p.merchantID ∧ p.appliedPosition ≤ p'.appliedPosition) := by
  intro s
  have hInv := after_progress calls
  refine ⟨fun m q => received_iff_committed calls, ?_, ?_, ?_, ?_⟩
  · intro p hp
    exact ⟨(hInv.describes p hp).source, (hInv.describes p hp).applied, (hInv.describes p hp).gap⟩
  · rintro m ⟨q, hq⟩
    obtain ⟨t, ht, rfl, -⟩ := received_iff.mp hq
    exact hInv.covered t ht
  · -- what a row says is determined by the receipts
    intro calls' p hp p' hp' hSame
    have h := hInv.describes p hp
    rw [funext hSame] at h
    exact h.unique ((after_progress calls').describes p' hp')
  · intro later p hp
    have hLater := after_progress (calls ++ later)
    -- what was received stays received
    have hGrow : ∀ q, received s.receipts p.merchantID q = true →
        received (Store.after (calls ++ later)).receipts p.merchantID q = true := by
      intro q hq
      obtain ⟨e, he, hKey⟩ := (received_iff_committed calls).mp hq
      refine (received_iff_committed _).mpr ⟨e, ?_, hKey⟩
      rw [committedFrom_append]
      exact List.mem_append_left _ he
    have h := hInv.describes p hp
    obtain ⟨t, ht, hKey, -⟩ := received_iff.mp (hGrow _ h.source.1)
    obtain ⟨p', hp', hKey'⟩ := hLater.covered t ht
    have hSame : p'.merchantID = p.merchantID := hKey'.trans hKey
    refine ⟨p', hp', hSame, (hLater.describes p' hp').applied.2 ?_⟩
    rw [hSame]
    exact prefix_mono hGrow h.applied.1

/-- The second position arrives first. -/
theorem progress_follows_receipts_gap :
    let first : List Call := [.apply (steady 1) (sampleCredit '2' 2 0 100)]
    let row : MerchantProgress := ⟨sampleID 'a', 2, 0, some 1, 0⟩
    row ∈ (Store.after first).progress ∧
      IsGreatest {q | received (Store.after first).receipts (sampleID 'a') q = true} 2 ∧
      ∃ p ∈ (Store.after (first ++ [.apply (steady 2) (sampleCredit '1' 1 0 100)])).progress,
        p.merchantID = sampleID 'a' ∧ 0 ≤ p.appliedPosition := by
  intro first row
  have hRow : row ∈ (Store.after first).progress := by decide +kernel
  obtain ⟨-, hDescribes, -, -, hLater⟩ := progress_follows_receipts first
  exact ⟨hRow, (hDescribes row hRow).1, hLater _ row hRow⟩

end Cashflow.Consolidation
