import Cashflow.Reconciliation.Worker

/-!
# Reconciliation — reading the ledger's stream

`streamSourceEntries` makes up to three attempts at the stream. What the worker
makes of one attempt is the aggregate of the entries it received; an entry without
an id ends the attempt as if the stream had ended.

* `receive_named`, `foldl_add`, `lookup_foldl_add` — what an attempt without such an
  entry accumulates;
* `source_is_whole_iff` — a source that was read is that of one attempt read to its
  end, and no other attempt counts, exactly when no attempt received an entry
  without an id;
* `nameless_entry_ends_stream` — a prefix that passes for the whole.
-/

namespace Cashflow.Reconciliation

open Lib Consolidation

variable {dateStr : Text}

/-! ## One attempt -/

/-- A stream of named entries adds up those of the day, if it is complete. -/
theorem receive_named {complete : Bool} {acc : Source} {items : List SourceEntry}
    (hNamed : ∀ e ∈ items, e.entryID ≠ []) :
    receive dateStr complete acc items =
      if complete then some ((items.filter (·.businessDate = dateStr)).foldl Source.add acc)
      else none := by
  induction items generalizing acc with
  | nil => rfl
  | cons e items ih =>
    have hTail : ∀ e ∈ items, e.entryID ≠ [] := fun e he => hNamed e (List.mem_cons_of_mem _ he)
    rw [receive, if_neg (hNamed e List.mem_cons_self)]
    by_cases hDate : e.businessDate = dateStr
    · rw [if_neg (not_not.mpr hDate), ih hTail, List.filter_cons_of_pos (by simpa using hDate)]
      rfl
    · rw [if_pos hDate, ih hTail, List.filter_cons_of_neg (by simpa using hDate)]

/-! ## What the accumulator holds -/

def creditOf (e : SourceEntry) : Int := if e.type = entryTypeCredit then e.amountMinor.toInt else 0
def debitOf (e : SourceEntry) : Int := if e.type = entryTypeDebit then e.amountMinor.toInt else 0

theorem add_credits (acc : Source) (e : SourceEntry) :
    (acc.add e).credits = acc.credits + Int64.ofInt (creditOf e) := by
  unfold Source.add creditOf
  dsimp only
  split <;> simp

theorem add_debits (acc : Source) (e : SourceEntry) :
    (acc.add e).debits = acc.debits + Int64.ofInt (debitOf e) := by
  unfold Source.add debitOf
  dsimp only
  split <;> simp

/-- Adding `int64` amounts one at a time is adding them exactly and wrapping once. -/
theorem foldl_add (entries : List SourceEntry) (acc : Source) :
    (entries.foldl Source.add acc).credits =
        acc.credits + Int64.ofInt (entries.map creditOf).sum ∧
      (entries.foldl Source.add acc).debits =
        acc.debits + Int64.ofInt (entries.map debitOf).sum := by
  induction entries generalizing acc with
  | nil => simp
  | cons e entries ih =>
    rw [List.foldl_cons, (ih _).1, (ih _).2, add_credits, add_debits, List.map_cons, List.map_cons,
      List.sum_cons, List.sum_cons, Int64.ofInt_add, Int64.ofInt_add, Int64.add_assoc, Int64.add_assoc]
    exact ⟨rfl, rfl⟩

/-- The entries that were counted. -/
theorem mem_foldl_add {entries : List SourceEntry} {acc : Source} {id : Text} :
    id ∈ (entries.foldl Source.add acc).entries ↔
      id ∈ acc.entries ∨ id ∈ entries.map (·.entryID) := by
  induction entries generalizing acc with
  | nil => simp
  | cons e entries ih =>
    rw [List.foldl_cons, ih, Source.add, AList.mem_insert, List.map_cons, List.mem_cons]
    tauto

/-- Entries with distinct ids are the keys of the map, in some order. -/
theorem keys_foldl_add {entries : List SourceEntry} (hIDs : (entries.map (·.entryID)).Nodup) :
    (entries.foldl Source.add .empty).entries.keys.Perm (entries.map (·.entryID)) := by
  refine (List.perm_ext_iff_of_nodup (AList.keys_nodup _) hIDs).mpr fun id => ?_
  rw [← AList.mem_keys, mem_foldl_add]
  simp [Source.empty]

/-- The last entry of an id is the one kept. -/
theorem lookup_foldl_add (entries : List SourceEntry) (acc : Source) (id : Text) :
    (entries.foldl Source.add acc).entries.lookup id =
      (entries.reverse.find? fun e => decide (e.entryID = id)).or (acc.entries.lookup id) := by
  induction entries using List.reverseRecOn with
  | nil => rfl
  | append_singleton entries e ih =>
    rw [List.foldl_append, List.reverse_append, List.reverse_singleton, List.singleton_append]
    show ((entries.foldl Source.add acc).entries.insert e.entryID e).lookup id = _
    by_cases hID : e.entryID = id
    · subst hID
      rw [AList.lookup_insert, List.find?_cons_of_pos (by simp)]
      rfl
    · rw [AList.lookup_insert_ne (Ne.symm hID), ih, List.find?_cons_of_neg (by simpa using hID)]

/-- What the worker should make of a stream: the entries of the date by id, and
their credits and debits, as `int64` adds them. -/
structure Aggregates (dateStr : Text) (items : List SourceEntry) (source : Source) : Prop where
  entries : ∀ id, source.entries.lookup id =
    (items.filter (·.businessDate = dateStr)).reverse.find? fun e => decide (e.entryID = id)
  credits : source.credits =
    Int64.ofInt ((items.filter (·.businessDate = dateStr)).map creditOf).sum
  debits : source.debits = Int64.ofInt ((items.filter (·.businessDate = dateStr)).map debitOf).sum

/-- Adding up a day's entries aggregates them. -/
theorem aggregates_foldl (items : List SourceEntry) : Aggregates dateStr items
    ((items.filter (·.businessDate = dateStr)).foldl Source.add .empty) where
  entries id := by
    rw [lookup_foldl_add]
    exact Option.or_none
  credits := by
    rw [(foldl_add _ _).1]
    exact Int64.zero_add _
  debits := by
    rw [(foldl_add _ _).2]
    exact Int64.zero_add _

/-- An entry without an id ends the attempt, and ends it well. -/
theorem receive_nameless {complete : Bool} {acc : Source} {items : List SourceEntry}
    (h : ∃ e ∈ items, e.entryID = []) : receive dateStr complete acc items ≠ none := by
  induction items generalizing acc with
  | nil => simp at h
  | cons e items ih =>
    rw [receive]
    -- the nameless entry ends the stream early, as if it were complete
    by_cases hName : e.entryID = []
    · rw [if_pos hName]
      exact nofun
    · have hRest : ∃ e ∈ items, e.entryID = [] := by
        obtain ⟨f, hf, hNameless⟩ := h
        rcases List.mem_cons.mp hf with rfl | hf
        · exact absurd hNameless hName
        · exact ⟨f, hf, hNameless⟩
      rw [if_neg hName]
      -- an entry of another day is passed over
      split
      · exact ih hRest
      · exact ih hRest

namespace Attempt

/-- No entry without an id is received. -/
def Named (a : Attempt) : Prop := a.opened = true → ∀ e ∈ a.items, e.entryID ≠ []

/-- The worker receives every entry and then the end of the stream. -/
structure ReadToEnd (a : Attempt) : Prop where
  opened : a.opened = true
  named : ∀ e ∈ a.items, e.entryID ≠ []
  complete : a.complete = true

variable {a : Attempt}

theorem attemptStream_of_readToEnd (h : a.ReadToEnd) : attemptStream dateStr a =
    some ((a.items.filter (·.businessDate = dateStr)).foldl Source.add .empty) := by
  rw [attemptStream, if_pos h.opened, receive_named h.named, if_pos h.complete]

/-- An attempt of named entries that brought a source was read to its end. -/
theorem readToEnd_of_named (hNamed : a.Named) {source : Source}
    (h : attemptStream dateStr a = some source) : a.ReadToEnd := by
  unfold attemptStream at h
  split at h
  · rename_i hOpened
    rw [receive_named (hNamed hOpened)] at h
    split at h
    · rename_i hComplete
      exact ⟨hOpened, hNamed hOpened, hComplete⟩
    · cases h
  · cases h

/-- A nameless entry always ends an attempt with a source. -/
theorem attemptStream_of_nameless (h : ¬ a.Named) : attemptStream dateStr a ≠ none := by
  simp only [Named, not_forall, not_not] at h
  obtain ⟨hOpened, e, he, hNameless⟩ := h
  rw [attemptStream, if_pos hOpened]
  exact receive_nameless ⟨e, he, hNameless⟩

end Attempt

/-! ## The attempts of a call -/

/-- The attempts that are made: up to the first that succeeds or finds the context
ended. -/
def attemptsMade (dateStr : Text) : List Attempt → List Attempt
  | [] => []
  | a :: rest =>
    match attemptStream dateStr a with
    | some _ => [a]
    | none => if a.cancelled then [a] else a :: attemptsMade dateStr rest

/-- A call succeeds with what its last attempt accumulated; all before it failed. -/
theorem streamSourceEntries_last {attempts : List Attempt} {source : Source}
    (h : streamSourceEntries dateStr attempts = some source) :
    ∃ before a, attemptsMade dateStr attempts = before ++ [a] ∧
      attemptStream dateStr a = some source ∧ ∀ b ∈ before, attemptStream dateStr b = none := by
  induction attempts with
  | nil => cases h
  | cons a rest ih =>
    cases hAttempt : attemptStream dateStr a with
    | some read =>
      simp only [streamSourceEntries, hAttempt, Option.some.injEq] at h
      refine ⟨[], a, ?_, by rw [← h, hAttempt], nofun⟩
      simp only [attemptsMade, hAttempt, List.nil_append]
    | none =>
      simp only [streamSourceEntries, hAttempt] at h
      split at h
      · -- cancelled between two attempts
        cases h
      · rename_i hGoesOn
        obtain ⟨before, last, hMade, hLast, hBefore⟩ := ih h
        refine ⟨a :: before, last, ?_, hLast, ?_⟩
        · simp only [attemptsMade, hAttempt, hMade, if_neg hGoesOn, List.cons_append]
        · exact List.forall_mem_cons.mpr ⟨hAttempt, hBefore⟩

/-- No source means that no attempt brought one. -/
theorem streamSourceEntries_none {attempts : List Attempt}
    (h : streamSourceEntries dateStr attempts = none) :
    ∀ a ∈ attemptsMade dateStr attempts, attemptStream dateStr a = none := by
  induction attempts with
  | nil => exact nofun
  | cons a rest ih =>
    cases hAttempt : attemptStream dateStr a with
    | some read =>
      simp only [streamSourceEntries, hAttempt] at h
      cases h
    | none =>
      simp only [streamSourceEntries, hAttempt] at h
      simp only [attemptsMade, hAttempt]
      split at h
      · rename_i hCancelled
        rw [if_pos hCancelled]
        exact List.forall_mem_singleton.mpr hAttempt
      · rename_i hGoesOn
        rw [if_neg hGoesOn]
        exact List.forall_mem_cons.mpr ⟨hAttempt, ih h⟩

/-- The claim of one call of `streamSourceEntries`: what it returns is the aggregate
of one attempt that was read to its end while all others failed, and without such
an attempt it fails. -/
structure SourceIsWhole (dateStr : Text) (attempts : List Attempt) : Prop where
  whole : ∀ source, streamSourceEntries dateStr attempts = some source →
    ∃ a ∈ attemptsMade dateStr attempts, a.ReadToEnd ∧ Aggregates dateStr a.items source ∧
      ∀ b ∈ attemptsMade dateStr attempts, b.ReadToEnd → b = a
  fails : (∀ a ∈ attemptsMade dateStr attempts, ¬ a.ReadToEnd) →
    streamSourceEntries dateStr attempts = none

/-- The source read in up to three attempts is whole if and only if no attempt that
was made received an entry without an id. -/
theorem source_is_whole_iff (dateStr : Text) (attempts : List Attempt) :
    SourceIsWhole dateStr (attempts.take maxStreamAttempts) ↔
      ∀ a ∈ attemptsMade dateStr (attempts.take maxStreamAttempts), a.Named := by
  generalize attempts.take maxStreamAttempts = made
  constructor
  · intro hWhole a ha
    by_contra hNameless
    have hRead : attemptStream dateStr a ≠ none := Attempt.attemptStream_of_nameless hNameless
    cases hResult : streamSourceEntries dateStr made with
    | none => exact hRead (streamSourceEntries_none hResult a ha)
    | some source =>
      -- the attempt with the nameless entry is the last one, and no other is read to its end
      obtain ⟨before, last, hMade, hLast, hBefore⟩ := streamSourceEntries_last hResult
      obtain ⟨b, hb, hEnd, -⟩ := hWhole.whole source hResult
      have hIsLast : ∀ c ∈ attemptsMade dateStr made, attemptStream dateStr c ≠ none →
          c = last := by
        intro c hc hSome
        rw [hMade, List.mem_append, List.mem_singleton] at hc
        rcases hc with hc | hc
        · exact absurd (hBefore c hc) hSome
        · exact hc
      have hb : b = last := by
        refine hIsLast b hb ?_
        rw [Attempt.attemptStream_of_readToEnd hEnd]
        exact nofun
      rw [hIsLast a ha hRead, ← hb] at hNameless
      exact hNameless fun _ => hEnd.named
  · intro hNamed
    refine ⟨fun source hSource => ?_, fun hNone => ?_⟩
    · -- the source is that of the last attempt
      obtain ⟨before, last, hMade, hLast, hBefore⟩ := streamSourceEntries_last hSource
      have hMem : last ∈ attemptsMade dateStr made := by
        rw [hMade]
        exact List.mem_append_right _ (List.mem_singleton_self last)
      have hEnd := Attempt.readToEnd_of_named (hNamed last hMem) hLast
      rw [Attempt.attemptStream_of_readToEnd hEnd, Option.some.injEq] at hLast
      refine ⟨last, hMem, hEnd, hLast ▸ aggregates_foldl last.items, fun b hb hbEnd => ?_⟩
      rw [hMade, List.mem_append, List.mem_singleton] at hb
      -- an earlier attempt that was read to its end would have brought a source
      rcases hb with hb | hb
      · have hFailed := hBefore b hb
        rw [Attempt.attemptStream_of_readToEnd hbEnd] at hFailed
        cases hFailed
      · exact hb
    · cases hResult : streamSourceEntries dateStr made with
      | none => rfl
      | some source =>
        obtain ⟨before, last, hMade, hLast, -⟩ := streamSourceEntries_last hResult
        have hMem : last ∈ attemptsMade dateStr made := by
          rw [hMade]
          exact List.mem_append_right _ (List.mem_singleton_self last)
        exact absurd (Attempt.readToEnd_of_named (hNamed last hMem) hLast) (hNone last hMem)

/-- A credit of one on the first day of 1970. -/
def creditOfOne (entryID : String) : SourceEntry where
  entryID := entryID.toList
  merchantID := "0b2d5c9e-8f1a-4d3b-9c6e-7a8b9c0d1e2f".toList
  merchantPosition := 1
  type := entryTypeCredit
  amountMinor := 1
  currency := "BRL".toList
  businessDate := "1970-01-01".toList
  confirmedAt := 0
  originalEntryID := []

/-- A response without an entry, as `EntryStream.Recv` returns it. -/
def namelessEntry : SourceEntry :=
  ⟨[], [], 0, 0, 0, [], [], zeroTime, []⟩

/-- The first attempt breaks off behind an entry, the second is read to its end:
the source is whole. -/
theorem source_is_whole_iff_second_attempt :
    SourceIsWhole "1970-01-01".toList
      (List.take maxStreamAttempts [⟨true, [creditOfOne "a"], false, false⟩,
        ⟨true, [creditOfOne "a", creditOfOne "b"], true, false⟩]) :=
  (source_is_whole_iff _ _).mpr (by
    intro a ha
    have hMade : a = ⟨true, [creditOfOne "a"], false, false⟩ ∨
        a = ⟨true, [creditOfOne "a", creditOfOne "b"], true, false⟩ := by
      simpa [attemptsMade, attemptStream, receive, maxStreamAttempts, creditOfOne] using ha
    rcases hMade with rfl | rfl <;> intro _ e he <;>
      simp only [List.mem_cons, List.not_mem_nil, or_false] at he
    · subst he
      exact nofun
    · rcases he with rfl | rfl <;> exact nofun)

/-- A response without an entry in the middle of a stream that breaks off later:
none of the three attempts was read to its end, and the call succeeds with the
entries in front. -/
theorem nameless_entry_ends_stream :
    let broken : Attempt := ⟨true, [creditOfOne "a", namelessEntry, creditOfOne "b"], false, false⟩
    ((streamSourceEntries "1970-01-01".toList
        (List.take maxStreamAttempts [broken, broken, broken])).map fun source =>
      (source.entries.keys, source.credits)) = some (["a".toList], 1) := by
  decide +kernel

end Cashflow.Reconciliation
