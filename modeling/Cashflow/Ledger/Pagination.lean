import Cashflow.Ledger.Consistency
import Cashflow.Ledger.Listing

/-!
# Ledger — the pages show one snapshot

The ledger grows between the pages: later entries, back-dated ones and
reversals among them, have positions past the high-water mark, so the rows a
page is cut from stay the same (`matching_grown`). The cursor gives back the
sort key it was made from, hence a page begins where the one before it ended.

Main result: `pages_show_snapshot`.
-/

namespace Cashflow.Ledger

open Lib

variable {platform : Platform}

/-! ## Rows read back -/

/-- What `ListEntries` shows of a row and its reversal. -/
def EntryRow.result (e : EntryRow) (reversal : Option UUID) : EntryResult where
  id := e.id.text
  merchantID := e.merchantID.text
  position := e.position
  type := e.entryType.text
  amountMinor := e.amountMinor
  currency := currencyBRL
  businessDate := formatDate e.businessDate
  description := e.description.getD []
  confirmedAt := e.confirmedAt
  originalEntryID := (e.originalEntryID.map UUID.text).getD []
  reversalEntryID := (reversal.map UUID.text).getD []
  state := if reversal.isSome then entryStateReversed else entryStateConfirmed

/-- A row of an entry whose date and confirmation can be written down. -/
def EntryRow.Readable (e : EntryRow) : Prop :=
  ∃ (entry : Entry) (t : Instant), e = entry.row ∧ Writable e.businessDate ∧ e.confirmedAt = t.nanos

/-- Every entry of a ledger that is reached can be read back. -/
theorem reached_readable {d : Db} (h : Reached platform d) : ∀ e ∈ d.entries, e.Readable := by
  refine @Reachable.invariant _ _ _ (fun d : Db => ∀ e ∈ d.entries, e.Readable) ?_ ?_ d h
  · intro e he
    cases he
  · rintro d d' hRows ⟨env, req, p, -, hPosts, hMade⟩ e he
    rcases hPosts.mem_entries.mp he with he | rfl
    · exact hRows e he
    · exact ⟨p.entry, env.createdAt, rfl, hMade.writable, hMade.confirmedAt⟩

/-- A date that can be written has a year of four digits. -/
theorem Writable.year {z : Int} (h : Writable z) :
    0 ≤ (Civil.ofDays z).year ∧ (Civil.ofDays z).year ≤ 9999 := Civil.ofDays_year h.1 h.2

/-- A readable row is scanned; what is shown of it are its columns. -/
theorem scan_readable {e : EntryRow} (h : e.Readable) (reversal : Option UUID) :
    ∃ stored, scanStoredEntry (e, reversal) = .ok stored ∧
      resultFromStored stored = e.result reversal ∧ stored.entry.businessDate = e.businessDate ∧
      stored.entry.confirmedAt = e.confirmedAt ∧ stored.entry.id = e.id.id := by
  obtain ⟨entry, t, rfl, hDate, -⟩ := h
  have hReversal : parseOptionalID reversal = .ok (reversal.map UUID.id) := by
    cases reversal with
    | none => rfl
    | some u =>
      rw [parseOptionalID, parseID_uuid]
      rfl
  refine ⟨⟨entry.stored, reversal.map UUID.id⟩, ?_, ?_, rfl, rfl, rfl⟩
  · simp only [scanStoredEntry, restoreEntry_row hDate.year.1 hDate.year.2, hReversal, bind,
      Except.bind]
  · -- an empty description is stored as none
    have hDescription : entry.row.description.getD [] = entry.description := by
      show (if entry.description = [] then none else some entry.description).getD [] = _
      split
      · rename_i hNil
        rw [hNil]
        rfl
      · rfl
    have hOriginal : ((entry.stored.originalEntryID.map ID.text).getD []) =
        (entry.row.originalEntryID.map UUID.text).getD [] := by
      show (((entry.originalEntryID.map fun o => o.uuid.id).map ID.text).getD []) =
        ((entry.originalEntryID.map ID.uuid).map UUID.text).getD []
      cases entry.originalEntryID <;> rfl
    cases reversal <;>
      simp only [resultFromStored, EntryRow.result, resultFromEntry, hDescription, hOriginal,
        Option.map_none, Option.map_some] <;> rfl

/-! ## The rows of the query -/

/-- The reversal of an entry up to a position. -/
def Db.reversalAt (d : Db) (highWater : Int64) (e : EntryRow) : Option UUID :=
  (d.entries.rows.find? fun r => r.originalEntryID = some e.id ∧ r.position ≤ highWater).map
    EntryRow.id

/-- An entry joins with one row: it has at most one reversal. -/
theorem joinOf_eq (d : Db) (highWater : Int64) (e : EntryRow) :
    d.joinOf highWater e = [(e, d.reversalAt highWater e)] := by
  unfold Db.joinOf Db.reversalAt
  rw [← List.head?_filter]
  cases hFound : d.entries.rows.filter fun r => r.originalEntryID = some e.id ∧ r.position ≤ highWater with
  | nil => rfl
  | cons r rest =>
    -- an entry is reversed at most once, so the join has one row
    -- two reversals of one entry would clash
    have hAlone : rest = [] := by
      by_contra hMore
      obtain ⟨r', rest', rfl⟩ := List.exists_cons_of_ne_nil hMore
      have hPair := d.entries.unique.filter
        fun r => r.originalEntryID = some e.id ∧ r.position ≤ highWater
      rw [hFound, List.pairwise_cons] at hPair
      have hMem : ∀ x ∈ r :: r' :: rest', x.originalEntryID = some e.id := by
        intro x hx
        rw [← hFound] at hx
        exact (of_decide_eq_true (List.mem_filter.mp hx).2).1
      have hClash := hPair.1 r' List.mem_cons_self
      rw [entrySchema, decide_eq_false_iff_not] at hClash
      refine hClash (Or.inr (Or.inr ⟨?_, ?_⟩))
      · rw [hMem r List.mem_cons_self]
        exact Option.some_ne_none _
      · rw [hMem r List.mem_cons_self, hMem r' (List.mem_cons_of_mem _ List.mem_cons_self)]
    rw [hAlone]
    rfl

/-- What matches is the entries that are listed, each with its reversal. -/
theorem matching_eq (d : Db) (m : UUID) (filter : ListFilter) (highWater : Int64) :
    d.matching m filter highWater = (d.entries.rows.filter (EntryRow.listed m filter highWater)).map
      fun e => (e, d.reversalAt highWater e) := by
  have hJoin : d.entries.rows.flatMap (d.joinOf highWater) =
      d.entries.rows.map fun e => (e, d.reversalAt highWater e) := by
    rw [funext (joinOf_eq d highWater)]
    exact List.map_eq_flatMap.symm
  rw [Db.matching, hJoin, List.filter_map]
  rfl

/-- The rows of the query have different sort keys. -/
theorem matching_nodup (d : Db) (m : UUID) (filter : ListFilter) (highWater : Int64) :
    ((d.matching m filter highWater).map fun row => row.1.key).Nodup := by
  rw [matching_eq, List.map_map, List.Nodup, List.pairwise_map]
  refine (d.entries.unique.filter _).imp ?_
  intro a b hClash hKey
  have hId : a.id = b.id := UUID.ext (congrArg (fun k : RowKey => k.2.2) hKey)
  rw [entrySchema, decide_eq_false_iff_not] at hClash
  exact hClash (Or.inl hId)

/-- So a row that matches is an entry. -/
theorem mem_matching {d : Db} {m : UUID} {filter : ListFilter} {highWater : Int64}
    {row : EntryRow × Option UUID} (h : row ∈ d.matching m filter highWater) :
    row.1 ∈ d.entries ∧ row.1.listed m filter highWater = true ∧
      row.2 = d.reversalAt highWater row.1 := by
  rw [matching_eq] at h
  obtain ⟨e, he, rfl⟩ := List.mem_map.mp h
  exact ⟨(List.mem_filter.mp he).1, (List.mem_filter.mp he).2, rfl⟩

/-- Which entries are listed. -/
theorem listed_iff {e : EntryRow} {m : UUID} {filter : ListFilter} {highWater : Int64} :
    e.listed m filter highWater = true ↔ e.merchantID = m ∧
      (∀ d, filter.fromDate = some d → d ≤ e.businessDate) ∧
      (∀ d, filter.toDate = some d → e.businessDate ≤ d) ∧ e.position ≤ highWater := by
  simp [EntryRow.listed, Option.all_eq_true, and_assoc]

/-! ## A ledger that grows -/

/-- Later entries have positions past the last one. -/
theorem grown {d d' : Db} (h : Reachable (Posted platform) d d') :
    (∀ m, (d.lastPosition m).toInt ≤ (d'.lastPosition m).toInt) ∧
    ∃ more, d'.entries.rows = d.entries.rows ++ more ∧
      ∀ e ∈ more, (d.lastPosition e.merchantID).toInt < e.position.toInt := by
  -- induction on the postings
  induction h with
  | start => exact ⟨fun m => le_refl _, [], (List.append_nil _).symm, fun e he => (nomatch he)⟩
  | next _ hPosted ih =>
    obtain ⟨hLast, more, hRows, hPast⟩ := ih
    obtain ⟨env, req, p, -, hPosts, -⟩ := hPosted
    -- the next position is past all that were given out before
    have hNew : (d.lastPosition p.entry.merchantID.uuid).toInt < p.entry.position.toInt := by
      have hBefore := hLast p.entry.merchantID.uuid
      have hNext := hPosts.next
      omega
    refine ⟨fun m => ?_, more ++ [p.entry.row], ?_, ?_⟩
    · rw [hPosts.positions]
      split
      · rename_i hm
        rw [hm]
        exact le_of_lt hNew
      · exact hLast m
    · rw [hPosts.entries, hRows, List.append_assoc]
    · intro e he
      rcases List.mem_append.mp he with he | he
      · exact hPast e he
      · rw [List.mem_singleton.mp he]
        exact hNew

/-- The rows up to the high-water mark stay what they are, reversals included. -/
theorem matching_grown {d d' : Db} (hReached : Reached platform d)
    (h : Reachable (Posted platform) d d') (m : UUID) (filter : ListFilter) :
    d'.matching m filter (d.lastPosition m) = d.matching m filter (d.lastPosition m) := by
  obtain ⟨-, more, hRows, hPast⟩ := grown h
  have hPaired := reached_paired (hReached.trans h)
  -- a later entry of the merchant is past the high-water mark
  have hLate : ∀ e ∈ more, e.merchantID = m → ¬ e.position ≤ d.lastPosition m := by
    intro e he hm hLe
    have hLt := hPast e he
    rw [hm] at hLt
    have hLe' := Int64.le_iff_toInt_le.mp hLe
    omega
  rw [matching_eq, matching_eq, hRows, List.filter_append]
  have hNone : more.filter (EntryRow.listed m filter (d.lastPosition m)) = [] := by
    rw [List.filter_eq_nil_iff]
    intro e he hListed
    obtain ⟨hm, -, -, hLe⟩ := listed_iff.mp hListed
    exact hLate e he hm hLe
  rw [hNone, List.append_nil]
  apply List.map_congr_left
  intro e he
  obtain ⟨heRow, hListed⟩ := List.mem_filter.mp he
  -- a reversal of `e` that came later belongs to the same merchant
  have hSame : more.find? (fun r => r.originalEntryID = some e.id ∧ r.position ≤ d.lastPosition m) =
      none := by
    rw [List.find?_eq_none]
    intro r hr hFound
    obtain ⟨hOriginal, hLe⟩ := of_decide_eq_true hFound
    have hrRow : r ∈ d'.entries := by
      rw [Table.mem_def, hRows]
      exact List.mem_append_right _ hr
    have heRow' : e ∈ d'.entries := by
      rw [Table.mem_def, hRows]
      exact List.mem_append_left _ heRow
    obtain ⟨e', he', hTakes⟩ := hPaired.original r hrRow (by rw [hOriginal]; exact Option.some_ne_none _)
    have hEq : e' = e :=
      entry_eq_of_id he' heRow' (Option.some.inj (hTakes.id.symm.trans hOriginal))
    refine hLate r hr ?_ hLe
    rw [hTakes.merchantID, hEq]
    exact (listed_iff.mp hListed).1
  rw [Db.reversalAt, Db.reversalAt, hRows, List.find?_append, hSame, Option.or_none]

/-! ## Cursors -/

/-- The payload of a cursor behind a row. -/
def payloadBehind (merchantID : ID) (filter : ListFilter) (limit highWater : Int64) (e : EntryRow) :
    CursorPayload where
  version := 1
  merchantID := merchantID.text
  fromDate := optionalDateString filter.fromDate
  toDate := optionalDateString filter.toDate
  limit := limit
  highWaterPosition := highWater
  lastDate := formatDate e.businessDate
  lastTime := formatRFC3339Nano e.confirmedAt
  lastID := e.id.text

/-- The cursor behind the rows shown so far; none before the first. -/
def cursorBehind (codec : CursorCodec) (merchantID : ID) (filter : ListFilter) (limit : Int64)
    (highWater : Int64) (seen : List (EntryRow × Option UUID)) : Text :=
  match seen.getLast? with
  | none => []
  | some row => codec.encode (payloadBehind merchantID filter limit highWater row.1)

/-- An instant has a year of four digits. -/
theorem Instant.year (t : Instant) : 0 ≤ yearOf t.nanos ∧ yearOf t.nanos ≤ 9999 := by
  have hRange := t.inRange
  have hSeconds : t.nanos / nanosPerSecond = t.micros / 1000000 := by
    unfold Instant.nanos nanosPerSecond
    omega
  rw [yearOf, hSeconds]
  apply Civil.ofDays_year <;> omega

/-- The scope a cursor stands for. -/
def scopeBehind (highWater : Int64) (seen : List (EntryRow × Option UUID)) : ListScope :=
  match seen.getLast? with
  | none => ⟨none, none⟩
  | some row => ⟨some highWater, some ⟨row.1.businessDate, row.1.confirmedAt, row.1.id.id⟩⟩

/-- The cursor behind a row is read back to the scope behind it. -/
theorem listScope_behind {codec : CursorCodec} {merchantID : ID} {filter : ListFilter}
    {limit highWater : Int64} {seen : List (EntryRow × Option UUID)}
    (hReadable : ∀ row ∈ seen, row.1.Readable) (hPositive : seen ≠ [] → ¬ highWater ≤ 0) :
    listScope codec merchantID filter limit
      (cursorBehind codec merchantID filter limit highWater seen) = .ok (scopeBehind highWater seen) := by
  unfold cursorBehind scopeBehind
  cases hLast : seen.getLast? with
  | none => rfl
  | some row =>
    have hMem : row ∈ seen := List.mem_of_getLast? hLast
    obtain ⟨entry, t, -, hDate, hTime⟩ := hReadable row hMem
    have hMark := hPositive (List.ne_nil_of_mem hMem)
    -- the date and the time of a readable row survive being written to the cursor
    have hParse : parseBusinessDate (formatDate row.1.businessDate) = .ok row.1.businessDate := by
      rw [parseBusinessDate, parseDate_formatDate hDate.year.1 hDate.year.2]
    have hParseTime : parseRFC3339 (formatRFC3339Nano row.1.confirmedAt) = some row.1.confirmedAt := by
      rw [hTime]
      exact parseRFC3339_format t.year.1 t.year.2
    show listScope codec merchantID filter limit
      (codec.encode (payloadBehind merchantID filter limit highWater row.1)) = _
    rw [listScope, if_neg (encode_ne_nil _ _), decode_encode codec rfl]
    simp only [bind, Except.bind, payloadBehind, ne_eq, not_true_eq_false, or_self, if_false,
      scopeFromCursor, hMark, hParse, hParseTime, parseID_uuid, Except.mapError]

/-- Whose key is that of the last row shown. -/
theorem scopeBehind_after (highWater : Int64) (seen : List (EntryRow × Option UUID)) :
    (scopeBehind highWater seen).after.map EntrySortKey.key =
      seen.getLast?.map fun row => row.1.key := by
  unfold scopeBehind
  cases seen.getLast? with
  | none => rfl
  | some row =>
    show some (rowKey _ _ row.1.id.id.uuid) = some (rowKey _ _ row.1.id)
    rw [uuid_id]

/-! ## One page -/

/-- What a stored entry shows, and what its cursor is made of. -/
def StoredEntry.shown (s : StoredEntry) : EntryResult × Int × Int × ID :=
  (resultFromStored s, s.entry.businessDate, s.entry.confirmedAt, s.entry.id)

def shownRow (row : EntryRow × Option UUID) : EntryResult × Int × Int × ID :=
  (row.1.result row.2, row.1.businessDate, row.1.confirmedAt, row.1.id.id)

/-- Readable rows are scanned one by one. -/
theorem scan_rows {rows : List (EntryRow × Option UUID)} (h : ∀ row ∈ rows, row.1.Readable) :
    ∃ stored, rows.mapM (fun row =>
        (scanStoredEntry row).mapError (LedgerError.wrapped "scan ledger list")) = .ok stored ∧
      stored.map StoredEntry.shown = rows.map shownRow := by
  apply mapM_ok
  intro row hRow
  obtain ⟨stored, hScan, hResult, hDate, hTime, hId⟩ := scan_readable (h row hRow) row.2
  refine ⟨stored, by rw [hScan]; rfl, ?_⟩
  rw [StoredEntry.shown, shownRow, hResult, hDate, hTime, hId]

/-- The next cursor is the one behind the rows shown. -/
theorem nextCursor_behind {codec : CursorCodec} {merchantID : ID} {filter : ListFilter}
    {limit highWater : Int64} {stored : List StoredEntry} {rows : List (EntryRow × Option UUID)}
    (hShown : stored.map StoredEntry.shown = rows.map shownRow) (more : Bool) :
    nextCursor codec merchantID filter limit ⟨stored, some highWater, more⟩ =
      if more = true then cursorBehind codec merchantID filter limit highWater rows else [] := by
  -- the last entry shown is the last row
  have hLast := congrArg List.getLast? hShown
  rw [List.getLast?_map, List.getLast?_map] at hLast
  unfold nextCursor cursorBehind
  cases more with
  | false => rfl
  | true =>
    cases hStored : stored.getLast? with
    | none =>
      rw [hStored, Option.map_none, eq_comm, Option.map_eq_none_iff] at hLast
      rw [hLast]
      rfl
    | some s =>
      rw [hStored, Option.map_some, eq_comm, Option.map_eq_some_iff] at hLast
      obtain ⟨row, hRow, hEq⟩ := hLast
      simp only [shownRow, StoredEntry.shown, Prod.mk.injEq] at hEq
      obtain ⟨-, hDate, hTime, hId⟩ := hEq
      rw [hRow]
      simp only [if_true, ← hDate, ← hTime, ← hId]
      rfl

/-- A row that is shown has a position, and positions start at one. -/
theorem lastPosition_pos {d : Db} (hReached : Reached platform d) {m : UUID} {filter : ListFilter}
    {row : EntryRow × Option UUID} (hRow : row ∈ d.matching m filter (d.lastPosition m)) :
    0 < (d.lastPosition m).toInt := by
  obtain ⟨hEntry, hListed, -⟩ := mem_matching hRow
  have hUpper := Int64.le_iff_toInt_le.mp (listed_iff.mp hListed).2.2.2
  have hLower := ((reached_booked hReached).positions _ _).mp ⟨row.1, hEntry, rfl, rfl⟩
  omega

/-- Behind a row there is a cursor. -/
theorem cursorBehind_ne_nil (codec : CursorCodec) (merchantID : ID) (filter : ListFilter)
    (limit highWater : Int64) {rows : List (EntryRow × Option UUID)} (hRows : rows ≠ []) :
    cursorBehind codec merchantID filter limit highWater rows ≠ [] := by
  unfold cursorBehind
  cases hLast : rows.getLast? with
  | none => exact absurd (List.getLast?_eq_none_iff.mp hLast) hRows
  | some row => exact encode_ne_nil _ _

/-- A cursor depends on the last row shown only. -/
theorem cursorBehind_append (codec : CursorCodec) (merchantID : ID) (filter : ListFilter)
    (limit highWater : Int64) (seen : List (EntryRow × Option UUID))
    {rows : List (EntryRow × Option UUID)} (hRows : rows ≠ []) :
    cursorBehind codec merchantID filter limit highWater (seen ++ rows) =
      cursorBehind codec merchantID filter limit highWater rows := by
  unfold cursorBehind
  rw [List.getLast?_append_of_ne_nil _ hRows]

/-- A page read from a ledger that has grown, behind the rows seen so far. -/
theorem listStored_behind {d₀ d : Db} (hReached : Reached platform d₀)
    (hGrown : Reachable (Posted platform) d₀ d) {merchantID : ID} {filter : ListFilter} (limit : Nat)
    {seen rest : List (EntryRow × Option UUID)}
    (hSplit : Keyset.sorted (fun row : EntryRow × Option UUID => row.1.key)
      (d₀.matching merchantID.uuid filter (d₀.lastPosition merchantID.uuid)) = seen ++ rest)
    (hFirst : seen = [] → d = d₀) :
    ∃ stored highWater, listStored {} d merchantID filter limit
        (scopeBehind (d₀.lastPosition merchantID.uuid) seen) =
        .ok ⟨stored, highWater, decide (limit < rest.length)⟩ ∧
      stored.map StoredEntry.shown = (rest.take limit).map shownRow ∧
      (limit < rest.length → highWater = some (d₀.lastPosition merchantID.uuid)) := by
  set H := d₀.lastPosition merchantID.uuid with hH
  have hMem : ∀ row ∈ seen ++ rest, row ∈ d₀.matching merchantID.uuid filter H := by
    intro row hRow
    rw [← hSplit] at hRow
    exact Keyset.mem_sorted.mp hRow
  have hReadable : ∀ row ∈ rest.take (limit + 1), row.1.Readable := fun row hRow =>
    reached_readable hReached row.1
      (mem_matching (hMem row (List.mem_append_right _ (List.mem_of_mem_take hRow)))).1
  -- the keyset selection goes on right behind what was shown
  have hSelect : d.selectEntries merchantID.uuid filter H (scopeBehind H seen).after (limit + 1) =
      rest.take (limit + 1) := by
    rw [Db.selectEntries, scopeBehind_after, matching_grown hReached hGrown]
    exact Keyset.select_behind (matching_nodup _ _ _ _) hSplit _
  -- the mark is read on the first page and carried by the cursor from then on
  have hMark : readHighWater {} d merchantID (scopeBehind H seen) = .ok H := by
    unfold readHighWater scopeBehind
    cases hLast : seen.getLast? with
    | none =>
      rw [hFirst (List.getLast?_eq_none_iff.mp hLast)]
      rfl
    | some row => rfl
  by_cases hEmpty : (scopeBehind H seen).highWater = none ∧ H = 0
  · -- no position has been given out, so there is nothing to show
    have hRest : rest = [] := by
      by_contra hSome
      obtain ⟨row, rest', rfl⟩ := List.exists_cons_of_ne_nil hSome
      have hPositive :=
        lastPosition_pos hReached (hMem row (List.mem_append_right _ List.mem_cons_self))
      rw [← hH, hEmpty.2] at hPositive
      exact absurd hPositive (lt_irrefl 0)
    subst hRest
    refine ⟨[], none, ?_, by rw [List.take_nil]; rfl, fun h => absurd h (Nat.not_lt_zero _)⟩
    simp only [listStored, raise, bind, Except.bind, hMark, if_pos hEmpty]
    rfl
  · -- one row more than asked for tells whether there is another page
    obtain ⟨stored, hScan, hShown⟩ := scan_rows hReadable
    have hLength : stored.length = (rest.take (limit + 1)).length := by
      have hEq := congrArg List.length hShown
      rwa [List.length_map, List.length_map] at hEq
    have hMore : limit < stored.length ↔ limit < rest.length := by
      rw [hLength, List.length_take]
      omega
    refine ⟨stored.take limit, some H, ?_, ?_, fun _ => rfl⟩
    · simp only [listStored, raise, bind, Except.bind, hMark, if_neg hEmpty, hSelect, hScan,
        decide_eq_decide.mpr hMore]
      rfl
    · rw [List.map_take, hShown, ← List.map_take, List.take_take,
        Nat.min_eq_left (Nat.le_succ limit)]

/-! ## Following the cursors -/

section Walk

/-- The rows a walk that starts at `d` shows. -/
def Db.snapshot (d : Db) (m : UUID) (filter : ListFilter) : List (EntryRow × Option UUID) :=
  Keyset.sorted (fun row => row.1.key) (d.matching m filter (d.lastPosition m))

variable {d₀ d : Db} {input : ListEntriesInput} {merchantID : ID}
  {filter : ListFilter}

/-- A page shows the next rows of the snapshot, and leads on if there are more. -/
theorem listEntries_behind (codec : CursorCodec) (hReached : Reached platform d₀)
    (hGrown : Reachable (Posted platform) d₀ d)
    (hMerchant : parseMerchant input.merchantID = .ok merchantID)
    (hFilter : parseFilter input.fromText input.toText = .ok filter)
    (hLimit : 1 ≤ input.limit ∧ input.limit ≤ 100) {seen rest : List (EntryRow × Option UUID)}
    (hSplit : d₀.snapshot merchantID.uuid filter = seen ++ rest) (hFirst : seen = [] → d = d₀) :
    listEntries codec {} d { input with
        cursor := cursorBehind codec merchantID filter input.limit
          (d₀.lastPosition merchantID.uuid) seen } =
      .ok ⟨(rest.take input.limit.toInt.toNat).map fun row => row.1.result row.2,
        if input.limit.toInt.toNat < rest.length then
          cursorBehind codec merchantID filter input.limit (d₀.lastPosition merchantID.uuid)
            (rest.take input.limit.toInt.toNat)
        else []⟩ := by
  have hMem : ∀ row ∈ seen, row ∈ d₀.matching merchantID.uuid filter (d₀.lastPosition merchantID.uuid) := by
    intro row hRow
    have hSorted : row ∈ d₀.snapshot merchantID.uuid filter := by
      rw [hSplit]
      exact List.mem_append_left _ hRow
    exact Keyset.mem_sorted.mp hSorted
  have hReadable : ∀ row ∈ seen, row.1.Readable := fun row hRow =>
    reached_readable hReached row.1 (mem_matching (hMem row hRow)).1
  have hPositive : seen ≠ [] → ¬ d₀.lastPosition merchantID.uuid ≤ 0 := by
    intro hSeen hLe
    obtain ⟨row, rest', rfl⟩ := List.exists_cons_of_ne_nil hSeen
    have hPositive := lastPosition_pos hReached (hMem row List.mem_cons_self)
    exact absurd (Int64.le_iff_toInt_le.mp hLe) (not_le.mpr hPositive)
  have hGiven : ¬ input.limit = 0 := by
    intro hZero
    rw [hZero] at hLimit
    exact absurd hLimit.1 (by decide)
  -- the limit is taken as it is
  have hRange : ¬ (input.limit < 1 ∨ maximumPageLimit < input.limit) := by
    rintro (hLow | hHigh)
    · exact absurd hLimit.1 (Int64.not_le.mpr hLow)
    · exact absurd hLimit.2 (Int64.not_le.mpr hHigh)
  obtain ⟨stored, highWater, hStored, hShown, hMark⟩ :=
    listStored_behind hReached hGrown input.limit.toInt.toNat hSplit hFirst
  have hResults : stored.map resultFromStored =
      (rest.take input.limit.toInt.toNat).map fun row => row.1.result row.2 := by
    have hFirsts := congrArg (List.map Prod.fst) hShown
    rwa [List.map_map, List.map_map] at hFirsts
  simp only [listEntries, hMerchant, hFilter, bind, Except.bind, if_neg hGiven, if_neg hRange,
    listScope_behind hReadable hPositive, hStored, hResults, Except.ok.injEq, EntryPage.mk.injEq,
    true_and]
  by_cases hMore : input.limit.toInt.toNat < rest.length
  · rw [hMark hMore, nextCursor_behind hShown, decide_eq_true hMore, if_pos rfl, if_pos hMore]
  · rw [decide_eq_false hMore, if_neg hMore]
    rfl

/-- Behind the rows seen so far the walk shows the rest, in full pages but the
last, and comes to an end. -/
theorem walk_from (codec : CursorCodec) {ledger : Nat → Db} (hReached : Reached platform (ledger 0))
    (hGrows : ∀ i, Reachable (Posted platform) (ledger 0) (ledger i))
    (hMerchant : parseMerchant input.merchantID = .ok merchantID)
    (hFilter : parseFilter input.fromText input.toText = .ok filter)
    (hLimit : 1 ≤ input.limit ∧ input.limit ≤ 100) :
    ∀ (fuel i : Nat) (seen rest : List (EntryRow × Option UUID)),
      (ledger 0).snapshot merchantID.uuid filter = seen ++ rest → (seen = [] → i = 0) →
      rest.length < fuel →
      ∃ pages, walk codec ledger input fuel i
          (cursorBehind codec merchantID filter input.limit
            ((ledger 0).lastPosition merchantID.uuid) seen) = some pages ∧
        pages.flatMap EntryPage.entries = rest.map (fun row => row.1.result row.2) ∧
        pages ≠ [] ∧ ∀ page ∈ pages.dropLast, page.entries.length = input.limit.toInt.toNat := by
  have hOne : 1 ≤ input.limit.toInt.toNat := by
    have hLow := Int64.le_iff_toInt_le.mp hLimit.1
    have : (1 : Int64).toInt = 1 := rfl
    omega
  -- the fuel covers the rows left: a page takes one at least
  intro fuel
  induction fuel with
  | zero =>
    intro i seen rest _ _ hFuel
    exact absurd hFuel (Nat.not_lt_zero _)
  | succ fuel ih =>
    intro i seen rest hSplit hFirst hFuel
    have hPage := listEntries_behind codec hReached (hGrows i) hMerchant hFilter hLimit
      hSplit fun hSeen => by rw [hFirst hSeen]
    rw [walk, hPage]
    by_cases hMore : input.limit.toInt.toNat < rest.length
    · -- a full page, and the walk goes on behind it
      set n := input.limit.toInt.toNat with hn
      have hTaken : rest.take n ≠ [] := by
        rw [← List.length_pos_iff, List.length_take]
        omega
      have hCursor := cursorBehind_ne_nil codec merchantID filter input.limit
        ((ledger 0).lastPosition merchantID.uuid) hTaken
      have hNext : (ledger 0).snapshot merchantID.uuid filter =
          (seen ++ rest.take n) ++ rest.drop n := by
        rw [List.append_assoc, List.take_append_drop, hSplit]
      obtain ⟨pages, hWalk, hShown, hSome, hFull⟩ := ih (i + 1) (seen ++ rest.take n)
        (rest.drop n) hNext (fun hNil => absurd (List.append_eq_nil_iff.mp hNil).2 hTaken)
        (by rw [List.length_drop]; omega)
      rw [cursorBehind_append _ _ _ _ _ _ hTaken] at hWalk
      refine ⟨⟨(rest.take n).map fun row => row.1.result row.2,
        cursorBehind codec merchantID filter input.limit ((ledger 0).lastPosition merchantID.uuid)
          (rest.take n)⟩ :: pages, ?_, ?_, List.cons_ne_nil _ _, ?_⟩
      · simp only [if_pos hMore, if_neg hCursor]
        rw [hWalk]
        rfl
      · rw [List.flatMap_cons, hShown, ← List.map_append, List.take_append_drop]
      · intro page hDropped
        rw [List.dropLast_cons_of_ne_nil hSome] at hDropped
        rcases List.mem_cons.mp hDropped with rfl | hDropped
        · rw [List.length_map, List.length_take]
          omega
        · exact hFull page hDropped
    · -- the last page
      refine ⟨[⟨rest.map fun row => row.1.result row.2, []⟩], ?_, ?_, List.cons_ne_nil _ _, ?_⟩
      · simp only [if_neg hMore, if_true, List.take_of_length_le (Nat.le_of_not_lt hMore)]
      · simp
      · intro page hDropped
        cases hDropped

/-- A walk along the cursors from page to page, whatever is committed in between: the pages
together show, each once and in order, the merchant's entries of the filter that were there
when the walk began, reversed or not as they were then; all pages but the last are full, and
the walk ends. -/
theorem pages_show_snapshot (platform : Platform) (codec : CursorCodec) (ledger : Nat → Db)
    (hReached : Reached platform (ledger 0))
    (hGrows : ∀ i, Reachable (Posted platform) (ledger i) (ledger (i + 1)))
    (input : ListEntriesInput) (merchantID : ID) (filter : ListFilter)
    (hMerchant : parseMerchant input.merchantID = .ok merchantID)
    (hFilter : parseFilter input.fromText input.toText = .ok filter)
    (hLimit : 1 ≤ input.limit ∧ input.limit ≤ 100) :
    let highWater := (ledger 0).lastPosition merchantID.uuid
    ∃ rows : List EntryRow,
      rows.Pairwise (fun a b => b.key < a.key) ∧
      (∀ e, e ∈ rows ↔ e ∈ (ledger 0).entries ∧ e.merchantID = merchantID.uuid ∧
        e.position ≤ highWater ∧ (∀ d, filter.fromDate = some d → d ≤ e.businessDate) ∧
        ∀ d, filter.toDate = some d → e.businessDate ≤ d) ∧
      ∀ fuel, rows.length < fuel → ∃ pages, walk codec ledger input fuel 0 [] = some pages ∧
        pages.flatMap EntryPage.entries =
          rows.map (fun e => e.result ((ledger 0).reversalAt highWater e)) ∧
        ∀ page ∈ pages.dropLast, page.entries.length = input.limit.toInt.toNat := by
  -- every ledger of the walk has grown from the first
  intro highWater
  have hAll : ∀ i, Reachable (Posted platform) (ledger 0) (ledger i) := by
    intro i
    induction i with
    | zero => exact .start
    | succ i ih => exact ih.trans (hGrows i)
  have hRow : ∀ row ∈ (ledger 0).snapshot merchantID.uuid filter,
      row.2 = (ledger 0).reversalAt highWater row.1 := fun row hMem =>
    (mem_matching (Keyset.mem_sorted.mp hMem)).2.2
  refine ⟨((ledger 0).snapshot merchantID.uuid filter).map Prod.fst, ?_, ?_, ?_⟩
  · rw [List.pairwise_map]
    exact Keyset.sorted_pairwise (matching_nodup _ _ _ _)
  · intro e
    constructor
    · intro he
      obtain ⟨row, hMem, rfl⟩ := List.mem_map.mp he
      obtain ⟨hEntry, hListed, -⟩ := mem_matching (Keyset.mem_sorted.mp hMem)
      obtain ⟨hm, hFrom, hTo, hLe⟩ := listed_iff.mp hListed
      exact ⟨hEntry, hm, hLe, hFrom, hTo⟩
    · rintro ⟨hEntry, hm, hLe, hFrom, hTo⟩
      have hListed : e.listed merchantID.uuid filter highWater = true :=
        listed_iff.mpr ⟨hm, hFrom, hTo, hLe⟩
      refine List.mem_map.mpr ⟨(e, (ledger 0).reversalAt highWater e), ?_, rfl⟩
      refine Keyset.mem_sorted.mpr ?_
      rw [matching_eq]
      exact List.mem_map_of_mem (f := fun e => (e, (ledger 0).reversalAt highWater e))
        (List.mem_filter.mpr ⟨hEntry, hListed⟩)
  · intro fuel hFuel
    rw [List.length_map] at hFuel
    obtain ⟨pages, hWalk, hShown, -, hFull⟩ :=
      walk_from codec hReached hAll hMerchant hFilter hLimit fuel 0 []
        ((ledger 0).snapshot merchantID.uuid filter) rfl (fun _ => rfl) hFuel
    refine ⟨pages, hWalk, ?_, hFull⟩
    rw [hShown, List.map_map]
    exact List.map_congr_left fun row hMem => by rw [hRow row hMem]; rfl

/-- The two sales once the first of them is taken back. -/
def refundedSales : Db := refundRequest.after utcPlatform (calmEnv newYear 32) twoSales

/-- The ledger that each page is read from: the refund is committed behind the first one. -/
def refundBetween : Nat → Db
  | 0 => twoSales
  | _ + 1 => refundedSales

/-- The merchant of the sales. -/
def saleMerchant : ID := ⟨saleRequest.merchantID, by decide⟩

/-- Two sales, one on a page. The first page leads to the second by its cursor, the refund that
is committed in between is in neither, and the sale it takes back is shown as it was. -/
theorem pages_show_snapshot_refund_between :
    let input : ListEntriesInput := ⟨saleRequest.merchantID, none, none, 1, []⟩
    refundedSales.entries.rows.length = 3 ∧ ∃ (rows : List EntryRow) (pages : List EntryPage),
      walk ⟨List.replicate 32 7, by decide⟩ refundBetween input 3 0 [] = some pages ∧
      rows.Pairwise (fun a b => b.key < a.key) ∧ (∀ e, e ∈ rows ↔ e ∈ twoSales.entries.rows) ∧
      pages.flatMap EntryPage.entries =
        rows.map (fun e => e.result (twoSales.reversalAt (twoSales.lastPosition saleMerchant.uuid) e)) ∧
      pages.map (fun page => page.entries.map fun r => (r.position, r.amountMinor, r.state)) =
        [[(2, 2500, entryStateConfirmed)], [(1, 1500, entryStateConfirmed)]] := by
  intro input
  have hReached : Reached utcPlatform (refundBetween 0) :=
    (posted_after utcPlatform (calmEnv newYear 0) saleRequest Db.empty).trans
      (posted_after utcPlatform (calmEnv newYear 16) secondSale oneSale)
  have hGrows : ∀ i, Reachable (Posted utcPlatform) (refundBetween i) (refundBetween (i + 1)) := by
    intro i
    cases i with
    | zero => exact posted_after utcPlatform (calmEnv newYear 32) refundRequest twoSales
    | succ i => exact .start
  obtain ⟨rows, hOrder, hRows, hPages⟩ := pages_show_snapshot utcPlatform
    ⟨List.replicate 32 7, by decide⟩ refundBetween hReached hGrows input saleMerchant ⟨none, none⟩
    rfl rfl (by decide)
  rw [refundBetween] at hRows hPages
  obtain ⟨hAll, hTwo, hThree, hPageByPage⟩ :
      (∀ e ∈ twoSales.entries.rows, e.merchantID = saleMerchant.uuid ∧
        e.position ≤ twoSales.lastPosition saleMerchant.uuid) ∧
      twoSales.entries.rows.length = 2 ∧ refundedSales.entries.rows.length = 3 ∧
      (walk ⟨List.replicate 32 7, by decide⟩ refundBetween input 3 0 []).map
        (List.map fun page => page.entries.map fun r => (r.position, r.amountMinor, r.state)) =
          some [[(2, 2500, entryStateConfirmed)], [(1, 1500, entryStateConfirmed)]] := by
    decide +kernel
  -- both entries are the merchant's, and no date is asked for
  have hSame : ∀ e, e ∈ rows ↔ e ∈ twoSales.entries.rows := by
    intro e
    rw [hRows, Table.mem_def]
    exact ⟨fun h => h.1, fun h => ⟨h, (hAll e h).1, (hAll e h).2, nofun, nofun⟩⟩
  have hLength : rows.length ≤ twoSales.entries.rows.length :=
    (List.subperm_of_subset (hOrder.imp fun h hEq => absurd (hEq ▸ h) (lt_irrefl _))
      fun e he => (hSame e).mp he).length_le
  obtain ⟨pages, hWalk, hShown, -⟩ := hPages 3 (by omega)
  rw [hWalk, Option.map_some, Option.some.injEq] at hPageByPage
  exact ⟨hThree, rows, pages, hWalk, hOrder, hSame, hShown, hPageByPage⟩

end Walk

end Cashflow.Ledger
