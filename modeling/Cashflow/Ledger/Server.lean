import Cashflow.Auth.Tenancy
import Cashflow.Ledger.Amounts
import Cashflow.Ledger.Listing

/-!
# Ledger — the gRPC server

The public API of the ledger, as in
`services/ledger/internal/adapters/inbound/grpc/server.go`: the handlers of
`CreateEntry`, `CreateReversal`, `GetEntry` and `ListEntries`, the guard of
`internal/platform/tenancy` in front of the two that name an entry, and the
reads `OwnerOf` and `GetEntry` of the service and the repository. The metrics
and the logs are left out.

Main result: `authorize_foreign`, that the guard refuses an entry of another
merchant as it refuses one that does not exist.
-/

/-! ## The tenancy guard -/

namespace Cashflow.Tenancy

open Lib

/-- The authenticated caller; the handlers read the merchant only. -/
structure Identity where
  merchantID : Text
deriving DecidableEq, Repr

/-- The guard over a resolver that answers the owner of a resource that exists. -/
def authorize {ε : Type} (ownerOf : Text → Except ε (Option Text)) (identity : Identity)
    (resourceID : Text) : Except (GuardError ε) Unit :=
  Guard.authorize (fun id => (ownerOf id).map fun found => (utf8 (found.getD []), found.isSome))
    ⟨utf8 identity.merchantID⟩ resourceID

section Authorize

variable {ε : Type} {ownerOf : Text → Except ε (Option Text)} {identity : Identity}
  {resourceID : Text}

theorem authorize_absent (h : ownerOf resourceID = .ok none) :
    authorize ownerOf identity resourceID = .error .resourceUnavailable := by
  refine (authorize_ok_or (by rw [h]; rfl)).resolve_left fun hOk => ?_
  rw [authorize_ok_iff (by rw [h]; rfl)] at hOk
  cases hOk.1

/-- The guard refuses a resource of another merchant as it refuses one that does
not exist. -/
theorem authorize_foreign {owner : Text} (h : ownerOf resourceID = .ok (some owner))
    (hLength : (utf8 owner).length = (utf8 identity.merchantID).length)
    (hForeign : owner ≠ identity.merchantID) :
    authorize ownerOf identity resourceID = .error .resourceUnavailable := by
  refine (authorize_ok_or (by rw [h]; rfl)).resolve_left fun hOk => ?_
  rw [authorize_ok_iff (by rw [h]; rfl)] at hOk
  -- of one length, the two differ in more than the bytes at the end
  exact hForeign (utf8_injective (eq_of_trimmed 0 hLength hOk.2.2.symm))

end Authorize

end Cashflow.Tenancy

namespace Cashflow.Ledger

open Lib Tenancy

/-! ## Reading one entry -/

/-- `QueryRow(…).Scan(…)`: the first row, unless the database fails. -/
def queryRow {α : Type} (fault : Option DbError) (rows : List α) : Except DbError α :=
  match fault, rows with
  | some cause, _ => .error cause
  | none, [] => .error .noRows
  | none, row :: _ => .ok row

/-- How the repository reports a row it did not get. -/
def noEntry (doing : String) : DbError → LedgerError
  | .noRows => .entryNotFound
  | cause => .database doing cause

/-- `Repository.OwnerOf`, by the identifier alone -/
def storedOwner (fault : Option DbError) (d : Db) (entryID : ID) : Except LedgerError UUID :=
  (queryRow fault ((d.entries.rows.filter fun e => e.id = entryID.uuid).map
    EntryRow.merchantID)).mapError (noEntry "get ledger entry owner")

/-- An entry joined with its reversal, whoever made it. -/
def Db.joinReversal (d : Db) (e : EntryRow) : List (EntryRow × Option UUID) :=
  match d.entries.rows.filter fun r => r.originalEntryID = some e.id with
  | [] => [(e, none)]
  | reversals => reversals.map fun r => (e, some r.id)

/-- `Repository.GetEntry` -/
def getStored (fault : Option DbError) (d : Db) (merchantID entryID : ID) :
    Except LedgerError StoredEntry := do
  let row ← (queryRow fault ((d.entries.rows.filter fun e =>
    e.merchantID = merchantID.uuid ∧ e.id = entryID.uuid).flatMap d.joinReversal)).mapError
      (noEntry "get ledger entry")
  (scanStoredEntry row).mapError (.wrapped "get ledger entry")

/-- `Service.OwnerOf` -/
def ownerOf (fault : Option DbError) (d : Db) (entryIDText : Text) : Except LedgerError Text := do
  let entryID ← parseID entryIDText
  let ownerID ← storedOwner fault d entryID
  .ok ownerID.text

/-- `Service.GetEntry` -/
def getEntry (fault : Option DbError) (d : Db) (merchantIDText entryIDText : Text) :
    Except LedgerError EntryResult := do
  let merchantID ← parseMerchant merchantIDText
  let entryID ← parseID entryIDText
  let stored ← getStored fault d merchantID entryID
  .ok (resultFromStored stored)

/-! ## Statuses -/

/-- The codes the handlers answer with. -/
inductive Code where
  | invalidArgument
  | notFound
  | alreadyExists
  | internal
  | unauthenticated
deriving DecidableEq, Repr

structure Status where
  code : Code
  message : Text
deriving DecidableEq, Repr

/-- The error at the end of the chain that `errors.Is` follows. -/
def LedgerError.sentinel : LedgerError → LedgerError
  | .wrapped _ cause => cause.sentinel
  | e => e

/-- `Error()` of the errors whose text `mapError` shows; the text of any other
error goes no further than the log. -/
def LedgerError.text : LedgerError → Text
  | .wrapped doing cause => doing.toList ++ ": ".toList ++ cause.text
  | .invalidArgument => "invalid argument".toList
  | .idempotencyConflict => "idempotency key reused with different content".toList
  | .alreadyReversed => "entry already reversed".toList
  | .invalidCursor => "invalid cursor".toList
  | .cursorScopeMismatch => "cursor does not belong to this query".toList
  | _ => []

def mapError (e : LedgerError) : Status :=
  match e.sentinel with
  | .invalidArgument => ⟨.invalidArgument, e.text⟩
  | .invalidCursor => ⟨.invalidArgument, e.text⟩
  | .cursorScopeMismatch => ⟨.invalidArgument, e.text⟩
  | .entryNotFound => ⟨.notFound, "entry not found".toList⟩
  | .idempotencyConflict => ⟨.alreadyExists, e.text⟩
  | .alreadyReversed => ⟨.alreadyExists, e.text⟩
  | _ => ⟨.internal, "internal server error".toList⟩

/-! ## Messages -/

def entryTypeNames : List (Int32 × Text) :=
  [(0, "ENTRY_TYPE_UNSPECIFIED".toList), (1, "ENTRY_TYPE_CREDIT".toList),
    (2, "ENTRY_TYPE_DEBIT".toList)]

def entryStateNames : List (Int32 × Text) :=
  [(0, "ENTRY_STATE_UNSPECIFIED".toList), (1, "ENTRY_STATE_CONFIRMED".toList),
    (2, "ENTRY_STATE_REVERSED".toList)]

/-- `String()` of a protobuf enumeration; a number without a name is printed. -/
def enumString (names : List (Int32 × Text)) (n : Int32) : Text :=
  (names.lookup n).getD (Json.intLiteral n.toInt)

/-- The map of a protobuf enumeration from names to numbers. -/
def enumValue (names : List (Int32 × Text)) (name : Text) : Int32 :=
  ((names.find? fun x => x.2 = name).map Prod.fst).getD 0

/-- `strings.ToUpper`, as far as it can produce ASCII: besides the small letters,
U+0131 becomes an `I` and U+017F an `S`. -/
def toUpperRune (c : Char) : Char :=
  if c = 'ı' then 'I' else if c = 'ſ' then 'S' else c.toUpper

/-- `%02d`: the width counts the sign. -/
def twoDigits (x : Int) : Text := if x < 0 then Json.intLiteral x else appendInt x 2

/-- The message `LedgerEntry`; an instant is its seconds and nanoseconds. -/
structure LedgerEntry where
  entryID : Text
  type : Int32
  amount : Text
  currency : Text
  businessDate : Text
  description : Text
  confirmedAt : Int × Int
  originalEntryID : Text
  reversalEntryID : Text
  state : Int32
deriving DecidableEq, Repr

def mapEntry (e : EntryResult) : LedgerEntry where
  entryID := e.id
  type := enumValue entryTypeNames ("ENTRY_TYPE_".toList ++ e.type.map toUpperRune)
  -- reais and cents, with two digits
  amount := Json.intLiteral (e.amountMinor / 100).toInt ++
    '.' :: twoDigits (e.amountMinor % 100).toInt
  currency := e.currency
  businessDate := e.businessDate
  description := e.description
  -- seconds and the nanoseconds past them
  confirmedAt := (e.confirmedAt / nanosPerSecond, e.confirmedAt % nanosPerSecond)
  originalEntryID := e.originalEntryID
  reversalEntryID := e.reversalEntryID
  state := enumValue entryStateNames ("ENTRY_STATE_".toList ++ e.state.map toUpperRune)

structure CreateEntryRequest where
  type : Int32
  amount : Text
  currency : Text
  businessDate : Text
  description : Text

structure ListEntriesRequest where
  pageSize : Int32
  startDate : Text
  endDate : Text
  pageToken : Text

inductive Rpc where
  | createEntry (req : CreateEntryRequest)
  | createReversal (entryID : Text)
  | getEntry (entryID : Text)
  | listEntries (req : ListEntriesRequest)

inductive Reply where
  | entry (entry : LedgerEntry)
  | page (entries : List LedgerEntry) (nextPageToken : Text)
deriving DecidableEq, Repr

/-- An rpc with what its context carries. -/
structure Call where
  identity : Option Identity
  metadata : Text → List Text
  rpc : Rpc

/-- The first value of a metadata key, or the empty text. -/
def Call.header (c : Call) (key : String) : Text := ((c.metadata key.toList).head?).getD []

def ptr (s : Text) : Option Text := if s = [] then none else some s

/-! ## The handlers -/

/-- What the server was made with. -/
structure Server where
  platform : Platform
  codec : CursorCodec

/-- What one rpc takes from outside: the surroundings of a transaction, and the
faults of the reads. -/
structure Surroundings where
  env : Env
  owner : Option DbError := none
  entry : Option DbError := none
  list : ReadFaults := {}

namespace Server

variable (s : Server) (around : Surroundings) (c : Call) (identity : Identity)

/-- `Server.OwnerOf`: an entry there is not is no error. -/
def ownerOf (d : Db) (resourceID : Text) : Except LedgerError (Option Text) :=
  match Ledger.ownerOf around.owner d resourceID with
  | .ok merchantID => .ok (some merchantID)
  | .error e => if e.sentinel = .entryNotFound then .ok none else .error e

/-- The guard in front of the handlers that name an entry. -/
def guarded (d : Db) (entryID : Text) : Except Status Unit :=
  match authorize (ownerOf around d) identity entryID with
  | .ok () => .ok ()
  | .error .resourceUnavailable => .error ⟨.notFound, "entry not found".toList⟩
  | .error (.resolver _) => .error ⟨.internal, "tenant ownership unavailable".toList⟩

/-- The reply to a result of the service. -/
def answer (result : Except LedgerError EntryResult) : Except Status Reply :=
  (result.mapError mapError).map fun r => .entry (mapEntry r)

def createEntry (req : CreateEntryRequest) (d : Db) : Except Status Reply × Db :=
  match parseBRL req.amount with
  -- an amount that cannot be read is refused without a look at the rest
  | .error _ => (.error ⟨.invalidArgument, "invalid amount format".toList⟩, d)
  | .ok money =>
    let type := (enumString entryTypeNames req.type).map toLowerRune
    let done := (Request.create
      { merchantID := identity.merchantID
        idempotencyKey := c.header "grpcgateway-idempotency-key"
        -- the name of the enum without its common part, in lower case
        type := (type.dropPrefix? "entry_type_".toList).getD type
        amountMinor := money.minor
        currency := req.currency
        businessDate := ptr req.businessDate
        description := req.description
        timeZone := c.header "grpcgateway-timezone"
        traceparent := c.header "grpcgateway-traceparent" }).run s.platform around.env d
    (answer done.1, done.2)

def createReversal (entryID : Text) (d : Db) : Except Status Reply × Db :=
  match guarded around identity d entryID with
  -- the entry has to be the caller's own
  | .error status => (.error status, d)
  | .ok () =>
    let done := (Request.reverse
      { merchantID := identity.merchantID
        originalEntryID := entryID
        idempotencyKey := c.header "grpcgateway-idempotency-key"
        timeZone := c.header "grpcgateway-timezone"
        traceparent := c.header "grpcgateway-traceparent" }).run s.platform around.env d
    (answer done.1, done.2)

def getEntry (entryID : Text) (d : Db) : Except Status Reply :=
  match guarded around identity d entryID with
  | .error status => .error status
  | .ok () => answer (Ledger.getEntry around.entry d identity.merchantID entryID)

def listEntries (req : ListEntriesRequest) (d : Db) : Except Status Reply :=
  let limit := req.pageSize.toInt64
  let result := Ledger.listEntries s.codec around.list d
    { merchantID := identity.merchantID
      fromText := ptr req.startDate
      toText := ptr req.endDate
      limit := if limit = 0 then defaultPageLimit else limit
      cursor := req.pageToken }
  (result.mapError mapError).map fun page => .page (page.entries.map mapEntry) page.nextCursor

/-- One rpc: the reply, and the ledger it leaves. -/
def handle (d : Db) : Except Status Reply × Db :=
  match c.identity with
  | none => (.error ⟨.unauthenticated, "identity missing from adapter context".toList⟩, d)
  | some identity =>
    match c.rpc with
    | .createEntry req => s.createEntry around c identity req d
    | .createReversal entryID => s.createReversal around c identity entryID d
    | .getEntry entryID => (getEntry around identity entryID d, d)
    | .listEntries req => (s.listEntries around identity req d, d)

/-- One rpc after another: the replies, and the ledger at the end. -/
def serve (s : Server) : List (Surroundings × Call) → Db → List (Except Status Reply) × Db
  | [], d => ([], d)
  | (around, c) :: rest, d =>
    let first := s.handle around c d
    let later := serve s rest first.2
    (first.1 :: later.1, later.2)

end Server

end Cashflow.Ledger
