import Cashflow.Lib.Uuid
import Cashflow.Lib.Timestamp

/-!
# Ledger — identifiers, money, dates and entries

The domain of the ledger, as in `services/ledger/internal/domain`, and the
trace-context check of `internal/application/traceparent.go`. A value that the
source builds only through a checking constructor carries what was checked:
an `ID` has the shape of a UUID, `Money` is positive, an `Entry` has passed
`NewEntry`.

Main results:

* `newUUIDv7_rfc` — every generated identifier is a version 7 UUID in lower
  case;
* `parseID_uuid` — what a `uuid` column gives back is an identifier again.
-/

namespace Cashflow.Ledger

open Lib

/-! ## Errors -/

/-- Why PostgreSQL refused a statement. -/
inductive DbError where
  | check
  | unique (constraint : String)
  | foreignKey
  | invalidText
  | outOfRange
  | noRows
  | unavailable
deriving DecidableEq, Repr

/-- The errors of the ledger. The sentinel errors of `domain/errors.go` and
`application/errors.go` keep their names; `database` is a wrapped driver error
under the words it is wrapped with. -/
inductive LedgerError where
  | invalidID
  | invalidMerchant
  | invalidEntryType
  | invalidAmount
  | invalidCurrency
  | invalidBusinessDate
  | invalidTimeZone (zone : Text)
  | descriptionTooLong
  | reversalNotAllowed
  | invalidArgument
  | idempotencyConflict
  | entryNotFound
  | alreadyReversed
  | invalidCursor
  | cursorScopeMismatch
  | entropy
  | encoding
  | noCompletedResponse
  | attemptNotCompleted
  | database (doing : String) (cause : DbError)
  | wrapped (doing : String) (cause : LedgerError)
deriving DecidableEq, Repr

/-! ## Identifiers -/

/-- The shape `8-4-4-4-12` of hexadecimal digits in either case. -/
def idPattern : List (Char → Bool) :=
  List.replicate 8 isHex ++ [isDash] ++ List.replicate 4 isHex ++ [isDash] ++
    List.replicate 4 isHex ++ [isDash] ++ List.replicate 4 isHex ++ [isDash] ++
    List.replicate 12 isHex

/-- What `ParseID` accepts: the shape, and not all digits zero. -/
def isID (value : Text) : Bool :=
  matchesAll idPattern value && value.any fun c => c != '0' && c != '-'

/-- A UUID-shaped identifier, in the letters it was given in. -/
@[ext]
structure ID where
  text : Text
  wellFormed : isID text = true
deriving DecidableEq, Repr

def parseID (value : Text) : Except LedgerError ID :=
  if h : isID value = true then .ok ⟨value, h⟩ else .error .invalidID

/-- An identifier as a `uuid` column gives it back: in lower case. -/
@[ext]
structure UUID where
  text : Text
  wellFormed : isID text = true
  canonical : lower text = text
deriving DecidableEq, Repr

/-- An identifier is kept as it was written. -/
theorem parseID_ok {value : Text} {id : ID} : parseID value = .ok id ↔ id.text = value := by
  unfold parseID
  split
  · rw [Except.ok.injEq]
    constructor
    · rintro rfl
      rfl
    · intro h
      cases id
      cases h
      rfl
  · rename_i h
    constructor
    · intro hEq
      cases hEq
    · rintro rfl
      exact absurd id.wellFormed h

/-- Each place of the pattern is a hexadecimal digit or a dash. -/
theorem idPattern_class {p : Char → Bool} (h : p ∈ idPattern) : p = isHex ∨ p = isDash := by
  simp only [idPattern, List.mem_append, List.mem_replicate, List.mem_singleton] at h
  tauto

/-- Lower-casing keeps a digit a digit, and the zeros and hyphens where they are. -/
theorem toLower_hex {c : Char} (h : isHex c = true) :
    isHex c.toLower = true ∧ (c ≠ '0' → c.toLower ≠ '0' ∧ c.toLower ≠ '-') := by
  have hAll : ∀ n < 128, isHex (Char.ofNat n) = true → isHex (Char.ofNat n).toLower = true ∧
      (Char.ofNat n ≠ '0' → (Char.ofNat n).toLower ≠ '0' ∧ (Char.ofNat n).toLower ≠ '-') := by
    decide
  exact forall_ascii (P := fun c => isHex c = true → isHex c.toLower = true ∧
    (c ≠ '0' → c.toLower ≠ '0' ∧ c.toLower ≠ '-')) hAll (isAscii_of_isHex h) h

/-- An identifier in lower case is one. -/
theorem isID_lower {value : Text} (h : isID value = true) : isID (lower value) = true := by
  simp only [isID, Bool.and_eq_true, List.any_eq_true, bne_iff_ne, ne_eq] at h ⊢
  obtain ⟨hShape, c, hc, hZero, hDash⟩ := h
  refine ⟨?_, c.toLower, List.mem_map_of_mem hc, ?_⟩
  · apply matchesAll_map hShape
    rw [List.forall₂_same]
    intro p hp c hpc
    rcases idPattern_class hp with rfl | rfl
    · exact (toLower_hex hpc).1
    · rw [beq_iff_eq.mp hpc]
      rfl
  · -- the digit that is not zero stays one
    have hClass : ∀ p ∈ idPattern, ∀ c, p c = true → (isHex c || isDash c) = true := by
      intro p hp c hpc
      rcases idPattern_class hp with rfl | rfl <;> simp [hpc]
    have hEither := matchesAll_forall hClass hShape c hc
    rw [Bool.or_eq_true] at hEither
    rcases hEither with hHex | hDash'
    · exact (toLower_hex hHex).2 hZero
    · exact absurd (beq_iff_eq.mp hDash') hDash

/-- What the database keeps of an identifier. -/
def ID.uuid (id : ID) : UUID := ⟨lower id.text, isID_lower id.wellFormed, lower_lower _⟩

def UUID.id (u : UUID) : ID := ⟨u.text, u.wellFormed⟩

@[simp] theorem parseID_uuid (u : UUID) : parseID u.text = .ok u.id := parseID_ok.mpr rfl

@[simp] theorem uuid_id (u : UUID) : u.id.uuid = u := by
  cases u with
  | mk text hWell hCanonical => simp only [UUID.id, ID.uuid, UUID.mk.injEq]; exact hCanonical

/-- A `uuid` column reads back what it wrote. -/
theorem uuidIn_text (u : UUID) : uuidIn u.text = some u.text := by
  have hShape : matchesAll idPattern u.text = true := (Bool.and_eq_true _ _ ▸ u.wellFormed).1
  have hRead := uuidIn_shape hShape
  rwa [u.canonical] at hRead

/-- `NewUUIDv7`: the milliseconds of the clock in front, random bytes behind,
the version and the variant in their places. -/
def uuidV7Bytes (now : Int) (entropy : Nat → UInt8) : List UInt8 :=
  let millis := now / 1000000
  let byte := fun k : Nat => UInt8.ofNat (millis / 256 ^ k % 256).toNat
  [byte 5, byte 4, byte 3, byte 2, byte 1, byte 0,
    entropy 6 &&& 0x0f ||| 0x70, entropy 7, entropy 8 &&& 0x3f ||| 0x80, entropy 9,
    entropy 10, entropy 11, entropy 12, entropy 13, entropy 14, entropy 15]

/-- The shape of a version 7 UUID in lower case. -/
def uuidV7Pattern : List (Char → Bool) :=
  List.replicate 8 isLowerHex ++ ([isDash] ++ (List.replicate 4 isLowerHex ++ ([isDash] ++
    ([fun c => c == '7'] ++ (List.replicate 3 isLowerHex ++ ([isDash] ++
    ([fun c => c == '8' || c == '9' || c == 'a' || c == 'b'] ++ (List.replicate 3 isLowerHex ++
    ([isDash] ++ List.replicate 12 isLowerHex)))))))))

/-- The version digit is set to seven, whatever was drawn. -/
theorem version_digit (b : UInt8) : Nat.digitChar ((b &&& 0x0f ||| 0x70).toNat / 16) = '7' := by
  revert b
  exact forall_byte (by decide +kernel)

/-- A fresh identifier has the form of version seven. -/
theorem uuidV7_text (now : Int) (entropy : Nat → UInt8) :
    matchesAll uuidV7Pattern (hyphenated (hexEncode (uuidV7Bytes now entropy))) = true := by
  have hVariant : ∀ b : UInt8, (fun c => c == '8' || c == '9' || c == 'a' || c == 'b')
      (Nat.digitChar ((b &&& 0x3f ||| 0x80).toNat / 16)) = true := forall_byte (by decide +kernel)
  have hHigh : ∀ b : UInt8, isLowerHex (Nat.digitChar (b.toNat / 16)) = true := fun b =>
    isLowerHex_digitChar (by have := b.toNat_lt; omega)
  have hLow : ∀ b : UInt8, isLowerHex (Nat.digitChar (b.toNat % 16)) = true := fun b =>
    isLowerHex_digitChar (by omega)
  have hDash : isDash '-' = true := rfl
  simp only [uuidV7Bytes, hexEncode, List.flatMap_cons, List.flatMap_nil, List.cons_append,
    List.nil_append, hyphenated, List.take_succ_cons, List.take_zero, List.drop_succ_cons,
    List.drop_zero, uuidV7Pattern, List.replicate, matchesAll, hHigh, hLow, version_digit, hVariant,
    hDash, Bool.and_self, beq_self_eq_true]

/-- So it is an identifier. -/
theorem isID_uuidV7 (now : Int) (entropy : Nat → UInt8) :
    isID (hyphenated (hexEncode (uuidV7Bytes now entropy))) = true := by
  rw [isID, Bool.and_eq_true]
  -- each place of the stricter pattern is one of the other
  constructor
  · rw [← List.map_id (hyphenated _)]
    apply matchesAll_map (uuidV7_text now entropy)
    simp only [uuidV7Pattern, idPattern, List.replicate, List.cons_append, List.nil_append]
    repeat' apply List.Forall₂.cons
    all_goals first
      | exact List.Forall₂.nil
      | exact fun c hc => isHex_of_isLowerHex hc
      | exact fun c hc => hc
      | (intro c hc
         simp only [Bool.or_eq_true, beq_iff_eq] at hc
         rcases hc with ((rfl | rfl) | rfl) | rfl <;> rfl)
  · -- the version digit is not zero
    rw [List.any_eq_true]
    refine ⟨'7', ?_, by decide⟩
    simp only [uuidV7Bytes, hexEncode, List.flatMap_cons, List.flatMap_nil, List.cons_append,
      List.nil_append, hyphenated, List.take_succ_cons, List.take_zero, List.drop_succ_cons,
      List.drop_zero, version_digit, List.mem_cons, true_or, or_true]

/-- A new identifier; `none` stands for a failed read of random bytes. -/
def newUUIDv7 (now : Int) (entropy : Option (Nat → UInt8)) : Except LedgerError ID :=
  match entropy with
  | none => .error .entropy
  | some entropy =>
    .ok ⟨hyphenated (hexEncode (uuidV7Bytes now entropy)), isID_uuidV7 now entropy⟩

/-- Every generated identifier is a version 7 UUID in lower case. -/
theorem newUUIDv7_rfc {now : Int} {entropy : Option (Nat → UInt8)} {id : ID}
    (h : newUUIDv7 now entropy = .ok id) : matchesAll uuidV7Pattern id.text = true := by
  unfold newUUIDv7 at h
  split at h
  · cases h
  · cases h
    exact uuidV7_text _ _

/-! ## Trace context -/

def lowerHex (value : Text) : Bool := value.all isLowerHex

def allZeroHex (value : Text) : Bool := value.all fun c => c == '0'

/-- `ValidateTraceparent` -/
def validateTraceparent (value : Text) : Except LedgerError Unit :=
  let version := value.take 2
  let traceID := (value.drop 3).take 32
  let parentID := (value.drop 36).take 16
  let flags := (value.drop 53).take 2
  -- the shape first
  if value.length ≠ 55 ∨ value[2]? ≠ some '-' ∨ value[35]? ≠ some '-' ∨ value[52]? ≠ some '-' then
    .error .invalidArgument
  else if !lowerHex version || !lowerHex traceID || !lowerHex parentID || !lowerHex flags ||
      -- a version that is forbidden, and identifiers that are all zeros
      version == "ff".toList || allZeroHex traceID || allZeroHex parentID ||
      -- version 00 has one flag
      (version == "00".toList && flags != "00".toList && flags != "01".toList) then
    .error .invalidArgument
  else .ok ()

/-! ## Entry types and money -/

inductive EntryType where
  | credit
  | debit
deriving DecidableEq, Repr

def EntryType.text : EntryType → Text
  | .credit => "credit".toList
  | .debit => "debit".toList

def EntryType.opposite : EntryType → EntryType
  | .credit => .debit
  | .debit => .credit

/-- `strings.ToLower`, as far as it can produce ASCII: besides the capitals,
U+0130 becomes an `i` and U+212A a `k`. -/
def toLowerRune (c : Char) : Char :=
  if c = Char.ofNat 0x130 then 'i' else if c = Char.ofNat 0x212A then 'k' else c.toLower

example : [Char.ofNat 0x212A, 'K', Char.ofNat 0x130].map toLowerRune = "kki".toList := by decide

def parseEntryType (value : Text) : Except LedgerError EntryType :=
  let typeValue := value.map toLowerRune
  if typeValue = EntryType.credit.text then .ok .credit
  else if typeValue = EntryType.debit.text then .ok .debit
  else .error .invalidEntryType

@[simp] theorem parseEntryType_text (t : EntryType) : parseEntryType t.text = .ok t := by
  cases t <;> decide

def currencyBRL : Text := "BRL".toList

/-- A positive amount in the smallest BRL unit. -/
structure Money where
  minor : Int64
  positive : 0 < minor
deriving DecidableEq, Repr

def newMoney (amountMinor : Int64) (currency : Text) : Except LedgerError Money :=
  if currency ≠ currencyBRL then .error .invalidCurrency
  else if h : 0 < amountMinor then .ok ⟨amountMinor, h⟩
  else .error .invalidAmount

@[simp] theorem newMoney_minor (m : Money) : newMoney m.minor currencyBRL = .ok m := by
  rw [newMoney, if_neg (by simp), dif_pos m.positive]

/-! ## The merchant's calendar -/

def maximumBackdateDays : Int := 30

def defaultMerchantZone : Text := "America/Fortaleza".toList

/-- `ParseBusinessDate` -/
def parseBusinessDate (value : Text) : Except LedgerError Int :=
  match parseDate value with
  | some d => .ok d
  | none => .error (.wrapped "parse business date" .invalidBusinessDate)

/-- A time zone: its offset from UTC, in seconds, at every second. -/
structure Zone where
  offset : Int → Int
  bounded : ∀ t, -86400 < offset t ∧ offset t < 86400

/-- `NewCalendar`; `zones` is the time zone database. -/
def newCalendar (zones : Text → Option Zone) (zone : Text) : Except LedgerError Zone :=
  let zone := if zone = [] then defaultMerchantZone else zone
  match zones zone with
  | some location => .ok location
  | none => .error (.invalidTimeZone zone)

def Zone.today (z : Zone) (now : Int) : Int :=
  let seconds := now / nanosPerSecond
  (seconds + z.offset seconds) / 86400

def Zone.resolve (z : Zone) (now : Int) (requested : Option Int) : Except LedgerError Int :=
  match requested with
  | none => .ok (z.today now)
  | some d =>
    if d < z.today now - maximumBackdateDays ∨ z.today now < d then .error .invalidBusinessDate
    else .ok d

/-! ## Entries -/

/-- A ledger entry that has passed `NewEntry`. -/
structure Entry where
  id : ID
  merchantID : ID
  position : Int64
  entryType : EntryType
  money : Money
  businessDate : Int
  description : Text
  confirmedAt : Int
  originalEntryID : Option ID
  positive : 0 < position
  dated : businessDate ≠ zeroDate
  confirmed : confirmedAt ≠ zeroTime
  short : description.length ≤ 500
deriving DecidableEq, Repr

structure EntryData where
  id : ID
  merchantID : ID
  position : Int64
  entryType : EntryType
  money : Money
  businessDate : Int
  description : Text
  confirmedAt : Int
  originalEntryID : Option ID

/-- `NewEntry`. That an identifier is not empty, the type one of the two and
the amount positive is known from their types. -/
def newEntry (data : EntryData) : Except LedgerError Entry :=
  if hPosition : data.position ≤ 0 then .error .invalidID
  else if hDate : data.businessDate = zeroDate then .error .invalidBusinessDate
  else if hTime : data.confirmedAt = zeroTime then .error .invalidBusinessDate
  else if hLong : 500 < data.description.length then .error .descriptionTooLong
  else
    .ok ⟨data.id, data.merchantID, data.position, data.entryType, data.money, data.businessDate,
      data.description, data.confirmedAt, data.originalEntryID, Int64.not_le.mp hPosition, hDate,
      hTime, not_lt.mp hLong⟩

def Entry.data (e : Entry) : EntryData :=
  ⟨e.id, e.merchantID, e.position, e.entryType, e.money, e.businessDate, e.description,
    e.confirmedAt, e.originalEntryID⟩

/-- An entry holds exactly what it was made from. -/
theorem newEntry_ok {data : EntryData} {e : Entry} : newEntry data = .ok e ↔ data = e.data := by
  constructor
  · intro h
    unfold newEntry at h
    split_ifs at h
    cases h
    rfl
  · rintro rfl
    have hPosition : ¬ e.data.position ≤ 0 := Int64.not_le.mpr e.positive
    have hDate : ¬ e.data.businessDate = zeroDate := e.dated
    have hTime : ¬ e.data.confirmedAt = zeroTime := e.confirmed
    have hLong : ¬ 500 < e.data.description.length := not_lt.mpr e.short
    rw [newEntry, dif_neg hPosition, dif_neg hDate, dif_neg hTime, dif_neg hLong]
    rfl

def newReversal (id : ID) (position : Int64) (original : Entry) (date confirmedAt : Int) :
    Except LedgerError Entry :=
  if original.originalEntryID ≠ none then .error .reversalNotAllowed
  else
    newEntry ⟨id, original.merchantID, position, original.entryType.opposite, original.money, date,
      [], confirmedAt, some original.id⟩

end Cashflow.Ledger
