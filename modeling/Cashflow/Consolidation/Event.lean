import Cashflow.Lib.Machine
import Cashflow.Lib.Text
import Cashflow.Lib.Timestamp

/-!
# Consolidation — the confirmed-entry event

The domain event the projector consumes, as in
`services/consolidation/internal/domain/event.go`: its validation, its
canonical form and its financial effect.

Go's `int64` fields are `Int64`; instants are nanoseconds and business dates
are day numbers (`Cashflow.Lib.Timestamp`).

Main results:

* `validate_iff` — what a passing `validate` checked, field by field;
* `canonical_valid`, `canonical_canonical` — the canonical form of a valid
  event is valid and its own canonical form.
-/

namespace Cashflow.Consolidation

open Lib

/-! ## The event -/

def entryConfirmedV1 : Text := "ledger.entry.confirmed.v1".toList
def currencyBRL : Text := "BRL".toList
def entryCredit : Text := "credit".toList
def entryDebit : Text := "debit".toList

/-- The record of a confirmed ledger entry, over what its times and its date are kept as. -/
structure ConfirmedEntry (T D : Type) where
  eventID : Text
  eventType : Text
  occurredAt : T
  merchantID : Text
  merchantPosition : Int64
  entryID : Text
  entryType : Text
  amountMinor : Int64
  currency : Text
  businessDate : D
  confirmedAt : T
  originalEntryID : Option Text
  traceparent : Text
deriving DecidableEq, Repr

/-- A confirmed ledger entry, as the consumer hands it to the projector. -/
abbrev EntryConfirmed := ConfirmedEntry Int Int

structure ValidationError where
  field : String
  reason : String
deriving DecidableEq, Repr

/-- The version digit `[1-8]`. -/
def isVersion (c : Char) : Bool := decide ('1' ≤ c) && decide (c ≤ '8')

/-- The variant digit `[89abAB]`. -/
def isVariant (c : Char) : Bool :=
  c == '8' || c == '9' || c == 'a' || c == 'b' || c == 'A' || c == 'B'

/-- The regular expression
`^[0-9a-fA-F]{8}-[0-9a-fA-F]{4}-[1-8][0-9a-fA-F]{3}-[89abAB][0-9a-fA-F]{3}-[0-9a-fA-F]{12}$` -/
def uuidPattern : List (Char → Bool) :=
  List.replicate 8 isHex ++ [isDash] ++ List.replicate 4 isHex ++ [isDash] ++
    [isVersion] ++ List.replicate 3 isHex ++ [isDash] ++
    [isVariant] ++ List.replicate 3 isHex ++ [isDash] ++ List.replicate 12 isHex

/-- The regular expression `^[0-9a-f]{2}-[0-9a-f]{32}-[0-9a-f]{16}-[0-9a-f]{2}$` -/
def traceparentPattern : List (Char → Bool) :=
  List.replicate 2 isLowerHex ++ [isDash] ++ List.replicate 32 isLowerHex ++ [isDash] ++
    List.replicate 16 isLowerHex ++ [isDash] ++ List.replicate 2 isLowerHex

def isUUID (s : Text) : Bool := matchesAll uuidPattern s

def isTraceparent (s : Text) : Bool := matchesAll traceparentPattern s

/-- One check of `Validate`. -/
def check (ok : Bool) (field reason : String) : Except ValidationError Unit :=
  if ok then .ok () else .error ⟨field, reason⟩

/-- The checks of `Validate`, given which times are zero. Go ranges over the three identifiers in
map order, so which of several malformed ones is reported is not fixed there. -/
def ConfirmedEntry.checks {T D : Type} (isZero : T → Bool) (isZeroDate : D → Bool)
    (e : ConfirmedEntry T D) : Except ValidationError Unit := do
  check (isUUID e.eventID) "event_id" "must be a UUID"
  check (isUUID e.merchantID) "merchant_id" "must be a UUID"
  check (isUUID e.entryID) "entry_id" "must be a UUID"
  -- absent, or an identifier like the others
  check (e.originalEntryID.all isUUID) "original_entry_id" "must be null or a UUID"
  check (e.eventType == entryConfirmedV1) "event_type" "unsupported event version"
  check (decide (1 ≤ e.merchantPosition)) "merchant_position" "must be positive"
  check (e.entryType == entryCredit || e.entryType == entryDebit) "entry_type"
    "must be credit or debit"
  check (decide (1 ≤ e.amountMinor)) "amount_minor" "must be positive"
  check (e.currency == currencyBRL) "currency" "must be BRL"
  check (!isZero e.occurredAt) "occurred_at" "is required"
  check (!isZero e.confirmedAt) "confirmed_at" "is required"
  check (!isZeroDate e.businessDate) "business_date" "is required"
  check (isTraceparent e.traceparent) "traceparent" "must follow W3C trace context format"

/-- `EntryConfirmed.Validate` -/
def EntryConfirmed.validate (e : EntryConfirmed) : Except ValidationError Unit :=
  e.checks (· == zeroTime) (· == zeroDate)

/-- What an entry adds to the totals of its day. -/
structure FinancialEffect where
  creditsMinor : Int
  debitsMinor : Int
  netMinor : Int
deriving DecidableEq, Repr

def EntryConfirmed.financialEffect (e : EntryConfirmed) : FinancialEffect :=
  if e.entryType = entryCredit then ⟨e.amountMinor.toInt, 0, e.amountMinor.toInt⟩
  else ⟨0, e.amountMinor.toInt, -e.amountMinor.toInt⟩

def ConfirmedEntry.lowered {T D : Type} (e : ConfirmedEntry T D) : ConfirmedEntry T D :=
  { e with
    eventID := lower e.eventID
    merchantID := lower e.merchantID
    entryID := lower e.entryID
    originalEntryID := e.originalEntryID.map lower }

def EntryConfirmed.canonical (e : EntryConfirmed) : EntryConfirmed := e.lowered

/-! ## What validation guarantees -/

theorem check_ok {ok : Bool} {field reason : String} :
    check ok field reason = .ok () ↔ ok = true := by
  cases ok <;> simp [check]

/-- The facts a passing validation establishes. -/
structure EntryConfirmed.Valid (e : EntryConfirmed) : Prop where
  eventID : isUUID e.eventID = true
  merchantID : isUUID e.merchantID = true
  entryID : isUUID e.entryID = true
  originalEntryID : e.originalEntryID.all isUUID = true
  eventType : e.eventType = entryConfirmedV1
  merchantPosition : 1 ≤ e.merchantPosition
  entryType : e.entryType = entryCredit ∨ e.entryType = entryDebit
  amountMinor : 1 ≤ e.amountMinor
  currency : e.currency = currencyBRL
  occurredAt : e.occurredAt ≠ zeroTime
  confirmedAt : e.confirmedAt ≠ zeroTime
  businessDate : e.businessDate ≠ zeroDate
  traceparent : isTraceparent e.traceparent = true

theorem check_bind_ok {ok : Bool} {field reason : String}
    {next : Unit → Except ValidationError Unit} :
    (check ok field reason >>= next) = .ok () ↔ ok = true ∧ next () = .ok () := by
  cases ok <;> simp [check, bind, Except.bind]

/-- Validation passes exactly on the valid events. -/
theorem validate_iff (e : EntryConfirmed) : e.validate = .ok () ↔ e.Valid := by
  unfold EntryConfirmed.validate ConfirmedEntry.checks
  simp only [check_bind_ok, check_ok, beq_iff_eq, decide_eq_true_eq, Bool.or_eq_true,
    Bool.not_eq_true', beq_eq_false_iff_ne]
  constructor
  · rintro ⟨h1, h2, h3, h4, h5, h6, h7, h8, h9, h10, h11, h12, h13⟩
    exact ⟨h1, h2, h3, h4, h5, h6, h7, h8, h9, h10, h11, h12, h13⟩
  · rintro ⟨h1, h2, h3, h4, h5, h6, h7, h8, h9, h10, h11, h12, h13⟩
    exact ⟨h1, h2, h3, h4, h5, h6, h7, h8, h9, h10, h11, h12, h13⟩

/-! ## The canonical form -/

theorem uuidPattern_class {p : Char → Bool} (h : p ∈ uuidPattern) :
    p = isHex ∨ p = isDash ∨ p = isVersion ∨ p = isVariant := by
  simp only [uuidPattern, List.mem_append, List.mem_replicate, List.mem_singleton] at h
  tauto

/-- Every class of the pattern is ASCII and closed under lower-casing. -/
theorem uuidPattern_lower {p : Char → Bool} (h : p ∈ uuidPattern) {c : Char} (hc : p c = true) :
    isAscii c = true ∧ p c.toLower = true := by
  have hAscii : isAscii c = true := by
    rcases uuidPattern_class h with rfl | rfl | rfl | rfl
    · exact isAscii_of_isHex hc
    · rw [beq_iff_eq.mp hc]
      rfl
    · simp only [isVersion, Bool.and_eq_true, decide_eq_true_eq] at hc
      exact isAscii_of_le hc.2 rfl
    · simp only [isVariant, Bool.or_eq_true, beq_iff_eq] at hc
      rcases hc with ((((rfl | rfl) | rfl) | rfl) | rfl) | rfl <;> rfl
  refine ⟨hAscii, ?_⟩
  rcases uuidPattern_class h with rfl | rfl | rfl | rfl
  · exact isHex_of_isLowerHex (isLowerHex_toLower hc)
  · exact forall_ascii (P := fun c => isDash c = true → isDash c.toLower = true) (by decide) hAscii hc
  · exact forall_ascii (P := fun c => isVersion c = true → isVersion c.toLower = true) (by decide)
      hAscii hc
  · exact forall_ascii (P := fun c => isVariant c = true → isVariant c.toLower = true) (by decide)
      hAscii hc

theorem isUUID_lower {s : Text} (h : isUUID s = true) : isUUID (lower s) = true := by
  unfold isUUID at *
  apply matchesAll_map h
  rw [List.forall₂_same]
  exact fun p hp c hc => (uuidPattern_lower hp hc).2

theorem canonical_valid {e : EntryConfirmed} (h : e.Valid) : e.canonical.Valid where
  eventID := isUUID_lower h.eventID
  merchantID := isUUID_lower h.merchantID
  entryID := isUUID_lower h.entryID
  originalEntryID := by
    have hOriginal := h.originalEntryID
    unfold EntryConfirmed.canonical ConfirmedEntry.lowered
    cases hCase : e.originalEntryID with
    | none => rfl
    | some o =>
      rw [hCase, Option.all_some] at hOriginal
      exact isUUID_lower hOriginal
  eventType := h.eventType
  merchantPosition := h.merchantPosition
  entryType := h.entryType
  amountMinor := h.amountMinor
  currency := h.currency
  occurredAt := h.occurredAt
  confirmedAt := h.confirmedAt
  businessDate := h.businessDate
  traceparent := h.traceparent

/-- Once is enough. -/
theorem canonical_canonical (e : EntryConfirmed) : e.canonical.canonical = e.canonical := by
  simp [EntryConfirmed.canonical, ConfirmedEntry.lowered, lower_lower, Option.map_map, Function.comp_def]

end Cashflow.Consolidation
