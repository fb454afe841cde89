import Cashflow.Consolidation.Fingerprint

/-!
# Consolidation — events with zones

The event record of `services/consolidation/internal/domain/event.go` as Go has
it: its three times are `time.Time` values, an instant seen in a zone. The rest of
the development works with what is left of them, two instants and a calendar date
(`ZonedEvent.content`).

* `streams_equal_iff` — valid events feed SHA-256 the same bytes exactly when they
  say the same, in whatever zones and letters they say it.
-/

namespace Cashflow.Consolidation

open Lib

/-- A `time.Time`: an instant in nanoseconds and the offset of its location, in
seconds east of UTC. -/
structure Time where
  instant : Int
  offset : Int
deriving DecidableEq, Repr

/-- `IsZero` looks at the instant only. -/
def Time.isZero (t : Time) : Bool := t.instant == zeroTime

/-- `UTC` -/
def Time.utc (t : Time) : Time := { t with offset := 0 }

/-- The day a calendar in the location of the time shows. -/
def Time.date (t : Time) : Int := (t.instant / nanosPerSecond + t.offset) / 86400

/-- `EntryConfirmed` -/
abbrev ZonedEvent := ConfirmedEntry Time Time

namespace ZonedEvent

def validate (e : ZonedEvent) : Except ValidationError Unit := e.checks Time.isZero Time.isZero

def canonical (e : ZonedEvent) : ZonedEvent := e.lowered

/-- The format `DateLayout`, in the location of the time. -/
def formatDay (t : Time) : Text := formatDate t.date

/-- The format `RFC3339Nano` of a time in UTC. -/
def formatUTC (t : Time) : Text := formatRFC3339Nano t.utc.instant

/-- The bytes `Fingerprint` feeds to SHA-256. -/
def fingerprintStream (event : ZonedEvent) : List UInt8 :=
  event.canonical.written formatUTC formatDay

def fingerprint (e : ZonedEvent) : Text := hexEncode (sha256 e.fingerprintStream)

/-! ## What an event says -/

/-- The event without its zones. -/
def content (e : ZonedEvent) : EntryConfirmed where
  eventID := e.eventID
  eventType := e.eventType
  occurredAt := e.occurredAt.instant
  merchantID := e.merchantID
  merchantPosition := e.merchantPosition
  entryID := e.entryID
  entryType := e.entryType
  amountMinor := e.amountMinor
  currency := e.currency
  businessDate := e.businessDate.date
  confirmedAt := e.confirmedAt.instant
  originalEntryID := e.originalEntryID
  traceparent := e.traceparent

theorem content_canonical (e : ZonedEvent) : e.canonical.content = e.content.canonical := rfl

/-- The fingerprint sees nothing of the zones. -/
theorem fingerprintStream_content (e : ZonedEvent) :
    e.fingerprintStream = e.content.fingerprintStream := rfl

theorem validate_delimited {e : ZonedEvent} (h : e.validate = .ok ()) : e.content.Delimited := by
  unfold validate ConfirmedEntry.checks at h
  simp only [check_bind_ok, check_ok, beq_iff_eq, Bool.or_eq_true] at h
  obtain ⟨hEvent, hMerchant, hEntry, hOriginal, hType, -, hEntryType, -, hCurrency, -, -, -, hTrace⟩ :=
    h
  exact ⟨hEvent, hMerchant, hEntry, hOriginal, hType, hEntryType, hCurrency, hTrace⟩

/-- Two events that pass validation feed SHA-256 the same bytes if and only if
they are the same in canonical form: identifiers up to the case of letters, the
same instants, calendar date and amounts, and the original identifier absent or
present alike. The same event therefore always has the same fingerprint, and where
SHA-256 separates two streams, different events have different ones. -/
theorem streams_equal_iff (e e' : ZonedEvent) (h : e.validate = .ok ())
    (h' : e'.validate = .ok ()) :
    (e.fingerprintStream = e'.fingerprintStream ↔ e.canonical.content = e'.canonical.content) ∧
    (e.canonical.content = e'.canonical.content → e.fingerprint = e'.fingerprint) ∧
    ((sha256 e.fingerprintStream = sha256 e'.fingerprintStream →
        e.fingerprintStream = e'.fingerprintStream) →
      e.fingerprint = e'.fingerprint → e.canonical.content = e'.canonical.content) := by
  have hIff : e.fingerprintStream = e'.fingerprintStream ↔
      e.canonical.content = e'.canonical.content := by
    rw [fingerprintStream_content, fingerprintStream_content, content_canonical, content_canonical]
    constructor
    · exact fingerprintStream_injective (validate_delimited h) (validate_delimited h')
    · intro hSame
      rw [EntryConfirmed.fingerprintStream, EntryConfirmed.fingerprintStream, hSame]
  refine ⟨hIff, fun hSame => ?_, fun hSha hPrint => hIff.mp (hSha (hexEncode_injective hPrint))⟩
  rw [fingerprint, fingerprint, hIff.mpr hSame]

/-- A credit that happened at 18:00 in UTC, seen from a zone. -/
def eveningCredit (eventID : String) (offset : Int) : ZonedEvent where
  eventID := eventID.toList
  eventType := entryConfirmedV1
  occurredAt := ⟨1767290400 * nanosPerSecond, offset⟩
  merchantID := "0b2d5c9e-8f1a-4d3b-9c6e-7a8b9c0d1e2f".toList
  merchantPosition := 1
  entryID := "0b2d5c9e-8f1a-4d3b-9c6e-7a8b9c0d1e30".toList
  entryType := entryCredit
  amountMinor := 100
  currency := currencyBRL
  businessDate := ⟨1767225600 * nanosPerSecond, 0⟩
  confirmedAt := ⟨1767290400 * nanosPerSecond, offset⟩
  originalEntryID := none
  traceparent := "00-0af7651916cd43dd8448eb211c80319c-b7ad6b7169203331-01".toList

/-- The same event in another zone and in capital letters has the same
fingerprint. -/
theorem streams_equal_iff_reencoded :
    (eveningCredit "018F3E1A-0000-7000-8000-00000000ABCD" (-10800)).fingerprint =
      (eveningCredit "018f3e1a-0000-7000-8000-00000000abcd" 0).fingerprint :=
  (streams_equal_iff _ _ (by decide +kernel) (by decide +kernel)).2.1 (by decide +kernel)

end ZonedEvent

end Cashflow.Consolidation
