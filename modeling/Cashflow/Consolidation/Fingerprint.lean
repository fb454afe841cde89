import Cashflow.Consolidation.Event
import Cashflow.Lib.Sha256

/-!
# Consolidation — the fingerprint of an event

`EntryConfirmed.Fingerprint` feeds thirteen fields to SHA-256, texts with an
eight-byte length in front and integers as eight bytes.

Main results:

* `fingerprintStream_injective` — two events with delimited fields that feed the
  same bytes to SHA-256 have one canonical form;
* `fingerprint_eq_iff` — where SHA-256 separates the streams of two valid
  events, so do their fingerprints.
-/

namespace Cashflow.Consolidation

open Lib

/-- `writeString`: the length in eight bytes, then the bytes. -/
def writeString (l : Text) : List UInt8 :=
  Sha256.bigEndian 8 (utf8 l).length ++ utf8 l

/-- `writeInt`: eight bytes in two's complement. -/
def writeInt (n : Int64) : List UInt8 := Sha256.bigEndian 8 n.toUInt64.toNat

/-- The bytes `Fingerprint` writes of a canonical event, given the formats of its times. -/
def ConfirmedEntry.written {T D : Type} (formatTime : T → Text) (formatDay : D → Text)
    (e : ConfirmedEntry T D) : List UInt8 :=
  writeString e.eventID ++
  (writeString e.eventType ++
  (writeString (formatTime e.occurredAt) ++
  (writeString e.merchantID ++
  (writeInt e.merchantPosition ++
  (writeString e.entryID ++
  (writeString e.entryType ++
  (writeInt e.amountMinor ++
  (writeString e.currency ++
  (writeString (formatDay e.businessDate) ++
  (writeString (formatTime e.confirmedAt) ++
  (writeString (e.originalEntryID.getD []) ++
  writeString e.traceparent)))))))))))

/-- The bytes `Fingerprint` feeds to SHA-256. -/
def EntryConfirmed.fingerprintStream (event : EntryConfirmed) : List UInt8 :=
  event.canonical.written formatRFC3339Nano formatDate

def EntryConfirmed.fingerprint (e : EntryConfirmed) : Text :=
  hexEncode (sha256 e.fingerprintStream)

/-! ## Each field is read off the front of the stream -/

/-- A text is delimited by its length, so what follows it can be told apart. -/
theorem writeString_append_inj {l m : Text} {r r' : List UInt8}
    (hl : (utf8 l).length < 256 ^ 8) (hm : (utf8 m).length < 256 ^ 8)
    (h : writeString l ++ r = writeString m ++ r') : l = m ∧ r = r' := by
  simp only [writeString, List.append_assoc] at h
  obtain ⟨hLength, h⟩ := List.append_inj h (by simp)
  obtain ⟨hText, hRest⟩ := List.append_inj h (Sha256.bigEndian_inj hl hm hLength)
  exact ⟨utf8_injective hText, hRest⟩

/-- A number has eight bytes. -/
theorem writeInt_append_inj {n n' : Int64} {r r' : List UInt8}
    (h : writeInt n ++ r = writeInt n' ++ r') : n = n' ∧ r = r' := by
  obtain ⟨hBytes, hRest⟩ := List.append_inj h (by simp [writeInt])
  have hNat := Sha256.bigEndian_inj (by have := n.toUInt64.toNat_lt; omega)
    (by have := n'.toUInt64.toNat_lt; omega) hBytes
  exact ⟨congrArg Int64.ofUInt64 (UInt64.toNat_inj.mp hNat), hRest⟩

/-- A format that marks its own end needs no bound on its length: its bytes
are its characters. -/
theorem writeString_format_inj {α : Type} {format : α → Text}
    (hAscii : ∀ a, ∀ c ∈ format a, isAscii c = true)
    (hInj : ∀ {a b r r'}, format a ++ r = format b ++ r' → a = b ∧ r = r')
    {a b : α} {r r' : List UInt8}
    (h : writeString (format a) ++ r = writeString (format b) ++ r') : a = b ∧ r = r' := by
  simp only [writeString, List.append_assoc] at h
  obtain ⟨-, h⟩ := List.append_inj h (by simp)
  have hChars := congrArg latin1 h
  rw [latin1_append, latin1_append, latin1_utf8 (hAscii a), latin1_utf8 (hAscii b)] at hChars
  obtain ⟨hEq, hRest⟩ := hInj hChars
  exact ⟨hEq, latin1_injective hRest⟩

/-! ## The fields of a valid event are short -/

/-- An identifier has 36 bytes. -/
theorem length_utf8_uuid {s : Text} (h : isUUID s = true) :
    (utf8 (lower s)).length = 36 := by
  have hLower := isUUID_lower h
  rw [length_utf8_ascii (matchesAll_forall (fun p hp c hc => (uuidPattern_lower hp hc).1) hLower),
    matchesAll_length hLower]
  rfl

/-- A traceparent has 55. -/
theorem length_utf8_traceparent {s : Text} (h : isTraceparent s = true) :
    (utf8 s).length = 55 := by
  have hAscii : ∀ p ∈ traceparentPattern, ∀ c, p c = true → isAscii c = true := by
    intro p hp c hc
    have hClass : p = isLowerHex ∨ p = isDash := by
      simp only [traceparentPattern, List.mem_append, List.mem_replicate, List.mem_singleton] at hp
      tauto
    rcases hClass with rfl | rfl
    · exact isAscii_of_isHex (isHex_of_isLowerHex hc)
    · rw [beq_iff_eq.mp hc]
      rfl
  rw [length_utf8_ascii (matchesAll_forall hAscii h), matchesAll_length h]
  rfl

theorem length_utf8_original {o : Option Text} (h : o.all isUUID = true) :
    (utf8 ((o.map lower).getD [])).length < 256 ^ 8 := by
  cases o with
  | none => decide
  | some s =>
    rw [Option.map_some, Option.getD_some, length_utf8_uuid h]
    norm_num

/-- The empty text stands for an absent original only. -/
theorem original_inj {o o' : Option Text} (h : o.all isUUID = true) (h' : o'.all isUUID = true)
    (hEq : (o.map lower).getD [] = (o'.map lower).getD []) : o.map lower = o'.map lower := by
  have hNotEmpty : ∀ s : Text, isUUID s = true → lower s ≠ [] := by
    intro s hs hEmpty
    have hLength := length_utf8_uuid hs
    rw [hEmpty] at hLength
    cases hLength
  cases o with
  | none =>
    cases o' with
    | none => rfl
    | some s' => exact absurd hEq.symm (hNotEmpty s' h')
  | some s =>
    cases o' with
    | none => exact absurd hEq (hNotEmpty s h)
    | some s' => exact congrArg some hEq

/-- The part of validity that keeps the fields apart in the stream. -/
structure EntryConfirmed.Delimited (e : EntryConfirmed) : Prop where
  eventID : isUUID e.eventID = true
  merchantID : isUUID e.merchantID = true
  entryID : isUUID e.entryID = true
  originalEntryID : e.originalEntryID.all isUUID = true
  eventType : e.eventType = entryConfirmedV1
  entryType : e.entryType = entryCredit ∨ e.entryType = entryDebit
  currency : e.currency = currencyBRL
  traceparent : isTraceparent e.traceparent = true

/-- The fields of a valid event are short enough for their lengths. -/
theorem EntryConfirmed.Valid.delimited {e : EntryConfirmed} (h : e.Valid) : e.Delimited :=
  ⟨h.eventID, h.merchantID, h.entryID, h.originalEntryID, h.eventType, h.entryType, h.currency,
    h.traceparent⟩

theorem length_utf8_entryType {e : EntryConfirmed} (h : e.Delimited) :
    (utf8 e.entryType).length < 256 ^ 8 := by
  rcases h.entryType with h | h <;> rw [h] <;> decide

/-! ## The stream determines the event -/

/-- The fields are peeled off the two streams one by one, in writing order. -/
theorem fingerprintStream_injective {e e' : EntryConfirmed} (h : e.Delimited) (h' : e'.Delimited)
    (hStream : e.fingerprintStream = e'.fingerprintStream) : e.canonical = e'.canonical := by
  have hUUID : ∀ {s : Text}, isUUID s = true → (utf8 (lower s)).length < 256 ^ 8 := by
    intro s hs
    rw [length_utf8_uuid hs]
    norm_num
  -- field by field, in the order in which they are written
  unfold EntryConfirmed.fingerprintStream ConfirmedEntry.written at hStream
  simp only [EntryConfirmed.canonical, ConfirmedEntry.lowered] at hStream ⊢
  obtain ⟨hEventID, hStream⟩ := writeString_append_inj (hUUID h.eventID) (hUUID h'.eventID) hStream
  have hEventType : e.eventType = e'.eventType := by rw [h.eventType, h'.eventType]
  rw [hEventType] at hStream
  obtain ⟨hOccurred, hStream⟩ := writeString_format_inj formatRFC3339Nano_ascii
    formatRFC3339Nano_append_inj (List.append_cancel_left hStream)
  obtain ⟨hMerchant, hStream⟩ :=
    writeString_append_inj (hUUID h.merchantID) (hUUID h'.merchantID) hStream
  obtain ⟨hPosition, hStream⟩ := writeInt_append_inj hStream
  obtain ⟨hEntryID, hStream⟩ := writeString_append_inj (hUUID h.entryID) (hUUID h'.entryID) hStream
  obtain ⟨hEntryType, hStream⟩ :=
    writeString_append_inj (length_utf8_entryType h) (length_utf8_entryType h') hStream
  obtain ⟨hAmount, hStream⟩ := writeInt_append_inj hStream
  have hCurrency : e.currency = e'.currency := by rw [h.currency, h'.currency]
  rw [hCurrency] at hStream
  obtain ⟨hDate, hStream⟩ := writeString_format_inj formatDate_ascii formatDate_append_inj
    (List.append_cancel_left hStream)
  obtain ⟨hConfirmed, hStream⟩ :=
    writeString_format_inj formatRFC3339Nano_ascii formatRFC3339Nano_append_inj hStream
  obtain ⟨hOriginal, hStream⟩ := writeString_append_inj (length_utf8_original h.originalEntryID)
    (length_utf8_original h'.originalEntryID) hStream
  -- the last field has nothing after it
  rw [← List.append_nil (writeString e.traceparent), ← List.append_nil (writeString e'.traceparent)]
    at hStream
  obtain ⟨hTrace, -⟩ := writeString_append_inj
    (by rw [length_utf8_traceparent h.traceparent]; norm_num)
    (by rw [length_utf8_traceparent h'.traceparent]; norm_num) hStream
  rw [ConfirmedEntry.mk.injEq]
  exact ⟨hEventID, hEventType, hOccurred, hMerchant,
    hPosition, hEntryID, hEntryType, hAmount, hCurrency,
    hDate, hConfirmed,
    original_inj h.originalEntryID h'.originalEntryID hOriginal,
    hTrace⟩

/-- A fingerprint passes the check of its column. -/
theorem fingerprint_isLowerHex (e : EntryConfirmed) :
    matchesAll (List.replicate 64 isLowerHex) e.fingerprint = true := by
  apply matchesAll_replicate
  · rw [EntryConfirmed.fingerprint, length_hexEncode, length_sha256]
  · exact hexEncode_isLowerHex _

/-- Where SHA-256 separates the streams of two valid events, equal
fingerprints mean one event. -/
theorem fingerprint_eq_iff {e e' : EntryConfirmed} (h : e.Valid) (h' : e'.Valid)
    (hSha : sha256 e.fingerprintStream = sha256 e'.fingerprintStream →
      e.fingerprintStream = e'.fingerprintStream) :
    e.fingerprint = e'.fingerprint ↔ e.canonical = e'.canonical := by
  constructor
  · intro hEq
    exact fingerprintStream_injective h.delimited h'.delimited (hSha (hexEncode_injective hEq))
  · intro hEq
    rw [EntryConfirmed.fingerprint, EntryConfirmed.fingerprint,
      EntryConfirmed.fingerprintStream, EntryConfirmed.fingerprintStream, hEq]

end Cashflow.Consolidation
