import Cashflow.Ledger.Domain
import Cashflow.Outbox.Store

/-!
# Auth — the trace context at the edge

`ParseTraceParent`, `EnsureTraceParent` and `SanitizeTraceState` of
`internal/platform/observability/tracecontext`, and `normalizeTraceContext` of
`internal/platform/auth/httpauth/middleware.go`, which writes into the request
what the ledger later checks with `ValidateTraceparent`.

A header is read as characters; a byte that is part of none reads as U+FFFD, which
is no space, no dash and no digit.

* `written_traceparent_accepted_iff` — the ledger accepts what the edge writes
  unless the caller set flags other than `00` and `01`, which the edge keeps.
-/

namespace Cashflow.Auth

open Lib Ledger Outbox

/-! ## Parsing -/

inductive TraceError where
  | invalidTraceParent
  | noRandomness
deriving DecidableEq, Repr

structure SpanContext where
  traceID : Text
  spanID : Text
  flags : Text
deriving DecidableEq, Repr

/-- `strings.TrimSpace` -/
def trimSpace (value : Text) : Text := (value.dropWhile isSpace).rdropWhile isSpace

/-- `isLowerHex`, with the width it asks for. -/
def isLowerHexOf (value : Text) (width : Nat) : Bool :=
  decide (value.length = width) && value.all isLowerHex

/-- `isAllZero`: nothing is left once the zeros at both ends are trimmed. -/
def isAllZero (value : Text) : Bool :=
  ((value.dropWhile (· == '0')).rdropWhile (· == '0')).isEmpty

def SpanContext.string (s : SpanContext) : Text :=
  "00-".toList ++ s.traceID ++ "-".toList ++ s.spanID ++ "-".toList ++ s.flags

def parseTraceParent (value : Text) : Except TraceError SpanContext :=
  match (trimSpace value).splitOn '-' with
  | [version, traceID, spanID, flags] =>
    if version ≠ "00".toList then .error .invalidTraceParent
    else if !isLowerHexOf traceID 32 || isAllZero traceID then .error .invalidTraceParent
    else if !isLowerHexOf spanID 16 || isAllZero spanID then .error .invalidTraceParent
    else if !isLowerHexOf flags 2 then .error .invalidTraceParent
    else .ok ⟨traceID, spanID, flags⟩
  | _ => .error .invalidTraceParent

/-! ## Writing -/

/-- The two reads of `NewSpanContext`. -/
structure Randomness where
  trace : Option (Nat → UInt8)
  span : Option (Nat → UInt8)

def newSpanContext (random : Randomness) : Except TraceError SpanContext :=
  match random.trace, random.span with
  | some trace, some span =>
    .ok ⟨hexEncode ((List.range 16).map trace), hexEncode ((List.range 8).map span), "01".toList⟩
  | _, _ => .error .noRandomness

/-- `EnsureTraceParent`, with whether the caller's value was kept. -/
def ensureTraceParent (random : Randomness) (value : Text) :
    Except TraceError (SpanContext × Bool) :=
  match parseTraceParent value with
  | .ok span => .ok (span, true)
  | .error _ => (newSpanContext random).map fun span => (span, false)

def publicTraceState : Text := "cashflow=public-edge".toList

def sanitizeTraceState (value : Text) : Text :=
  if trimSpace value = publicTraceState then publicTraceState else []

/-- The two headers; one that is absent reads as empty. -/
structure TraceHeaders where
  traceparent : Option Text
  tracestate : Option Text
deriving DecidableEq, Repr

def normalizeTraceContext (random : Randomness) (headers : TraceHeaders) : TraceHeaders :=
  match ensureTraceParent random (headers.traceparent.getD []) with
  | .error _ => ⟨none, none⟩
  | .ok (span, _) =>
    let state := sanitizeTraceState (headers.tracestate.getD [])
    ⟨some span.string, if state = [] then none else some state⟩

/-! ## What is written -/

theorem isAllZero_iff {value : Text} : isAllZero value = true ↔ allZeroHex value = true := by
  unfold isAllZero allZeroHex
  rw [List.isEmpty_iff, List.rdropWhile_eq_nil_iff, List.all_eq_true]
  constructor
  · intro h c hc
    by_contra hNot
    have hDrop : value.dropWhile (· == '0') ≠ [] := by
      intro hNil
      exact hNot (List.dropWhile_eq_nil_iff.mp hNil c hc)
    have hHead := List.head_dropWhile_not (· == '0') hDrop
    rw [h _ (List.head_mem hDrop)] at hHead
    cases hHead
  · intro h c hc
    exact h c (List.dropWhile_sublist _ |>.subset hc)

/-- A span as its parts are checked by the edge. -/
structure SpanContext.Ok (s : SpanContext) : Prop where
  traceLength : s.traceID.length = 32
  traceHex : lowerHex s.traceID = true
  traceNonzero : allZeroHex s.traceID = false
  spanLength : s.spanID.length = 16
  spanHex : lowerHex s.spanID = true
  spanNonzero : allZeroHex s.spanID = false
  flagsLength : s.flags.length = 2
  flagsHex : lowerHex s.flags = true

theorem parseTraceParent_ok {value : Text} {s : SpanContext} (h : parseTraceParent value = .ok s) :
    s.Ok ∧ s.string = trimSpace value := by
  unfold parseTraceParent at h
  split at h
  · rename_i version traceID spanID flags hFields
    split at h
    · cases h
    rename_i hVersion
    split at h
    · cases h
    rename_i hTrace
    split at h
    · cases h
    rename_i hSpan
    split at h
    · cases h
    rename_i hFlags
    cases h
    rw [not_not] at hVersion
    simp only [Bool.or_eq_true, Bool.not_eq_true', not_or, Bool.not_eq_false, isLowerHexOf,
      Bool.and_eq_true, decide_eq_true_eq, isAllZero_iff] at hTrace hSpan hFlags
    refine ⟨⟨hTrace.1.1, hTrace.1.2, Bool.eq_false_iff.mpr hTrace.2, hSpan.1.1, hSpan.1.2,
      Bool.eq_false_iff.mpr hSpan.2, hFlags.1, hFlags.2⟩, ?_⟩
    -- the four fields, joined again, are the text that was split
    have hJoin : ['-'].intercalate ((trimSpace value).splitOn '-') = trimSpace value :=
      List.intercalate_splitOn '-'
    rw [hFields, hVersion] at hJoin
    rw [← hJoin]
    simp [SpanContext.string, List.intercalate]
  · cases h

/-- What the ledger asks of a span beyond what the edge checks. -/
theorem validateTraceparent_string {s : SpanContext} (h : s.Ok) :
    validateTraceparent s.string = .ok () ↔ s.flags = "00".toList ∨ s.flags = "01".toList := by
  have hString : s.string = '0' :: '0' :: '-' ::
      (s.traceID ++ '-' :: (s.spanID ++ '-' :: s.flags)) := by
    simp [SpanContext.string]
  -- the ledger reads fields at fixed offsets, so the lengths place them
  have hTrace : (s.string.drop 3).take 32 = s.traceID := by
    rw [hString]
    exact List.take_left' h.traceLength
  have hRest : s.string.drop 35 = '-' :: (s.spanID ++ '-' :: s.flags) := by
    rw [hString]
    exact List.drop_left' h.traceLength
  have hParent : (s.string.drop 36).take 16 = s.spanID := by
    rw [← List.drop_drop (i := 1) (j := 35), hRest]
    exact List.take_left' h.spanLength
  have hLast : s.string.drop 52 = '-' :: s.flags := by
    rw [← List.drop_drop (i := 17) (j := 35), hRest]
    exact List.drop_left' h.spanLength
  have hFlags : (s.string.drop 53).take 2 = s.flags := by
    rw [← List.drop_drop (i := 1) (j := 52), hLast]
    exact List.take_of_length_le (by simp [h.flagsLength])
  have hLength : s.string.length = 55 := by
    rw [hString]
    simp [h.traceLength, h.spanLength, h.flagsLength]
  have hDash₂ : s.string[35]? = some '-' := by
    rw [← List.head?_drop, hRest]
    rfl
  have hDash₃ : s.string[52]? = some '-' := by
    rw [← List.head?_drop, hLast]
    rfl
  have hVersion : s.string.take 2 = "00".toList := by
    rw [hString]
    rfl
  have hDash₁ : s.string[2]? = some '-' := by
    rw [hString]
    rfl
  have hZeros : lowerHex "00".toList = true ∧ ("00".toList == "ff".toList) = false ∧
      ("00".toList == "00".toList) = true := by decide
  unfold validateTraceparent
  simp only [hTrace, hParent, hFlags, hLength, hDash₁, hDash₂, hDash₃, hVersion, h.traceHex,
    h.spanHex, h.flagsHex, h.traceNonzero, h.spanNonzero, hZeros.1, hZeros.2.1, hZeros.2.2,
    ne_eq, not_true, or_self, if_false, Bool.not_true, Bool.or_self, Bool.false_or, Bool.true_and,
    Bool.and_eq_true, bne_iff_ne]
  by_cases hKnown : s.flags = "00".toList ∨ s.flags = "01".toList
  · rw [if_neg (by tauto)]
    exact ⟨fun _ => hKnown, fun _ => rfl⟩
  · rw [if_pos (by tauto)]
    exact ⟨nofun, fun hOk => absurd hOk hKnown⟩

/-! ## Fresh spans -/

/-- No generated identifier is all zeros. -/
def Randomness.Nonzero (random : Randomness) : Prop :=
  (∀ trace ∈ random.trace, ∃ i < 16, trace i ≠ 0) ∧ ∀ span ∈ random.span, ∃ i < 8, span i ≠ 0

theorem allZeroHex_hexEncode {bytes : List UInt8} (h : ∃ b ∈ bytes, b ≠ 0) :
    allZeroHex (hexEncode bytes) = false := by
  obtain ⟨b, hb, hNonzero⟩ := h
  rw [Bool.eq_false_iff]
  intro hAll
  -- all zeros is the text of as many zero bytes
  have hText : hexEncode bytes = hexEncode (List.replicate bytes.length 0) := by
    rw [List.eq_replicate_of_mem fun c hc => beq_iff_eq.mp (List.all_eq_true.mp hAll c hc),
      List.eq_replicate_of_mem (l := hexEncode (List.replicate bytes.length 0)) (a := '0') ?_,
      length_hexEncode, length_hexEncode, List.length_replicate]
    intro c hc
    obtain ⟨z, hz, hc⟩ := List.mem_flatMap.mp hc
    rw [List.eq_of_mem_replicate hz] at hc
    have hDigit : c = Nat.digitChar 0 := by simpa using hc
    exact hDigit
  have hBytes := hexEncode_injective hText
  rw [hBytes] at hb
  exact hNonzero (List.eq_of_mem_replicate hb)

theorem newSpanContext_ok {random : Randomness} (hRandom : random.Nonzero) {s : SpanContext}
    (h : newSpanContext random = .ok s) : s.Ok ∧ s.flags = "01".toList := by
  unfold newSpanContext at h
  split at h
  · rename_i trace span hTrace hSpan
    cases h
    obtain ⟨i, hi, hTraceByte⟩ := hRandom.1 trace hTrace
    obtain ⟨j, hj, hSpanByte⟩ := hRandom.2 span hSpan
    refine ⟨⟨?_, List.all_eq_true.mpr (hexEncode_isLowerHex _), ?_, ?_,
      List.all_eq_true.mpr (hexEncode_isLowerHex _), ?_, rfl, rfl⟩, rfl⟩
    · rw [length_hexEncode, List.length_map, List.length_range]
    · exact allZeroHex_hexEncode
        ⟨trace i, List.mem_map_of_mem (List.mem_range.mpr hi), hTraceByte⟩
    · rw [length_hexEncode, List.length_map, List.length_range]
    · exact allZeroHex_hexEncode
        ⟨span j, List.mem_map_of_mem (List.mem_range.mpr hj), hSpanByte⟩
  · cases h

/-- Only missing randomness leaves the edge without a span. -/
theorem newSpanContext_error {random : Randomness} {e : TraceError}
    (h : newSpanContext random = .error e) : random.trace = none ∨ random.span = none := by
  unfold newSpanContext at h
  cases hTrace : random.trace with
  | none => exact .inl rfl
  | some trace =>
    cases hSpan : random.span with
    | none => exact .inr rfl
    | some span =>
      rw [hTrace, hSpan] at h
      cases h

/-- The traceparent the edge writes is the caller's, without surrounding spaces,
when `ParseTraceParent` accepts that one. The ledger accepts what is written if and
only if the caller's traceparent was replaced or has the flags `00` or `01`. Only
missing randomness leaves the header out. -/
theorem written_traceparent_accepted_iff (random : Randomness) (hRandom : random.Nonzero)
    (headers : TraceHeaders) :
    let caller := headers.traceparent.getD []
    let written := (normalizeTraceContext random headers).traceparent
    (∀ span, parseTraceParent caller = .ok span → written = some (trimSpace caller)) ∧
    (∀ value, written = some value →
      (validateTraceparent value = .ok () ↔ ∀ span, parseTraceParent caller = .ok span →
        span.flags = "00".toList ∨ span.flags = "01".toList)) ∧
    (written = none → random.trace = none ∨ random.span = none) := by
  intro caller written
  have hWritten : written = (normalizeTraceContext random headers).traceparent := rfl
  unfold normalizeTraceContext ensureTraceParent at hWritten
  cases hParse : parseTraceParent caller with
  | ok span =>
    obtain ⟨hOk, hString⟩ := parseTraceParent_ok hParse
    simp only [caller] at hParse
    simp only [hParse] at hWritten
    refine ⟨fun _ _ => by rw [hWritten, hString], ?_, fun hNone => ?_⟩
    · intro value hValue
      rw [hWritten, Option.some.injEq] at hValue
      rw [← hValue, validateTraceparent_string hOk]
      constructor
      · rintro hFlags _ ⟨⟩
        exact hFlags
      · exact fun hAll => hAll span rfl
    · rw [hWritten] at hNone
      cases hNone
  | error e =>
    simp only [caller] at hParse
    simp only [hParse] at hWritten
    refine ⟨nofun, ?_⟩
    -- the caller's is replaced by a fresh one, which has the flags `01`
    cases hFresh : newSpanContext random with
    | ok span =>
      obtain ⟨hOk, hFlags⟩ := newSpanContext_ok hRandom hFresh
      rw [hFresh] at hWritten
      refine ⟨fun value hValue => ⟨fun _ _ => nofun, fun _ => ?_⟩, fun hNone => ?_⟩
      · rw [hWritten] at hValue
        rw [← Option.some.inj hValue]
        exact (validateTraceparent_string hOk).mpr (.inr hFlags)
      · rw [hWritten] at hNone
        cases hNone
    | error cause =>
      rw [hFresh] at hWritten
      refine ⟨fun value hValue => ?_, fun _ => newSpanContext_error hFresh⟩
      rw [hWritten] at hValue
      cases hValue

/-- Bytes that are all one. -/
def onesRandomness : Randomness := ⟨some fun _ => 1, some fun _ => 1⟩

theorem written_traceparent_accepted_iff_replaced :
    ∃ value, (normalizeTraceContext onesRandomness ⟨none, none⟩).traceparent = some value ∧
      validateTraceparent value = .ok () := by
  obtain ⟨-, hAccepted, -⟩ := written_traceparent_accepted_iff onesRandomness
    ⟨by rintro _ ⟨⟩; exact ⟨0, by decide, by decide⟩, by rintro _ ⟨⟩; exact ⟨0, by decide, by decide⟩⟩
    ⟨none, none⟩
  exact ⟨_, rfl, (hAccepted _ rfl).mpr fun span hSpan => by cases hSpan⟩

/-- A caller that sets another flag bit has its traceparent kept, and the ledger
refuses it. -/
theorem random_flag_refused :
    let caller := "00-0af7651916cd43dd8448eb211c80319c-b7ad6b7169203331-02".toList
    (normalizeTraceContext onesRandomness ⟨some caller, none⟩).traceparent = some caller ∧
      validateTraceparent caller = .error .invalidArgument := by
  decide +kernel

end Cashflow.Auth
