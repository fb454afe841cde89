import Cashflow.Auth.Grpc

/-!
# Auth — one trace from the public edge to the ledger

A request for balances passes `httpauth`, which keeps its trace or gives it one, and
`runtimeobs.Middleware`, which opens a span for it. The service then calls the ledger
through the interceptors of `grpcsecurity`, which open a span on either side. Each of
these replaces the span in the context by its own.

* `trace_reaches_handler` — the trace identifier of the answer's header is the one the
  ledger's handler runs under, and the state that travels with it is one of two fixed
  texts.
-/

namespace Cashflow.Auth.Grpc

open Lib Ledger Token

/-! ## The public edge -/

/-- The context `httpauth` passes on: the trace of the request, if there is one. -/
def edgeContext (random : Randomness) (r : Http.Request) (ctx : Context) : Context :=
  match ensureTraceParent random (r.header.get "traceparent") with
  | .error _ => ctx
  | .ok (span, _) => ctx.withCarrier span (sanitizeTraceState (r.header.get "tracestate"))

/-- The span `runtimeobs.Middleware` puts around the handler of a request. -/
def observed (tracer : Tracer) (r : Http.Request) (ctx : Context) (name : Text) : Context :=
  let state := sanitizeTraceState (r.header.get "tracestate")
  let parent := match ctx.fromContext with
    | some carried => ctx.withRemoteParent carried.span
    | none =>
      match parseTraceParent (r.header.get "traceparent") with
      | .ok span => ctx.withRemoteParent span
      | .error _ => ctx
  (parent.start tracer name).withCurrentSpan state


/-! ## Spans read back -/

/-- A well formed span is one whose identifiers and flags pass the checks of the parser. -/
theorem ok_iff_valid {s : SpanContext} :
    s.Ok ↔ validIDs s.traceID s.spanID = true ∧ isLowerHexOf s.flags 2 = true := by
  have hZero : ∀ t : Text, isAllZero t = false ↔ allZeroHex t = false := fun t => by
    rw [← Bool.not_eq_true, ← Bool.not_eq_true, isAllZero_iff]
  simp only [validIDs, isLowerHexOf, Bool.and_eq_true, decide_eq_true_eq, Bool.not_eq_true', hZero]
  constructor
  · intro h
    exact ⟨⟨⟨⟨⟨h.traceLength, h.traceHex⟩, h.traceNonzero⟩, h.spanLength, h.spanHex⟩,
      h.spanNonzero⟩, h.flagsLength, h.flagsHex⟩
  · rintro ⟨⟨⟨⟨⟨hTrace, hTraceHex⟩, hTraceNonzero⟩, hSpan, hSpanHex⟩, hSpanNonzero⟩, hFlags, hFlagsHex⟩
    exact ⟨hTrace, hTraceHex, hTraceNonzero, hSpan, hSpanHex, hSpanNonzero, hFlags, hFlagsHex⟩

/-- The context of a recorded span is well formed. -/
theorem OtelSpan.context_ok (s : OtelSpan) : s.context.Ok := by
  refine ok_iff_valid.mpr ⟨s.valid, ?_⟩
  unfold OtelSpan.context
  cases s.sampled with
  | false => rfl
  | true => rfl

/-- A hexadecimal digit is neither a blank nor a dash. -/
theorem isLowerHex_not_space {c : Char} (h : isLowerHex c = true) :
    Outbox.isSpace c = false ∧ c ≠ '-' := by
  have hAll : ∀ n < 128, isLowerHex (Char.ofNat n) = true →
      Outbox.isSpace (Char.ofNat n) = false ∧ Char.ofNat n ≠ '-' := by decide
  exact forall_ascii (P := fun c => isLowerHex c = true → Outbox.isSpace c = false ∧ c ≠ '-') hAll
    (isAscii_of_isHex (by simp [isHex, h])) h

/-- A well-formed span is read back from its text. -/
theorem parseTraceParent_string {s : SpanContext} (h : s.Ok) :
    parseTraceParent s.string = .ok s := by
  have hHex : ∀ {t : Text}, lowerHex t = true → ∀ c ∈ t, Outbox.isSpace c = false ∧ c ≠ '-' :=
    fun ht c hc => isLowerHex_not_space (List.all_eq_true.mp ht c hc)
  -- the four parts have no dash in them, so splitting gives them back
  have hParts : ∀ t ∈ ["00".toList, s.traceID, s.spanID, s.flags], '-' ∉ t := by
    intro t ht hDash
    simp only [List.mem_cons, List.not_mem_nil, or_false] at ht
    rcases ht with rfl | rfl | rfl | rfl
    · exact absurd hDash (by decide)
    · exact (hHex h.traceHex _ hDash).2 rfl
    · exact (hHex h.spanHex _ hDash).2 rfl
    · exact (hHex h.flagsHex _ hDash).2 rfl
  have hString : s.string = ['-'].intercalate ["00".toList, s.traceID, s.spanID, s.flags] := by
    simp [SpanContext.string, List.intercalate]
  have hBlank : ∀ {t : Text}, t.any Outbox.isSpace = false →
      ∀ c ∈ t, Outbox.isSpace c = false := fun ht c hc => by
    simpa using List.any_eq_false.mp ht c hc
  have hVersion : ∀ c ∈ "00-".toList, Outbox.isSpace c = false := hBlank rfl
  have hDash : ∀ c ∈ "-".toList, Outbox.isSpace c = false := hBlank rfl
  -- and no blank, so there is nothing to trim
  have hTrim : trimSpace s.string = s.string := by
    refine trim_of_none fun c hc => ?_
    simp only [SpanContext.string, List.mem_append] at hc
    rcases hc with ((((hc | hc) | hc) | hc) | hc) | hc
    · exact hVersion c hc
    · exact (hHex h.traceHex c hc).1
    · exact hDash c hc
    · exact (hHex h.spanHex c hc).1
    · exact hDash c hc
    · exact (hHex h.flagsHex c hc).1
  obtain ⟨hIDs, hFlags⟩ := ok_iff_valid.mp h
  simp only [validIDs, Bool.and_eq_true, Bool.not_eq_true'] at hIDs
  unfold parseTraceParent
  rw [hTrim, hString, List.splitOn_intercalate '-' hParts (List.cons_ne_nil _ _)]
  simp [hIDs.1.1.1, hIDs.1.1.2, hIDs.1.2, hIDs.2, hFlags]

/-! ## One hop -/

/-- The context is in a span of the trace, and carries it with the state. -/
def Traced (ctx : Context) (traceID state : Text) : Prop :=
  ∃ span : OtelSpan, ctx.current = some span ∧ span.traceID = traceID ∧
    ctx.carrier = some ⟨span.context, state⟩

variable {S K : Type} {ctx : Context} {traceID state : Text}

/-- A state that was sanitized stays as it is. -/
theorem sanitizeTraceState_idem (state : Text) :
    sanitizeTraceState (sanitizeTraceState state) = sanitizeTraceState state := by
  have hPublic : trimSpace publicTraceState = publicTraceState := by decide
  have hNone : trimSpace [] ≠ publicTraceState := by decide
  by_cases h : trimSpace state = publicTraceState
  · simp [sanitizeTraceState, h, hPublic]
  · simp [sanitizeTraceState, h, hNone]

/-- A well formed carrier is found. -/
theorem fromContext_of_ok {c : Carrier} (hCarrier : ctx.carrier = some c) (hOk : c.span.Ok) :
    ctx.fromContext = some c := by
  rw [Context.fromContext, hCarrier, Option.filter_some, parseTraceParent_string hOk]
  rfl

/-- A traced context carries its trace. -/
theorem Traced.fromContext (h : Traced ctx traceID state) :
    ∃ carried, ctx.fromContext = some carried ∧ carried.span.Ok ∧ carried.span.traceID = traceID ∧
      carried.state = state := by
  obtain ⟨span, -, hTrace, hCarrier⟩ := h
  exact ⟨_, fromContext_of_ok hCarrier span.context_ok, span.context_ok, hTrace, rfl⟩

/-- A span started under one of the trace stays in the trace. -/
theorem traced_start {parent : OtelSpan} (hParent : ctx.current = some parent) (tracer : Tracer)
    (name state : Text) :
    Traced ((ctx.start tracer name).withCurrentSpan state) parent.traceID
      (sanitizeTraceState state) := by
  obtain ⟨child, hChild, hTrace⟩ := tracer.continues parent name
  have hCurrent : (ctx.start tracer name).current = some child := by
    rw [Context.start, hParent]
    exact hChild
  refine ⟨child, ?_, hTrace, ?_⟩
  · rw [Context.withCurrentSpan, hCurrent]
    exact hCurrent
  · rw [Context.withCurrentSpan, hCurrent]
    rfl

/-- A span that is started under a remote parent is of the parent's trace. -/
theorem traced_remote (ctx : Context) {span : SpanContext} (hSpan : span.Ok) (tracer : Tracer)
    (name state : Text) :
    Traced (((ctx.withRemoteParent span).start tracer name).withCurrentSpan state) span.traceID
      (sanitizeTraceState state) := by
  have hValid := (ok_iff_valid.mp hSpan).1
  have hCurrent : (ctx.withRemoteParent span).current =
      some ⟨span.traceID, span.spanID, span.sampled, hValid⟩ := by
    rw [Context.withRemoteParent, dif_pos hValid]
  exact traced_start hCurrent tracer name state

/-- The client's span is of the trace of its context. -/
theorem Traced.startClientSpan (h : Traced ctx traceID state) (tracer : Tracer) (method : Text) :
    Traced (startClientSpan tracer ctx method) traceID (sanitizeTraceState state) := by
  obtain ⟨carried, hFrom, -, -, hState⟩ := h.fromContext
  obtain ⟨span, hCurrent, rfl, -⟩ := h
  have hStart := traced_start hCurrent tracer method state
  simpa only [Grpc.startClientSpan, hFrom, hState] using hStart

/-- Starting it sends nothing yet. -/
theorem startClientSpan_outgoing (tracer : Tracer) (ctx : Context) (method : Text) :
    (startClientSpan tracer ctx method).outgoing = ctx.outgoing := by
  have hSpan : ∀ (c : Context) (state : Text), (c.withCurrentSpan state).outgoing = c.outgoing := by
    intro c state
    unfold Context.withCurrentSpan
    cases c.current <;> rfl
  exact hSpan _ _

/-- The span is sent as traceparent, in place of any other. -/
theorem setTrace_traceparent (md : Metadata) (span : SpanContext) (state : Text) :
    md.setTrace span state "traceparent".toList = [span.string] := by
  have hKeys : "traceparent".toList ≠ "tracestate".toList := by decide
  unfold Metadata.setTrace Metadata.set
  split
  · exact Function.update_self _ _ _
  · rw [Function.update_of_ne hKeys]
    exact Function.update_self _ _ _

/-- The state is sent unless it is empty. -/
theorem setTrace_tracestate {md : Metadata} (hMd : md "tracestate".toList = [])
    (span : SpanContext) (state : Text) :
    md.setTrace span state "tracestate".toList = if state = [] then [] else [state] := by
  have hKeys : "tracestate".toList ≠ "traceparent".toList := by decide
  unfold Metadata.setTrace Metadata.set
  split
  · rw [Function.update_of_ne hKeys, hMd]
  · exact Function.update_self _ _ _

/-- What a call in a trace is sent with. -/
theorem sent_trace {client : ClientInterceptor} {tracer : Tracer} {token : Text}
    {checkedAt startedAt : Int} {sent : Context} {method : Text}
    (h : Traced ctx traceID state) (hOutgoing : ctx.outgoing = none)
    (hSent : client.send tracer (.ok token : Except Unit Text) checkedAt startedAt ctx method =
      .ok sent) :
    ∃ (out : Metadata) (span : SpanContext), sent.outgoing = some out ∧ span.Ok ∧ span.traceID = traceID ∧
      out "traceparent".toList = [span.string] ∧
      out "tracestate".toList =
        if sanitizeTraceState state = [] then [] else [sanitizeTraceState state] := by
  cases hSent
  obtain ⟨deadline, hBounded, -⟩ :=
    bounded_eq (startClientSpan tracer ctx method) client.deadline checkedAt startedAt
  -- the deadline is no part of the trace
  have hTraced : Traced ({ startClientSpan tracer ctx method with deadline := some deadline })
      traceID (sanitizeTraceState state) := h.startClientSpan tracer method
  obtain ⟨carried, hFrom, hOk, hTrace, hState⟩ := hTraced.fromContext
  have hNone : (startClientSpan tracer ctx method).outgoing = none :=
    (startClientSpan_outgoing tracer ctx method).trans hOutgoing
  refine ⟨_, carried.span, rfl, hOk, hTrace, ?_, ?_⟩
  · rw [hBounded, outgoingMetadata, hFrom]
    exact setTrace_traceparent _ _ _
  · -- no other state was in the metadata, and the token is under another key
    have hKeys : "tracestate".toList ≠ "authorization".toList := by decide
    rw [hBounded, outgoingMetadata, hFrom, ← hState]
    refine setTrace_tracestate ?_ _ _
    dsimp only
    rw [hNone]
    exact Function.update_of_ne hKeys _ _

/-- The state that comes in has been sanitized. -/
theorem sanitize_incomingTraceState (ctx : Context) :
    sanitizeTraceState ctx.incomingTraceState = ctx.incomingTraceState := by
  unfold Context.incomingTraceState
  cases ctx.firstIncoming "tracestate" with
  | none => decide
  | some value => exact sanitizeTraceState_idem value

/-- A call that arrives with a span is handled in its trace. -/
theorem handled_trace {server : Interceptor S} {env : Environment S K} {clock : Moments}
    {received guarded : Context} {method : Text} {span : SpanContext}
    (hFresh : received.carrier = none) (hSpan : span.Ok)
    (hParent : received.firstIncoming "traceparent" = some span.string)
    (hMethod : isHealthMethod method = false)
    (hAdmit : server.admitCall env clock received method = .ok guarded) (tracer : Tracer) :
    Traced (startServerSpan tracer guarded method) span.traceID received.incomingTraceState := by
  obtain ⟨-, -, identity, -, -, rfl⟩ := (admit_ok_iff hMethod).mp hAdmit
  -- nothing is carried yet, so the parent is taken from the metadata
  have hFrom : received.traceParentFrom = some span := by
    have hNone : received.fromContext = none := by
      rw [Context.fromContext, hFresh]
      rfl
    rw [Context.traceParentFrom, hNone]
    simp only [hParent, Option.bind_some, parseTraceParent_string hSpan]
    rfl
  -- the guarded context carries it on
  have hGuarded : ∃ deadline, server.guarded clock received identity =
      { received with
        identity := some identity
        carrier := some ⟨span, received.incomingTraceState⟩
        deadline := some deadline } := by
    obtain ⟨deadline, hBounded, -⟩ := bounded_eq
      (({ received with identity := some identity } : Context).withCarrier span
        received.incomingTraceState) server.maxDeadline clock.checkedAt clock.startedAt
    refine ⟨deadline, ?_⟩
    rw [Interceptor.guarded, hFrom]
    refine hBounded.trans ?_
    simp only [Context.withCarrier, sanitize_incomingTraceState]
  obtain ⟨deadline, hGuarded⟩ := hGuarded
  have hCarried : (server.guarded clock received identity).fromContext =
      some ⟨span, received.incomingTraceState⟩ := fromContext_of_ok (by rw [hGuarded]) hSpan
  have hTraced := traced_remote (server.guarded clock received identity) hSpan tracer method
    received.incomingTraceState
  rw [sanitize_incomingTraceState] at hTraced
  simpa only [startServerSpan, hCarried] using hTraced

/-! ## From the edge -/

/-- A header that was set is read back. -/
theorem get_put (h : Http.Header) (name : String) (value : Option Text) :
    (h.put name value).get name = value.getD [] := by
  cases value with
  | none =>
    rw [Http.Header.get, Http.Header.put, Http.Header.del, Function.update_self]
    rfl
  | some value =>
    rw [Http.Header.get, Http.Header.put, Http.Header.set, Function.update_self]
    rfl

/-- The cleaned request has the traceparent and the state that were settled on. -/
theorem get_cleaned {random : Randomness} {r : Http.Request} {span : SpanContext} {kept : Bool}
    (hSpan : ensureTraceParent random (r.header.get "traceparent") = .ok (span, kept)) :
    (r.cleaned random).header.get "traceparent" = span.string ∧
    (r.cleaned random).header.get "tracestate" =
      sanitizeTraceState (r.header.get "tracestate") := by
  -- the two headers are not among those that are stripped
  have hStrip : ∀ name ∈ ["traceparent", "tracestate"],
      r.header.strip (Http.canonicalKey name.toList) = r.header (Http.canonicalKey name.toList) := by
    intro name hName
    rw [Http.strip_apply, if_neg]
    simp only [List.mem_cons, List.not_mem_nil, or_false] at hName
    rcases hName with rfl | rfl <;> decide
  have hWritten : (r.cleaned random).header =
      (r.header.strip.put "traceparent" (some span.string)).put "tracestate"
        (if sanitizeTraceState (r.header.get "tracestate") = [] then none
          else some (sanitizeTraceState (r.header.get "tracestate"))) := by
    simp only [Http.Request.cleaned, Http.Request.normalizeTraceContext, normalizeTraceContext,
      hStrip "traceparent" (by decide), hStrip "tracestate" (by decide)]
    rw [show ((r.header (Http.canonicalKey "traceparent".toList)).head?).getD [] =
      r.header.get "traceparent" from rfl, hSpan]
    rfl
  have hKeys : Http.canonicalKey "traceparent".toList ≠ Http.canonicalKey "tracestate".toList := by
    decide
  rw [hWritten]
  constructor
  · rw [Http.Header.get, Http.put_apply_of_ne _ hKeys]
    exact get_put _ _ _
  · rw [get_put]
    split
    · rename_i hNone
      exact hNone.symm
    · rfl

/-- The edge puts the request into its trace. -/
theorem edge_trace {random : Randomness} (hRandom : random.Nonzero) {r : Http.Request}
    {span : SpanContext} {kept : Bool}
    (hSpan : ensureTraceParent random (r.header.get "traceparent") = .ok (span, kept))
    (tracer : Tracer) (ctx : Context) (name : Text) :
    Traced (observed tracer (r.cleaned random) (edgeContext random r ctx) name) span.traceID
      (sanitizeTraceState (r.header.get "tracestate")) := by
  -- the span is the caller's, which was parsed, or a fresh one
  have hOk : span.Ok := by
    unfold ensureTraceParent at hSpan
    cases hParse : parseTraceParent (r.header.get "traceparent") with
    | ok own =>
      rw [hParse] at hSpan
      cases hSpan
      exact (parseTraceParent_ok hParse).1
    | error e =>
      cases hFresh : newSpanContext random with
      | ok fresh =>
        rw [hParse, hFresh] at hSpan
        cases hSpan
        exact (newSpanContext_ok hRandom hFresh).1
      | error e =>
        rw [hParse, hFresh] at hSpan
        cases hSpan
  have hCarried : (edgeContext random r ctx).fromContext =
      some ⟨span, sanitizeTraceState (r.header.get "tracestate")⟩ := by
    refine fromContext_of_ok (c := ⟨span, _⟩) ?_ hOk
    rw [edgeContext, hSpan]
    simp only [Context.withCarrier, sanitizeTraceState_idem]
  have hTraced := traced_remote (edgeContext random r ctx) hOk tracer name
    (sanitizeTraceState (r.header.get "tracestate"))
  simpa only [observed, (get_cleaned hSpan).2, sanitizeTraceState_idem, hCarried] using hTraced

/-- Whatever headers a public request comes with, whatever its handler adds to the context before it
calls the ledger, and whatever spans the tracers open on the way: the ledger's handler runs in the
trace that the header of the answer names, which is the caller's own when that was well formed. The
state that travels with it is the caller's only if it is the public marker. -/
theorem trace_reaches_handler {S K : Type} (random : Randomness) (hRandom : random.Nonzero)
    (r : Http.Request) (span : SpanContext) (kept : Bool)
    (hSpan : ensureTraceParent random (r.header.get "traceparent") = .ok (span, kept))
    (atEdge atClient atServer : Tracer) (requestCtx ctx : Context) (name method : Text)
    (hCurrent : ctx.current =
      (observed atEdge (r.cleaned random) (edgeContext random r requestCtx) name).current)
    (hCarrier : ctx.carrier =
      (observed atEdge (r.cleaned random) (edgeContext random r requestCtx) name).carrier)
    (hOutgoing : ctx.outgoing = none)
    (client : ClientInterceptor) (token : Text) (checkedAt startedAt : Int)
    (sent received guarded : Context)
    (hSent : client.send atClient (.ok token : Except Unit Text) checkedAt startedAt ctx method =
      .ok sent)
    (hDelivered : Delivered sent received) (hMethod : isHealthMethod method = false)
    (server : Interceptor S) (env : Environment S K) (clock : Moments)
    (hAdmit : server.admitCall env clock received method = .ok guarded) :
    (r.cleaned random).header.get "traceparent" = span.string ∧
    (∀ own, parseTraceParent (r.header.get "traceparent") = .ok own → span = own) ∧
    Traced (startServerSpan atServer guarded method) span.traceID
      (sanitizeTraceState (r.header.get "tracestate")) := by
  refine ⟨(get_cleaned hSpan).1, ?_, ?_⟩
  · intro own hOwn
    rw [ensureTraceParent, hOwn] at hSpan
    cases hSpan
    rfl
  · have hEdge : Traced ctx span.traceID (sanitizeTraceState (r.header.get "tracestate")) := by
      unfold Traced
      rw [hCurrent, hCarrier]
      exact edge_trace hRandom hSpan atEdge requestCtx name
    obtain ⟨out, sentSpan, hOut, hOk, hTrace, hParent, hState⟩ := sent_trace hEdge hOutgoing hSent
    obtain ⟨out', into, hOut', hInto, hKeys⟩ := hDelivered.metadata
    obtain rfl : out = out' := Option.some.inj (hOut.symm.trans hOut')
    -- the metadata arrives under the keys it was sent with
    have hFirst : ∀ key ∈ ["authorization", "traceparent", "tracestate"],
        received.firstIncoming key = (out key.toList).head? := by
      intro key hKey
      rw [Context.firstIncoming, hInto, Option.bind_some, hKeys key hKey]
    have hHandled := handled_trace hDelivered.fresh hOk
      (by rw [hFirst "traceparent" (by decide), hParent]; rfl) hMethod hAdmit atServer
    -- what arrives is what was sent, an absent state reading as the empty one
    have hArrived : received.incomingTraceState =
        sanitizeTraceState (r.header.get "tracestate") := by
      rw [sanitizeTraceState_idem] at hState
      rw [Context.incomingTraceState, hFirst "tracestate" (by decide), hState]
      split
      · rename_i hNone
        split at hNone
        · rename_i hEmpty
          exact hEmpty.symm
        · cases hNone
      · rename_i hSome
        split at hSome
        · cases hSome
        · cases hSome
          exact sanitizeTraceState_idem _
    rw [hTrace, hArrived] at hHandled
    exact hHandled

def bareRequest : Http.Request where
  method := "GET".toList
  path := ["v1".toList, "daily-balances".toList]
  header := fun _ => []
  contentLength := 0
  body := none

/-- The context of a request without headers, at its handler. -/
def bareContext : Context :=
  observed idleTracer (bareRequest.cleaned onesRandomness)
    (edgeContext onesRandomness bareRequest {}) []

/-- Random bytes that are all ones are not all zero. -/
theorem onesRandomness_nonzero : onesRandomness.Nonzero :=
  ⟨by rintro _ ⟨⟩; exact ⟨0, by decide, by decide⟩, by rintro _ ⟨⟩; exact ⟨0, by decide, by decide⟩⟩

/-- A bare request, whose trace begins at the edge. -/
theorem trace_reaches_handler_clerk :
    ∃ guarded span kept,
      ensureTraceParent onesRandomness (bareRequest.header.get "traceparent") = .ok (span, kept) ∧
      Traced (startServerSpan idleTracer guarded operationGetWatermark) span.traceID [] := by
  obtain ⟨sent, hSent⟩ : ∃ sent, (ClientInterceptor.mk defaultMaxDeadline).send idleTracer
      (.ok clerkToken : Except Unit Text) 0 0 bareContext operationGetWatermark = .ok sent :=
    ⟨_, rfl⟩
  have hOut : ∃ out, sent.outgoing = some out ∧
      out "authorization".toList = ["Bearer ".toList ++ clerkToken] := by
    cases hSent
    exact ⟨_, rfl, outgoing_authorization _ _⟩
  obtain ⟨out, hOut, hToken⟩ := hOut
  -- the network delivers the call over a verified certificate
  have hDelivered : Delivered sent { deadline := some 0, incoming := some out, peer := .tls 1 } :=
    ⟨⟨out, out, hOut, rfl, fun _ _ => rfl⟩, rfl, rfl⟩
  have hTrim : trimSpace clerkToken = clerkToken := by decide +kernel
  have hVerify : authenticate clerkEnvironment ledgerVerifier newYear2026
        { deadline := some 0, incoming := some out, peer := .tls 1 } =
      .ok (clerkIssuer.mintedIdentity newYear2026 clerkOptions) := by
    rw [authenticate_bearer rfl hToken, hTrim]
    exact clerk_accepted
  -- and the server admits it
  have hMethod : isHealthMethod operationGetWatermark = false := by decide
  have hAuthorized : clerkServer.policy.authorize operationGetWatermark
      (clerkIssuer.mintedIdentity newYear2026 clerkOptions) = .ok () := by decide
  obtain ⟨guarded, hAdmit⟩ : ∃ guarded, clerkServer.admitCall clerkEnvironment
      ⟨newYear2026, 0, 0⟩ { deadline := some 0, incoming := some out, peer := .tls 1 }
        operationGetWatermark = .ok guarded :=
    ⟨_, (admit_ok_iff hMethod).mpr ⟨fun _ => rfl, fun _ => rfl, _, hVerify, hAuthorized, rfl⟩⟩
  obtain ⟨-, -, hTraced⟩ := trace_reaches_handler onesRandomness onesRandomness_nonzero bareRequest
    _ _ rfl idleTracer idleTracer idleTracer {} bareContext [] operationGetWatermark rfl rfl rfl
    (ClientInterceptor.mk defaultMaxDeadline) clerkToken 0 0 sent _ _ hSent hDelivered hMethod
    clerkServer _ _ hAdmit
  exact ⟨guarded, _, _, rfl, hTraced⟩

end Cashflow.Auth.Grpc
