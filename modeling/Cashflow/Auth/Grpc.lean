import Cashflow.Auth.Issuer
import Cashflow.Auth.Middleware
import Cashflow.Lib.Trim
import Mathlib.Data.List.AList

/-!
# Auth — the private surface

`internal/platform/grpcsecurity`: what the client attaches to an internal call and
what the server asks of one before a handler sees it; the delegations of merchants
to services, which `identityruntime.ParseAssignments` reads from the configuration;
and the parts of `tracecontext` that put the trace of a call into its context.

A context is the record of what these packages look up in it. Identifiers of the
tracing library are kept as their hexadecimal digits. A Go map is an `AList`, in
the order it is ranged over.

Main results:

* `authorizeTenant_iff` — a service is let at a merchant exactly when an assignment
  of the configured text says so;
* `sent_call_admitted_iff` — a call sent by the client is admitted for the identity
  of its own token, under a deadline that is no later than the caller's.
-/

namespace Cashflow.Auth

/-- `Sampled`: the lowest bit of the last character. -/
def SpanContext.sampled (s : SpanContext) : Bool :=
  decide (s.flags.length = 2) && s.flags.getLast?.any fun c => decide (c.toNat % 2 = 1)

namespace Grpc

open Lib Token

/-! ## Contexts -/

/-- What the transport knows of the other side. -/
inductive Peer where
  /-- No peer, or one without TLS. -/
  | plain
  | tls (verifiedChains : Nat)
deriving DecidableEq, Repr

/-- `metadata.MD`, by lower-case keys. -/
abbrev Metadata := Text → List Text

def Metadata.set (md : Metadata) (key : String) (value : Text) : Metadata :=
  Function.update md key.toList [value]

/-- `carrier` of `tracecontext`. -/
structure Carrier where
  span : SpanContext
  state : Text
deriving DecidableEq, Repr

/-- What `TraceIDFromHex` and `SpanIDFromHex` accept. -/
def validIDs (traceID spanID : Text) : Bool :=
  isLowerHexOf traceID 32 && !isAllZero traceID && isLowerHexOf spanID 16 && !isAllZero spanID

/-- A valid span of the tracing library. -/
structure OtelSpan where
  traceID : Text
  spanID : Text
  sampled : Bool
  valid : validIDs traceID spanID = true

/-- The span as `WithCurrentSpan` writes it. -/
def OtelSpan.context (s : OtelSpan) : SpanContext :=
  ⟨s.traceID, s.spanID, if s.sampled then "01".toList else "00".toList⟩

structure Context where
  peer : Peer := .plain
  /-- In nanoseconds. -/
  deadline : Option Int := none
  incoming : Option Metadata := none
  outgoing : Option Metadata := none
  carrier : Option Carrier := none
  /-- The current span of the tracing library, when it is valid. -/
  current : Option OtelSpan := none
  identity : Option Token.Identity := none

/-- The tracer: the span it starts under the current one. A child belongs to the trace of its
parent, and without a provider it is the parent. -/
structure Tracer where
  start : Option OtelSpan → Text → Option OtelSpan
  continues : ∀ parent name, ∃ child, start (some parent) name = some child ∧
    child.traceID = parent.traceID

namespace Context

variable (ctx : Context)

def withCarrier (span : SpanContext) (state : Text) : Context :=
  { ctx with carrier := some ⟨span, sanitizeTraceState state⟩ }

def fromContext : Option Carrier :=
  ctx.carrier.filter fun value => (parseTraceParent value.span.string).toBool

/-- The state is one of two texts, and the tracing library reads both. -/
def withRemoteParent (span : SpanContext) : Context :=
  if h : validIDs span.traceID span.spanID = true then
    { ctx with current := some ⟨span.traceID, span.spanID, span.sampled, h⟩ }
  else ctx

def withCurrentSpan (state : Text) : Context :=
  match ctx.current with
  | none => ctx
  | some span => ctx.withCarrier span.context state

def start (tracer : Tracer) (name : Text) : Context :=
  { ctx with current := tracer.start ctx.current name }

/-- `incoming.Get(key)`, when it has a first value. -/
def firstIncoming (key : String) : Option Text :=
  ctx.incoming.bind fun md => (md key.toList).head?

def traceParentFrom : Option SpanContext :=
  match ctx.fromContext with
  | some carried => some carried.span
  | none => (ctx.firstIncoming "traceparent").bind fun value => (parseTraceParent value).toOption

def incomingTraceState : Text :=
  match ctx.firstIncoming "tracestate" with
  | none => []
  | some value => sanitizeTraceState value

/-- `sharedBudget`, and the end of `admit`: a deadline within the limit stays. The clock is read
for the comparison and again for the timeout. -/
def bounded (limit checkedAt startedAt : Int) : Context :=
  match ctx.deadline with
  | some deadline =>
    if deadline - checkedAt ≤ limit then ctx
    else { ctx with deadline := some (min deadline (startedAt + limit)) }
  | none => { ctx with deadline := some (startedAt + limit) }

end Context

/-- Five seconds. -/
def defaultMaxDeadline : Int := 5000000000

/-! ## Statuses -/

inductive Code where
  | invalidArgument
  | unauthenticated
  | permissionDenied
deriving DecidableEq, Repr

structure Status where
  code : Code
  message : Text
deriving DecidableEq, Repr

def mutualTLSRequired : Status :=
  ⟨.unauthenticated, "mutual TLS is required on the internal network".toList⟩

def deadlineRequired : Status := ⟨.invalidArgument, "a deadline is required".toList⟩

def identityRequired : Status :=
  ⟨.unauthenticated, "a valid service identity is required".toList⟩

def scopeLacking : Status :=
  ⟨.permissionDenied, "the service identity lacks the required scope".toList⟩

def merchantIDRequired : Status := ⟨.invalidArgument, "merchant_id is required".toList⟩

def notDelegated : Status :=
  ⟨.permissionDenied, "the service identity is not delegated to the requested merchant".toList⟩

/-! ## Delegations -/

inductive AssignmentError where
  /-- "identityruntime: invalid assignment %q" -/
  | invalid (assignment : Text)
deriving DecidableEq, Repr

abbrev Assignments := AList fun _ : Text => List Text

/-- The values of one assignment, appended to those of its name. -/
def appendValues (name : Text) (result : Assignments) (values : List Text) : Assignments :=
  values.foldl (fun result value =>
    if trimSpace value = [] then result
    else result.insert name ((result.lookup name).getD [] ++ [trimSpace value])) result

def assign (result : Assignments) (assignment : Text) : Except AssignmentError Assignments :=
  match Http.cut '=' (trimSpace assignment) with
  | none => .error (.invalid assignment)
  | some (name, values) =>
    if trimSpace name = [] then .error (.invalid assignment)
    else .ok (appendValues (trimSpace name) result (values.splitOn ','))

def parseAssignments (raw : Text) : Except AssignmentError Assignments :=
  if trimSpace raw = [] then .ok ∅ else (raw.splitOn ';').foldlM assign ∅

inductive TenantError where
  /-- "grpcsecurity: service has no tenant delegation" -/
  | noDelegation
  /-- "grpcsecurity: merchant is not delegated to service" -/
  | notListed
deriving DecidableEq, Repr

/-- The interface: the identity, the merchant asked for and the operation. -/
abbrev TenantAuthorizer := Token.Identity → Text → Operation → Except TenantError Unit

structure StaticTenantDelegations where
  allowed : AList fun _ : Text => Finset Text

def newStaticTenantDelegations (delegations : Assignments) : StaticTenantDelegations where
  allowed := delegations.entries.foldl (fun allowed entry =>
    allowed.insert (trimSpace entry.1) ((entry.2.map trimSpace).filter (· ≠ [])).toFinset) ∅

/-- The name a token goes by in the delegations. -/
def service (identity : Token.Identity) : Text :=
  if identity.clientID = [] then identity.subject else identity.clientID

def StaticTenantDelegations.authorizeTenant (d : StaticTenantDelegations) : TenantAuthorizer :=
  fun identity merchant _ =>
    match d.allowed.lookup (service identity) with
    | none => .error .noDelegation
    | some merchants => if merchant ∈ merchants then .ok () else .error .notListed

/-! ## The server -/

structure ServerConfig (S : Type) where
  verifier : Option (Verifier S)
  policy : Option ScopePolicy
  tenants : Option TenantAuthorizer
  requireMTLS : Bool
  requireDeadline : Bool
  maxDeadline : Int := 0
  maxRecvMsgBytes : Int := 0
  maxSendMsgBytes : Int := 0

inductive ConfigError where
  /-- "grpcsecurity: verifier is required" -/
  | verifierRequired
  /-- "grpcsecurity: scope policy is required" -/
  | policyRequired
  /-- "grpcsecurity: tenant authorizer is required" -/
  | tenantsRequired
  /-- "grpcsecurity: mutual TLS must be required" -/
  | mutualTLSOptional
  /-- "grpcsecurity: caller deadlines must be required" -/
  | deadlinesOptional
  /-- "grpcsecurity: deadline and message limits cannot be negative" -/
  | negativeLimit
  /-- "grpcsecurity: token source is required" -/
  | tokensRequired
  /-- "grpcsecurity: deadline cannot be negative" -/
  | negativeDeadline
deriving DecidableEq, Repr

/-- A configuration that passed `validate`. -/
structure Interceptor (S : Type) where
  verifier : Verifier S
  policy : ScopePolicy
  tenants : TenantAuthorizer
  requireMTLS : Bool
  requireDeadline : Bool
  maxDeadline : Int

def serverInterceptor {S : Type} (config : ServerConfig S) : Except ConfigError (Interceptor S) :=
  match config.verifier, config.policy, config.tenants with
  | none, _, _ => .error .verifierRequired
  | some _, none, _ => .error .policyRequired
  | some _, some _, none => .error .tenantsRequired
  | some verifier, some policy, some tenants =>
    -- what protects the surface cannot be configured away
    if !config.requireMTLS then .error .mutualTLSOptional
    else if !config.requireDeadline then .error .deadlinesOptional
    else if config.maxDeadline < 0 ∨ config.maxRecvMsgBytes < 0 ∨ config.maxSendMsgBytes < 0 then
      .error .negativeLimit
    else .ok {
      verifier := verifier
      policy := policy
      tenants := tenants
      requireMTLS := config.requireMTLS
      requireDeadline := config.requireDeadline
      maxDeadline := if 0 < config.maxDeadline then config.maxDeadline else defaultMaxDeadline }

def healthMethods : List Text :=
  ["/grpc.health.v1.Health/Check".toList, "/grpc.health.v1.Health/Watch".toList]

def isHealthMethod (method : Text) : Bool := healthMethods.contains method

def Context.hasVerifiedClientCertificate (ctx : Context) : Bool :=
  match ctx.peer with
  | .plain => false
  | .tls verifiedChains => decide (0 < verifiedChains)

/-- When the clock is read: by the verifier, by the comparison with the limit, by the timeout. -/
structure Moments where
  verifiedAt : Time
  checkedAt : Int
  startedAt : Int

variable {S K : Type}

def authenticate (env : Environment S K) (verifier : Verifier S) (now : Time) (ctx : Context) :
    Except Rejection Token.Identity :=
  match ctx.incoming with
  | none => .error .tokenMissing
  | some incoming =>
    match incoming "authorization".toList with
    -- exactly one value: neither none nor a second one beside it
    | [value] => do
      let (scheme, credential) ← orReject .tokenMissing (Http.cut ' ' (trimSpace value))
      refuse (!Credentials.equalFold scheme "Bearer".toList) .tokenMissing
      verify env verifier now (trimSpace credential)
    | _ => .error .tokenMissing

/-- The context of a call whose identity is known: the identity, the trace it came with and the
deadline. -/
def Interceptor.guarded (i : Interceptor S) (clock : Moments) (ctx : Context)
    (identity : Token.Identity) : Context :=
  let known := { ctx with identity := some identity }
  let traced := match ctx.traceParentFrom with
    | some span => known.withCarrier span ctx.incomingTraceState
    | none => known
  traced.bounded i.maxDeadline clock.checkedAt clock.startedAt

def Interceptor.admitCall (i : Interceptor S) (env : Environment S K) (clock : Moments) (ctx : Context)
    (fullMethod : Text) : Except Status Context :=
  if i.requireMTLS && !ctx.hasVerifiedClientCertificate then .error mutualTLSRequired
  else if i.requireDeadline && ctx.deadline.isNone then .error deadlineRequired
  -- the health service answers without a token, behind the certificate and the deadline
  else if isHealthMethod fullMethod then .ok ctx
  else do
    let identity ← (authenticate env i.verifier clock.verifiedAt ctx).mapError
      fun _ => identityRequired
    (i.policy.authorize fullMethod identity).mapError fun _ => scopeLacking
    .ok (i.guarded clock ctx identity)

def startServerSpan (tracer : Tracer) (ctx : Context) (method : Text) : Context :=
  match ctx.fromContext with
  | some carried =>
    ((ctx.withRemoteParent carried.span).start tracer method).withCurrentSpan carried.state
  | none => (ctx.start tracer method).withCurrentSpan []

/-- The check of a request for its merchant; nothing for a message that names none. -/
def authorizeTenant (tenants : TenantAuthorizer) (ctx : Context) (method : Text)
    (merchantID : Option Text) : Except Status Unit :=
  match merchantID with
  | none => .error merchantIDRequired
  | some merchant =>
    if trimSpace merchant = [] then .error merchantIDRequired
    else
      -- the identity comes from the token, never from the message
      match ctx.identity with
      | none => .error identityRequired
      | some identity => (tenants identity merchant method).mapError fun _ => notDelegated

/-- A unary call up to its handler. -/
def Interceptor.unary (i : Interceptor S) (env : Environment S K) (tracer : Tracer)
    (clock : Moments) (ctx : Context) (fullMethod : Text) (merchantID : Option Text) :
    Except Status Context := do
  let guarded ← i.admitCall env clock ctx fullMethod
  let spanned := startServerSpan tracer guarded fullMethod
  if isHealthMethod fullMethod then .ok spanned
  else do
    authorizeTenant i.tenants spanned fullMethod merchantID
    .ok spanned

structure GuardedStream where
  ctx : Context
  tenants : TenantAuthorizer
  method : Text
  exempt : Bool
  authorized : Bool

/-- `RecvMsg` on a message that arrived: only the first one is checked. -/
def GuardedStream.recvMsg (s : GuardedStream) (merchantID : Option Text) :
    Except Status GuardedStream :=
  if !s.exempt && !s.authorized then do
    authorizeTenant s.tenants s.ctx s.method merchantID
    .ok { s with authorized := true }
  else .ok s

/-- A stream up to its handler. -/
def Interceptor.stream (i : Interceptor S) (env : Environment S K) (tracer : Tracer)
    (clock : Moments) (ctx : Context) (fullMethod : Text) : Except Status GuardedStream := do
  let guarded ← i.admitCall env clock ctx fullMethod
  .ok {
    ctx := startServerSpan tracer guarded fullMethod
    tenants := i.tenants
    method := fullMethod
    exempt := isHealthMethod fullMethod
    authorized := false }

/-! ## The client -/

structure ClientConfig where
  /-- Whether there is a source of tokens. -/
  tokens : Bool
  deadline : Int

structure ClientInterceptor where
  deadline : Int

def clientInterceptor (config : ClientConfig) : Except ConfigError ClientInterceptor :=
  if !config.tokens then .error .tokensRequired
  else if config.deadline < 0 then .error .negativeDeadline
  else .ok ⟨if config.deadline = 0 then defaultMaxDeadline else config.deadline⟩

def startClientSpan (tracer : Tracer) (ctx : Context) (method : Text) : Context :=
  let state := match ctx.fromContext with
    | some carried => carried.state
    | none => []
  (ctx.start tracer method).withCurrentSpan state

/-- The two headers of the trace, as they are set for an outgoing call. -/
def Metadata.setTrace (md : Metadata) (span : SpanContext) (state : Text) : Metadata :=
  let parented := md.set "traceparent" span.string
  if state = [] then parented else parented.set "tracestate" state

/-- What `prepare` makes of the metadata. -/
def outgoingMetadata (budget : Context) (token : Text) : Metadata :=
  let identified : Metadata :=
    Metadata.set (budget.outgoing.getD fun _ => []) "authorization" ("Bearer ".toList ++ token)
  match budget.fromContext with
  | some carried => identified.setTrace carried.span carried.state
  | none =>
    match budget.traceParentFrom with
    | some span => identified.setTrace span budget.incomingTraceState
    | none => identified

variable {ε : Type}

/-- `prepare`, with the answer of the source of tokens. -/
def prepare (token : Except ε Text) (deadline checkedAt startedAt : Int) (ctx : Context) :
    Except ε Context := do
  let budget := ctx.bounded deadline checkedAt startedAt
  let token ← token
  .ok { budget with outgoing := some (outgoingMetadata budget token) }

/-- The context a call is invoked with. -/
def ClientInterceptor.send (c : ClientInterceptor) (tracer : Tracer) (token : Except ε Text)
    (checkedAt startedAt : Int) (ctx : Context) (method : Text) : Except ε Context :=
  prepare token c.deadline checkedAt startedAt (startClientSpan tracer ctx method)

/-- The transport brings the metadata the interceptors use and some deadline. -/
structure Delivered (sent received : Context) : Prop where
  metadata : ∃ out into, sent.outgoing = some out ∧ received.incoming = some into ∧
    ∀ key ∈ ["authorization", "traceparent", "tracestate"], into key.toList = out key.toList
  deadline : received.deadline.isSome = true
  fresh : received.carrier = none

/-! ## What the text of the delegations says -/

/-- An assignment of the text names the service and lists the merchant. -/
def Delegated (raw service merchant : Text) : Prop :=
  ∃ assignment ∈ raw.splitOn ';', ∃ name values,
    Http.cut '=' (trimSpace assignment) = some (name, values) ∧ trimSpace name = service ∧
    merchant ≠ [] ∧ ∃ value ∈ values.splitOn ',', trimSpace value = merchant

def Listed (a : Assignments) (name value : Text) : Prop := ∃ l, a.lookup name = some l ∧ value ∈ l

/-- Trimming twice is trimming once. -/
theorem trimSpace_trimSpace (t : Text) : trimSpace (trimSpace t) = trimSpace t := trim_trim

/-- Nothing is listed in no assignments. -/
theorem listed_empty (name value : Text) : ¬ Listed ∅ name value := by
  rintro ⟨l, hLookup, -⟩
  cases hLookup

/-- A value that is appended to a name is listed under it. -/
theorem listed_insert {a : Assignments} {n v name value : Text} :
    Listed (a.insert n ((a.lookup n).getD [] ++ [v])) name value ↔
      Listed a name value ∨ (name = n ∧ value = v) := by
  unfold Listed
  by_cases hName : name = n
  · subst hName
    rw [AList.lookup_insert]
    cases a.lookup name <;> simp
  · rw [AList.lookup_insert_ne hName]
    simp [hName]

/-- The values of one assignment, trimmed and without the blank ones. -/
theorem listed_appendValues {n name value : Text} (values : List Text) (a : Assignments) :
    Listed (appendValues n a values) name value ↔
      Listed a name value ∨
        (name = n ∧ value ≠ [] ∧ ∃ v ∈ values, trimSpace v = value) := by
  induction values generalizing a with
  | nil => simp [appendValues]
  | cons v values ih =>
    have hFold : appendValues n a (v :: values) =
        appendValues n (if trimSpace v = [] then a
          else a.insert n ((a.lookup n).getD [] ++ [trimSpace v])) values := rfl
    rw [hFold, ih]
    by_cases hBlank : trimSpace v = []
    · -- a blank value is passed over
      rw [if_pos hBlank]
      refine or_congr_right ⟨?_, ?_⟩
      · rintro ⟨rfl, hValue, w, hw, rfl⟩
        exact ⟨rfl, hValue, w, List.mem_cons_of_mem v hw, rfl⟩
      · rintro ⟨rfl, hValue, w, hw, rfl⟩
        rcases List.mem_cons.mp hw with rfl | hw
        · exact absurd hBlank hValue
        · exact ⟨rfl, hValue, w, hw, rfl⟩
    · rw [if_neg hBlank, listed_insert, or_assoc]
      refine or_congr_right ⟨?_, ?_⟩
      · rintro (⟨rfl, rfl⟩ | ⟨rfl, hValue, w, hw, rfl⟩)
        · exact ⟨rfl, hBlank, v, List.mem_cons_self, rfl⟩
        · exact ⟨rfl, hValue, w, List.mem_cons_of_mem v hw, rfl⟩
      · rintro ⟨rfl, hValue, w, hw, rfl⟩
        rcases List.mem_cons.mp hw with rfl | hw
        · exact .inl ⟨rfl, rfl⟩
        · exact .inr ⟨rfl, hValue, w, hw, rfl⟩

/-- Names stay trimmed. -/
theorem keys_appendValues {n : Text} (values : List Text) {a : Assignments}
    (hn : trimSpace n = n) (ha : ∀ name ∈ a, trimSpace name = name) :
    ∀ name ∈ appendValues n a values, trimSpace name = name := by
  induction values generalizing a with
  | nil => exact ha
  | cons v values ih =>
    refine ih (a := if trimSpace v = [] then a
      else a.insert n ((a.lookup n).getD [] ++ [trimSpace v])) ?_
    split
    · exact ha
    · intro name hName
      rcases (AList.mem_insert _).mp hName with rfl | hOld
      · exact hn
      · exact ha name hOld

/-- What a list of assignments adds to those before. -/
theorem foldlM_assign {assignments : List Text} {a b : Assignments}
    (h : assignments.foldlM assign a = .ok b) (ha : ∀ name ∈ a, trimSpace name = name) :
    (∀ name ∈ b, trimSpace name = name) ∧
    ∀ service merchant, Listed b service merchant ↔
      Listed a service merchant ∨ ∃ assignment ∈ assignments, ∃ name values,
        Http.cut '=' (trimSpace assignment) = some (name, values) ∧ trimSpace name = service ∧
        merchant ≠ [] ∧ ∃ value ∈ values.splitOn ',', trimSpace value = merchant := by
  -- induction on the assignments, over what has been listed so far
  induction assignments generalizing a with
  | nil =>
    cases h
    exact ⟨ha, fun service merchant => by simp⟩
  | cons assignment assignments ih =>
    rw [List.foldlM_cons] at h
    obtain ⟨c, hAssign, h⟩ := peel.mp h
    unfold assign at hAssign
    split at hAssign
    · -- an assignment without an equals sign fails the configuration, and so does one without a
      -- name
      cases hAssign
    · rename_i name values hCut
      split at hAssign
      · cases hAssign
      · cases hAssign
        obtain ⟨hKeys, hListed⟩ :=
          ih h (keys_appendValues _ (trimSpace_trimSpace name) ha)
        refine ⟨hKeys, fun service merchant => ?_⟩
        rw [hListed, listed_appendValues, or_assoc]
        refine or_congr_right ⟨?_, ?_⟩
        · rintro (⟨rfl, hValue, value, hMem, rfl⟩ | ⟨other, hMem, hOther⟩)
          · exact ⟨assignment, List.mem_cons_self, name, values, hCut, rfl, hValue, value, hMem, rfl⟩
          · exact ⟨other, List.mem_cons_of_mem assignment hMem, hOther⟩
        · rintro ⟨other, hMem, name', values', hCut', hName, hValue, hListed⟩
          rcases List.mem_cons.mp hMem with rfl | hMem
          · rw [hCut, Option.some.injEq, Prod.mk.injEq] at hCut'
            obtain ⟨rfl, rfl⟩ := hCut'
            exact .inl ⟨hName.symm, hValue, hListed⟩
          · exact .inr ⟨other, hMem, name', values', hCut', hName, hValue, hListed⟩

/-- What is listed is what the text delegates. -/
theorem parseAssignments_ok {raw : Text} {a : Assignments} (h : parseAssignments raw = .ok a) :
    (∀ name ∈ a, trimSpace name = name) ∧
    ∀ service merchant, Listed a service merchant ↔ Delegated raw service merchant := by
  unfold parseAssignments at h
  split at h
  · rename_i hBlank
    cases h
    refine ⟨fun name hName => absurd hName (AList.notMem_empty name), fun service merchant => ?_⟩
    refine iff_of_false (listed_empty service merchant) ?_
    -- a blank text is one assignment without a name
    have hWhole : raw.splitOn ';' = [raw] := by
      have hNone : ';' ∉ raw := fun hMem => by cases trim_eq_nil_iff.mp hBlank ';' hMem
      have hSplit := @List.splitOn_intercalate _ [raw] _ _ ';' (by simpa using hNone) (by simp)
      rwa [show [';'].intercalate [raw] = raw by simp [List.intercalate]] at hSplit
    rintro ⟨assignment, hMem, name, values, hCut, -⟩
    rw [hWhole, List.mem_singleton] at hMem
    rw [hMem, hBlank] at hCut
    cases hCut
  · obtain ⟨hKeys, hListed⟩ := foldlM_assign h fun name hName => absurd hName (AList.notMem_empty name)
    refine ⟨hKeys, fun service merchant => ?_⟩
    rw [hListed]
    simp only [listed_empty, false_or]
    rfl

/-- The delegations of a service are those of its name, once names are trimmed. -/
theorem lookup_delegations {entries : List (Sigma fun _ : Text => List Text)}
    (hTrimmed : ∀ entry ∈ entries, trimSpace entry.1 = entry.1) (hNodup : entries.NodupKeys)
    (allowed : AList fun _ : Text => Finset Text) (name : Text) :
    (entries.foldl (fun allowed entry => allowed.insert (trimSpace entry.1)
        ((entry.2.map trimSpace).filter (· ≠ [])).toFinset) allowed).lookup name =
      ((entries.dlookup name).map fun l => ((l.map trimSpace).filter (· ≠ [])).toFinset).or
        (allowed.lookup name) := by
  -- on the entries: a later one replaces an earlier one of its name, and there is none
  induction entries generalizing allowed with
  | nil => rfl
  | cons entry entries ih =>
    obtain ⟨key, l⟩ := entry
    have hKey : trimSpace key = key := hTrimmed ⟨key, l⟩ List.mem_cons_self
    rw [List.foldl_cons, ih (fun e he => hTrimmed e (List.mem_cons_of_mem _ he))
      (List.nodupKeys_cons.mp hNodup).2, hKey]
    by_cases hName : name = key
    · subst hName
      have hOnce : entries.dlookup name = none :=
        List.dlookup_eq_none.mpr (List.nodupKeys_cons.mp hNodup).1
      rw [hOnce, List.dlookup_cons_eq, AList.lookup_insert]
      rfl
    · rw [List.dlookup_cons_ne _ _ hName, AList.lookup_insert_ne hName]

/-- A service is let at a merchant exactly when an assignment of the text says so. -/
theorem authorizeTenant_iff {raw : Text} {delegations : Assignments}
    (h : parseAssignments raw = .ok delegations) {identity : Token.Identity} {merchant : Text}
    {operation : Operation} :
    (newStaticTenantDelegations delegations).authorizeTenant identity merchant operation = .ok () ↔
      Delegated raw (service identity) merchant := by
  obtain ⟨hKeys, hListed⟩ := parseAssignments_ok h
  -- the names are different and trimmed, so each is found under itself
  have hLookup := lookup_delegations
    (fun entry he => hKeys entry.1 (List.mem_keys_of_mem he)) delegations.nodupKeys ∅
    (service identity)
  have hFound : (newStaticTenantDelegations delegations).allowed.lookup (service identity) =
      (delegations.lookup (service identity)).map
        fun l => ((l.map trimSpace).filter (· ≠ [])).toFinset := by
    refine hLookup.trans ?_
    rw [AList.lookup_empty, Option.or_none]
    rfl
  rw [← hListed, StaticTenantDelegations.authorizeTenant, hFound, Listed]
  cases hEntry : delegations.lookup (service identity) with
  | none => simp
  | some l =>
    -- what is listed is trimmed already
    have hSame : ∀ v, v ∈ (l.map trimSpace).filter (· ≠ []) ↔ v ∈ l := by
      intro v
      have hOf : ∀ w ∈ l, trimSpace w = w ∧ w ≠ [] := by
        intro w hw
        obtain ⟨_, _, _, _, _, _, hNe, value, _, hTrim⟩ := (hListed _ w).mp ⟨l, hEntry, hw⟩
        rw [← hTrim]
        exact ⟨trimSpace_trimSpace value, hTrim ▸ hNe⟩
      rw [List.mem_filter, List.mem_map]
      constructor
      · rintro ⟨⟨w, hw, rfl⟩, -⟩
        rw [(hOf w hw).1]
        exact hw
      · intro hv
        exact ⟨⟨v, hv, (hOf v hv).1⟩, decide_eq_true (hOf v hv).2⟩
    simp only [Option.map_some, List.mem_toFinset, hSame, Option.some.injEq, exists_eq_left']
    split <;> simp_all

/-! ## What a call is admitted for -/

section Calls

variable {i : Interceptor S} {env : Environment S K} {clock : Moments} {ctx guarded : Context}
  {method : Text}

/-- When a call is admitted, and with which context it then runs. -/
theorem admit_ok_iff (hMethod : isHealthMethod method = false) :
    i.admitCall env clock ctx method = .ok guarded ↔
      (i.requireMTLS = true → ctx.hasVerifiedClientCertificate = true) ∧
      (i.requireDeadline = true → ctx.deadline.isSome = true) ∧
      ∃ identity, authenticate env i.verifier clock.verifiedAt ctx = .ok identity ∧
        i.policy.authorize method identity = .ok () ∧ guarded = i.guarded clock ctx identity := by
  unfold Interceptor.admitCall
  constructor
  · -- each refusal ends the call, so none of them happened
    intro h
    split at h
    · cases h
    rename_i hTLS
    split at h
    · cases h
    rename_i hDeadline
    rw [hMethod, if_neg Bool.false_ne_true] at h
    obtain ⟨identity, hIdentity, h⟩ := peel.mp h
    obtain ⟨_, hAuthorized, h⟩ := peel.mp h
    cases h
    exact ⟨by simpa using hTLS, by simpa [Option.isSome_iff_ne_none] using hDeadline, identity,
      mapError_ok.mp hIdentity, mapError_ok.mp hAuthorized, rfl⟩
  · rintro ⟨hTLS, hDeadline, identity, hIdentity, hAuthorized, rfl⟩
    rw [if_neg (by simpa using hTLS), if_neg (by simpa [Option.isSome_iff_ne_none] using hDeadline),
      hMethod, if_neg Bool.false_ne_true]
    refine peel.mpr ⟨identity, mapError_ok.mpr hIdentity, ?_⟩
    exact peel.mpr ⟨(), mapError_ok.mpr hAuthorized, rfl⟩

/-- A bounded context differs in its deadline only, which is no later than it was. -/
theorem bounded_eq (ctx : Context) (limit checkedAt startedAt : Int) :
    ∃ deadline, ctx.bounded limit checkedAt startedAt = { ctx with deadline := some deadline } ∧
      (∀ own, ctx.deadline = some own → deadline ≤ own) ∧
      deadline ≤ max checkedAt startedAt + limit := by
  obtain ⟨peer, deadline, incoming, outgoing, carrier, current, identity⟩ := ctx
  unfold Context.bounded
  cases deadline with
  | none => exact ⟨startedAt + limit, rfl, nofun, by omega⟩
  | some own =>
    dsimp only
    split
    · exact ⟨own, rfl, by rintro _ ⟨⟩; exact le_refl own, by omega⟩
    · exact ⟨min own (startedAt + limit), rfl, by rintro _ ⟨⟩; exact min_le_left _ _, by omega⟩

/-- A span leaves the identity. -/
theorem withCurrentSpan_identity (ctx : Context) (state : Text) :
    (ctx.withCurrentSpan state).identity = ctx.identity := by
  unfold Context.withCurrentSpan
  cases ctx.current <;> rfl

/-- And so does a parent. -/
theorem withRemoteParent_identity (ctx : Context) (span : SpanContext) :
    (ctx.withRemoteParent span).identity = ctx.identity := by
  unfold Context.withRemoteParent
  split <;> rfl

/-- A span leaves the deadline, too. -/
theorem withCurrentSpan_deadline (ctx : Context) (state : Text) :
    (ctx.withCurrentSpan state).deadline = ctx.deadline := by
  unfold Context.withCurrentSpan
  cases ctx.current <;> rfl

/-- The guarded context is that of the caller, with the identity, bounded by the server's limit. -/
theorem guarded_eq (i : Interceptor S) (clock : Moments) (ctx : Context)
    (identity : Token.Identity) :
    ∃ traced : Context, i.guarded clock ctx identity =
        traced.bounded i.maxDeadline clock.checkedAt clock.startedAt ∧
      traced.deadline = ctx.deadline ∧ traced.identity = some identity := by
  unfold Interceptor.guarded
  cases ctx.traceParentFrom with
  | none => exact ⟨_, rfl, rfl, rfl⟩
  | some span => exact ⟨_, rfl, rfl, rfl⟩

/-- Setting the trace leaves the credential. -/
theorem setTrace_authorization (md : Metadata) (span : SpanContext) (state : Text) :
    md.setTrace span state "authorization".toList = md "authorization".toList := by
  have hParent : "authorization".toList ≠ "traceparent".toList := by decide
  have hState : "authorization".toList ≠ "tracestate".toList := by decide
  unfold Metadata.setTrace Metadata.set
  split
  · exact Function.update_of_ne hParent _ _
  · rw [Function.update_of_ne hState, Function.update_of_ne hParent]

/-- Whatever the context carried, the call goes out with one credential. -/
theorem outgoing_authorization (budget : Context) (token : Text) :
    outgoingMetadata budget token "authorization".toList = ["Bearer ".toList ++ token] := by
  have hSet : ∀ md : Metadata,
      md.set "authorization" ("Bearer ".toList ++ token) "authorization".toList =
        ["Bearer ".toList ++ token] := fun md => Function.update_self _ _ _
  unfold outgoingMetadata
  cases budget.fromContext with
  | some carried => exact (setTrace_authorization _ _ _).trans (hSet _)
  | none =>
    cases budget.traceParentFrom with
    | some span => exact (setTrace_authorization _ _ _).trans (hSet _)
    | none => exact hSet _

/-- There is no blank in front of the scheme. -/
theorem dropWhile_bearer (token : Text) :
    ("Bearer ".toList ++ token).dropWhile Outbox.isSpace = "Bearer ".toList ++ token :=
  List.dropWhile_cons_of_neg (by decide)

/-- The server reads the token the client wrote, up to surrounding blanks. -/
theorem authenticate_bearer {verifier : Verifier S} {now : Time} {incoming : Metadata}
    {token : Text} (hIncoming : ctx.incoming = some incoming)
    (hValue : incoming "authorization".toList = ["Bearer ".toList ++ token]) :
    authenticate env verifier now ctx = verify env verifier now (trimSpace token) := by
  simp only [authenticate, hIncoming, hValue]
  by_cases hBlank : ∀ c ∈ token, Outbox.isSpace c = true
  · -- nothing follows the scheme, and a blank token is refused with the same words
    have hScheme : trimSpace ("Bearer ".toList ++ token) = "Bearer".toList := by
      rw [trimSpace, dropWhile_bearer, rdropWhile_append_of_all hBlank]
      decide
    have hNil : trimSpace token = [] := trim_eq_nil_iff.mpr hBlank
    rw [hScheme, hNil]
    rfl
  · simp only [not_forall] at hBlank
    obtain ⟨c, hc, hSpace⟩ := hBlank
    have hTrimmed : trimSpace ("Bearer ".toList ++ token) =
        "Bearer ".toList ++ token.rdropWhile Outbox.isSpace := by
      rw [trimSpace, dropWhile_bearer, rdropWhile_append_of_mem hc (by simpa using hSpace)]
    have hCut : Http.cut ' ' ("Bearer ".toList ++ token.rdropWhile Outbox.isSpace) =
        some ("Bearer".toList, token.rdropWhile Outbox.isSpace) := rfl
    have hSame : trimSpace (token.rdropWhile Outbox.isSpace) = trimSpace token := trim_rdropWhile
    rw [hTrimmed, hCut]
    exact congrArg (verify env verifier now) hSame

/-- A call sent by the client is admitted exactly when its certificate is verified and the token of
the client's own source is accepted with the scopes of the method, whatever credentials the
caller's context carried; it runs as the identity of that token. Neither side extends a deadline,
and each bounds it by its own limit. -/
theorem sent_call_admitted_iff (client : ClientInterceptor) (server : Interceptor S)
    (env : Environment S K) (tracer : Tracer) (token : Text) (checkedAt startedAt : Int)
    (clock : Moments) (ctx sent received : Context) (method : Text)
    (hSent : client.send tracer (.ok token : Except Unit Text) checkedAt startedAt ctx method =
      .ok sent)
    (hDelivered : Delivered sent received) (hMethod : isHealthMethod method = false) :
    (∃ deadline, sent.deadline = some deadline ∧
      (∀ own, ctx.deadline = some own → deadline ≤ own) ∧
      deadline ≤ max checkedAt startedAt + client.deadline) ∧
    ((∃ guarded, server.admitCall env clock received method = .ok guarded) ↔
      (server.requireMTLS = true → received.hasVerifiedClientCertificate = true) ∧
      ∃ identity, verify env server.verifier clock.verifiedAt (trimSpace token) = .ok identity ∧
        server.policy.authorize method identity = .ok ()) ∧
    ∀ guarded, server.admitCall env clock received method = .ok guarded →
      (∃ identity, guarded.identity = some identity ∧
        verify env server.verifier clock.verifiedAt (trimSpace token) = .ok identity) ∧
      ∃ deadline, guarded.deadline = some deadline ∧
        (∀ own, received.deadline = some own → deadline ≤ own) ∧
        deadline ≤ max clock.checkedAt clock.startedAt + server.maxDeadline := by
  cases hSent
  have hStart : (startClientSpan tracer ctx method).deadline = ctx.deadline :=
    withCurrentSpan_deadline _ _
  obtain ⟨deadline, hBounded, hOwn, hLimit⟩ :=
    bounded_eq (startClientSpan tracer ctx method) client.deadline checkedAt startedAt
  -- the credential arrives as it was set
  have hToken : authenticate env server.verifier clock.verifiedAt received =
      verify env server.verifier clock.verifiedAt (trimSpace token) := by
    obtain ⟨out, into, hOut, hInto, hKeys⟩ := hDelivered.metadata
    cases hOut
    refine authenticate_bearer hInto ?_
    rw [hKeys "authorization" (by decide), outgoing_authorization]
  refine ⟨⟨deadline, by rw [hBounded], hStart ▸ hOwn, hLimit⟩, ?_, ?_⟩
  · simp only [admit_ok_iff hMethod, hToken, hDelivered.deadline, implies_true, true_and]
    constructor
    · rintro ⟨_, hTLS, identity, hVerify, hAuthorized, -⟩
      exact ⟨hTLS, identity, hVerify, hAuthorized⟩
    · rintro ⟨hTLS, identity, hVerify, hAuthorized⟩
      exact ⟨_, hTLS, identity, hVerify, hAuthorized, rfl⟩
  · intro guarded hAdmit
    obtain ⟨-, -, identity, hVerify, -, rfl⟩ := (admit_ok_iff hMethod).mp hAdmit
    obtain ⟨traced, hTraced, hSame⟩ := guarded_eq server clock received identity
    obtain ⟨deadline, hBounded, hOwn, hLimit⟩ :=
      bounded_eq traced server.maxDeadline clock.checkedAt clock.startedAt
    rw [hTraced, hBounded]
    exact ⟨⟨identity, hSame.2, hToken ▸ hVerify⟩, deadline, rfl, hSame.1 ▸ hOwn, hLimit⟩

end Calls

/-- Without a provider a span is its parent. -/
def idleTracer : Tracer where
  start parent _ := parent
  continues := fun parent _ => ⟨parent, rfl, rfl⟩

/-- A server that takes the clerk's token for the watermark. -/
def clerkServer : Interceptor Unit where
  verifier := ledgerVerifier
  policy := [(operationGetWatermark, [scopeLedgerRead])]
  tenants := fun _ _ _ => .ok ()
  requireMTLS := true
  requireDeadline := true
  maxDeadline := defaultMaxDeadline

def clerkEnvironment : Environment Unit Unit :=
  clerkScheme.environment (fun _ => clerkIssuer.verificationKey) fun _ => 0

/-- A caller that has three seconds left and carries credentials of its own. -/
def callerContext : Context where
  deadline := some 3000000000
  outgoing := some fun _ => ["Bearer other".toList]

/-- The client sends the clerk's token in place of the caller's. The server admits the call as the
clerk's, for the three seconds it has left; without a verified certificate it does not. -/
theorem sent_call_admitted_iff_clerk :
    ∃ sent out, sent.outgoing = some out ∧ sent.deadline = some 3000000000 ∧
      (ClientInterceptor.mk defaultMaxDeadline).send idleTracer (.ok clerkToken : Except Unit Text)
        0 0 callerContext operationGetWatermark = .ok sent ∧
      (∃ guarded, clerkServer.admitCall clerkEnvironment ⟨newYear2026, 0, 0⟩
          { deadline := sent.deadline, incoming := some out, peer := .tls 1 }
          operationGetWatermark = .ok guarded ∧
        guarded.identity = some (clerkIssuer.mintedIdentity newYear2026 clerkOptions) ∧
        ∃ deadline, guarded.deadline = some deadline ∧ deadline ≤ 3000000000) ∧
      ¬ ∃ guarded, clerkServer.admitCall clerkEnvironment ⟨newYear2026, 0, 0⟩
          { deadline := sent.deadline, incoming := some out, peer := .plain }
          operationGetWatermark = .ok guarded := by
  obtain ⟨sent, hSent⟩ : ∃ sent, (ClientInterceptor.mk defaultMaxDeadline).send idleTracer
      (.ok clerkToken : Except Unit Text) 0 0 callerContext operationGetWatermark = .ok sent :=
    ⟨_, rfl⟩
  obtain ⟨out, hOut⟩ : ∃ out, sent.outgoing = some out := by
    cases hSent
    exact ⟨_, rfl⟩
  have hLeft : sent.deadline = some 3000000000 := by
    cases hSent
    rfl
  -- the same call, over whatever connection
  have hDelivered (peer : Peer) :
      Delivered sent { deadline := sent.deadline, incoming := some out, peer := peer } :=
    ⟨⟨out, out, hOut, rfl, fun _ _ => rfl⟩, by rw [hLeft]; rfl, rfl⟩
  have hCall (peer : Peer) := sent_call_admitted_iff _ clerkServer clerkEnvironment idleTracer
    clerkToken 0 0 ⟨newYear2026, 0, 0⟩ callerContext sent _ operationGetWatermark hSent
    (hDelivered peer) (by decide)
  have hTrim : trimSpace clerkToken = clerkToken := by decide +kernel
  have hVerify : verify clerkEnvironment ledgerVerifier newYear2026 (trimSpace clerkToken) =
      .ok (clerkIssuer.mintedIdentity newYear2026 clerkOptions) := by
    rw [hTrim]
    exact clerk_accepted
  refine ⟨sent, out, hOut, hLeft, hSent, ?_, ?_⟩
  · obtain ⟨-, hIff, hRuns⟩ := hCall (.tls 1)
    obtain ⟨guarded, hAdmit⟩ := hIff.mpr ⟨fun _ => rfl, _, hVerify, by decide⟩
    obtain ⟨⟨identity, hIdentity, hOwn⟩, deadline, hDeadline, hCaller, -⟩ := hRuns guarded hAdmit
    rw [show clerkServer.verifier = ledgerVerifier from rfl, hVerify] at hOwn
    cases hOwn
    exact ⟨guarded, hAdmit, hIdentity, deadline, hDeadline, hCaller _ hLeft⟩
  · intro hAdmit
    obtain ⟨-, hIff, -⟩ := hCall .plain
    cases (hIff.mp hAdmit).1 rfl

end Grpc

end Cashflow.Auth
