import Cashflow.Auth.Grpc
import Cashflow.Auth.Issuer
import Cashflow.Ledger.Perimeter
import Cashflow.Pipeline.Snapshot
import Cashflow.Reconciliation.Worker

/-!
# Ledger — what it tells the other services

`NewLedgerGRPCServer` of `internal/platform/identityruntime/ledger_grpc.go` with the
`InternalServer` behind it: the watermark of a merchant and the stream of its entries
up to a cut, answered to services only. The calls go through the interceptors of
`grpcsecurity`; the delegations are those of the configured text.

A call sees the ledger only through its answer, so what it may learn is said with two
ledgers: those that agree on what the call is granted give the same answer.

Main results:

* `internal_answer_within_grant` — the answer to a call depends on the rows of the
  merchant it is granted, and without a grant on nothing;
* `public_credential_refused_inside` — a credential that got an answer from the public
  surface gets none from this one.
-/

namespace Cashflow.Ledger

open Lib Auth Auth.Token Auth.Grpc

/-! ## The authority -/

/-- What the pool and the network decide in one call. -/
structure InternalFaults where
  queryFails : Bool := false
  /-- The rows that are read before reading them fails. -/
  breaksAfter : Option Nat := none
  /-- The message of a stream arrives. -/
  received : Bool := true

/-- `InternalServer.GetMerchantWatermark`; nothing stands for an error of the database. -/
def getMerchantWatermark (faults : InternalFaults) (d : Db) (merchantID : Text) :
    Option (UInt64 × Int) :=
  if faults.queryFails then none
  else
    match uuidIn merchantID with
    | none => none
    | some m =>
      match d.positions.find? fun r => r.merchantID.text == m with
      -- no row: the merchant has posted nothing yet
      | none => some (0, zeroTime)
      | some row => some (UInt64.ofInt row.lastPosition.toInt, row.updatedAt)

/-- `WHERE merchant_id = $1 AND position <= $2 ORDER BY position` -/
def rowsAtCut (d : Db) (m : Text) (cut : Nat) : List EntryRow :=
  ((d.entries.rows.filter fun e => decide (e.merchantID.text = m)).filter fun e =>
    decide (e.position.toInt ≤ (cut : Int))).insertionSort fun a b => a.position.toInt ≤ b.position.toInt

/-- `InternalServer.StreamEntriesAtCut`: the entries sent, and whether the stream ends without an
error. The driver takes no cut past the numbers of a `bigint`. -/
def streamEntries (faults : InternalFaults) (d : Db) (merchantID : Text) (cut : UInt64) :
    List Reconciliation.SourceEntry × Bool :=
  if faults.queryFails then ([], false)
  else
    match uuidIn merchantID with
    | none => ([], false)
    | some m =>
      if 2 ^ 63 ≤ cut.toNat then ([], false)
      else
        let entries := (rowsAtCut d m cut.toNat).map Reconciliation.sourceEntry
        -- a stream that breaks has sent what came before
        match faults.breaksAfter with
        | none => (entries, true)
        | some n => (entries.take n, false)

/-! ## The server -/

structure LedgerGRPCConfig (S : Type) where
  verifier : Option (Verifier S)
  tenants : Option TenantAuthorizer
  /-- Whether the TLS settings, the logger and the handler are there. -/
  wired : Bool := true
  maxDeadline : Int := 0
  maxRecvBytes : Int := 0
  maxSendBytes : Int := 0

inductive GRPCServerError where
  /-- "identityruntime: gRPC verifier, tenant policy, TLS, logger and handler are required" -/
  | incomplete
  | options (cause : Grpc.ConfigError)
deriving DecidableEq, Repr

def newLedgerGRPCServer {S : Type} (config : LedgerGRPCConfig S) :
    Except GRPCServerError (Interceptor S) :=
  if config.verifier.isNone ∨ config.tenants.isNone ∨ config.wired = false then .error .incomplete
  else
    (serverInterceptor {
      verifier := config.verifier
      policy := some internalGRPCPolicy
      tenants := config.tenants
      -- neither is up to the configuration
      requireMTLS := true
      requireDeadline := true
      maxDeadline := config.maxDeadline
      maxRecvMsgBytes := config.maxRecvBytes
      maxSendMsgBytes := config.maxSendBytes }).mapError .options

/-- A call, with what surrounds it. -/
structure InternalCall (S K : Type) where
  method : Text
  context : Context
  /-- The fields of the message. -/
  merchantID : Text
  sourcePositionCut : UInt64 := 0
  env : Environment S K
  tracer : Tracer
  clock : Moments
  faults : InternalFaults := {}

inductive InternalAnswer where
  | unimplemented
  /-- The health service's own answer. -/
  | health
  | refused (status : Grpc.Status)
  /-- An error of the handler. -/
  | failed
  | watermark (merchantID : Text) (sourcePosition : UInt64) (observedAt : Int)
  | entries (sent : List Reconciliation.SourceEntry) (complete : Bool)
deriving DecidableEq

variable {S K : Type}

/-- `LedgerInternalService` and the health service behind the interceptors. -/
def answerCall (i : Interceptor S) (c : InternalCall S K) (d : Db) : InternalAnswer :=
  if c.method = operationGetWatermark then
    match i.unary c.env c.tracer c.clock c.context c.method (some c.merchantID) with
    | .error status => .refused status
    | .ok _ =>
      match getMerchantWatermark c.faults d c.merchantID with
      | none => .failed
      | some (position, observedAt) => .watermark c.merchantID position observedAt
  else if c.method = operationStreamEntriesAtCut then
    match i.stream c.env c.tracer c.clock c.context c.method with
    | .error status => .refused status
    | .ok stream =>
      -- the message did not arrive
      if !c.faults.received then .failed
      else
        -- a stream is checked when its request is read, not when it is opened
        match stream.recvMsg (some c.merchantID) with
        | .error status => .refused status
        | .ok _ =>
          let (sent, complete) := streamEntries c.faults d c.merchantID c.sourcePositionCut
          .entries sent complete
  else if isHealthMethod c.method then
    match i.admitCall c.env c.clock c.context c.method with
    | .error status => .refused status
    | .ok _ => .health
  else .unimplemented

/-! ## The worker and the query read these answers -/

/-- The query reads the watermark the authority answers with. -/
theorem readWatermark_eq (faults : InternalFaults) (d : Db) (merchantID : Text) :
    Pipeline.readWatermark faults.queryFails d merchantID =
      match getMerchantWatermark faults d merchantID with
      | none => .error .watermark
      | some answer => .ok answer := by
  unfold Pipeline.readWatermark getMerchantWatermark
  cases faults.queryFails with
  | true => rfl
  | false =>
    cases uuidIn merchantID with
    | none => rfl
    | some m =>
      dsimp only
      cases d.positions.find? fun r => r.merchantID.text == m <;> rfl

/-- The watermark is answered to a call that passes the interceptor, when it can be read. -/
theorem answerCall_watermark_iff {i : Interceptor S} {c : InternalCall S K} {d : Db}
    (hMethod : c.method = operationGetWatermark) {merchantID : Text} {position : UInt64}
    {observedAt : Int} :
    answerCall i c d = .watermark merchantID position observedAt ↔
      (∃ spanned, i.unary c.env c.tracer c.clock c.context c.method (some c.merchantID) =
        .ok spanned) ∧
      c.merchantID = merchantID ∧
      getMerchantWatermark c.faults d c.merchantID = some (position, observedAt) := by
  rw [answerCall, if_pos hMethod]
  cases i.unary c.env c.tracer c.clock c.context c.method (some c.merchantID) with
  | error status => simp
  | ok spanned =>
    cases getMerchantWatermark c.faults d c.merchantID with
    | none => simp
    | some answer => simp [Prod.ext_iff]

/-! ## What a call may learn -/

/-- The call is certified, bounded, and bears a token of a service that the text delegates the
merchant to, with the scopes of the method. -/
structure InternalCall.Granted (c : InternalCall S K) (verifier : Verifier S) (raw m : Text) :
    Prop where
  certified : c.context.hasVerifiedClientCertificate = true
  limited : c.context.deadline.isSome = true
  token : ∃ identity, authenticate c.env verifier c.clock.verifiedAt c.context = .ok identity ∧
    scopeLedgerInternal ∈ identity.scopes ∧
    (c.method = operationStreamEntriesAtCut → scopeOpsReconcile ∈ identity.scopes) ∧
    Delegated raw (service identity) c.merchantID
  merchant : uuidIn c.merchantID = some m

/-- The entries and the position of the merchant are the same. -/
structure SameView (m : Text) (d₁ d₂ : Db) : Prop where
  entries : (d₁.entries.rows.filter fun e => decide (e.merchantID.text = m)) =
    d₂.entries.rows.filter fun e => decide (e.merchantID.text = m)
  position : (d₁.positions.find? fun r => r.merchantID.text == m) =
    d₂.positions.find? fun r => r.merchantID.text == m

/-- The interceptor has the verifier and the delegations it was configured with, and asks for a
certificate and a deadline. -/
theorem interceptor_of_new {config : LedgerGRPCConfig S} {i : Interceptor S}
    {verifier : Verifier S} {tenants : TenantAuthorizer}
    (hNew : newLedgerGRPCServer config = .ok i) (hVerifier : config.verifier = some verifier)
    (hTenants : config.tenants = some tenants) :
    i.verifier = verifier ∧ i.policy = internalGRPCPolicy ∧ i.tenants = tenants ∧
      i.requireMTLS = true ∧ i.requireDeadline = true := by
  unfold newLedgerGRPCServer at hNew
  split at hNew
  · cases hNew
  · have hMade := mapError_ok.mp hNew
    simp only [serverInterceptor, hVerifier, hTenants, Bool.not_true, Bool.false_eq_true,
      if_false] at hMade
    split at hMade
    · cases hMade
    · cases hMade
      exact ⟨rfl, rfl, rfl, rfl, rfl⟩

theorem startServerSpan_identity (tracer : Tracer) (ctx : Context) (method : Text) :
    (startServerSpan tracer ctx method).identity = ctx.identity := by
  unfold startServerSpan
  split
  · rw [withCurrentSpan_identity]
    exact withRemoteParent_identity _ _
  · exact withCurrentSpan_identity _ _

theorem guarded_identity (i : Interceptor S) (clock : Moments) (ctx : Context)
    (identity : Token.Identity) : (i.guarded clock ctx identity).identity = some identity := by
  obtain ⟨traced, hTraced, -, hSome⟩ := guarded_eq i clock ctx identity
  obtain ⟨deadline, hBounded, -⟩ := bounded_eq traced i.maxDeadline clock.checkedAt clock.startedAt
  rw [hTraced, hBounded]
  exact hSome

/-- A merchant is let through only for an identity the delegations give it. -/
theorem authorizeTenant_ok {tenants : TenantAuthorizer} {ctx : Context} {method merchant : Text}
    {u : Unit} (h : authorizeTenant tenants ctx method (some merchant) = .ok u) :
    ∃ identity, ctx.identity = some identity ∧ tenants identity merchant method = .ok () := by
  unfold authorizeTenant at h
  dsimp only at h
  split at h
  · cases h
  · cases hIdentity : ctx.identity with
    | none =>
      rw [hIdentity] at h
      cases h
    | some identity =>
      rw [hIdentity] at h
      exact ⟨identity, rfl, mapError_ok.mp h⟩

/-- The scopes the policy asks for. -/
theorem internal_scopes {method : Text} {identity : Token.Identity}
    (hMethod : method = operationGetWatermark ∨ method = operationStreamEntriesAtCut)
    (h : internalGRPCPolicy.authorize method identity = .ok ()) :
    scopeLedgerInternal ∈ identity.scopes ∧
      (method = operationStreamEntriesAtCut → scopeOpsReconcile ∈ identity.scopes) := by
  rcases hMethod with rfl | rfl
  · have hLookup : internalGRPCPolicy.lookup operationGetWatermark = some [scopeLedgerInternal] :=
      rfl
    have hOther : operationGetWatermark ≠ operationStreamEntriesAtCut := by decide
    exact ⟨(authorize_ok_iff hLookup).mp h _ (List.mem_singleton_self _),
      fun hSame => absurd hSame hOther⟩
  · have hLookup : internalGRPCPolicy.lookup operationStreamEntriesAtCut =
        some [scopeLedgerInternal, scopeOpsReconcile] := rfl
    have hBoth := (authorize_ok_iff hLookup).mp h
    exact ⟨hBoth _ List.mem_cons_self, fun _ => hBoth _ (List.mem_cons_of_mem _ List.mem_cons_self)⟩

section Grants

variable {config : LedgerGRPCConfig S} {i : Interceptor S} {verifier : Verifier S} {raw m : Text}
  {delegations : Assignments} {c : InternalCall S K}

/-- A call that passes both checks is granted the merchant it names. -/
theorem granted_of_passed (hNew : newLedgerGRPCServer config = .ok i)
    (hVerifier : config.verifier = some verifier) (hParse : parseAssignments raw = .ok delegations)
    (hTenants : config.tenants = some (newStaticTenantDelegations delegations).authorizeTenant)
    (hMethod : c.method = operationGetWatermark ∨ c.method = operationStreamEntriesAtCut)
    {guarded : Context} (hAdmit : i.admitCall c.env c.clock c.context c.method = .ok guarded)
    (hTenant : authorizeTenant i.tenants (startServerSpan c.tracer guarded c.method) c.method
      (some c.merchantID) = .ok ())
    (hUuid : uuidIn c.merchantID = some m) : c.Granted verifier raw m := by
  obtain ⟨hSame, hPolicy, hDelegations, hTLS, hDeadline⟩ := interceptor_of_new hNew hVerifier hTenants
  have hHealth : isHealthMethod c.method = false := by
    rcases hMethod with h | h <;> rw [h] <;> decide
  obtain ⟨hCertified, hLimited, identity, hIdentity, hAuthorized, rfl⟩ :=
    (admit_ok_iff hHealth).mp hAdmit
  obtain ⟨caller, hCaller, hAllowed⟩ := authorizeTenant_ok hTenant
  -- the identity the tenant is checked for is the one the token was accepted for
  rw [startServerSpan_identity, guarded_identity, Option.some.injEq] at hCaller
  subst hCaller
  rw [hPolicy] at hAuthorized
  obtain ⟨hScope, hReconcile⟩ := internal_scopes hMethod hAuthorized
  rw [hSame] at hIdentity
  rw [hDelegations, authorizeTenant_iff hParse] at hAllowed
  exact ⟨hCertified hTLS, hLimited hDeadline, ⟨identity, hIdentity, hScope, hReconcile, hAllowed⟩,
    hUuid⟩

/-- A call for the watermark passes exactly when it is granted the merchant it names. -/
theorem unary_ok_iff_granted (hNew : newLedgerGRPCServer config = .ok i)
    (hVerifier : config.verifier = some verifier) (hParse : parseAssignments raw = .ok delegations)
    (hTenants : config.tenants = some (newStaticTenantDelegations delegations).authorizeTenant)
    (hMethod : c.method = operationGetWatermark) (hUuid : uuidIn c.merchantID = some m) :
    (∃ spanned, i.unary c.env c.tracer c.clock c.context c.method (some c.merchantID) =
      .ok spanned) ↔ c.Granted verifier raw m := by
  have hHealth : isHealthMethod c.method = false := by
    rw [hMethod]
    decide
  constructor
  · -- each check was passed, and together they are the grant
    rintro ⟨spanned, hUnary⟩
    obtain ⟨guarded, hAdmit, hUnary⟩ := peel.mp hUnary
    rw [hHealth, if_neg Bool.false_ne_true] at hUnary
    obtain ⟨_, hTenant, -⟩ := peel.mp hUnary
    exact granted_of_passed hNew hVerifier hParse hTenants (.inl hMethod) hAdmit hTenant hUuid
  · -- the grant passes each check
    rintro ⟨hCertified, hLimited, ⟨identity, hIdentity, hScope, -, hDelegated⟩, -⟩
    obtain ⟨hSame, hPolicy, hTenant, -, -⟩ := interceptor_of_new hNew hVerifier hTenants
    have hAuthorized : i.policy.authorize c.method identity = .ok () := by
      have hLookup : internalGRPCPolicy.lookup operationGetWatermark =
          some [scopeLedgerInternal] := rfl
      rw [hPolicy, hMethod, authorize_ok_iff hLookup]
      simpa using hScope
    have hAdmit : i.admitCall c.env c.clock c.context c.method =
        .ok (i.guarded c.clock c.context identity) :=
      (admit_ok_iff hHealth).mpr ⟨fun _ => hCertified, fun _ => hLimited, identity, by rwa [hSame],
        hAuthorized, rfl⟩
    -- a merchant that is listed is trimmed, so it is not blank
    have hNamed : trimSpace c.merchantID ≠ [] := by
      obtain ⟨_, _, _, _, _, _, hNe, value, _, hTrim⟩ := hDelegated
      rw [← hTrim, trimSpace_trimSpace, hTrim]
      exact hNe
    have hAllowed : i.tenants identity c.merchantID c.method = .ok () := by
      rw [hTenant]
      exact (authorizeTenant_iff hParse).mpr hDelegated
    refine ⟨startServerSpan c.tracer (i.guarded c.clock c.context identity) c.method,
      peel.mpr ⟨_, hAdmit, ?_⟩⟩
    rw [hHealth, if_neg Bool.false_ne_true]
    refine peel.mpr ⟨(), ?_, rfl⟩
    simp only [authorizeTenant, if_neg hNamed, startServerSpan_identity, guarded_identity]
    exact mapError_ok.mpr hAllowed

/-- The watermark is read from the merchant's own view. -/
theorem watermark_same {faults : InternalFaults} {d₁ d₂ : Db} {merchantID : Text}
    (h : ∀ m, uuidIn merchantID = some m → SameView m d₁ d₂) :
    getMerchantWatermark faults d₁ merchantID = getMerchantWatermark faults d₂ merchantID := by
  unfold getMerchantWatermark
  cases hUuid : uuidIn merchantID with
  | none => rfl
  | some m =>
    dsimp only
    rw [(h m hUuid).position]

/-- And so are the entries up to a cut. -/
theorem entries_same {faults : InternalFaults} {d₁ d₂ : Db} {merchantID : Text} {cut : UInt64}
    (h : ∀ m, uuidIn merchantID = some m → SameView m d₁ d₂) :
    streamEntries faults d₁ merchantID cut = streamEntries faults d₂ merchantID cut := by
  unfold streamEntries
  cases hUuid : uuidIn merchantID with
  | none => rfl
  | some m =>
    have hRows : rowsAtCut d₁ m cut.toNat = rowsAtCut d₂ m cut.toNat := by
      rw [rowsAtCut, rowsAtCut, (h m hUuid).entries]
    dsimp only
    rw [hRows]

/-- Whatever call a service makes: two ledgers that agree on the entries and the position of the
merchant the call is granted give the same answer. A grant needs a verified certificate, a deadline,
a token the verifier accepts with the scopes of the method, and an assignment of the configured text
that lists the merchant for the token's service; a call without one gets an answer that does not
depend on the ledger. -/
theorem internal_answer_within_grant (config : LedgerGRPCConfig S) (i : Interceptor S)
    (verifier : Verifier S) (raw : Text) (delegations : Assignments)
    (hNew : newLedgerGRPCServer config = .ok i) (hVerifier : config.verifier = some verifier)
    (hParse : parseAssignments raw = .ok delegations)
    (hTenants : config.tenants = some (newStaticTenantDelegations delegations).authorizeTenant)
    (c : InternalCall S K) (d₁ d₂ : Db)
    (hSame : ∀ m, c.Granted verifier raw m → SameView m d₁ d₂) :
    answerCall i c d₁ = answerCall i c d₂ := by
  unfold answerCall
  split
  · rename_i hMethod
    split
    · -- a refusal depends on no ledger
      rfl
    · rename_i spanned hUnary
      obtain ⟨guarded, hAdmit, hUnary⟩ := peel.mp hUnary
      have hHealth : isHealthMethod c.method = false := by
        rw [hMethod]
        decide
      rw [hHealth, if_neg Bool.false_ne_true] at hUnary
      obtain ⟨_, hTenant, -⟩ := peel.mp hUnary
      rw [watermark_same fun m hUuid => hSame m (granted_of_passed hNew hVerifier hParse hTenants
        (.inl hMethod) hAdmit hTenant hUuid)]
  · split
    · rename_i hMethod
      split
      · -- the stream is refused at once
        rfl
      · rename_i stream hStream
        obtain ⟨guarded, hAdmit, hStream⟩ := peel.mp hStream
        cases hStream
        split
        · -- or when the first message names the merchant
          rfl
        · split
          · rfl
          · rename_i hRecv
            have hHealth : isHealthMethod c.method = false := by
              rw [hMethod]
              decide
            rw [GuardedStream.recvMsg] at hRecv
            simp only [hHealth, Bool.not_false, Bool.and_self, if_true] at hRecv
            obtain ⟨_, hTenant, -⟩ := peel.mp hRecv
            rw [entries_same fun m hUuid => hSame m (granted_of_passed hNew hVerifier hParse hTenants
              (.inr hMethod) hAdmit hTenant hUuid)]
    · rfl

end Grants

/-! ### A sample -/

/-- The consolidation, as it asks for the watermark. -/
def serviceOptions : TokenOptions :=
  openOptions "consolidation".toList [] "internal".toList "ledger:internal:read".toList

def internalVerifierConfig : VerifierConfig Unit where
  issuer := "issuer".toList
  audience := "internal".toList
  keys := some ()
  merchant := .merchantForbidden

def internalVerifier : Verifier Unit := openVerifier "internal".toList .merchantForbidden

def serviceToken : Text := openToken serviceOptions

/-- The service's token is accepted inside. -/
theorem service_accepted :
    verify openEnvironment internalVerifier newYear2026 serviceToken =
      .ok (openIssuer.mintedIdentity newYear2026 serviceOptions) := by
  have hVerifier : newVerifier internalVerifierConfig = .ok internalVerifier := rfl
  exact open_accepted hVerifier rfl rfl (by decide) (by decide +kernel)

def shopDelegations : Text := "consolidation = 0b2d5c9e-8f1a-4d3b-9c6e-7a8b9c0d1e2f".toList

/-- The delegations as they are read. -/
def shopAssignments : Assignments := AList.singleton "consolidation".toList [shop.text]

def shopGRPCConfig : LedgerGRPCConfig Unit where
  verifier := some internalVerifier
  tenants := some (newStaticTenantDelegations shopAssignments).authorizeTenant

/-- The consolidation asks for the watermark of the shop. -/
def serviceCall : InternalCall Unit Unit where
  method := operationGetWatermark
  context :=
    { peer := .tls 1
      deadline := some 0
      incoming := some fun key =>
        if key = "authorization".toList then ["Bearer ".toList ++ serviceToken] else [] }
  merchantID := shop.text
  env := openEnvironment
  tracer := idleTracer
  clock := ⟨newYear2026, 0, 0⟩

/-- And its call is granted. -/
theorem serviceCall_granted : serviceCall.Granted internalVerifier shopDelegations shop.text where
  certified := rfl
  limited := rfl
  token := by
    have hTrim : trimSpace serviceToken = serviceToken := by decide +kernel
    refine ⟨openIssuer.mintedIdentity newYear2026 serviceOptions, ?_, by decide, by decide, ?_⟩
    · rw [authenticate_bearer rfl rfl, hTrim]
      exact service_accepted
    · exact ⟨shopDelegations, by decide, _, _, rfl, by decide, by decide, _,
        List.mem_singleton_self _, by decide⟩
  merchant := by decide

/-- The shop's watermark, beside a neighbour's sale and without it. -/
theorem internal_answer_within_grant_shop :
    serviceCall.Granted internalVerifier shopDelegations shop.text ∧ shopLedger ≠ sharedLedger ∧
    ∃ i, newLedgerGRPCServer shopGRPCConfig = .ok i ∧
      answerCall i serviceCall shopLedger = answerCall i serviceCall sharedLedger := by
  refine ⟨serviceCall_granted, by decide, _, rfl, ?_⟩
  refine internal_answer_within_grant shopGRPCConfig _ internalVerifier shopDelegations
    shopAssignments rfl rfl rfl rfl serviceCall shopLedger sharedLedger fun m hGranted => ?_
  have hShop : uuidIn shop.text = some shop.text := by decide
  obtain rfl := Option.some.inj (hShop.symm.trans hGranted.merchant)
  exact ⟨by decide, by decide⟩

/-! ## No credential for both surfaces -/

variable {S' K' : Type}

/-- Verifiers that accept one token ask the same of its merchant. -/
theorem merchant_rule_of_token {env : Environment S K} {env' : Environment S' K'} {v : Verifier S}
    {v' : Verifier S'} {now now' : Time} {token : Text} {identity identity' : Token.Identity}
    (h : verify env v now token = .ok identity) (h' : verify env' v' now' token = .ok identity')
    (hClaim : v.merchantClaim = v'.merchantClaim) :
    v.merchant = .merchantForbidden ↔ v'.merchant = .merchantForbidden := by
  obtain ⟨_, _, _, _, _, _, hSigned, hPayload⟩ := verify_ok_iff.mp h
  obtain ⟨_, _, _, _, _, _, hSigned', hPayload'⟩ := verify_ok_iff.mp h'
  obtain ⟨raw, _, _, _, _, hRaw, hBelieved, -⟩ := identityFromPayload_ok_iff.mp hPayload
  obtain ⟨raw', _, _, _, _, hRaw', hBelieved', -⟩ := identityFromPayload_ok_iff.mp hPayload'
  -- both read the claim from the same segment of the token
  have hParts := hSigned.parts.symm.trans hSigned'.parts
  simp only [List.cons.injEq, and_true] at hParts
  obtain ⟨rfl, rfl, rfl⟩ := hParts
  obtain rfl := Option.some.inj (hSigned.payload_eq.symm.trans hSigned'.payload_eq)
  obtain rfl := Option.some.inj (hRaw.symm.trans hRaw')
  have hMerchant := hBelieved.merchant_eq
  rw [hClaim] at hMerchant
  have hSame := Except.ok.inj (hMerchant.symm.trans hBelieved'.merchant_eq)
  rw [← hBelieved.merchant, ← hBelieved'.merchant, hSame]

/-- The two surfaces read the same token from a credential. -/
theorem authenticate_of_bearerToken {env : Environment S K} {v : Verifier S} {now : Time}
    {ctx : Context} {md : Metadata} {credential token : Text} (hMd : ctx.incoming = some md)
    (hCredential : md "authorization".toList = [credential])
    (hToken : Http.bearerToken credential = .ok token) :
    authenticate env v now ctx = verify env v now token := by
  obtain ⟨⟨scheme, rest⟩, hCut, hToken⟩ := peel.mp hToken
  obtain ⟨_, hScheme, hToken⟩ := peel.mp hToken
  obtain ⟨_, -, hToken⟩ := peel.mp hToken
  cases hToken
  simp only [authenticate, hMd, hCredential, hCut]
  show (refuse _ _ >>= fun _ => verify env v now (trimSpace rest)) = _
  rw [hScheme]
  rfl

/-- An answer to a public request means that its guard let it pass. -/
theorem serve_answered {httpConfig : LedgerHTTPConfig S} {http : LedgerHTTP S} {v : Verifier S}
    (hNew : newLedgerHTTPHandler httpConfig = .ok http) (hVerifier : httpConfig.verifier = some v)
    {a : Arrival S K} {d : Db} {reply : Except Status Reply}
    (h : (http.serve a d).1 = .answered reply) :
    ∃ token identity, Http.bearerToken (a.request.header.get "Authorization") = .ok token ∧
      verify a.env v a.now token = .ok identity := by
  unfold LedgerHTTP.serve at h
  split at h
  · cases h
  · rename_i route guard hFound
    obtain ⟨hGuard, -, -⟩ := guards_of_new hNew hVerifier (List.mem_of_find?_eq_some hFound)
    split at h
    · cases h
    · rename_i request identity hAdmit
      obtain ⟨token, hToken, hVerify⟩ := (Http.admit_ok_iff.mp hAdmit).token
      rw [hGuard] at hVerify
      exact ⟨token, identity, hToken, hVerify⟩

/-- A credential with which a request got an answer from the public surface is refused by the
private one, for every method that reads the ledger, at any time, with any answer of the source of
keys there and whatever is delegated: the public surface accepts only tokens with a merchant, the
private one only tokens without. -/
theorem public_credential_refused_inside (httpConfig : LedgerHTTPConfig S) (http : LedgerHTTP S)
    (v : Verifier S) (hHttp : newLedgerHTTPHandler httpConfig = .ok http)
    (hPublic : httpConfig.verifier = some v) (hRequired : v.merchant = .merchantRequired)
    (config : LedgerGRPCConfig S') (i : Interceptor S') (v' : Verifier S')
    (tenants : TenantAuthorizer) (hGrpc : newLedgerGRPCServer config = .ok i)
    (hPrivate : config.verifier = some v') (hTenants : config.tenants = some tenants)
    (hForbidden : v'.merchant = .merchantForbidden) (hClaim : v.merchantClaim = v'.merchantClaim)
    (a : Arrival S K) (d : Db) (reply : Except Status Reply)
    (hAnswered : (http.serve a d).1 = .answered reply) (c : InternalCall S' K') (md : Metadata)
    (hMd : c.context.incoming = some md)
    (hCredential : md "authorization".toList = [a.request.header.get "Authorization"])
    (hMethod : c.method = operationGetWatermark ∨ c.method = operationStreamEntriesAtCut)
    (d' : Db) : ∃ status, answerCall i c d' = .refused status := by
  obtain ⟨token, identity, hToken, hVerify⟩ := serve_answered hHttp hPublic hAnswered
  obtain ⟨hSame, -, -, -, -⟩ := interceptor_of_new hGrpc hPrivate hTenants
  have hHealth : isHealthMethod c.method = false := by
    rcases hMethod with h | h <;> rw [h] <;> decide
  obtain ⟨status, hRefused⟩ : ∃ status, i.admitCall c.env c.clock c.context c.method = .error status := by
    -- admission would mean that the token is one without a merchant
    cases hAdmit : i.admitCall c.env c.clock c.context c.method with
    | error status => exact ⟨status, rfl⟩
    | ok guarded =>
      obtain ⟨-, -, identity', hIdentity, -, -⟩ := (Grpc.admit_ok_iff hHealth).mp hAdmit
      rw [authenticate_of_bearerToken hMd hCredential hToken, hSame] at hIdentity
      have hRule := (merchant_rule_of_token hVerify hIdentity hClaim).mpr hForbidden
      rw [hRequired] at hRule
      cases hRule
  -- both methods begin with the admission
  refine ⟨status, ?_⟩
  rcases hMethod with hMethod | hMethod
  · rw [answerCall, if_pos hMethod, Interceptor.unary, hRefused]
    rfl
  · have hOther : c.method ≠ operationGetWatermark := by
      rw [hMethod]
      decide
    rw [answerCall, if_neg hOther, if_pos hMethod, Interceptor.stream, hRefused]
    rfl

/-- The clerk posts a sale. -/
def clerkArrival : Arrival Unit Unit where
  request :=
    { method := "POST".toList
      path := ["v1".toList, "entries".toList]
      header := fun name =>
        if name = "Authorization".toList then ["Bearer ".toList ++ clerkToken] else []
      contentLength := 0
      body := none }
  env := clerkEnvironment
  now := newYear2026
  random := onesRandomness
  around := ⟨calmEnv newYear 32, none, none, {}⟩

def clerkHTTPConfig : LedgerHTTPConfig Unit where
  verifier := some ledgerVerifier
  server := some shopServer
  gateway := saleGateway

/-- The clerk's credential on a call for the watermark. -/
def clerkCall : InternalCall Unit Unit :=
  { serviceCall with
    context :=
      { peer := .tls 1
        deadline := some 0
        incoming := some fun key =>
          if key = "authorization".toList then ["Bearer ".toList ++ clerkToken] else [] } }

/-- The clerk's token: answered outside, refused inside. -/
theorem public_credential_refused_inside_clerk :
    ∃ http i reply status, newLedgerHTTPHandler clerkHTTPConfig = .ok http ∧
      newLedgerGRPCServer shopGRPCConfig = .ok i ∧
      (http.serve clerkArrival sharedLedger).1 = .answered reply ∧
      answerCall i clerkCall sharedLedger = .refused status := by
  obtain ⟨http, hHttp⟩ : ∃ http, newLedgerHTTPHandler clerkHTTPConfig = .ok http := ⟨_, rfl⟩
  obtain ⟨i, hGrpc⟩ : ∃ i, newLedgerGRPCServer shopGRPCConfig = .ok i := ⟨_, rfl⟩
  -- the sale is admitted and bound to its command
  have hAnswered : ∃ reply, (http.serve clerkArrival sharedLedger).1 = .answered reply := by
    cases hHttp
    have hToken : Http.bearerToken (clerkArrival.request.header.get "Authorization") =
        .ok clerkToken := by decide +kernel
    have hAdmit : (Http.Guard.mk ledgerVerifier publicEdgePolicy operationCreateEntry
        Http.defaultMaxBodyBytes).admitRequest clerkArrival.env clerkArrival.now clerkArrival.random
          clerkArrival.request =
        .ok (clerkArrival.request.cleaned onesRandomness,
          clerkIssuer.mintedIdentity newYear2026 clerkOptions) :=
      Http.admit_ok_iff.mpr ⟨by decide, ⟨clerkToken, hToken, clerk_accepted⟩, by decide, rfl⟩
    have hDispatch : saleGateway.dispatch (clerkArrival.request.cleaned onesRandomness) =
        some (.createEntry ⟨1, "15.00".toList, "BRL".toList, [], []⟩, saleMetadata) := rfl
    exact ⟨_, congrArg Prod.fst
      (@serve_of_admitted _ _ _ _ _ Route.createEntry _ _ _ _ _ rfl hAdmit hDispatch)⟩
  obtain ⟨reply, hAnswered⟩ := hAnswered
  -- with the same token the internal surface is called
  obtain ⟨status, hRefused⟩ := public_credential_refused_inside clerkHTTPConfig http ledgerVerifier
    hHttp rfl rfl shopGRPCConfig i internalVerifier _ hGrpc rfl rfl rfl rfl clerkArrival sharedLedger
    reply hAnswered clerkCall _ rfl rfl (.inl rfl) sharedLedger
  exact ⟨http, i, reply, status, hHttp, hGrpc, hAnswered, hRefused⟩

end Cashflow.Ledger
