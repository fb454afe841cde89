import Cashflow.Auth.Tracing
import Cashflow.Ledger.Internal

/-!
# Pipeline — a query from the public edge to the ledger

`NewConsolidationHTTPHandler` of `internal/platform/identityruntime/consolidation_http.go`
guards `GET /v1/daily-balances`; `GetDailyBalances` of
`services/consolidation/internal/adapters/inbound/grpc/server.go` takes the merchant from
the token and asks the query service, which makes three reads of the projection and then
calls the ledger through the interceptors of `grpcsecurity`. Other merchants' entries may
be committed between any two of the reads.

The gateway and the network are parameters. Of a failed query only the kind of error is
kept, not the text of the library that the message ends with.

Main results:

* `watermark_answered_iff` — the call to the ledger succeeds exactly for a merchant that
  is delegated to the service, and then gives the watermark;
* `balances_within_merchant` — the answer to a request depends on the rows of its
  token's merchant in the two databases, and without an accepted token on nothing.
-/

namespace Cashflow.Pipeline

open Lib Consolidation Auth Auth.Token Auth.Grpc
open Ledger (InternalCall InternalFaults InternalAnswer SameView answerCall LedgerGRPCConfig
  answerCall_watermark_iff getMerchantWatermark newLedgerGRPCServer readWatermark_eq
  unary_ok_iff_granted)

/-! ## The call to the ledger -/

/-- The way of a call from the query service to the ledger. -/
structure Link (S K : Type) where
  client : ClientInterceptor
  /-- What the source of tokens answers. -/
  token : Except Unit Text
  checkedAt : Int
  startedAt : Int
  atClient : Tracer
  /-- What becomes of the call on the network; nothing when it does not arrive. -/
  deliver : Context → Option Context
  server : Interceptor S
  env : Environment S K
  atServer : Tracer
  clock : Moments
  faults : InternalFaults := {}

variable {S K : Type}

/-- The context the server finds. -/
def Link.received (l : Link S K) (ctx : Context) : Option Context :=
  match l.client.send l.atClient l.token l.checkedAt l.startedAt ctx operationGetWatermark with
  | .error _ => none
  | .ok sent => l.deliver sent

def Link.call (l : Link S K) (received : Context) (merchantID : Text) : InternalCall S K where
  method := operationGetWatermark
  context := received
  merchantID := merchantID
  env := l.env
  tracer := l.atServer
  clock := l.clock
  faults := l.faults

/-- `LedgerWatermarkClient.GetMerchantWatermark` -/
def Link.getMerchantWatermark (l : Link S K) (ctx : Context) (merchantID : Text) (d : Ledger.Db) :
    Except QueryError (UInt64 × Int) :=
  match l.received ctx with
  | none => .error .watermark
  | some received =>
    match answerCall l.server (l.call received merchantID) d with
    | .watermark _ position observedAt => .ok (position, observedAt)
    | _ => .error .watermark

/-! ## The service -/

structure BalancesRequest where
  startDate : Text
  endDate : Text
deriving DecidableEq, Repr

inductive BalancesStatus where
  /-- Unauthenticated: "missing identity" -/
  | missingIdentity
  /-- InvalidArgument: "invalid start_date: " and why -/
  | invalidStartDate
  /-- InvalidArgument: "invalid end_date: " and why -/
  | invalidEndDate
  /-- Unavailable: "failed to get balances: " and why -/
  | unavailable (cause : QueryError)
deriving DecidableEq, Repr

/-- A date of the request; an empty one is the zero date. -/
def requestDate (refusal : BalancesStatus) (value : Text) : Except BalancesStatus Int :=
  if value = [] then .ok zeroDate
  else
    match parseDate value with
    | none => .error refusal
    | some date => .ok date

/-- `Server.GetDailyBalances`; its four reads see the services at four moments. -/
def balancesRPC (env : QueryEnv) (l : Link S K) (ctx : Context) (w : Fin 4 → Services)
    (req : BalancesRequest) : Except BalancesStatus (List DayAnswer) := do
  let identity ← match ctx.identity with
    | none => .error .missingIdentity
    | some identity => .ok identity
  let fromDate ← requestDate .invalidStartDate req.startDate
  let throughDate ← requestDate .invalidEndDate req.endDate
  -- each read is a statement of its own, without a transaction around them
  (getDailyBalances env.now
    { balances := (w 0).store.readBalances env identity.merchantID fromDate throughDate
      progress := (w 1).store.readMerchantProgress env identity.merchantID
      pendingRecompute := (w 2).store.hasPendingRecompute env identity.merchantID
      watermark := l.getMerchantWatermark ctx identity.merchantID (w 3).ledger }
    fromDate throughDate).mapError .unavailable

/-! ## The handler -/

/-- The gateway: the request it reads, and the context it calls the service with. It adds its own
values, and keeps the identity. -/
structure BalancesGateway where
  dispatch : Http.Request → Option BalancesRequest
  annotate : Http.Request → Context → Context
  identity : ∀ r ctx, (annotate r ctx).identity = ctx.identity

structure ConsolidationHTTPConfig (S : Type) where
  verifier : Option (Verifier S)
  /-- Whether the server, the logger and the metrics are there. -/
  wired : Bool := true
  gateway : BalancesGateway

inductive ConsolidationHTTPError where
  /-- "identityruntime: consolidation verifier, server, logger and metrics are required" -/
  | incomplete
  | guard (cause : Http.ConfigError)
deriving DecidableEq, Repr

structure ConsolidationHTTP (S : Type) where
  guard : Http.Guard S
  gateway : BalancesGateway

def newConsolidationHTTPHandler {S : Type} (config : ConsolidationHTTPConfig S) :
    Except ConsolidationHTTPError (ConsolidationHTTP S) :=
  if config.verifier.isNone ∨ config.wired = false then .error .incomplete
  else do
    let guard ← (Http.middleware
      { verifier := config.verifier
        policy := some publicEdgePolicy
        operation := operationGetDailyBalances }).mapError .guard
    .ok ⟨guard, config.gateway⟩

/-- The route `GET /v1/daily-balances`, which takes `HEAD` too. -/
def balancesRoute (r : Http.Request) : Bool :=
  (r.method = "GET".toList || r.method = "HEAD".toList) &&
    r.path = ["v1".toList, "daily-balances".toList]

variable {S' K' : Type}

/-- A request, with what surrounds it. -/
structure BalancesArrival (S K S' K' : Type) where
  request : Http.Request
  env : Environment S K
  now : Auth.Time
  random : Randomness
  context : Context
  tracer : Tracer
  query : QueryEnv
  link : Link S' K'

inductive BalancesAnswer where
  | unrouted
  | refused (response : Http.Response)
  | answered (result : Except BalancesStatus (List DayAnswer))
deriving DecidableEq

/-- One request, whose reads see the services at four moments. -/
def ConsolidationHTTP.serve (h : ConsolidationHTTP S) (a : BalancesArrival S K S' K')
    (w : Fin 4 → Services) : BalancesAnswer :=
  -- no other path leads to the query
  if !balancesRoute a.request then .unrouted
  else
    match h.guard.admitRequest a.env a.now a.random a.request with
    | .error response => .refused response
    | .ok (request, identity) =>
      let ctx := { edgeContext a.random a.request a.context with identity := some identity }
      let name := request.method ++ ' ' :: request.path.flatMap fun segment => '/' :: segment
      let spanned := observed a.tracer request ctx name
      -- the gateway's own checks of the path and the query
      match h.gateway.dispatch request with
      | none => .unrouted
      | some req => .answered (balancesRPC a.query a.link (h.gateway.annotate request spanned) w req)

/-! ## The watermark across the call -/

/-- A watermark is read under an identifier the database takes. -/
theorem uuid_of_watermark {faults : InternalFaults} {d : Ledger.Db} {merchantID : Text}
    {answer : UInt64 × Int} (h : getMerchantWatermark faults d merchantID = some answer) :
    ∃ m, uuidIn merchantID = some m := by
  unfold getMerchantWatermark at h
  split at h
  · cases h
  · cases hUuid : uuidIn merchantID with
    | none =>
      rw [hUuid] at h
      cases h
    | some m => exact ⟨m, rfl⟩

/-- The query service gets a watermark from the ledger exactly when its call arrives and is granted
the merchant: over a verified certificate, with a deadline, with a token of a service that the text
of the delegations gives the merchant to, and with the ledger able to read it. What it gets is the
watermark the query is judged by. -/
theorem watermark_answered_iff (config : LedgerGRPCConfig S) (verifier : Verifier S) (raw : Text)
    (delegations : Assignments) (l : Link S K) (hNew : newLedgerGRPCServer config = .ok l.server)
    (hVerifier : config.verifier = some verifier) (hParse : parseAssignments raw = .ok delegations)
    (hTenants : config.tenants = some (newStaticTenantDelegations delegations).authorizeTenant)
    (ctx : Context) (merchantID : Text) (d : Ledger.Db) (answer : UInt64 × Int) :
    l.getMerchantWatermark ctx merchantID d = .ok answer ↔
      ∃ received m, l.received ctx = some received ∧
        (l.call received merchantID).Granted verifier raw m ∧
        readWatermark l.faults.queryFails d merchantID = .ok answer := by
  obtain ⟨position, observedAt⟩ := answer
  constructor
  · intro h
    unfold Link.getMerchantWatermark at h
    split at h
    · -- the call was not sent
      cases h
    · rename_i received hReceived
      split at h
      · rename_i hAnswer
        cases h
        obtain ⟨hPassed, -, hRead⟩ := (answerCall_watermark_iff rfl).mp hAnswer
        obtain ⟨m, hUuid⟩ := uuid_of_watermark hRead
        refine ⟨received, m, hReceived, ?_, ?_⟩
        · exact (unary_ok_iff_granted hNew hVerifier hParse hTenants rfl hUuid).mp hPassed
        · rw [readWatermark_eq, show getMerchantWatermark l.faults d merchantID = _ from hRead]
      · -- or was answered with an error
        cases h
  · rintro ⟨received, m, hReceived, hGranted, hRead⟩
    have hPassed :=
      (unary_ok_iff_granted hNew hVerifier hParse hTenants rfl hGranted.merchant).mpr hGranted
    rw [readWatermark_eq] at hRead
    cases hFound : getMerchantWatermark l.faults d merchantID with
    | none =>
      rw [hFound] at hRead
      cases hRead
    | some found =>
      rw [hFound] at hRead
      cases hRead
      have hAnswer : answerCall l.server (l.call received merchantID) d =
          .watermark merchantID position observedAt :=
        (answerCall_watermark_iff rfl).mpr ⟨hPassed, rfl, hFound⟩
      simp only [Link.getMerchantWatermark, hReceived, hAnswer]

/-- The consolidation's call arrives as it was sent, over a connection with a certificate. -/
def shopLink : Link Unit Unit where
  client := ⟨defaultMaxDeadline⟩
  token := .ok Ledger.serviceToken
  checkedAt := 0
  startedAt := 0
  atClient := idleTracer
  deliver sent := some { peer := .tls 1, deadline := sent.deadline, incoming := sent.outgoing }
  server :=
    { verifier := Ledger.internalVerifier
      policy := internalGRPCPolicy
      tenants := (newStaticTenantDelegations Ledger.shopAssignments).authorizeTenant
      requireMTLS := true
      requireDeadline := true
      maxDeadline := defaultMaxDeadline }
  env := openEnvironment
  atServer := idleTracer
  clock := ⟨newYear2026, 0, 0⟩

theorem shopLink_new : newLedgerGRPCServer Ledger.shopGRPCConfig = .ok shopLink.server := rfl

/-- The shop is at its first position. -/
theorem watermark_answered_iff_shop :
    shopLink.getMerchantWatermark {} Ledger.shop.text Ledger.sharedLedger =
      .ok (1, Ledger.newYear.nanos) := by
  obtain ⟨received, hReceived⟩ : ∃ received, shopLink.received {} = some received := ⟨_, rfl⟩
  refine (watermark_answered_iff Ledger.shopGRPCConfig Ledger.internalVerifier
    Ledger.shopDelegations Ledger.shopAssignments shopLink shopLink_new rfl rfl rfl {} _ _ _).mpr
    ⟨received, Ledger.shop.text, hReceived, ?_, by decide⟩
  cases hReceived
  refine ⟨rfl, rfl, ?_, Ledger.serviceCall_granted.merchant⟩
  obtain ⟨identity, hIdentity, hRest⟩ := Ledger.serviceCall_granted.token
  refine ⟨identity, ?_, hRest⟩
  rw [authenticate_bearer rfl rfl] at hIdentity ⊢
  exact hIdentity

/-! ## What a request may learn -/

/-- The request bears a token that the verifier accepts, with the scope to read balances, and the
token's merchant is `m`. -/
def BalancesArrival.Speaks (a : BalancesArrival S K S' K') (verifier : Verifier S) (m : Text) :
    Prop :=
  ∃ token identity, Http.bearerToken (a.request.header.get "Authorization") = .ok token ∧
    verify a.env verifier a.now token = .ok identity ∧
    scopeConsolidationRead ∈ identity.scopes ∧ uuidIn identity.merchantID = some m

/-- The rows of the merchant are the same in both databases. -/
structure SameMerchant (m : Text) (w w' : Services) : Prop where
  balances : merchantRows w.store.balances m = merchantRows w'.store.balances m
  progress : w.store.progress.find? (·.merchantID == m) =
    w'.store.progress.find? (·.merchantID == m)
  jobs : w.store.jobs.rows.filter (·.merchantID == m) =
    w'.store.jobs.rows.filter (·.merchantID == m)
  ledger : SameView m w.ledger w'.ledger

/-- A merchant's recomputations are among its own rows. -/
theorem SameMerchant.pending {m : Text} {w w' : Services} (h : SameMerchant m w w') :
    hasPendingJob w.store m = hasPendingJob w'.store m := by
  have hAny : ∀ s : Store, hasPendingJob s m =
      (s.jobs.rows.filter (·.merchantID == m)).any (·.isPending) := fun s => by
    rw [List.any_filter, hasPendingJob]
  rw [hAny, hAny, h.jobs]

/-- The watermark is read from the merchant's view of the ledger, through both interceptors. -/
theorem Link.watermark_same (l : Link S K) (ctx : Context) {merchantID : Text} {d d' : Ledger.Db}
    (h : ∀ m, uuidIn merchantID = some m → SameView m d d') :
    l.getMerchantWatermark ctx merchantID d = l.getMerchantWatermark ctx merchantID d' := by
  unfold Link.getMerchantWatermark
  cases l.received ctx with
  | none => rfl
  | some received =>
    have hRead : Ledger.getMerchantWatermark (l.call received merchantID).faults d
        (l.call received merchantID).merchantID =
      Ledger.getMerchantWatermark (l.call received merchantID).faults d'
        (l.call received merchantID).merchantID := Ledger.watermark_same h
    have hMethod : (l.call received merchantID).method = operationGetWatermark := rfl
    simp only [answerCall, if_pos hMethod, hRead]

/-- The reads of one query see the rows of its merchant only. -/
theorem balancesRPC_same {env : QueryEnv} {l : Link S K} {ctx : Context} {identity : Token.Identity}
    (hIdentity : ctx.identity = some identity) {w w' : Fin 4 → Services}
    (h : ∀ m, uuidIn identity.merchantID = some m → ∀ t, SameMerchant m (w t) (w' t))
    (req : BalancesRequest) : balancesRPC env l ctx w req = balancesRPC env l ctx w' req := by
  -- one read after another, each of the merchant's rows at its own moment
  have hBalances : ∀ fromDate throughDate,
      (w 0).store.readBalances env identity.merchantID fromDate throughDate =
        (w' 0).store.readBalances env identity.merchantID fromDate throughDate := by
    intro fromDate throughDate
    unfold Store.readBalances
    cases hUuid : uuidIn identity.merchantID with
    | none => rfl
    | some m => simp only [(h m hUuid 0).balances]
  have hProgress : (w 1).store.readMerchantProgress env identity.merchantID =
      (w' 1).store.readMerchantProgress env identity.merchantID := by
    unfold Store.readMerchantProgress
    cases hUuid : uuidIn identity.merchantID with
    | none => rfl
    | some m => simp only [Option.bind_some, (h m hUuid 1).progress]
  have hPending : (w 2).store.hasPendingRecompute env identity.merchantID =
      (w' 2).store.hasPendingRecompute env identity.merchantID := by
    unfold Store.hasPendingRecompute
    cases hUuid : uuidIn identity.merchantID with
    | none => rfl
    | some m => simp only [(h m hUuid 2).pending]
  have hWatermark : l.getMerchantWatermark ctx identity.merchantID (w 3).ledger =
      l.getMerchantWatermark ctx identity.merchantID (w' 3).ledger :=
    l.watermark_same ctx fun m hUuid => (h m hUuid 3).ledger
  simp only [balancesRPC, hIdentity, bind, Except.bind, hBalances, hProgress, hPending, hWatermark]

theorem observed_identity (tracer : Tracer) (r : Http.Request) (ctx : Context) (name : Text) :
    (observed tracer r ctx name).identity = ctx.identity := by
  unfold observed
  simp only [withCurrentSpan_identity, Context.start]
  split
  · exact withRemoteParent_identity _ _
  · split
    · exact withRemoteParent_identity _ _
    · rfl

/-- The handler's guard has the verifier it was configured with, and the scope of the query. -/
theorem guard_of_new {config : ConsolidationHTTPConfig S} {h : ConsolidationHTTP S}
    {verifier : Verifier S} (hNew : newConsolidationHTTPHandler config = .ok h)
    (hVerifier : config.verifier = some verifier) :
    h.guard.verifier = verifier ∧ h.guard.policy = publicEdgePolicy ∧
      h.guard.operation = operationGetDailyBalances := by
  unfold newConsolidationHTTPHandler at hNew
  split at hNew
  · cases hNew
  · obtain ⟨guard, hGuard, hNew⟩ := peel.mp hNew
    cases hNew
    have hMade := mapError_ok.mp hGuard
    simp only [Http.middleware, hVerifier] at hMade
    split at hMade
    · cases hMade
    · cases hMade
      exact ⟨rfl, rfl, rfl⟩

/-- Whatever request arrives, and whatever is committed between the reads it causes in the two
databases: the answer depends on the rows of the merchant of its token only, at the moment of each
read. Without a token that the verifier accepts, or without the scope, it depends on no row. -/
theorem balances_within_merchant (config : ConsolidationHTTPConfig S) (h : ConsolidationHTTP S)
    (verifier : Verifier S) (hNew : newConsolidationHTTPHandler config = .ok h)
    (hVerifier : config.verifier = some verifier) (a : BalancesArrival S K S' K')
    (w w' : Fin 4 → Services)
    (hSame : ∀ m, a.Speaks verifier m → ∀ t, SameMerchant m (w t) (w' t)) :
    h.serve a w = h.serve a w' := by
  obtain ⟨hGuard, hPolicy, hOperation⟩ := guard_of_new hNew hVerifier
  unfold ConsolidationHTTP.serve
  split
  · -- a path that is not the query's
    rfl
  · split
    · -- and a request that is refused read no row
      rfl
    · rename_i request identity hAdmit
      obtain ⟨-, ⟨token, hToken, hVerify⟩, hAuthorized, -⟩ := Http.admit_ok_iff.mp hAdmit
      rw [hGuard] at hVerify
      have hScope : scopeConsolidationRead ∈ identity.scopes := by
        have hLookup : publicEdgePolicy.lookup operationGetDailyBalances =
            some [scopeConsolidationRead] := rfl
        rw [hPolicy, hOperation] at hAuthorized
        exact (authorize_ok_iff hLookup).mp hAuthorized _ (List.mem_singleton_self _)
      dsimp only
      split
      · rfl
      · -- the service asks for the merchant of the identity the guard put in the context
        rw [balancesRPC_same _ fun m hUuid => hSame m ⟨token, identity, hToken, hVerify, hScope, hUuid⟩]
        rw [h.gateway.identity, observed_identity]

/-! ### A sample -/

def readerOptions : TokenOptions :=
  openOptions "reader".toList Ledger.shop.text "consolidation".toList "consolidation:read".toList

def readerVerifierConfig : VerifierConfig Unit where
  issuer := "issuer".toList
  audience := "consolidation".toList
  keys := some ()

def readerVerifier : Verifier Unit := openVerifier "consolidation".toList .merchantRequired

def readerToken : Text := openToken readerOptions

/-- The reader's token is accepted. -/
theorem reader_accepted :
    verify openEnvironment readerVerifier newYear2026 readerToken =
      .ok (openIssuer.mintedIdentity newYear2026 readerOptions) := by
  have hVerifier : newVerifier readerVerifierConfig = .ok readerVerifier := rfl
  exact open_accepted hVerifier rfl rfl (by decide) (by decide +kernel)

/-- A gateway that asks for one day. -/
def dayGateway : BalancesGateway where
  dispatch _ := some ⟨"2026-01-01".toList, "2026-01-01".toList⟩
  annotate _ ctx := ctx
  identity := fun _ _ => rfl

def readerHTTPConfig : ConsolidationHTTPConfig Unit where
  verifier := some readerVerifier
  gateway := dayGateway

/-- The shop asks for its balances. -/
def readerArrival : BalancesArrival Unit Unit Unit Unit where
  request :=
    { bareRequest with
      header := fun name =>
        if name = "Authorization".toList then ["Bearer ".toList ++ readerToken] else [] }
  env := openEnvironment
  now := newYear2026
  random := onesRandomness
  context := {}
  tracer := idleTracer
  query := {}
  link := shopLink

/-- And speaks for the shop. -/
theorem readerArrival_speaks : readerArrival.Speaks readerVerifier Ledger.shop.text :=
  ⟨readerToken, _, by decide +kernel, reader_accepted, by decide, by decide⟩

/-- The neighbour's first sale is committed before the shop's watermark is read. -/
theorem balances_within_merchant_shop :
    readerArrival.Speaks readerVerifier Ledger.shop.text ∧
    ∃ h, newConsolidationHTTPHandler readerHTTPConfig = .ok h ∧
      h.serve readerArrival (fun _ => ⟨Ledger.shopLedger, Store.empty⟩) =
        h.serve readerArrival fun t =>
          if t = 3 then ⟨Ledger.sharedLedger, Store.empty⟩ else ⟨Ledger.shopLedger, Store.empty⟩ := by
  refine ⟨readerArrival_speaks, _, rfl, ?_⟩
  refine balances_within_merchant readerHTTPConfig _ readerVerifier rfl rfl readerArrival _ _ ?_
  rintro m ⟨token, identity, hToken, hVerify, -, hUuid⟩ t
  obtain ⟨token', identity', hToken', hVerify', -, hUuid'⟩ := readerArrival_speaks
  obtain rfl := Except.ok.inj (hToken.symm.trans hToken')
  obtain rfl := Except.ok.inj (hVerify.symm.trans hVerify')
  obtain rfl := Option.some.inj (hUuid.symm.trans hUuid')
  split
  · exact ⟨rfl, rfl, rfl, by decide, by decide⟩
  · exact ⟨rfl, rfl, rfl, rfl, rfl⟩

end Cashflow.Pipeline
