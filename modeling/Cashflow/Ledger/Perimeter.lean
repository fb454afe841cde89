import Cashflow.Auth.Issuer
import Cashflow.Auth.Middleware
import Cashflow.Ledger.Tenancy

/-!
# Ledger — what reaches it over HTTP

`NewLedgerHTTPHandler` of `internal/platform/identityruntime/ledger_http.go`: four
routes, each behind a guard for its own operation, lead to the gateway that calls
the handlers of the ledger with the identity of the token. Arbitrary requests
arrive one after another, each at its own time and with its own answers of the
source of keys.

The gateway is generated code over a library; it is the parameter `Gateway`, of
which only that it binds the two commands to `POST` is known.

Main results:

* `serve_posts` — one request posts for the merchant of its token, or nothing;
* `untouched_without_token` — without a request that bears an accepted token of the
  merchant with the scope to write, the merchant's rows stay as they are.
-/

namespace Cashflow.Ledger

open Lib Auth Auth.Token Auth.Http

/-! ## The handler -/

def Rpc.writes : Rpc → Bool
  | .createEntry _ => true
  | .createReversal _ => true
  | .getEntry _ => false
  | .listEntries _ => false

/-- The gateway: the rpc a request stands for, with its metadata. -/
structure Gateway where
  dispatch : Http.Request → Option (Rpc × (Text → List Text))
  post : ∀ {r rpc metadata}, dispatch r = some (rpc, metadata) → rpc.writes = true →
    r.method = "POST".toList

/-- The routes, by their patterns; `{entry_id}` is one segment. A pattern for `GET` takes `HEAD`
too. -/
inductive Route where
  | createEntry
  | createReversal
  | getEntry
  | listEntries
deriving DecidableEq, Repr

def Route.admits (route : Route) (r : Http.Request) : Bool :=
  match route, r.path with
  -- the patterns of the mux, segment by segment
  | .createEntry, [v1, entries] => r.method = "POST".toList && at' v1 entries
  | .createReversal, [v1, entries, _, reversals] =>
    r.method = "POST".toList && at' v1 entries && reversals = "reversals".toList
  | .getEntry, [v1, entries, _] => reads r.method && at' v1 entries
  | .listEntries, [v1, entries] => reads r.method && at' v1 entries
  | _, _ => false
where
  at' (v1 entries : Text) : Bool := v1 = "v1".toList && entries = "entries".toList
  -- the mux answers `HEAD` where it answers `GET`
  reads (method : Text) : Bool := method = "GET".toList || method = "HEAD".toList

def Route.operation : Route → Token.Operation
  | .createEntry => operationCreateEntry
  | .createReversal => operationCreateReversal
  | .getEntry => operationGetEntry
  | .listEntries => operationListEntries

def routes : List Route := [.createEntry, .createReversal, .getEntry, .listEntries]

structure LedgerHTTPConfig (S : Type) where
  verifier : Option (Verifier S)
  server : Option Server
  gateway : Gateway
  maxBodyBytes : Int := 0

inductive HandlerError where
  /-- "identityruntime: ledger verifier, server, logger and metrics are required" -/
  | incomplete
  | guard (cause : Http.ConfigError)
deriving DecidableEq, Repr

structure LedgerHTTP (S : Type) where
  routes : List (Route × Http.Guard S)
  gateway : Gateway
  server : Server

def newLedgerHTTPHandler {S : Type} (config : LedgerHTTPConfig S) :
    Except HandlerError (LedgerHTTP S) :=
  match config.verifier, config.server with
  | some verifier, some server => do
    -- one guard for each route, with the scope of its operation
    let guarded ← routes.mapM fun route => do
      let guard ← (middleware
        { verifier := some verifier
          policy := some publicEdgePolicy
          operation := route.operation
          maxBodyBytes := config.maxBodyBytes }).mapError .guard
      .ok (route, guard)
    .ok { routes := guarded, gateway := config.gateway, server := server }
  | _, _ => .error .incomplete

/-- A request, with what surrounds it. -/
structure Arrival (S K : Type) where
  request : Http.Request
  env : Environment S K
  now : Time
  random : Randomness
  around : Surroundings

inductive Answer where
  /-- No route, or the gateway's own refusal. -/
  | unrouted
  | refused (response : Http.Response)
  | answered (reply : Except Status Reply)
deriving DecidableEq, Repr

variable {S K : Type}

/-- One request: the answer, and the ledger it leaves. -/
def LedgerHTTP.serve (h : LedgerHTTP S) (a : Arrival S K) (d : Db) : Answer × Db :=
  match h.routes.find? fun route => route.1.admits a.request with
  | none => (.unrouted, d)
  | some (_, guard) =>
    match guard.admitRequest a.env a.now a.random a.request with
    | .error response => (.refused response, d)
    | .ok (request, identity) =>
      match h.gateway.dispatch request with
      | none => (.unrouted, d)
      | some (rpc, metadata) =>
        -- the merchant is the token's
        let done := h.server.handle a.around ⟨some ⟨identity.merchantID⟩, metadata, rpc⟩ d
        (.answered done.1, done.2)

/-- The ledger after requests, one after another. -/
def LedgerHTTP.run (h : LedgerHTTP S) (arrivals : List (Arrival S K)) (d : Db) : Db :=
  Lib.run (fun d a => (h.serve a d).2) d arrivals

/-! ## Which requests post -/

/-- The request bears an accepted token of the merchant with the scope to write. -/
def Arrival.MayWrite (a : Arrival S K) (verifier : Verifier S) (m : UUID) : Prop :=
  a.request.method = "POST".toList ∧
  ∃ token identity, bearerToken (a.request.header.get "Authorization") = .ok token ∧
    verify a.env verifier a.now token = .ok identity ∧ scopeLedgerWrite ∈ identity.scopes ∧
    IdentityOf m ⟨identity.merchantID⟩

/-- Each route has the guard of its own operation. -/
theorem guards_of_new {config : LedgerHTTPConfig S} {h : LedgerHTTP S} {verifier : Verifier S}
    (hNew : newLedgerHTTPHandler config = .ok h) (hVerifier : config.verifier = some verifier)
    {route : Route} {guard : Http.Guard S} (hRoute : (route, guard) ∈ h.routes) :
    guard.verifier = verifier ∧ guard.policy = publicEdgePolicy ∧
      guard.operation = route.operation := by
  cases hServer : config.server with
  | none => simp [newLedgerHTTPHandler, hVerifier, hServer] at hNew
  | some server =>
    simp only [newLedgerHTTPHandler, hVerifier, hServer] at hNew
    obtain ⟨guarded, hGuarded, hNew⟩ := peel.mp hNew
    cases hNew
    obtain ⟨route', -, hMade⟩ := mem_of_mapM hGuarded hRoute
    obtain ⟨made, hMiddleware, hMade⟩ := peel.mp hMade
    cases hMade
    have hGuard := mapError_ok.mp hMiddleware
    simp only [middleware] at hGuard
    split at hGuard
    · cases hGuard
    · cases hGuard
      exact ⟨rfl, rfl, rfl⟩

/-- A route that admits `POST` asks for the scope to write. -/
theorem write_scope {route : Route} {r : Http.Request} {identity : Token.Identity}
    (hRoute : route.admits r = true) (hPost : r.method = "POST".toList)
    (hAuthorized : publicEdgePolicy.authorize route.operation identity = .ok ()) :
    scopeLedgerWrite ∈ identity.scopes := by
  have hReads : Route.admits.reads r.method = false := by
    rw [hPost]
    decide
  have hWrites : publicEdgePolicy.lookup route.operation = some [scopeLedgerWrite] := by
    cases route with
    | createEntry => rfl
    | createReversal => rfl
    | getEntry =>
      -- the reading routes do not take a `POST`
      unfold Route.admits at hRoute
      split at hRoute <;> simp_all
    | listEntries =>
      unfold Route.admits at hRoute
      split at hRoute <;> simp_all
  exact (authorize_ok_iff hWrites).mp hAuthorized _ (List.mem_singleton_self _)

/-- An rpc posts for the merchant of its identity, or leaves the ledger as it is. -/
theorem handle_posts (s : Server) (around : Surroundings) (c : Call) (d : Db) :
    (s.handle around c d).2 = d ∨
    ∃ identity p, c.identity = some identity ∧ c.rpc.writes = true ∧
      d.Posts (s.handle around c d).2 p ∧ p.event.merchantID = p.entry.merchantID.uuid ∧
      IdentityOf p.entry.merchantID.uuid identity := by
  have hRun : ∀ (identity : Tenancy.Identity) (req : Request),
      req.merchantID = identity.merchantID →
      (req.run s.platform around.env d).2 = d ∨
      ∃ p, d.Posts (req.run s.platform around.env d).2 p ∧
        p.event.merchantID = p.entry.merchantID.uuid ∧
        IdentityOf p.entry.merchantID.uuid identity := by
    -- what is posted is the caller's, for the merchant is taken from the identity
    intro identity req hMerchant
    rcases run_cases s.platform around.env req d with hSame | ⟨p, hAttempts, hPosts, hMade, -⟩
    · exact .inl hSame
    · obtain ⟨eventID, text, payload, -, -, -, hEvent⟩ := hMade.event
      refine .inr ⟨p, hPosts, by rw [hEvent]; rfl, p.attempt.merchantID, ?_, hPosts.merchant⟩
      rw [hAttempts.merchantID, hMerchant]
  unfold Server.handle
  cases hCaller : c.identity with
  | none => exact .inl rfl
  | some identity =>
    cases hRpc : c.rpc with
    | createEntry req =>
      simp only [Server.createEntry]
      cases parseBRL req.amount with
      | error e => exact .inl rfl
      | ok money =>
        refine Or.imp_right ?_ (hRun identity _ ?_)
        · rintro ⟨p, hPosts, hEvent, hOf⟩
          exact ⟨identity, p, rfl, rfl, hPosts, hEvent, hOf⟩
        · rfl
    | createReversal entryID =>
      simp only [Server.createReversal]
      cases Server.guarded around identity d entryID with
      | error status => exact .inl rfl
      | ok u =>
        refine Or.imp_right ?_ (hRun identity _ ?_)
        · rintro ⟨p, hPosts, hEvent, hOf⟩
          exact ⟨identity, p, rfl, rfl, hPosts, hEvent, hOf⟩
        · rfl
    | getEntry entryID => exact .inl rfl
    | listEntries req => exact .inl rfl

/-- One request posts for the merchant of its token, or leaves the ledger as it is. -/
theorem serve_posts {config : LedgerHTTPConfig S} {h : LedgerHTTP S} {verifier : Verifier S}
    (hNew : newLedgerHTTPHandler config = .ok h) (hVerifier : config.verifier = some verifier)
    (a : Arrival S K) (d : Db) :
    (h.serve a d).2 = d ∨
    ∃ p, d.Posts (h.serve a d).2 p ∧ p.event.merchantID = p.entry.merchantID.uuid ∧
      a.MayWrite verifier p.entry.merchantID.uuid := by
  unfold LedgerHTTP.serve
  split
  · -- no route
    exact .inl rfl
  · rename_i route guard hFound
    obtain ⟨hGuardVerifier, hPolicy, hOperation⟩ :=
      guards_of_new hNew hVerifier (List.mem_of_find?_eq_some hFound)
    have hRoute : route.admits a.request = true := by
      simpa using List.find?_some hFound
    split
    · -- refused
      exact .inl rfl
    · rename_i request identity hAdmit
      have hAdmitted := admit_ok_iff.mp hAdmit
      split
      · -- or not bound to a command
        exact .inl rfl
      · rename_i rpc metadata hDispatch
        rcases handle_posts h.server a.around ⟨some ⟨identity.merchantID⟩, metadata, rpc⟩ d with
          hSame | ⟨caller, p, hCaller, hWrites, hPosts, hEvent, hOf⟩
        · exact .inl hSame
        · cases hCaller
          -- only `POST` is bound to a command, and `POST` is admitted with the scope to write only
          have hPost : a.request.method = "POST".toList := by
            rw [← hAdmitted.same.1]
            exact h.gateway.post hDispatch hWrites
          have hAuthorized := hAdmitted.authorized
          rw [hPolicy, hOperation] at hAuthorized
          obtain ⟨token, hToken, hVerify⟩ := hAdmitted.token
          rw [hGuardVerifier] at hVerify
          exact .inr ⟨p, hPosts, hEvent, hPost, token, identity, hToken, hVerify,
            write_scope hRoute hPost hAuthorized, hOf⟩

/-! ## Merchants without a request of theirs -/

/-- The rows of the merchant, and its position, are the same. -/
structure Untouched (m : UUID) (d d' : Db) : Prop where
  entries : (d'.entries.rows.filter fun e => e.merchantID = m) =
    d.entries.rows.filter fun e => e.merchantID = m
  outbox : (d'.outbox.rows.filter fun r => r.merchantID = m) =
    d.outbox.rows.filter fun r => r.merchantID = m
  idempotency : (d'.idempotency.rows.filter fun r => r.merchantID = m) =
    d.idempotency.rows.filter fun r => r.merchantID = m
  position : d'.lastPosition m = d.lastPosition m

theorem Untouched.refl (m : UUID) (d : Db) : Untouched m d d := ⟨rfl, rfl, rfl, rfl⟩

/-- Untouched by one request after another. -/
theorem Untouched.trans {m : UUID} {d d' d'' : Db} (h : Untouched m d d')
    (h' : Untouched m d' d'') : Untouched m d d'' :=
  ⟨h'.entries.trans h.entries, h'.outbox.trans h.outbox, h'.idempotency.trans h.idempotency,
    h'.position.trans h.position⟩

theorem filter_concat_of_neg {α : Type} {p : α → Bool} {l : List α} {a : α} (h : p a = false) :
    (l ++ [a]).filter p = l.filter p := by
  simp [h]

/-- A posting for one merchant leaves every other as it is. -/
theorem Db.Posts.untouched {m : UUID} {d d' : Db} {p : Posting} (h : d.Posts d' p)
    (hEvent : p.event.merchantID = p.entry.merchantID.uuid) (hOther : p.entry.merchantID.uuid ≠ m) :
    Untouched m d d' where
  entries := by
    rw [h.entries]
    exact filter_concat_of_neg (decide_eq_false hOther)
  outbox := by
    rw [h.outbox]
    exact filter_concat_of_neg (decide_eq_false (hEvent ▸ hOther))
  idempotency := by
    have hRecord : p.record.merchantID = p.entry.merchantID.uuid := h.merchant
    rw [h.idempotency]
    exact filter_concat_of_neg (decide_eq_false (hRecord ▸ hOther))
  position := by rw [h.positions, if_neg fun hSame => hOther hSame.symm]

/-- Whatever requests arrive, and in whatever order: unless one of them is a `POST` that bears an
accepted token of the merchant with the scope to write, the merchant's entries, events, records
and position stay as they are. -/
theorem untouched_without_token (config : LedgerHTTPConfig S) (h : LedgerHTTP S)
    (verifier : Verifier S) (hNew : newLedgerHTTPHandler config = .ok h)
    (hVerifier : config.verifier = some verifier) (m : UUID) (arrivals : List (Arrival S K))
    (hNone : ∀ a ∈ arrivals, ¬ a.MayWrite verifier m) (d : Db) :
    Untouched m d (h.run arrivals d) := by
  induction arrivals generalizing d with
  | nil => exact .refl m d
  | cons a arrivals ih =>
    have hRest := ih (fun b hb => hNone b (List.mem_cons_of_mem a hb)) (h.serve a d).2
    refine Untouched.trans ?_ hRest
    rcases serve_posts hNew hVerifier a d with hSame | ⟨p, hPosts, hEvent, hMay⟩
    · rw [hSame]
      exact .refl m d
    · refine hPosts.untouched hEvent ?_
      rintro rfl
      exact hNone a List.mem_cons_self hMay

/-- A request that is admitted and bound to a command is handled for the merchant of its token. -/
theorem serve_of_admitted {http : LedgerHTTP S} {a : Arrival S K} {d : Db} {route : Route}
    {guard : Http.Guard S} {request : Http.Request} {identity : Token.Identity} {rpc : Rpc}
    {metadata : Text → List Text}
    (hRoute : (http.routes.find? fun route => route.1.admits a.request) = some (route, guard))
    (hAdmit : guard.admitRequest a.env a.now a.random a.request = .ok (request, identity))
    (hDispatch : http.gateway.dispatch request = some (rpc, metadata)) :
    http.serve a d =
      (.answered (http.server.handle a.around ⟨some ⟨identity.merchantID⟩, metadata, rpc⟩ d).1,
        (http.server.handle a.around ⟨some ⟨identity.merchantID⟩, metadata, rpc⟩ d).2) := by
  simp only [LedgerHTTP.serve, hRoute, hAdmit, hDispatch]

def saleMetadata (key : Text) : List Text :=
  if key = "grpcgateway-idempotency-key".toList then ["sale-2".toList]
  else if key = "grpcgateway-traceparent".toList then
    ["00-4bf92f3577b34da6a3ce929d0e0e4736-00f067aa0ba902b7-01".toList]
  else []

/-- A gateway that takes every `POST` for the same sale. -/
def saleGateway : Gateway where
  dispatch r :=
    if r.method = "POST".toList then
      some (.createEntry ⟨1, "15.00".toList, "BRL".toList, [], []⟩, saleMetadata)
    else none
  post := by
    intro r rpc metadata hDispatch _
    split at hDispatch
    · assumption
    · cases hDispatch

def shopHTTPConfig : LedgerHTTPConfig Unit where
  verifier := some ledgerVerifier
  server := some shopServer
  gateway := saleGateway

/-- A sale that comes with these credentials. -/
def saleArrival (authorization : Text) : Arrival Unit Unit where
  request :=
    { method := "POST".toList
      path := ["v1".toList, "entries".toList]
      header := fun name => if name = "Authorization".toList then [authorization] else []
      contentLength := 0
      body := none }
  env := openEnvironment
  now := newYear2026
  random := onesRandomness
  around := ⟨calmEnv newYear 32, none, none, {}⟩

/-- A scheme that is not a bearer's. -/
def basicArrival : Arrival Unit Unit := saleArrival "Basic c2hvcDpzaG9w".toList

def neighbourOptions : TokenOptions :=
  openOptions "neighbour".toList neighbour.text "ledger".toList "ledger:write".toList

def neighbourArrival : Arrival Unit Unit :=
  saleArrival ("Bearer ".toList ++ openToken neighbourOptions)

/-- The neighbour's token is accepted. -/
theorem neighbour_accepted :
    verify openEnvironment ledgerVerifier newYear2026 (openToken neighbourOptions) =
      .ok (openIssuer.mintedIdentity newYear2026 neighbourOptions) :=
  open_accepted ledgerVerifier_ok rfl rfl (by decide) (by decide +kernel)

theorem neighbour_bearer :
    bearerToken (neighbourArrival.request.header.get "Authorization") =
      .ok (openToken neighbourOptions) := by
  decide +kernel

/-- The neighbour's sale is posted, between two requests without a token. -/
theorem untouched_without_token_neighbour :
    ∃ h, newLedgerHTTPHandler shopHTTPConfig = .ok h ∧
      (h.serve basicArrival sharedLedger).1 = .refused writeUnauthenticated ∧
      (h.serve neighbourArrival sharedLedger).2.entries.rows.map (·.merchantID) =
        [neighbour, shop, neighbour] ∧
      Untouched shop sharedLedger
        (h.run [basicArrival, neighbourArrival, basicArrival] sharedLedger) := by
  obtain ⟨h, hNew⟩ : ∃ h, newLedgerHTTPHandler shopHTTPConfig = .ok h := ⟨_, rfl⟩
  -- the first request has no bearer token
  have hBasic : ¬ basicArrival.MayWrite ledgerVerifier shop := by
    rintro ⟨-, token, identity, hToken, -⟩
    cases hToken
  -- the second one has a token for the neighbour
  have hNeighbour : ¬ neighbourArrival.MayWrite ledgerVerifier shop := by
    rintro ⟨-, token, identity, hToken, hVerify, -, hOf⟩
    rw [neighbour_bearer] at hToken
    cases hToken
    cases neighbour_accepted.symm.trans hVerify
    exact absurd hOf.lower (by decide)
  have hPosted : (h.serve neighbourArrival sharedLedger).2.entries.rows.map (·.merchantID) =
      [neighbour, shop, neighbour] := by
    cases hNew
    have hAdmit : (Http.Guard.mk ledgerVerifier publicEdgePolicy operationCreateEntry
        Http.defaultMaxBodyBytes).admitRequest neighbourArrival.env neighbourArrival.now
          neighbourArrival.random neighbourArrival.request =
        .ok (neighbourArrival.request.cleaned onesRandomness,
          openIssuer.mintedIdentity newYear2026 neighbourOptions) :=
      Http.admit_ok_iff.mpr ⟨by decide, ⟨_, neighbour_bearer, neighbour_accepted⟩, by decide, rfl⟩
    have hDispatch : saleGateway.dispatch (neighbourArrival.request.cleaned onesRandomness) =
        some (.createEntry ⟨1, "15.00".toList, "BRL".toList, [], []⟩, saleMetadata) := rfl
    rw [@serve_of_admitted _ _ _ _ _ Route.createEntry _ _ _ _ _ rfl hAdmit hDispatch]
    decide +kernel
  refine ⟨h, hNew, by cases hNew; rfl, hPosted,
    untouched_without_token shopHTTPConfig h _ hNew rfl shop _ ?_ sharedLedger⟩
  simp only [List.forall_mem_cons]
  exact ⟨hBasic, hNeighbour, hBasic, List.forall_mem_nil _⟩

end Cashflow.Ledger
