import Cashflow.Auth.Credentials
import Cashflow.Auth.Verifier

/-!
# Auth — the guard in front of an HTTP route

`internal/platform/auth/httpauth/middleware.go`: a request loses the headers that
nothing may trust, its trace context is normalised, its body is bounded, and it
goes on only with a bearer token that the verifier accepts and whose scopes cover
the route. Everything else is answered with one of three fixed texts.

Main result: `admit_ok_iff` — what holds of a request that goes on.
-/

namespace Cashflow.Auth.Http

open Lib Token

/-! ## Headers -/

/-- `textproto.CanonicalMIMEHeaderKey`, of a name without blanks. -/
def canonicalKey (name : Text) : Text := go true name
where
  go : Bool → Text → Text
    | _, [] => []
    | upper, c :: rest => (if upper then c.toUpper else c.toLower) :: go (c == '-') rest

/-- `http.Header`, by canonical names. -/
abbrev Header := Text → List Text

def Header.get (h : Header) (name : String) : Text :=
  ((h (canonicalKey name.toList)).head?).getD []

def Header.del (h : Header) (name : String) : Header :=
  Function.update h (canonicalKey name.toList) []

def Header.set (h : Header) (name : String) (value : Text) : Header :=
  Function.update h (canonicalKey name.toList) [value]

/-- Set to the value, or deleted for want of one. -/
def Header.put (h : Header) (name : String) : Option Text → Header
  | none => h.del name
  | some value => h.set name value

def untrustedHeaders : List String :=
  ["X-Merchant-Id", "X-Merchant-ID", "X-Tenant-Id", "X-Authenticated-User", "X-Forwarded-For",
    "X-Forwarded-Host", "X-Forwarded-Proto", "X-Forwarded-Port", "X-Real-Ip", "Forwarded",
    "Baggage"]

def Header.strip (h : Header) : Header := untrustedHeaders.foldl Header.del h

/-! ## Requests and answers -/

/-- A body as it arrives; `failsAt` is where reading it fails. -/
structure Body where
  contents : List UInt8
  failsAt : Option Nat := none
  closes : Bool := true

structure Request where
  method : Text
  /-- The segments of the path. -/
  path : List Text
  header : Header
  contentLength : Int
  /-- Nothing when it is `nil` or `http.NoBody`. -/
  body : Option Body

structure Response where
  status : Nat
  header : List (Text × Text)
  body : Text
deriving DecidableEq, Repr

/-- `writeProblem`, with the headers set before it. -/
def writeProblem (header : List (Text × Text)) (status : Nat) (code message : String) :
    Response where
  status := status
  header := header ++ [("Content-Type".toList, "application/json; charset=utf-8".toList),
    ("Cache-Control".toList, "no-store".toList)]
  body := Json.renderObject [("code".toList, .text code.toList),
    ("message".toList, .text message.toList)] ++ ['\n']

def writeUnauthenticated : Response :=
  writeProblem [("WWW-Authenticate".toList, "Bearer realm=\"cashflow\"".toList)] 401
    "unauthenticated" "Authentication is required."

def writeForbidden : Response :=
  writeProblem [] 403 "forbidden"
    "The authenticated identity is not allowed to perform this operation."

def writeTooLarge : Response :=
  writeProblem [] 413 "request_too_large" "The request body exceeds the allowed size."

/-! ## The guard -/

structure Config (S : Type) where
  verifier : Option (Verifier S)
  policy : Option ScopePolicy
  operation : Operation
  maxBodyBytes : Int := 0

def defaultMaxBodyBytes : Int := 1048576

inductive ConfigError where
  /-- "httpauth: verifier is required" -/
  | verifierRequired
  /-- "httpauth: scope policy is required" -/
  | policyRequired
  /-- "httpauth: operation " and the name and " has no declared scope policy" -/
  | undeclared (operation : Operation)
deriving DecidableEq, Repr

/-- The guard of one route. -/
structure Guard (S : Type) where
  verifier : Verifier S
  policy : ScopePolicy
  operation : Operation
  maxBody : Int

def middleware {S : Type} (config : Config S) : Except ConfigError (Guard S) :=
  match config.verifier, config.policy with
  | none, _ => .error .verifierRequired
  | some _, none => .error .policyRequired
  | some verifier, some policy =>
    -- an operation without a policy is refused when the handler is built, not when it is called
    if policy.lookup config.operation = none then .error (.undeclared config.operation)
    else .ok {
      verifier := verifier
      policy := policy
      operation := config.operation
      maxBody := if config.maxBodyBytes = 0 then defaultMaxBodyBytes else config.maxBodyBytes }

/-- `strings.Cut` at a character. -/
def cut (sep : Char) (s : Text) : Option (Text × Text) :=
  match s.span (· != sep) with
  | (_, []) => none
  | (before, _ :: after) => some (before, after)

def bearerToken (header : Text) : Except Rejection Text := do
  let (scheme, credential) ← orReject .tokenMissing (cut ' ' (trimSpace header))
  refuse (!Credentials.equalFold scheme "Bearer".toList) .tokenMissing
  refuse (decide (trimSpace credential = [])) .tokenMissing
  .ok (trimSpace credential)

/-- `normalizeTraceContext` on the headers of a request. -/
def Request.normalizeTraceContext (random : Randomness) (r : Request) : Request :=
  let written := Auth.normalizeTraceContext random
    ⟨(r.header (canonicalKey "traceparent".toList)).head?,
      (r.header (canonicalKey "tracestate".toList)).head?⟩
  let header := (r.header.put "traceparent" written.traceparent).put "tracestate" written.tracestate
  { r with header }

/-- The request as the guard rewrites it. -/
def Request.cleaned (random : Randomness) (r : Request) : Request :=
  { r with header := r.header.strip }.normalizeTraceContext random

/-- `bufferBoundedBody`: the body is read to one byte past the bound, whatever its declared
length. -/
def bufferBoundedBody (maxBody : Int) (r : Request) : Option Request :=
  match r.body with
  | none => some r
  | some body =>
    let limit := (maxBody + 1).toNat
    -- a body that cannot be read, or closed, is refused like one that is too long
    if body.failsAt.any (· < limit) then none
    else if !body.closes then none
    else if maxBody < (body.contents.take limit).length then none
    else some { r with
      body := some ⟨body.contents.take limit, none, true⟩
      contentLength := (body.contents.take limit).length }

variable {S K : Type}

/-- The guard: the answer that ends the request, or the request and the identity it goes on
with. -/
def Guard.admitRequest (g : Guard S) (env : Environment S K) (now : Time) (random : Randomness)
    (r : Request) : Except Response (Request × Token.Identity) :=
  let cleaned := r.cleaned random
  -- a declared length over the bound ends the request before its token is read
  if g.maxBody < cleaned.contentLength then .error writeTooLarge
  else do
    let token ← (bearerToken (cleaned.header.get "Authorization")).mapError
      fun _ => writeUnauthenticated
    let identity ← (verify env g.verifier now token).mapError fun _ => writeUnauthenticated
    (g.policy.authorize g.operation identity).mapError fun _ => writeForbidden
    -- the body itself is read last, for an identity that may send it
    match bufferBoundedBody g.maxBody cleaned with
    | none => .error writeTooLarge
    | some buffered => .ok (buffered, identity)

/-! ## What goes on -/

theorem strip_apply (h : Header) (name : Text) :
    h.strip name =
      if name ∈ untrustedHeaders.map fun u => canonicalKey u.toList then [] else h name := by
  have hFold : ∀ (l : List String) (h : Header),
      l.foldl Header.del h name =
        if name ∈ l.map fun u => canonicalKey u.toList then [] else h name := by
    intro l
    induction l with
    | nil => exact fun h => rfl
    | cons u l ih =>
      intro h
      rw [List.foldl_cons, ih, List.map_cons, Header.del]
      by_cases hLater : name ∈ l.map fun u => canonicalKey u.toList
      · rw [if_pos hLater, if_pos (List.mem_cons_of_mem _ hLater)]
      · rw [if_neg hLater]
        by_cases hName : name = canonicalKey u.toList
        · rw [hName, Function.update_self, if_pos List.mem_cons_self]
        · rw [Function.update_of_ne hName, if_neg (by simp [hName, hLater])]
  exact hFold _ h

theorem put_apply_of_ne (h : Header) {name : String} {other : Text}
    (hNe : other ≠ canonicalKey name.toList) (value : Option Text) :
    h.put name value other = h other := by
  cases value with
  | none => exact Function.update_of_ne hNe _ _
  | some value => exact Function.update_of_ne hNe _ _

section Admit

variable {g : Guard S} {env : Environment S K} {now : Time} {random : Randomness} {r r' : Request}
  {identity : Token.Identity}

/-- The rewriting touches the trace headers and those it strips. -/
theorem cleaned_header {name : Text} (hParent : name ≠ canonicalKey "traceparent".toList)
    (hState : name ≠ canonicalKey "tracestate".toList) :
    (r.cleaned random).header name = r.header.strip name := by
  rw [Request.cleaned, Request.normalizeTraceContext]
  exact (put_apply_of_ne _ hState _).trans (put_apply_of_ne _ hParent _)

theorem cleaned_authorization :
    (r.cleaned random).header.get "Authorization" = r.header.get "Authorization" := by
  rw [Header.get, Header.get, cleaned_header (by decide) (by decide), strip_apply,
    if_neg (by decide)]

/-- What holds of a request that goes on. -/
structure Admitted (g : Guard S) (env : Environment S K) (now : Time) (random : Randomness)
    (r r' : Request) (identity : Token.Identity) : Prop where
  declared : r.contentLength ≤ g.maxBody
  token : ∃ token, bearerToken (r.header.get "Authorization") = .ok token ∧
    verify env g.verifier now token = .ok identity
  authorized : g.policy.authorize g.operation identity = .ok ()
  buffered : bufferBoundedBody g.maxBody (r.cleaned random) = some r'

theorem admit_ok_iff :
    g.admitRequest env now random r = .ok (r', identity) ↔ Admitted g env now random r r' identity := by
  constructor
  · intro h
    simp only [Guard.admitRequest, cleaned_authorization] at h
    split at h
    · cases h
    · rename_i hDeclared
      -- the token, the identity and its scopes, each checked with its own status
      obtain ⟨token, hToken, h⟩ := peel.mp h
      obtain ⟨found, hVerify, h⟩ := peel.mp h
      obtain ⟨_, hAuthorized, h⟩ := peel.mp h
      -- and last the body, which may be longer than it was declared
      split at h
      · cases h
      · rename_i hBuffered
        cases h
        exact ⟨not_lt.mp hDeclared, ⟨token, mapError_ok.mp hToken, mapError_ok.mp hVerify⟩,
          mapError_ok.mp hAuthorized, hBuffered⟩
  · rintro ⟨hDeclared, ⟨token, hToken, hVerify⟩, hAuthorized, hBuffered⟩
    have hLength : ¬ g.maxBody < (r.cleaned random).contentLength := not_lt.mpr hDeclared
    simp only [Guard.admitRequest, cleaned_authorization, if_neg hLength]
    refine peel.mpr ⟨token, mapError_ok.mpr hToken, ?_⟩
    refine peel.mpr ⟨identity, mapError_ok.mpr hVerify, ?_⟩
    refine peel.mpr ⟨(), mapError_ok.mpr hAuthorized, ?_⟩
    rw [hBuffered]

/-- Buffering the body leaves the rest of a request as it is. -/
theorem Admitted.same (h : Admitted g env now random r r' identity) :
    r'.method = r.method ∧ r'.path = r.path := by
  have hBuffered := h.buffered
  unfold bufferBoundedBody at hBuffered
  split at hBuffered
  · cases hBuffered
    exact ⟨rfl, rfl⟩
  · dsimp only at hBuffered
    split at hBuffered
    · cases hBuffered
    · split at hBuffered
      · cases hBuffered
      · split at hBuffered
        · cases hBuffered
        · cases hBuffered
          exact ⟨rfl, rfl⟩

end Admit

end Cashflow.Auth.Http
