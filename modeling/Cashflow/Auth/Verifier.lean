import Cashflow.Auth.TraceContext
import Cashflow.Auth.Jwks
import Cashflow.Lib.Base64
import Cashflow.Lib.JsonNumber

/-!
# Auth — what a bearer token says, and whether it is believed

`internal/platform/auth/verifier.go`, `identity.go` and `policy.go`: `Verify`
takes a token apart, checks its signature under a key the source of keys names,
reads its claims and checks them; `Authorize` compares the granted scopes with
those an operation requires.

The cryptography is a parameter (`Primitives`), and so is what the source of keys
answers. A token is read as characters; a byte that is part of none reads as
U+FFFD, which no segment of a token may contain.

* `verify_ok_iff`, `identityFromPayload_ok_iff` — everything that was checked
  when an identity is returned.
-/

namespace Cashflow.Auth.Token

open Lib

/-! ## Refusals -/

deriving instance DecidableEq, Repr for CallError

/-- The errors of the sources of keys. -/
inductive KeyError where
  /-- "auth: key id %q is unknown", of `StaticKeys` -/
  | unknown (keyID : Text)
  /-- Of the cache of published keys. -/
  | cache (cause : CallError)
deriving DecidableEq, Repr

/-- The sentinels of `errors.go`. -/
inductive Rejection where
  /-- "auth: credential is missing" -/
  | tokenMissing
  /-- "auth: credential is malformed" -/
  | tokenMalformed
  /-- "auth: signing algorithm is not allowed" -/
  | algorithmNotAllowed
  /-- "auth: signing key is unknown", joined with the error of the source of keys -/
  | keyUnknown (cause : KeyError)
  /-- "auth: signature is invalid" -/
  | signatureInvalid
  /-- "auth: credential is expired" -/
  | tokenExpired
  /-- "auth: credential is not valid yet" -/
  | tokenNotYetValid
  /-- "auth: issuer is not trusted" -/
  | issuerMismatch
  /-- "auth: audience does not include this service" -/
  | audienceMismatch
  /-- "auth: subject claim is missing" -/
  | subjectMissing
  /-- "auth: merchant claim is missing" -/
  | merchantMissing
  /-- "auth: merchant claim is present on a service identity" -/
  | merchantForbidden
  /-- "auth: required scope is missing" -/
  | scopeMissing
  /-- "auth: operation has no declared scope policy" -/
  | operationUnknown
deriving DecidableEq, Repr

/-- The value, or the refusal for want of it. -/
def orReject {α : Type} (r : Rejection) : Option α → Except Rejection α
  | some a => .ok a
  | none => .error r

/-- A check that ends in a refusal when the condition holds. -/
def refuse (condition : Bool) (r : Rejection) : Except Rejection Unit :=
  if condition then .error r else .ok ()

@[simp] theorem orReject_ok {α : Type} {r : Rejection} {x : Option α} {a : α} :
    orReject r x = .ok a ↔ x = some a := by
  cases x <;> simp [orReject]

@[simp] theorem refuse_ok {condition : Bool} {r : Rejection} {u : Unit} :
    refuse condition r = .ok u ↔ condition = false := by
  cases condition <;> simp [refuse]

/-! ## The verifier -/

inductive MerchantRequirement where
  | merchantRequired
  | merchantForbidden
deriving DecidableEq, Repr

inductive Hash where
  | sha256
  | sha384
  | sha512
deriving DecidableEq, Repr

def supportedAlgorithms : List (Text × Hash) :=
  [("RS256".toList, .sha256), ("RS384".toList, .sha384), ("RS512".toList, .sha512)]

/-- Thirty seconds, in nanoseconds. -/
def defaultLeeway : Int := 30000000000

def minRSAModulusBits : Nat := 2048

def maxTokenBytes : Nat := 8192

/-- The settings, over the type of sources of keys. -/
structure VerifierConfig (S : Type) where
  issuer : Text
  audience : Text
  keys : Option S
  merchant : MerchantRequirement := .merchantRequired
  allowedAlgorithms : List Text := []
  merchantClaim : Text := []
  scopeClaim : Text := []
  leeway : Int := 0

structure Verifier (S : Type) where
  issuer : Text
  audience : Text
  keys : S
  merchant : MerchantRequirement
  algorithms : List (Text × Hash)
  merchantClaim : Text
  scopeClaim : Text
  leeway : Int

inductive ConfigError where
  /-- "auth: issuer is required" -/
  | issuerRequired
  /-- "auth: audience is required" -/
  | audienceRequired
  /-- "auth: key source is required" -/
  | keySourceRequired
  /-- "auth: algorithm %q is not supported" -/
  | algorithmUnsupported (name : Text)
deriving DecidableEq, Repr

def allowAlgorithms (names : List Text) : Except ConfigError (List (Text × Hash)) :=
  names.mapM fun name =>
    match supportedAlgorithms.lookup name with
    | some hash => .ok (name, hash)
    | none => .error (.algorithmUnsupported name)

def newVerifier {S : Type} (config : VerifierConfig S) : Except ConfigError (Verifier S) :=
  if config.issuer = [] then .error .issuerRequired
  else if config.audience = [] then .error .audienceRequired
  else
    match config.keys with
    | none => .error .keySourceRequired
    | some keys => do
      -- `RS256` alone, unless others are named
      let algorithms ← allowAlgorithms
        (if config.allowedAlgorithms = [] then ["RS256".toList] else config.allowedAlgorithms)
      .ok {
        issuer := config.issuer
        audience := config.audience
        keys := keys
        merchant := config.merchant
        algorithms := algorithms
        merchantClaim :=
          if config.merchantClaim = [] then "merchant_id".toList else config.merchantClaim
        scopeClaim := if config.scopeClaim = [] then "scope".toList else config.scopeClaim
        leeway := if config.leeway = 0 then defaultLeeway else config.leeway }

/-! ## Scopes -/

/-- `strings.Fields` -/
def fields (raw : Text) : List Text := (raw.splitOnP Outbox.isSpace).filter (· ≠ [])

abbrev ScopeSet := Finset Text

def parseScopes (raw : Text) : ScopeSet := (fields raw).toFinset

def ScopeSet.hasAll (s : ScopeSet) (required : List Text) : Bool :=
  required.all fun scope => decide (scope ∈ s)

structure Identity where
  subject : Text
  merchantID : Text
  clientID : Text
  scopes : ScopeSet
  issuer : Text
  audience : List Text
  tokenID : Text
  issuedAt : Time
  expiresAt : Time
deriving DecidableEq

/-! ## Times -/

/-- The seconds between the zero time and the Unix epoch. -/
def unixToInternal : Int := 62135596800

/-- `time.Unix`; the seconds since the zero time are kept in 64 bits. -/
def unix (sec nsec : Int64) : Time :=
  (sec.toInt + nsec.toInt / second + unixToInternal).bmod (2 ^ 64) * second + nsec.toInt % second

/-- `Time.Add`, which stops at the last second it can tell. -/
def addDuration (t : Time) (d : Int) : Time :=
  let sec := (t + d) / second
  let bounded := if 2 ^ 63 ≤ sec then 2 ^ 63 - 1 else if sec < -2 ^ 63 then -(2 ^ 63 - 1) else sec
  bounded * second + (t + d) % second

/-- `numericDate`: whole seconds and nanoseconds, each converted on its own. -/
def numericDate (wild : ℚ → Int64) (seconds : ℚ) : Time :=
  let whole : ℚ := Binary64.truncate seconds
  unix (Binary64.toInt64 wild whole)
    (Binary64.toInt64 wild (Binary64.round ((seconds - whole) * second)))

/-! ## Claims -/

/-- `json.Unmarshal` into a struct or a map: an object, or `null`, which sets nothing. -/
def unmarshal (data : List UInt8) : Option (List (Text × Json)) :=
  match Json.parse (runes data) with
  | some (.obj ms) => some ms
  | some .null => some []
  | _ => none

def textField (name : String) (ms : List (Text × Json)) : Option Text :=
  (Json.field name.toList ms).foldlM Json.decodeText []

/-- `audienceList.UnmarshalJSON`: one text, or a list of them. -/
def decodeAudience : Json → Option (List Text)
  | .null => some [[]]
  | .str s => some [s]
  | .arr elems => elems.mapM (Json.decodeText [])
  | _ => none

def audienceField (name : String) (ms : List (Text × Json)) : Option (List Text) :=
  (Json.field name.toList ms).foldlM (fun _ v => decodeAudience v) []

/-- A `*numericDate`: `null` takes it away. -/
def decodeDate (wild : ℚ → Int64) : Json → Option (Option Time)
  | .null => some none
  | .num literal => (Json.parseFloat64 literal).map fun seconds => some (numericDate wild seconds)
  | _ => none

def dateField (wild : ℚ → Int64) (name : String) (ms : List (Text × Json)) : Option (Option Time) :=
  (Json.field name.toList ms).foldlM (fun _ v => decodeDate wild v) none

structure JoseHeader where
  algorithm : Text
  keyID : Text
  type : Text
deriving DecidableEq, Repr

def JoseHeader.ofMembers (ms : List (Text × Json)) : Option JoseHeader := do
  let algorithm ← textField "alg" ms
  let keyID ← textField "kid" ms
  let type ← textField "typ" ms
  some { algorithm, keyID, type }

structure RegisteredClaims where
  issuer : Text
  subject : Text
  audience : List Text
  expiresAt : Option Time
  notBefore : Option Time
  issuedAt : Option Time
  tokenID : Text
  authorizedParty : Text
deriving DecidableEq

def RegisteredClaims.ofMembers (wild : ℚ → Int64) (ms : List (Text × Json)) :
    Option RegisteredClaims := do
  let issuer ← textField "iss" ms
  let subject ← textField "sub" ms
  let audience ← audienceField "aud" ms
  let expiresAt ← dateField wild "exp" ms
  let notBefore ← dateField wild "nbf" ms
  let issuedAt ← dateField wild "iat" ms
  let tokenID ← textField "jti" ms
  let authorizedParty ← textField "azp" ms
  some { issuer, subject, audience, expiresAt, notBefore, issuedAt, tokenID, authorizedParty }

/-- `stringClaim` over the map of the members: the last of the name, spelt exactly so. -/
def stringClaim (raw : List (Text × Json)) (name : Text) : Except Rejection Text :=
  match (raw.filter fun m => m.1 = name).getLast? with
  | none => .ok []
  | some m => orReject .tokenMalformed (Json.decodeText [] m.2)

/-- The rule on the merchant of a token. -/
def checkMerchant : MerchantRequirement → Text → Except Rejection Unit
  | .merchantRequired, merchantID => refuse (decide (merchantID = [])) .merchantMissing
  | .merchantForbidden, merchantID => refuse (decide (merchantID ≠ [])) .merchantForbidden

def identityFromPayload {S : Type} (wild : ℚ → Int64) (v : Verifier S) (now : Time)
    (payload : List UInt8) : Except Rejection Identity := do
  -- read as a map and into the fields of the struct; either failure is this error
  let raw ← orReject .tokenMalformed (unmarshal payload)
  let claims ← orReject .tokenMalformed (RegisteredClaims.ofMembers wild raw)
  refuse (decide (claims.issuer ≠ v.issuer)) .issuerMismatch
  refuse (!claims.audience.contains v.audience) .audienceMismatch
  refuse (decide (claims.subject = [])) .subjectMissing
  -- a token without an expiry is malformed, not eternal
  let expiresAt ← orReject .tokenMalformed claims.expiresAt
  refuse (decide (addDuration expiresAt v.leeway < now)) .tokenExpired
  -- `nbf` is optional
  refuse (claims.notBefore.any fun notBefore => decide (addDuration now v.leeway < notBefore))
    .tokenNotYetValid
  let merchantID ← stringClaim raw v.merchantClaim
  checkMerchant v.merchant merchantID
  let scopeValue ← stringClaim raw v.scopeClaim
  .ok {
    subject := claims.subject
    merchantID := merchantID
    clientID := claims.authorizedParty
    scopes := parseScopes scopeValue
    issuer := claims.issuer
    audience := claims.audience
    tokenID := claims.tokenID
    issuedAt := claims.issuedAt.getD 0
    expiresAt := expiresAt }

/-! ## Verification -/

/-- What the `crypto` packages compute: the modulus of a key that is an RSA key, the digests and
the check of a signature. -/
structure Primitives (K : Type) where
  rsaModulus : K → Option Nat
  digest : Hash → List UInt8 → List UInt8
  verifyPKCS1v15 : K → Hash → List UInt8 → List UInt8 → Bool

/-- What a machine and its libraries add to the code: the primitives, the answers of the sources
of keys, and the conversion of a float that does not fit. -/
structure Environment (S K : Type) where
  primitives : Primitives K
  verificationKey : S → Text → Except KeyError K
  wild : ℚ → Int64

/-- The types a header may declare; none is declared as the empty text. -/
def JoseHeader.typed (header : JoseHeader) : Bool :=
  decide (header.type = [] ∨ header.type = "JWT".toList ∨ header.type = "at+jwt".toList)

variable {S K : Type}

def verify (env : Environment S K) (v : Verifier S) (now : Time) (token : Text) :
    Except Rejection Identity :=
  if trimSpace token = [] then .error .tokenMissing
  else if maxTokenBytes < (utf8 token).length then .error .tokenMalformed
  else
    match token.splitOn '.' with
    | [part0, part1, part2] => do
      let headerBytes ← orReject .tokenMalformed (base64Decode part0)
      let header ← orReject .tokenMalformed ((unmarshal headerBytes).bind JoseHeader.ofMembers)
      -- nothing is looked up for a header that is not a token's
      refuse (!header.typed) .tokenMalformed
      -- the algorithm is the verifier's choice, not the token's
      let hash ← orReject .algorithmNotAllowed (v.algorithms.lookup header.algorithm)
      let payload ← orReject .tokenMalformed (base64Decode part1)
      let signature ← orReject .tokenMalformed (base64Decode part2)
      let key ← (env.verificationKey v.keys header.keyID).mapError .keyUnknown
      let modulus ← orReject .algorithmNotAllowed (env.primitives.rsaModulus key)
      refuse (decide (modulus.size < minRSAModulusBits)) .signatureInvalid
      -- what is signed is the text of the first two parts
      let digest := env.primitives.digest hash (utf8 (part0 ++ '.' :: part1))
      refuse (!env.primitives.verifyPKCS1v15 key hash digest signature) .signatureInvalid
      identityFromPayload env.wild v now payload
    | _ => .error .tokenMalformed

/-! ## Policies -/

/-- An operation is named by its method and path, or by its rpc. -/
abbrev Operation := Text

abbrev ScopePolicy := List (Operation × List Text)

def operationCreateEntry : Operation := "POST /v1/entries".toList
def operationCreateReversal : Operation := "POST /v1/entries/\x7bentry_id\x7d/reversals".toList
def operationGetEntry : Operation := "GET /v1/entries/\x7bentry_id\x7d".toList
def operationListEntries : Operation := "GET /v1/entries".toList
def operationGetDailyBalances : Operation := "GET /v1/daily-balances".toList
def operationGetWatermark : Operation :=
  "/cashflow.ledger.internal.v1.LedgerInternalService/GetMerchantWatermark".toList
def operationStreamEntriesAtCut : Operation :=
  "/cashflow.ledger.internal.v1.LedgerInternalService/StreamEntriesAtCut".toList

def scopeLedgerRead : Text := "ledger:read".toList
def scopeLedgerWrite : Text := "ledger:write".toList
def scopeConsolidationRead : Text := "consolidation:read".toList
def scopeLedgerInternal : Text := "ledger:internal:read".toList
def scopeOpsReconcile : Text := "ops:reconcile".toList

def publicEdgePolicy : ScopePolicy :=
  [(operationCreateEntry, [scopeLedgerWrite]), (operationCreateReversal, [scopeLedgerWrite]),
    (operationGetEntry, [scopeLedgerRead]), (operationListEntries, [scopeLedgerRead]),
    (operationGetDailyBalances, [scopeConsolidationRead])]

def internalGRPCPolicy : ScopePolicy :=
  [(operationGetWatermark, [scopeLedgerInternal]),
    (operationStreamEntriesAtCut, [scopeLedgerInternal, scopeOpsReconcile])]

def ScopePolicy.authorize (p : ScopePolicy) (operation : Operation) (identity : Identity) :
    Except Rejection Unit :=
  match p.lookup operation with
  | none => .error .operationUnknown
  | some required => refuse (!identity.scopes.hasAll required) .scopeMissing

theorem authorize_ok_iff {p : ScopePolicy} {operation : Operation} {required : List Text}
    {identity : Identity} (h : p.lookup operation = some required) :
    p.authorize operation identity = .ok () ↔ ∀ scope ∈ required, scope ∈ identity.scopes := by
  rw [ScopePolicy.authorize, h, refuse_ok]
  simp [ScopeSet.hasAll]

/-! ## What an identity rests on -/

section Accepted

variable {env : Environment S K} {v : Verifier S} {now : Time} {token : Text} {identity : Identity}

/-- The token is signed as the verifier asks, and this is what it carries. -/
structure Signed (env : Environment S K) (v : Verifier S) (token : Text) (part0 part1 part2 : Text)
    (header : JoseHeader) (hash : Hash) (payload : List UInt8) : Prop where
  parts : token.splitOn '.' = [part0, part1, part2]
  nonblank : trimSpace token ≠ []
  short : (utf8 token).length ≤ maxTokenBytes
  header_eq : ((base64Decode part0).bind unmarshal).bind JoseHeader.ofMembers = some header
  typed : header.typed = true
  algorithm : v.algorithms.lookup header.algorithm = some hash
  payload_eq : base64Decode part1 = some payload
  signature : ∃ key modulus signature, env.verificationKey v.keys header.keyID = .ok key ∧
    env.primitives.rsaModulus key = some modulus ∧ minRSAModulusBits ≤ modulus.size ∧
    base64Decode part2 = some signature ∧
    env.primitives.verifyPKCS1v15 key hash
      (env.primitives.digest hash (utf8 (part0 ++ '.' :: part1))) signature = true

theorem verify_ok_iff :
    verify env v now token = .ok identity ↔
      ∃ part0 part1 part2 header hash payload,
        Signed env v token part0 part1 part2 header hash payload ∧
        identityFromPayload env.wild v now payload = .ok identity := by
  constructor
  · intro h
    unfold verify at h
    split at h
    · cases h
    rename_i hBlank
    split at h
    · cases h
    rename_i hLong
    split at h
    · rename_i part0 part1 part2 hParts
      -- the checks in the order in which they are made
      obtain ⟨headerBytes, hHeaderBytes, h⟩ := peel.mp h
      obtain ⟨header, hHeader, h⟩ := peel.mp h
      obtain ⟨_, hTyped, h⟩ := peel.mp h
      obtain ⟨hash, hHash, h⟩ := peel.mp h
      obtain ⟨payload, hPayload, h⟩ := peel.mp h
      obtain ⟨signature, hSignature, h⟩ := peel.mp h
      obtain ⟨key, hKey, h⟩ := peel.mp h
      obtain ⟨modulus, hModulus, h⟩ := peel.mp h
      obtain ⟨_, hBits, h⟩ := peel.mp h
      obtain ⟨_, hVerified, h⟩ := peel.mp h
      rw [orReject_ok] at hHeaderBytes hHeader hHash hPayload hSignature hModulus
      rw [refuse_ok] at hTyped hBits hVerified
      refine ⟨part0, part1, part2, header, hash, payload, ?_, h⟩
      exact {
        parts := hParts
        nonblank := hBlank
        short := not_lt.mp hLong
        header_eq := by rw [hHeaderBytes]; exact hHeader
        typed := by simpa using hTyped
        algorithm := hHash
        payload_eq := hPayload
        signature := ⟨key, modulus, signature, mapError_ok.mp hKey, hModulus, by simpa using hBits,
          hSignature, by simpa using hVerified⟩ }
    · cases h
  · rintro ⟨part0, part1, part2, header, hash, payload, hSigned, h⟩
    obtain ⟨key, modulus, signature, hKey, hModulus, hBits, hSignature, hVerified⟩ :=
      hSigned.signature
    -- the header was decoded and unmarshalled in two steps
    obtain ⟨ms, hDecoded, hHeader⟩ := Option.bind_eq_some_iff.mp hSigned.header_eq
    obtain ⟨headerBytes, hHeaderBytes, hMembers⟩ := Option.bind_eq_some_iff.mp hDecoded
    rw [verify, if_neg hSigned.nonblank, if_neg (not_lt.mpr hSigned.short), hSigned.parts]
    refine peel.mpr ⟨headerBytes, orReject_ok.mpr hHeaderBytes, ?_⟩
    refine peel.mpr ⟨header, orReject_ok.mpr (by rw [hMembers]; exact hHeader), ?_⟩
    refine peel.mpr ⟨(), refuse_ok.mpr (by simpa using hSigned.typed), ?_⟩
    refine peel.mpr ⟨hash, orReject_ok.mpr hSigned.algorithm, ?_⟩
    refine peel.mpr ⟨payload, orReject_ok.mpr hSigned.payload_eq, ?_⟩
    refine peel.mpr ⟨signature, orReject_ok.mpr hSignature, ?_⟩
    refine peel.mpr ⟨key, mapError_ok.mpr hKey, ?_⟩
    refine peel.mpr ⟨modulus, orReject_ok.mpr hModulus, ?_⟩
    refine peel.mpr ⟨(), refuse_ok.mpr (by simpa using hBits), ?_⟩
    exact peel.mpr ⟨(), refuse_ok.mpr (by simpa using hVerified), h⟩

/-- The claims, as the verifier accepts them. -/
structure Believed (wild : ℚ → Int64) (v : Verifier S) (now : Time) (raw : List (Text × Json))
    (claims : RegisteredClaims) (expiresAt : Time) (merchantID scopeValue : Text) : Prop where
  claims_eq : RegisteredClaims.ofMembers wild raw = some claims
  issuer : claims.issuer = v.issuer
  audience : v.audience ∈ claims.audience
  subject : claims.subject ≠ []
  expires : claims.expiresAt = some expiresAt
  not_expired : now ≤ addDuration expiresAt v.leeway
  started : ∀ notBefore, claims.notBefore = some notBefore → notBefore ≤ addDuration now v.leeway
  merchant_eq : stringClaim raw v.merchantClaim = .ok merchantID
  merchant : merchantID = [] ↔ v.merchant = .merchantForbidden
  scope_eq : stringClaim raw v.scopeClaim = .ok scopeValue

/-- The identity of a token with these claims. -/
def identityOf (claims : RegisteredClaims) (expiresAt : Time) (merchantID scopeValue : Text) :
    Identity where
  subject := claims.subject
  merchantID := merchantID
  clientID := claims.authorizedParty
  scopes := parseScopes scopeValue
  issuer := claims.issuer
  audience := claims.audience
  tokenID := claims.tokenID
  issuedAt := claims.issuedAt.getD 0
  expiresAt := expiresAt

/-- A merchant is missing exactly where it is forbidden. -/
theorem checkMerchant_ok {requirement : MerchantRequirement} {merchantID : Text} {u : Unit} :
    checkMerchant requirement merchantID = .ok u ↔
      (merchantID = [] ↔ requirement = .merchantForbidden) := by
  cases requirement <;> simp [checkMerchant]

/-- The claims are accepted exactly when all of these hold, and give this identity. -/
theorem identityFromPayload_ok_iff {wild : ℚ → Int64} {payload : List UInt8} :
    identityFromPayload wild v now payload = .ok identity ↔
      ∃ raw claims expiresAt merchantID scopeValue, unmarshal payload = some raw ∧
        Believed wild v now raw claims expiresAt merchantID scopeValue ∧
        identity = identityOf claims expiresAt merchantID scopeValue := by
  constructor
  · intro h
    -- again one check after another
    obtain ⟨raw, hRaw, h⟩ := peel.mp h
    obtain ⟨claims, hClaims, h⟩ := peel.mp h
    obtain ⟨_, hIssuer, h⟩ := peel.mp h
    obtain ⟨_, hAudience, h⟩ := peel.mp h
    obtain ⟨_, hSubject, h⟩ := peel.mp h
    obtain ⟨expiresAt, hExpires, h⟩ := peel.mp h
    obtain ⟨_, hExpired, h⟩ := peel.mp h
    obtain ⟨_, hStarted, h⟩ := peel.mp h
    obtain ⟨merchantID, hMerchantID, h⟩ := peel.mp h
    obtain ⟨_, hMerchant, h⟩ := peel.mp h
    obtain ⟨scopeValue, hScope, h⟩ := peel.mp h
    cases h
    rw [orReject_ok] at hRaw hClaims hExpires
    rw [refuse_ok] at hIssuer hAudience hSubject hExpired hStarted
    refine ⟨raw, claims, expiresAt, merchantID, scopeValue, hRaw, ?_, rfl⟩
    exact {
      claims_eq := hClaims
      issuer := by simpa using hIssuer
      audience := by simpa using hAudience
      subject := by simpa using hSubject
      expires := hExpires
      not_expired := by simpa using hExpired
      started := by
        intro notBefore hNotBefore
        simpa [hNotBefore] using hStarted
      merchant_eq := hMerchantID
      merchant := checkMerchant_ok.mp hMerchant
      scope_eq := hScope }
  · rintro ⟨raw, claims, expiresAt, merchantID, scopeValue, hRaw, h, rfl⟩
    refine peel.mpr ⟨raw, orReject_ok.mpr hRaw, ?_⟩
    refine peel.mpr ⟨claims, orReject_ok.mpr h.claims_eq, ?_⟩
    refine peel.mpr ⟨(), refuse_ok.mpr (by simpa using h.issuer), ?_⟩
    refine peel.mpr ⟨(), refuse_ok.mpr (by simpa using h.audience), ?_⟩
    refine peel.mpr ⟨(), refuse_ok.mpr (by simpa using h.subject), ?_⟩
    refine peel.mpr ⟨expiresAt, orReject_ok.mpr h.expires, ?_⟩
    refine peel.mpr ⟨(), refuse_ok.mpr (by simpa using h.not_expired), ?_⟩
    -- a token without `nbf` has no start to wait for
    have hStarted : (claims.notBefore.any fun notBefore =>
        decide (addDuration now v.leeway < notBefore)) = false := by
      cases hNotBefore : claims.notBefore with
      | none => rfl
      | some notBefore => simpa using h.started notBefore hNotBefore
    refine peel.mpr ⟨(), refuse_ok.mpr hStarted, ?_⟩
    refine peel.mpr ⟨merchantID, h.merchant_eq, ?_⟩
    refine peel.mpr ⟨(), checkMerchant_ok.mpr h.merchant, ?_⟩
    exact peel.mpr ⟨scopeValue, h.scope_eq, rfl⟩

end Accepted

end Cashflow.Auth.Token
