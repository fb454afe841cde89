import Mathlib.Data.Nat.Size
import Cashflow.Auth.Verifier
import Cashflow.Lib.JsonRender

/-!
# Auth — tokens as the issuer mints them

`internal/platform/auth/authtest/issuer.go`: `Mint` writes a header and claims as
JSON, in the alphabet for URLs, and signs the two with the key the issuer
publishes. The other side of it is `Verify`.

Main results:

* `minted_token_verifies_iff` — when a minted token is accepted, and the identity
  it then gives: what was asked for, with the times in whole seconds;
* `accepted_token_was_minted` — under unforgeable signatures, every token that is
  accepted carries the claims of one that was minted, whatever else it says.
-/

namespace Cashflow.Auth.Token

open Lib

/-! ## Signing -/

/-- A signature scheme: keys come in pairs, and what was signed is verified. -/
structure SignatureScheme (K P : Type) extends Primitives K where
  publicKey : P → K
  signPKCS1v15 : P → Hash → List UInt8 → Except Text (List UInt8)
  verifies : ∀ {key hash digest signature}, signPKCS1v15 key hash digest = .ok signature →
    verifyPKCS1v15 (publicKey key) hash digest signature = true

/-- The issuer, with the key it publishes and one that it does not. -/
structure Issuer {K P : Type} (scheme : SignatureScheme K P) where
  url : Text
  keyID : Text
  signing : P
  unpublished : P
  /-- What `rsa.GenerateKey` makes. -/
  modulus : ∃ n, scheme.rsaModulus (scheme.publicKey signing) = some n ∧ minRSAModulusBits ≤ n.size

def algorithmHashes : List (Text × Hash) :=
  [("RS256".toList, .sha256), ("RS384".toList, .sha384), ("RS512".toList, .sha512)]

/-! ## Minting -/

/-- An entry of a map. -/
def setClaim (claims : List (Text × Json)) (name : Text) (value : Json) : List (Text × Json) :=
  if claims.any fun m => m.1 = name then
    claims.map fun m => if m.1 = name then (name, value) else m
  else claims ++ [(name, value)]

structure TokenOptions where
  subject : Text := []
  merchantID : Text := []
  audience : Option Json := none
  scopes : List Text := []
  issuer : Text := []
  keyID : Text := []
  algorithm : Text := []
  issuedAt : Time := 0
  expiresAt : Time := 0
  omitExpiry : Bool := false
  forgeSignature : Bool := false
  extraClaims : List (Text × Json) := []

/-- `json.Marshal` of a map, which sorts the names. -/
def marshal (members : List (Text × Json)) : Text :=
  Json.render (.obj (members.insertionSort fun a b => a.1 ≤ b.1))

def encodeSegment (value : List (Text × Json)) : Text := base64Encode (utf8 (marshal value))

/-- `Time.Unix` -/
def unixSeconds (t : Int) : Int := (t / second - unixToInternal).bmod (2 ^ 64)

inductive MintError where
  /-- "authtest: unsupported algorithm " and the name -/
  | unsupportedAlgorithm (name : Text)
  | sign (cause : Text)
deriving DecidableEq, Repr

section Mint

variable {K P : Type} {scheme : SignatureScheme K P} (i : Issuer scheme) (now : Time)
  (o : TokenOptions)

namespace TokenOptions

/-! The zero values fall back to a valid token. -/

def algorithmName : Text := if o.algorithm = [] then "RS256".toList else o.algorithm
def subjectName : Text := if o.subject = [] then "test-subject".toList else o.subject
def issuance : Time := if o.issuedAt = 0 then now else o.issuedAt
def expiry : Time :=
  if o.expiresAt = 0 then addDuration (o.issuance now) (5 * 60 * second) else o.expiresAt

end TokenOptions

def Issuer.keyName : Text := if o.keyID = [] then i.keyID else o.keyID
def Issuer.issuerName : Text := if o.issuer = [] then i.url else o.issuer

def Issuer.header : List (Text × Json) :=
  let header := [("alg".toList, Json.str o.algorithmName), ("typ".toList, .str "JWT".toList)]
  if o.algorithmName ≠ "none".toList then setClaim header "kid".toList (.str (i.keyName o))
  else header

def Issuer.claims : List (Text × Json) :=
  let claims := [
    ("iss".toList, Json.str (i.issuerName o)),
    ("sub".toList, .str o.subjectName),
    ("iat".toList, .num (Json.intLiteral (unixSeconds (o.issuance now)))),
    ("jti".toList, .str ("test-".toList ++ o.subjectName))]
  -- what is left empty is left out
  let claims := if o.omitExpiry then claims
    else setClaim claims "exp".toList (.num (Json.intLiteral (unixSeconds (o.expiry now))))
  let claims := match o.audience with
    | none => claims
    | some audience => setClaim claims "aud".toList audience
  let claims := if o.merchantID = [] then claims
    else setClaim claims "merchant_id".toList (.str o.merchantID)
  let claims := if o.scopes = [] then claims
    else setClaim claims "scope".toList (.str (" ".toList.intercalate o.scopes))
  -- and an extra claim replaces the claim of its name
  o.extraClaims.foldl (fun claims m => setClaim claims m.1 m.2) claims

def Issuer.signingInput : Text :=
  encodeSegment (i.header o) ++ '.' :: encodeSegment (i.claims now o)

def Issuer.mint : Except MintError Text :=
  let hash := algorithmHashes.lookup o.algorithmName
  if hash = none ∧ o.algorithmName ≠ "none".toList then
    .error (.unsupportedAlgorithm o.algorithmName)
  else
    match hash with
    -- `none` leaves the signature empty
    | none => .ok (i.signingInput now o ++ ".".toList)
    | some hash => do
      -- a forged token is signed with a key that is not published
      let key := if o.forgeSignature then i.unpublished else i.signing
      let digest := scheme.digest hash (utf8 (i.signingInput now o))
      let signature ← (scheme.signPKCS1v15 key hash digest).mapError .sign
      .ok (i.signingInput now o ++ '.' :: base64Encode signature)

/-- `Keys`, and `VerificationKey` of it: the published key alone. -/
def Issuer.verificationKey (keyID : Text) : Except KeyError K :=
  if keyID = i.keyID then .ok (scheme.publicKey i.signing) else .error (.unknown keyID)

end Mint

/-! ## Reading what was written -/

/-- The numbers of an object are those of its members. -/
theorem numerals_obj {ms : List (Text × Json)} (h : ∀ m ∈ ms, Json.Numerals m.2) :
    Json.Numerals (.obj ms) := by
  intro literal hWithin
  cases hWithin with
  | member hm hWithin => exact h _ hm literal hWithin

/-- A string has none. -/
theorem numerals_str (s : Text) : Json.Numerals (.str s) := by
  rintro literal ⟨⟩

/-- An integer is written as a number of the grammar. -/
theorem numerals_int (n : Int) : Json.Numerals (.num (Json.intLiteral n)) := by
  rintro literal ⟨⟩
  exact Json.numeral_intLiteral n

/-- The members come back, sorted. -/
theorem unmarshal_marshal {ms : List (Text × Json)} (h : ∀ m ∈ ms, Json.Numerals m.2) :
    ∃ ms', unmarshal (utf8 (marshal ms)) = some ms' ∧ ms'.Perm ms := by
  have hPerm := List.perm_insertionSort (fun a b : Text × Json => a.1 ≤ b.1) ms
  have hParse := Json.parse_render (numerals_obj fun m hm => h m (hPerm.mem_iff.mp hm))
  refine ⟨_, ?_, hPerm⟩
  rw [unmarshal, runes_utf8, marshal, hParse]

/-- What `encodeSegment` wrote is read back, with the members in the order of `marshal` -/
theorem decode_encodeSegment {ms : List (Text × Json)} (h : ∀ m ∈ ms, Json.Numerals m.2) :
    ∃ ms', (base64Decode (encodeSegment ms)).bind unmarshal = some ms' ∧ ms'.Perm ms := by
  rw [encodeSegment, base64Decode_encode]
  exact unmarshal_marshal h

/-- A claim that is there once, wherever it stands. -/
theorem stringClaim_of_field {ms : List (Text × Json)} {name : Text} {v : Json}
    (h : Json.field name ms = [v]) (hMem : (name, v) ∈ ms) :
    stringClaim ms name = orReject .tokenMalformed (Json.decodeText [] v) := by
  have hFold := List.map_eq_singleton_iff.mp h
  obtain ⟨m, hFilter, rfl⟩ := hFold
  have hName : m = (name, m.2) := by
    have hIn : (name, m.2) ∈ ms.filter fun m => m.1.map Json.foldChar = name.map Json.foldChar :=
      List.mem_filter.mpr ⟨hMem, by simp⟩
    rw [hFilter, List.mem_singleton] at hIn
    exact hIn.symm
  -- the claims of this very name are among those of the name in any letters
  have hExact : ms.filter (fun m => decide (m.1 = name)) = [m] := by
    have hSub : ms.filter (fun m => decide (m.1 = name)) =
        (ms.filter fun m => decide (m.1.map Json.foldChar = name.map Json.foldChar)).filter
          fun m => decide (m.1 = name) := by
      rw [List.filter_filter]
      -- the exact name also matches in any letters
      refine List.filter_congr fun m _ => ?_
      by_cases hEq : m.1 = name <;> simp [hEq]
    rw [hSub, hFilter, hName]
    simp
  rw [stringClaim, hExact]
  rfl

/-- A claim that is not there is the empty text. -/
theorem stringClaim_of_absent {ms : List (Text × Json)} {name : Text}
    (h : Json.field name ms = []) : stringClaim ms name = .ok [] := by
  have hFilter := List.map_eq_nil_iff.mp h
  have hExact : ms.filter (fun m => decide (m.1 = name)) = [] := by
    refine List.filter_eq_nil_iff.mpr fun m hm hName => ?_
    exact List.filter_eq_nil_iff.mp hFilter m hm (by simp [of_decide_eq_true hName])
  rw [stringClaim, hExact]
  rfl

/-! ## Times -/

/-- A time whose seconds a float holds exactly. -/
def InRange (t : Int) : Prop := |t / second - unixToInternal| ≤ 2 ^ 53

instance (t : Int) : Decidable (InRange t) :=
  inferInstanceAs (Decidable (|t / second - unixToInternal| ≤ 2 ^ 53))

/-- The time without its fraction of a second. -/
def wholeSeconds (t : Int) : Int := t / second * second

/-- In range, the Unix time does not wrap. -/
theorem InRange.unixSeconds {t : Int} (h : InRange t) :
    unixSeconds t = t / second - unixToInternal := by
  have hBounds := abs_le.mp h
  exact Int.bmod_eq_of_le (by omega) (by omega)

/-- A moment in range written as Unix seconds is read back to the second. -/
theorem numericDate_unixSeconds (wild : ℚ → Int64) {t : Int} (h : InRange t) :
    numericDate wild (unixSeconds t : ℚ) = wholeSeconds t := by
  rw [h.unixSeconds]
  unfold InRange at h
  unfold wholeSeconds
  generalize hn : t / second - unixToInternal = n at h
  -- a time in range is far within 64 bits
  have hBounds := abs_le.mp h
  have hWhole : (Binary64.toInt64 wild (n : ℚ)).toInt = n := by
    have hTrunc := Binary64.truncate_intCast n
    rw [Binary64.toInt64_toInt wild (by omega) (by omega), hTrunc]
  have hZero : (Binary64.toInt64 wild 0).toInt = 0 := by
    have hTrunc := Binary64.truncate_intCast 0
    rw [Int.cast_zero] at hTrunc
    rw [Binary64.toInt64_toInt wild (by omega) (by omega), hTrunc]
  -- whole seconds have no fraction to round
  simp only [numericDate, Binary64.truncate_intCast, sub_self, zero_mul, Binary64.round_zero, unix,
    hWhole, hZero, Int.zero_ediv, Int.zero_emod, add_zero]
  have hUnix : unixToInternal = 62135596800 := rfl
  rw [Int.bmod_eq_of_le (by omega) (by omega)]
  congr 1
  omega

/-! ## Scopes -/

/-- The fields of two texts with a space between them. -/
theorem fields_cons (scope : Text) (rest : Text) :
    fields (scope ++ ' ' :: rest) = fields scope ++ fields rest := by
  rw [fields, List.splitOnP_append_cons _ _ (by decide), List.filter_append]
  rfl

/-- The scopes of a list that is joined by spaces are those of its elements. -/
theorem fields_intercalate (scopes : List Text) :
    fields (" ".toList.intercalate scopes) = scopes.flatMap fields := by
  induction scopes with
  | nil => rfl
  | cons scope scopes ih =>
    cases scopes with
    | nil => simp
    | cons next rest =>
      have hJoin : " ".toList.intercalate (scope :: next :: rest) =
          scope ++ ' ' :: " ".toList.intercalate (next :: rest) := by
        simp [List.intercalate]
      rw [hJoin, fields_cons, ih]
      rfl

/-! ## The claims of a token -/

/-- Options that the claims are read off: none is overridden, and the times are such as a float
holds. -/
structure TokenOptions.Plain (minted : Time) (o : TokenOptions) : Prop where
  noExtra : o.extraClaims = []
  audience : ∀ a, o.audience = some a → Json.Numerals a
  issuance : InRange (o.issuance minted)
  expiry : InRange (o.expiry minted)

section Claims

variable {K P : Type} {scheme : SignatureScheme K P} {i : Issuer scheme} {minted : Time}
  {o : TokenOptions}

/-- No name is set twice. -/
theorem claims_eq (h : o.extraClaims = []) :
    i.claims minted o =
      [("iss".toList, Json.str (i.issuerName o)), ("sub".toList, .str o.subjectName),
        ("iat".toList, .num (Json.intLiteral (unixSeconds (o.issuance minted)))),
        ("jti".toList, .str ("test-".toList ++ o.subjectName))] ++
      (if o.omitExpiry then []
        else [("exp".toList, .num (Json.intLiteral (unixSeconds (o.expiry minted))))]) ++
      (o.audience.toList.map fun a => ("aud".toList, a)) ++
      (if o.merchantID = [] then [] else [("merchant_id".toList, .str o.merchantID)]) ++
      (if o.scopes = [] then []
        else [("scope".toList, .str (" ".toList.intercalate o.scopes))]) := by
  simp only [Issuer.claims, h, List.foldl_nil]
  cases o.omitExpiry <;> cases o.audience <;> by_cases hMerchant : o.merchantID = [] <;>
    by_cases hScopes : o.scopes = [] <;> simp only [hMerchant, hScopes] <;> rfl

/-- Every number among the claims is an integer, the audience's own apart. -/
theorem claims_numerals (h : o.Plain minted) : ∀ m ∈ i.claims minted o, Json.Numerals m.2 := by
  intro m hm
  rw [claims_eq h.noExtra] at hm
  simp only [List.mem_append, List.mem_cons, List.mem_map, Option.mem_toList] at hm
  rcases hm with (((hm | hm) | ⟨a, ha, rfl⟩) | hm) | hm
  · -- iss, sub, iat and jti
    rcases hm with rfl | rfl | rfl | rfl | hm
    · exact numerals_str _
    · exact numerals_str _
    · exact numerals_int _
    · exact numerals_str _
    · cases hm
  · -- exp
    split at hm
    · cases hm
    · rw [List.mem_singleton.mp hm]
      exact numerals_int _
  · exact h.audience a ha
  · -- merchant_id
    split at hm
    · cases hm
    · rw [List.mem_singleton.mp hm]
      exact numerals_str _
  · -- scope
    split at hm
    · cases hm
    · rw [List.mem_singleton.mp hm]
      exact numerals_str _

/-- The value of each claim that the verifier looks for. -/
theorem claims_fields (h : o.extraClaims = []) :
    Json.field "iss".toList (i.claims minted o) = [.str (i.issuerName o)] ∧
    Json.field "sub".toList (i.claims minted o) = [.str o.subjectName] ∧
    Json.field "aud".toList (i.claims minted o) = o.audience.toList ∧
    Json.field "exp".toList (i.claims minted o) = (if o.omitExpiry then []
      else [.num (Json.intLiteral (unixSeconds (o.expiry minted)))]) ∧
    Json.field "nbf".toList (i.claims minted o) = [] ∧
    Json.field "iat".toList (i.claims minted o) =
      [.num (Json.intLiteral (unixSeconds (o.issuance minted)))] ∧
    Json.field "jti".toList (i.claims minted o) = [.str ("test-".toList ++ o.subjectName)] ∧
    Json.field "azp".toList (i.claims minted o) = [] ∧
    Json.field "merchant_id".toList (i.claims minted o) =
      (if o.merchantID = [] then [] else [.str o.merchantID]) ∧
    Json.field "scope".toList (i.claims minted o) =
      (if o.scopes = [] then [] else [.str (" ".toList.intercalate o.scopes)]) := by
  rw [claims_eq h]
  cases o.omitExpiry <;> cases o.audience <;> by_cases hMerchant : o.merchantID = [] <;>
    by_cases hScopes : o.scopes = [] <;> simp only [hMerchant, hScopes] <;>
    exact ⟨rfl, rfl, rfl, rfl, rfl, rfl, rfl, rfl, rfl, rfl⟩

/-- The audience as it is read back. -/
def TokenOptions.audienceList (o : TokenOptions) : Option (List Text) :=
  match o.audience with
  | none => some []
  | some a => decodeAudience a

/-- The claims as they are read back. -/
def Issuer.registeredClaims (i : Issuer scheme) (minted : Time) (o : TokenOptions)
    (audience : List Text) : RegisteredClaims where
  issuer := i.issuerName o
  subject := o.subjectName
  audience := audience
  expiresAt := if o.omitExpiry then none else some (wholeSeconds (o.expiry minted))
  notBefore := none
  issuedAt := some (wholeSeconds (o.issuance minted))
  tokenID := "test-".toList ++ o.subjectName
  authorizedParty := []

section Raw

variable {raw : List (Text × Json)}

/-- The same through `numericDate.UnmarshalJSON` -/
theorem decodeDate_seconds (wild : ℚ → Int64) {t : Int} (h : InRange t) :
    decodeDate wild (.num (Json.intLiteral (unixSeconds t))) = some (some (wholeSeconds t)) := by
  have hSmall : |unixSeconds t| ≤ 2 ^ 53 := by
    rw [h.unixSeconds]
    exact h
  rw [decodeDate, Json.parseFloat64_intLiteral hSmall, Option.map_some,
    numericDate_unixSeconds wild h]

/-- The registered claims are read as they were asked for, if the audience can be read at all. -/
theorem ofMembers_minted (wild : ℚ → Int64) (h : o.Plain minted)
    (hPerm : raw.Perm (i.claims minted o)) :
    RegisteredClaims.ofMembers wild raw =
      o.audienceList.map fun audience => i.registeredClaims minted o audience := by
  obtain ⟨hIss, hSub, hAud, hExp, hNbf, hIat, hJti, hAzp, -, -⟩ := @claims_fields _ _ _ i minted o h.noExtra
  have hIssued := decodeDate_seconds wild h.issuance
  have hExpires := decodeDate_seconds wild h.expiry
  -- each name is there once at most, so the order does not matter
  have hField : ∀ {name values}, Json.field name (i.claims minted o) = values →
      values.length ≤ 1 → Json.field name raw = values :=
    fun hEq hLength => (Json.field_eq_of_perm hPerm (hEq ▸ hLength)).trans hEq
  have hIss' := hField hIss (le_refl 1)
  have hSub' := hField hSub (le_refl 1)
  have hAud' := hField hAud (by cases o.audience <;> simp)
  have hExp' := hField hExp (by cases o.omitExpiry <;> simp)
  have hNbf' := hField hNbf (Nat.zero_le 1)
  have hIat' := hField hIat (le_refl 1)
  have hJti' := hField hJti (le_refl 1)
  have hAzp' := hField hAzp (Nat.zero_le 1)
  simp only [RegisteredClaims.ofMembers, textField, audienceField, dateField, hIss', hSub', hAud',
    hExp', hNbf', hIat', hJti', hAzp', TokenOptions.audienceList, Issuer.registeredClaims,
    List.foldlM_cons, List.foldlM_nil, Json.decodeText, hIssued]
  cases o.audience with
  | none => cases o.omitExpiry <;> simp [hExpires]
  | some a =>
    cases hList : decodeAudience a with
    | none => simp [hList]
    | some audience => cases o.omitExpiry <;> simp [hList, hExpires]

/-- A text claim that is left out when it is empty. -/
theorem stringClaim_minted {name value : Text} {absent : Prop} [Decidable absent]
    (hEmpty : absent → value = []) (hPerm : raw.Perm (i.claims minted o))
    (hField : Json.field name (i.claims minted o) = if absent then [] else [.str value])
    (hMem : ¬ absent → (name, Json.str value) ∈ i.claims minted o) :
    stringClaim raw name = .ok value := by
  have hRaw := @Json.field_eq_of_perm name _ _ hPerm (by rw [hField]; split <;> simp)
  rw [hField] at hRaw
  by_cases hAbsent : absent
  · rw [if_pos hAbsent] at hRaw
    rw [stringClaim_of_absent hRaw, hEmpty hAbsent]
  · rw [if_neg hAbsent] at hRaw
    rw [stringClaim_of_field hRaw (hPerm.mem_iff.mpr (hMem hAbsent))]
    rfl

/-- The merchant claim is read as it was asked for. -/
theorem merchantClaim_minted (h : o.extraClaims = []) (hPerm : raw.Perm (i.claims minted o)) :
    stringClaim raw "merchant_id".toList = .ok o.merchantID := by
  obtain ⟨-, -, -, -, -, -, -, -, hMerchant, -⟩ := @claims_fields _ _ _ i minted o h
  refine stringClaim_minted id hPerm hMerchant fun hPresent => ?_
  rw [claims_eq h, if_neg hPresent]
  simp only [List.mem_append, List.mem_singleton, true_or, or_true]

/-- The scope claim is the scopes with spaces between them. -/
theorem scopeClaim_minted (h : o.extraClaims = []) (hPerm : raw.Perm (i.claims minted o)) :
    stringClaim raw "scope".toList = .ok (" ".toList.intercalate o.scopes) := by
  obtain ⟨-, -, -, -, -, -, -, -, -, hScope⟩ := @claims_fields _ _ _ i minted o h
  refine stringClaim_minted (fun hNone => by rw [hNone]; rfl) hPerm hScope fun hPresent => ?_
  rw [claims_eq h, if_neg hPresent]
  simp only [List.mem_append, List.mem_singleton, or_true]

end Raw

/-! ## Minting and verifying -/

/-- What a verifier asks of the claims, in terms of what was asked of the issuer. -/
structure Issuer.Acceptable {S : Type} (i : Issuer scheme) (v : Verifier S) (minted now : Time)
    (o : TokenOptions) : Prop where
  issuer : i.issuerName o = v.issuer
  audience : ∃ names, o.audienceList = some names ∧ v.audience ∈ names
  expires : o.omitExpiry = false
  current : now ≤ addDuration (wholeSeconds (o.expiry minted)) v.leeway
  merchant : o.merchantID = [] ↔ v.merchant = .merchantForbidden

/-- The identity that was asked for. -/
def Issuer.mintedIdentity (i : Issuer scheme) (minted : Time) (o : TokenOptions) : Identity where
  subject := o.subjectName
  merchantID := o.merchantID
  clientID := []
  scopes := (o.scopes.flatMap fields).toFinset
  issuer := i.issuerName o
  audience := o.audienceList.getD []
  tokenID := "test-".toList ++ o.subjectName
  issuedAt := wholeSeconds (o.issuance minted)
  expiresAt := wholeSeconds (o.expiry minted)

/-- A token always names a subject: `Mint` has a default. -/
theorem subjectName_ne_nil (o : TokenOptions) : o.subjectName ≠ [] := by
  unfold TokenOptions.subjectName
  split
  · decide
  · assumption

/-- The identity read off the minted claims is the one asked for. -/
theorem identityOf_minted {names : List Text} (hNames : o.audienceList = some names) :
    identityOf (i.registeredClaims minted o names) (wholeSeconds (o.expiry minted)) o.merchantID
      (" ".toList.intercalate o.scopes) = i.mintedIdentity minted o := by
  simp only [identityOf, Issuer.mintedIdentity, Issuer.registeredClaims, parseScopes,
    fields_intercalate, hNames, Option.getD_some]

/-- The claims are believed if they are acceptable, and say what was asked for. -/
theorem identityFromPayload_minted {S : Type} (wild : ℚ → Int64) {v : Verifier S} {now : Time}
    (hMerchantClaim : v.merchantClaim = "merchant_id".toList)
    (hScopeClaim : v.scopeClaim = "scope".toList) (h : o.Plain minted) {identity : Identity} :
    identityFromPayload wild v now (utf8 (marshal (i.claims minted o))) = .ok identity ↔
      i.Acceptable v minted now o ∧ identity = i.mintedIdentity minted o := by
  obtain ⟨raw, hRaw, hPerm⟩ := unmarshal_marshal (claims_numerals (i := i) h)
  have hMembers := ofMembers_minted wild h hPerm
  have hMerchant := merchantClaim_minted h.noExtra hPerm
  have hScope := scopeClaim_minted h.noExtra hPerm
  rw [identityFromPayload_ok_iff]
  constructor
  · rintro ⟨raw', claims, expiresAt, merchantID, scopeValue, hRaw', hBelieved, rfl⟩
    rw [hRaw, Option.some.injEq] at hRaw'
    subst hRaw'
    have hClaims := hBelieved.claims_eq
    rw [hMembers, Option.map_eq_some_iff] at hClaims
    obtain ⟨names, hNames, rfl⟩ := hClaims
    -- the two text claims are what was written
    have hMerchantID := hBelieved.merchant_eq
    rw [hMerchantClaim, hMerchant, Except.ok.injEq] at hMerchantID
    have hScopeValue := hBelieved.scope_eq
    rw [hScopeClaim, hScope, Except.ok.injEq] at hScopeValue
    subst hMerchantID hScopeValue
    have hExpires : (if o.omitExpiry then none else some (wholeSeconds (o.expiry minted))) =
        some expiresAt := hBelieved.expires
    -- the verifier wants an expiry
    cases hOmit : o.omitExpiry with
    | true =>
      rw [hOmit] at hExpires
      cases hExpires
    | false =>
      rw [hOmit] at hExpires
      cases hExpires
      exact ⟨⟨hBelieved.issuer, ⟨names, hNames, hBelieved.audience⟩, hOmit, hBelieved.not_expired,
        hBelieved.merchant⟩, identityOf_minted hNames⟩
  · rintro ⟨hOk, rfl⟩
    obtain ⟨names, hNames, hAudience⟩ := hOk.audience
    refine ⟨raw, i.registeredClaims minted o names, wholeSeconds (o.expiry minted), o.merchantID,
      " ".toList.intercalate o.scopes, hRaw, ?_, (identityOf_minted hNames).symm⟩
    exact {
      claims_eq := by rw [hMembers, hNames, Option.map_some]
      issuer := hOk.issuer
      audience := hAudience
      subject := subjectName_ne_nil o
      expires := by rw [Issuer.registeredClaims, hOk.expires]; rfl
      not_expired := hOk.current
      started := nofun
      merchant_eq := by rw [hMerchantClaim, hMerchant]
      merchant := hOk.merchant
      scope_eq := by rw [hScopeClaim, hScope] }

/-- The surroundings of a verifier that reads its keys from `keys`. -/
def SignatureScheme.environment {S : Type} (scheme : SignatureScheme K P)
    (keys : S → Text → Except KeyError K) (wild : ℚ → Int64) : Environment S K where
  primitives := scheme.toPrimitives
  verificationKey := keys
  wild := wild

/-- The algorithms of a verifier are supported ones. -/
theorem lookup_allowed {names : List Text} {algorithms : List (Text × Hash)}
    (h : allowAlgorithms names = .ok algorithms) {name : Text} {hash : Hash}
    (hLookup : algorithms.lookup name = some hash) :
    supportedAlgorithms.lookup name = some hash := by
  -- induction on the configured names; `lookup` finds the first entry of the name
  induction names generalizing algorithms with
  | nil =>
    cases h
    cases hLookup
  | cons first names ih =>
    rw [allowAlgorithms, List.mapM_cons] at h
    obtain ⟨entry, hEntry, h⟩ := peel.mp h
    obtain ⟨rest, hRest, h⟩ := peel.mp h
    cases h
    cases hFound : supportedAlgorithms.lookup first with
    | none =>
      rw [hFound] at hEntry
      cases hEntry
    | some found =>
      rw [hFound] at hEntry
      cases hEntry
      by_cases hName : name = first
      · subst hName
        rw [List.lookup_cons_self, Option.some.injEq] at hLookup
        rw [hFound, hLookup]
      · rw [List.lookup_cons, beq_eq_false_iff_ne.mpr hName] at hLookup
        exact ih hRest hLookup

/-- What a verifier takes over from its configuration: supported algorithms, and the claim names or
their defaults. -/
theorem newVerifier_ok {S : Type} {config : VerifierConfig S} {v : Verifier S}
    (h : newVerifier config = .ok v) :
    (∃ names, allowAlgorithms names = .ok v.algorithms) ∧
      (config.merchantClaim = [] → v.merchantClaim = "merchant_id".toList) ∧
      (config.scopeClaim = [] → v.scopeClaim = "scope".toList) := by
  unfold newVerifier at h
  split at h
  · cases h
  split at h
  · cases h
  split at h
  · cases h
  · obtain ⟨algorithms, hAlgorithms, h⟩ := peel.mp h
    cases h
    exact ⟨⟨_, hAlgorithms⟩, fun hEmpty => if_pos hEmpty, fun hEmpty => if_pos hEmpty⟩

/-- The header as it is read back; only a token that is signed names its key. -/
def Issuer.joseHeader (i : Issuer scheme) (o : TokenOptions) : JoseHeader where
  algorithm := o.algorithmName
  keyID := if o.algorithmName = "none".toList then [] else i.keyName o
  type := "JWT".toList

/-- The header by its members: an unsigned token names no key. -/
theorem header_eq (i : Issuer scheme) (o : TokenOptions) :
    i.header o =
      [("alg".toList, Json.str o.algorithmName), ("typ".toList, .str "JWT".toList)] ++
      (if o.algorithmName = "none".toList then [] else [("kid".toList, .str (i.keyName o))]) := by
  simp only [Issuer.header, ne_eq, ite_not]
  split <;> rfl

/-- The header is read as it was minted. -/
theorem header_minted (i : Issuer scheme) (o : TokenOptions) :
    ((base64Decode (encodeSegment (i.header o))).bind unmarshal).bind JoseHeader.ofMembers =
      some (i.joseHeader o) := by
  have hNumerals : ∀ m ∈ i.header o, Json.Numerals m.2 := by
    intro m hm
    rw [header_eq] at hm
    simp only [List.mem_append, List.mem_cons, List.not_mem_nil, or_false] at hm
    rcases hm with (rfl | rfl) | hm
    · exact numerals_str _
    · exact numerals_str _
    · split at hm
      · cases hm
      · rw [List.mem_singleton.mp hm]
        exact numerals_str _
  obtain ⟨ms, hRead, hPerm⟩ := decode_encodeSegment hNumerals
  -- as for the claims: each name is there once at most
  have hField : ∀ {name values}, Json.field name (i.header o) = values → values.length ≤ 1 →
      Json.field name ms = values :=
    fun hEq hLength => (Json.field_eq_of_perm hPerm (hEq ▸ hLength)).trans hEq
  have hAlg : Json.field "alg".toList ms = [.str o.algorithmName] :=
    hField (by rw [header_eq]; split <;> rfl) (le_refl 1)
  have hTyp : Json.field "typ".toList ms = [.str "JWT".toList] :=
    hField (by rw [header_eq]; split <;> rfl) (le_refl 1)
  have hKid : Json.field "kid".toList ms =
      if o.algorithmName = "none".toList then [] else [.str (i.keyName o)] :=
    hField (by rw [header_eq]; split <;> rfl) (by split <;> simp)
  rw [hRead, Option.bind_some]
  simp only [JoseHeader.ofMembers, textField, hAlg, hKid, hTyp, Issuer.joseHeader]
  split <;> rfl

/-- The alphabet of a segment has no dot. -/
theorem encodeSegment_no_dot (ms : List (Text × Json)) : '.' ∉ encodeSegment ms :=
  base64Encode_no_dot _

/-- A text with a character that is no white space is not blank. -/
theorem trimSpace_ne_nil {t : Text} {c : Char} (hMem : c ∈ t) (hc : Outbox.isSpace c = false) :
    trimSpace t ≠ [] := by
  intro hNil
  rw [trimSpace, List.rdropWhile_eq_nil_iff] at hNil
  have hDrop : t.dropWhile Outbox.isSpace ≠ [] := by
    intro hEmpty
    have hAll := List.dropWhile_eq_nil_iff.mp hEmpty c hMem
    rw [hc] at hAll
    cases hAll
  have hHead := List.head_dropWhile_not Outbox.isSpace hDrop
  rw [hNil _ (List.head_mem hDrop)] at hHead
  cases hHead

/-- The segments of a token. -/
theorem splitOn_token {part2 : Text} (h : '.' ∉ part2) :
    (i.signingInput minted o ++ '.' :: part2).splitOn '.' =
      [encodeSegment (i.header o), encodeSegment (i.claims minted o), part2] := by
  have hParts : ∀ l ∈ [encodeSegment (i.header o), encodeSegment (i.claims minted o), part2],
      '.' ∉ l := by
    intro l hl
    simp only [List.mem_cons, List.not_mem_nil, or_false] at hl
    rcases hl with rfl | rfl | rfl
    · exact encodeSegment_no_dot _
    · exact encodeSegment_no_dot _
    · exact h
  have hSplit := List.splitOn_intercalate '.' hParts (List.cons_ne_nil _ _)
  simpa [List.intercalate, Issuer.signingInput] using hSplit

end Claims

/-! ### The token of an issuer -/

section Round

variable {K P : Type} {scheme : SignatureScheme K P}

/-- What `Mint` returns. -/
theorem mint_ok {i : Issuer scheme} {minted : Time} {o : TokenOptions} {token : Text}
    (h : i.mint minted o = .ok token) :
    ∃ part2, '.' ∉ part2 ∧ token = i.signingInput minted o ++ '.' :: part2 ∧
      (o.algorithmName ≠ "none".toList → ∃ hash signature,
        algorithmHashes.lookup o.algorithmName = some hash ∧
        scheme.signPKCS1v15 (if o.forgeSignature then i.unpublished else i.signing) hash
          (scheme.digest hash (utf8 (i.signingInput minted o))) = .ok signature ∧
        part2 = base64Encode signature) := by
  unfold Issuer.mint at h
  cases hHash : algorithmHashes.lookup o.algorithmName with
  | none =>
    -- only `none` goes unsigned
    simp only [hHash, true_and] at h
    split at h
    · cases h
    · rename_i hNone
      cases h
      exact ⟨[], List.not_mem_nil, rfl, fun hSigned => absurd hSigned hNone⟩
  | some hash =>
    simp only [hHash, reduceCtorEq, false_and, if_false] at h
    obtain ⟨signature, hSignature, h⟩ := peel.mp h
    cases h
    exact ⟨base64Encode signature, base64Encode_no_dot _, rfl, fun _ =>
      ⟨hash, signature, rfl, mapError_ok.mp hSignature, rfl⟩⟩

/-- An algorithm that a verifier allows is one of those that sign. -/
theorem allowed_signs {S : Type} {config : VerifierConfig S} {v : Verifier S}
    (hVerifier : newVerifier config = .ok v) {name : Text} {hash : Hash}
    (h : v.algorithms.lookup name = some hash) :
    algorithmHashes.lookup name = some hash ∧ name ≠ "none".toList := by
  obtain ⟨⟨names, hNames⟩, -, -⟩ := newVerifier_ok hVerifier
  have hSupported := lookup_allowed hNames h
  refine ⟨hSupported, ?_⟩
  rintro rfl
  cases hSupported

section Minted

variable {S : Type} {i : Issuer scheme} {wild : ℚ → Int64} {config : VerifierConfig S}
  {v : Verifier S} {minted now : Time} {o : TokenOptions} {token : Text}

/-- Only an acceptable token is verified, whoever signed it. -/
theorem acceptable_of_verify (hVerifier : newVerifier config = .ok v)
    (hMerchantClaim : config.merchantClaim = []) (hScopeClaim : config.scopeClaim = [])
    (hPlain : o.Plain minted) (hMint : i.mint minted o = .ok token) {identity : Identity}
    (h : verify (scheme.environment (fun _ => i.verificationKey) wild) v now token = .ok identity) :
    (utf8 token).length ≤ maxTokenBytes ∧ (v.algorithms.lookup o.algorithmName).isSome ∧
      i.keyName o = i.keyID ∧ i.Acceptable v minted now o ∧
      identity = i.mintedIdentity minted o := by
  obtain ⟨-, hMerchantName, hScopeName⟩ := newVerifier_ok hVerifier
  obtain ⟨part2, hDot, rfl, -⟩ := mint_ok hMint
  obtain ⟨part0, part1, part2', header, hash, payload, hSigned, hIdentity⟩ := verify_ok_iff.mp h
  -- the three parts are those that were joined, so header and payload are those minted
  have hParts := hSigned.parts
  rw [splitOn_token hDot] at hParts
  cases hParts
  have hHeader := hSigned.header_eq
  rw [header_minted, Option.some.injEq] at hHeader
  subst hHeader
  have hPayload := hSigned.payload_eq
  rw [encodeSegment, base64Decode_encode, Option.some.injEq] at hPayload
  subst hPayload
  have hAlgorithm : v.algorithms.lookup o.algorithmName = some hash := hSigned.algorithm
  obtain ⟨key, -, -, hKey, -⟩ := hSigned.signature
  refine ⟨hSigned.short, by rw [hAlgorithm]; rfl, ?_, ?_⟩
  · -- the source knows the published key only
    have hName : (i.joseHeader o).keyID = i.keyName o :=
      if_neg (allowed_signs hVerifier hAlgorithm).2
    have hFound : i.verificationKey (i.keyName o) = .ok key := by
      rw [← hName]
      exact hKey
    by_contra hOther
    rw [Issuer.verificationKey, if_neg hOther] at hFound
    cases hFound
  · exact (identityFromPayload_minted wild (hMerchantName hMerchantClaim)
      (hScopeName hScopeClaim) hPlain).mp hIdentity

/-- An acceptable token that is signed with the published key is verified. -/
theorem verify_of_acceptable (hVerifier : newVerifier config = .ok v)
    (hMerchantClaim : config.merchantClaim = []) (hScopeClaim : config.scopeClaim = [])
    (hPlain : o.Plain minted) (hGenuine : o.forgeSignature = false)
    (hMint : i.mint minted o = .ok token) (hShort : (utf8 token).length ≤ maxTokenBytes)
    (hAllowed : (v.algorithms.lookup o.algorithmName).isSome) (hKeyID : i.keyName o = i.keyID)
    (hOk : i.Acceptable v minted now o) :
    verify (scheme.environment (fun _ => i.verificationKey) wild) v now token =
      .ok (i.mintedIdentity minted o) := by
  obtain ⟨-, hMerchantName, hScopeName⟩ := newVerifier_ok hVerifier
  obtain ⟨part2, hDot, rfl, hSignature⟩ := mint_ok hMint
  obtain ⟨hash, hAlgorithm⟩ := Option.isSome_iff_exists.mp hAllowed
  obtain ⟨hSigns, hNotNone⟩ := allowed_signs hVerifier hAlgorithm
  obtain ⟨hash', signature, hHash', hSign, rfl⟩ := hSignature hNotNone
  -- the hash of the verifier is that of the signer
  obtain rfl : hash = hash' := Option.some.inj (hSigns.symm.trans hHash')
  rw [hGenuine] at hSign
  obtain ⟨modulus, hModulus, hBits⟩ := i.modulus
  have hName : (i.joseHeader o).keyID = i.keyID := (if_neg hNotNone).trans hKeyID
  have hSigned : Signed (scheme.environment (fun _ => i.verificationKey) wild) v
      (i.signingInput minted o ++ '.' :: base64Encode signature) (encodeSegment (i.header o))
      (encodeSegment (i.claims minted o)) (base64Encode signature) (i.joseHeader o) hash
      (utf8 (marshal (i.claims minted o))) := {
    parts := splitOn_token hDot
    nonblank := trimSpace_ne_nil (c := '.') (by simp) (by decide)
    short := hShort
    header_eq := header_minted i o
    typed := by simp [JoseHeader.typed, Issuer.joseHeader]
    algorithm := hAlgorithm
    payload_eq := base64Decode_encode _
    signature := ⟨scheme.publicKey i.signing, modulus, signature, if_pos hName, hModulus, hBits,
      base64Decode_encode signature, scheme.verifies hSign⟩ }
  exact verify_ok_iff.mpr ⟨_, _, _, _, _, _, hSigned, (identityFromPayload_minted wild
    (hMerchantName hMerchantClaim) (hScopeName hScopeClaim) hPlain).mpr ⟨hOk, rfl⟩⟩

end Minted

/-- A token that the issuer mints and signs with its published key is accepted exactly if its
text is short enough, the verifier allows its algorithm, it names the published key, and its
claims are acceptable. The identity it gives is then the one that was asked for, its scopes
those of all the scopes given, its times in whole seconds. -/
theorem minted_token_verifies_iff {S : Type} (i : Issuer scheme) (wild : ℚ → Int64)
    (config : VerifierConfig S) (v : Verifier S) (hVerifier : newVerifier config = .ok v)
    (hMerchantClaim : config.merchantClaim = []) (hScopeClaim : config.scopeClaim = [])
    (minted now : Time) (o : TokenOptions) (hPlain : o.Plain minted)
    (hGenuine : o.forgeSignature = false) (token : Text) (hMint : i.mint minted o = .ok token)
    (identity : Identity) :
    verify (scheme.environment (fun _ => i.verificationKey) wild) v now token = .ok identity ↔
      (utf8 token).length ≤ maxTokenBytes ∧ (v.algorithms.lookup o.algorithmName).isSome ∧
        i.keyName o = i.keyID ∧ i.Acceptable v minted now o ∧
        identity = i.mintedIdentity minted o := by
  constructor
  · intro h
    exact acceptable_of_verify hVerifier hMerchantClaim hScopeClaim hPlain hMint h
  · rintro ⟨hShort, hAllowed, hKeyID, hOk, rfl⟩
    exact verify_of_acceptable hVerifier hMerchantClaim hScopeClaim hPlain hGenuine hMint hShort
      hAllowed hKeyID hOk

/-- The first second of 2026. -/
def newYear2026 : Time := (1767225600 + unixToInternal) * second

def clerkOptions : TokenOptions where
  subject := "clerk".toList
  merchantID := "shop".toList
  audience := some (.str "ledger".toList)
  scopes := ["ledger:read".toList, "ledger:write".toList]

/-- What is signed of the clerk's token. -/
def clerkInput : Text :=
  encodeSegment [("alg".toList, .str "RS256".toList), ("typ".toList, .str "JWT".toList),
    ("kid".toList, .str "first".toList)] ++
  '.' :: encodeSegment [("iss".toList, .str "issuer".toList), ("sub".toList, .str "clerk".toList),
    ("iat".toList, .num (Json.intLiteral (unixSeconds newYear2026))),
    ("jti".toList, .str "test-clerk".toList),
    ("exp".toList, .num (Json.intLiteral (unixSeconds (addDuration newYear2026 (5 * 60 * second))))),
    ("aud".toList, .str "ledger".toList), ("merchant_id".toList, .str "shop".toList),
    ("scope".toList, .str "ledger:read ledger:write".toList)]

/-- A scheme that signs one text. -/
def clerkScheme : SignatureScheme Unit Unit where
  rsaModulus _ := some (2 ^ 2047)
  digest _ bytes := bytes
  verifyPKCS1v15 _ hash digest signature :=
    decide (hash = .sha256 ∧ digest = utf8 clerkInput ∧ signature = [7])
  publicKey := id
  signPKCS1v15 _ hash digest :=
    if hash = .sha256 ∧ digest = utf8 clerkInput then .ok [7] else .error "refused".toList
  verifies := by
    intro key hash digest signature h
    split at h
    · rename_i hOne
      cases h
      exact decide_eq_true ⟨hOne.1, hOne.2, rfl⟩
    · cases h

/-- A power of two has one bit more than its exponent. -/
theorem size_two_pow (k : Nat) : k + 1 ≤ (2 ^ k).size := Nat.lt_size.mpr le_rfl

def clerkIssuer : Issuer clerkScheme where
  url := "issuer".toList
  keyID := "first".toList
  signing := ()
  unpublished := ()
  modulus := ⟨2 ^ 2047, rfl, size_two_pow 2047⟩

def ledgerConfig : VerifierConfig Unit where
  issuer := "issuer".toList
  audience := "ledger".toList
  keys := some ()

def ledgerVerifier : Verifier Unit :=
  ⟨"issuer".toList, "ledger".toList, (), .merchantRequired, [("RS256".toList, .sha256)],
    "merchant_id".toList, "scope".toList, defaultLeeway⟩

/-- The verifier of the sample is the one its configuration gives. -/
theorem ledgerVerifier_ok : newVerifier ledgerConfig = .ok ledgerVerifier := rfl

def clerkToken : Text := clerkInput ++ '.' :: base64Encode [7]

/-- The sample token is short enough. -/
theorem clerk_short : (utf8 clerkToken).length ≤ maxTokenBytes := by decide +kernel

/-- Its options add no claim and its times are in range. -/
theorem clerkOptions_plain : clerkOptions.Plain newYear2026 where
  noExtra := rfl
  audience := by
    rintro a ⟨⟩
    exact numerals_str _
  issuance := by decide
  expiry := by decide

/-- It is what `Mint` returns. -/
theorem clerk_mint : clerkIssuer.mint newYear2026 clerkOptions = .ok clerkToken := by
  have hInput : clerkIssuer.signingInput newYear2026 clerkOptions = clerkInput := rfl
  have hHash : algorithmHashes.lookup clerkOptions.algorithmName = some .sha256 := rfl
  have hSign : clerkScheme.signPKCS1v15 () .sha256 (utf8 clerkInput) = .ok [7] := by
    simp only [clerkScheme, and_self, if_true]
  simp only [Issuer.mint, hInput, hHash, reduceCtorEq, false_and, if_false]
  exact peel.mpr ⟨[7], mapError_ok.mpr hSign, rfl⟩

/-- And what the verifier accepts. -/
theorem clerk_acceptable :
    clerkIssuer.Acceptable ledgerVerifier newYear2026 newYear2026 clerkOptions where
  issuer := rfl
  audience := ⟨["ledger".toList], rfl, by decide⟩
  expires := rfl
  current := by decide
  merchant := by decide

/-- So it is verified, as the identity that was asked for. -/
theorem clerk_accepted :
    verify (clerkScheme.environment (fun _ => clerkIssuer.verificationKey) fun _ => 0)
        ledgerVerifier newYear2026 clerkToken =
      .ok (clerkIssuer.mintedIdentity newYear2026 clerkOptions) :=
  verify_of_acceptable ledgerVerifier_ok rfl rfl clerkOptions_plain rfl clerk_mint clerk_short rfl
    rfl clerk_acceptable

/-- A token minted for the clerk. -/
theorem minted_token_verifies_iff_clerk :
    verify (clerkScheme.environment (fun _ => clerkIssuer.verificationKey) fun _ => 0)
        ledgerVerifier newYear2026 clerkToken =
      .ok (clerkIssuer.mintedIdentity newYear2026 clerkOptions) :=
  (minted_token_verifies_iff clerkIssuer (fun _ => 0) ledgerConfig ledgerVerifier
    ledgerVerifier_ok rfl rfl
    newYear2026 newYear2026 clerkOptions clerkOptions_plain rfl clerkToken clerk_mint _).mpr
    ⟨clerk_short, rfl, rfl, clerk_acceptable, rfl⟩

/-! ### Tokens of anyone -/

/-- Calls of `Mint`, with the moment of each. -/
abbrev MintingLog := List (Time × TokenOptions)

/-- Signatures are unforgeable: under the published key, only what `Mint` signed with it verifies. -/
def Unforgeable (i : Issuer scheme) (log : MintingLog) : Prop :=
  ∀ hash digest signature,
    scheme.verifyPKCS1v15 (scheme.publicKey i.signing) hash digest signature = true →
    ∃ call ∈ log, call.2.forgeSignature = false ∧
      algorithmHashes.lookup call.2.algorithmName = some hash ∧
      digest = scheme.digest hash (utf8 (i.signingInput call.1 call.2))

/-- Digests have no collisions. -/
def CollisionFree (scheme : SignatureScheme K P) : Prop :=
  ∀ hash a b, scheme.digest hash a = scheme.digest hash b → a = b

/-- Whatever text is presented as a token: if it is accepted, the issuer minted a token with the
same header and claims, signed with the published key, and the identity is the one that was asked
for there. -/
theorem accepted_token_was_minted {S : Type} (i : Issuer scheme) (wild : ℚ → Int64)
    (keys : S → Text → Except KeyError K) (config : VerifierConfig S) (v : Verifier S)
    (hVerifier : newVerifier config = .ok v) (hMerchantClaim : config.merchantClaim = [])
    (hScopeClaim : config.scopeClaim = [])
    (hKeys : ∀ keyID key, keys v.keys keyID = .ok key → key = scheme.publicKey i.signing)
    (log : MintingLog) (hLog : ∀ call ∈ log, call.2.Plain call.1) (hUnforgeable : Unforgeable i log)
    (hDigest : CollisionFree scheme) (now : Time) (token : Text) (identity : Identity)
    (h : verify (scheme.environment keys wild) v now token = .ok identity) :
    ∃ call ∈ log, call.2.forgeSignature = false ∧
      (∃ signature, token = i.signingInput call.1 call.2 ++ '.' :: signature) ∧
      i.Acceptable v call.1 now call.2 ∧ identity = i.mintedIdentity call.1 call.2 := by
  obtain ⟨-, hMerchantName, hScopeName⟩ := newVerifier_ok hVerifier
  obtain ⟨part0, part1, part2, header, hash, payload, hSigned, hIdentity⟩ := verify_ok_iff.mp h
  obtain ⟨key, -, signature, hKey, -, -, -, hVerified⟩ := hSigned.signature
  obtain rfl := hKeys _ _ hKey
  obtain ⟨call, hCall, hGenuine, -, hInput⟩ := hUnforgeable hash _ signature hVerified
  -- what was signed is the text in front of the signature
  have hText : i.signingInput call.1 call.2 = part0 ++ '.' :: part1 :=
    utf8_injective (hDigest hash _ _ hInput).symm
  obtain ⟨rfl, -, rfl⟩ := (List.append_cons_inj_of_notMem (encodeSegment_no_dot _)
    (encodeSegment_no_dot _)).mp hText
  have hToken : token = i.signingInput call.1 call.2 ++ '.' :: part2 := by
    have hJoin : ['.'].intercalate (token.splitOn '.') = token := List.intercalate_splitOn '.'
    rw [hSigned.parts] at hJoin
    simpa [List.intercalate, Issuer.signingInput] using hJoin.symm
  have hPayload := hSigned.payload_eq
  rw [encodeSegment, base64Decode_encode, Option.some.injEq] at hPayload
  subst hPayload
  obtain ⟨hOk, hEq⟩ := (identityFromPayload_minted wild (hMerchantName hMerchantClaim)
    (hScopeName hScopeClaim) (hLog call hCall)).mp hIdentity
  exact ⟨call, hCall, hGenuine, ⟨part2, hToken⟩, hOk, hEq⟩

/-- Only the clerk's token was minted, and it is accepted. -/
theorem accepted_token_was_minted_clerk :
    ∃ identity, verify (clerkScheme.environment (fun _ => clerkIssuer.verificationKey) fun _ => 0)
        ledgerVerifier newYear2026 clerkToken = .ok identity ∧
      ∃ call ∈ [(newYear2026, clerkOptions)],
        identity = clerkIssuer.mintedIdentity call.1 call.2 := by
  have hUnforgeable : Unforgeable clerkIssuer [(newYear2026, clerkOptions)] := by
    intro hash digest signature h
    obtain ⟨rfl, rfl, -⟩ := of_decide_eq_true h
    exact ⟨_, List.mem_singleton_self _, rfl, rfl, rfl⟩
  obtain ⟨call, hCall, -, -, -, hIdentity⟩ := accepted_token_was_minted clerkIssuer (fun _ => 0)
    (fun _ => clerkIssuer.verificationKey) ledgerConfig ledgerVerifier
    ledgerVerifier_ok rfl rfl
    (fun _ _ _ => rfl) [(newYear2026, clerkOptions)]
    (fun call hCall => by rw [List.mem_singleton.mp hCall]; exact clerkOptions_plain) hUnforgeable
    (fun _ _ _ => id) newYear2026 clerkToken _ clerk_accepted
  exact ⟨_, clerk_accepted, call, hCall, hIdentity⟩

end Round

/-! ### An issuer whose tokens anyone can check -/

/-- A scheme under which every signature is good. -/
def openScheme : SignatureScheme Unit Unit where
  rsaModulus _ := some (2 ^ 2047)
  digest _ bytes := bytes
  verifyPKCS1v15 _ _ _ _ := true
  publicKey := id
  signPKCS1v15 _ _ _ := .ok [7]
  verifies := fun _ => rfl

def openIssuer : Issuer openScheme where
  url := "issuer".toList
  keyID := "first".toList
  signing := ()
  unpublished := ()
  modulus := ⟨2 ^ 2047, rfl, size_two_pow 2047⟩

def openEnvironment : Environment Unit Unit :=
  openScheme.environment (fun _ => openIssuer.verificationKey) fun _ => 0

/-- One audience and one scope. -/
def openOptions (subject merchantID audience scope : Text) : TokenOptions where
  subject := subject
  merchantID := merchantID
  audience := some (.str audience)
  scopes := [scope]

def openToken (o : TokenOptions) : Text :=
  openIssuer.signingInput newYear2026 o ++ '.' :: base64Encode [7]

def openVerifier (audience : Text) (merchant : MerchantRequirement) : Verifier Unit :=
  ⟨"issuer".toList, audience, (), merchant, [("RS256".toList, .sha256)], "merchant_id".toList,
    "scope".toList, defaultLeeway⟩

/-- A token minted for a subject and a merchant is accepted by a verifier that wants its audience
and its merchant rule. -/
theorem open_accepted {config : VerifierConfig Unit} {subject merchantID audience scope : Text}
    {merchant : MerchantRequirement}
    (hVerifier : newVerifier config = .ok (openVerifier audience merchant))
    (hMerchantClaim : config.merchantClaim = []) (hScopeClaim : config.scopeClaim = [])
    (hMerchant : merchantID = [] ↔ merchant = .merchantForbidden)
    (hShort : (utf8 (openToken (openOptions subject merchantID audience scope))).length ≤
      maxTokenBytes) :
    verify openEnvironment (openVerifier audience merchant) newYear2026
        (openToken (openOptions subject merchantID audience scope)) =
      .ok (openIssuer.mintedIdentity newYear2026
        (openOptions subject merchantID audience scope)) := by
  -- the times are those of a token without options
  have hIssuance : InRange (TokenOptions.issuance newYear2026 {}) := by decide
  have hExpiry : InRange (TokenOptions.expiry newYear2026 {}) := by decide
  have hCurrent : newYear2026 ≤
      addDuration (wholeSeconds (TokenOptions.expiry newYear2026 {})) defaultLeeway := by decide
  have hPlain : (openOptions subject merchantID audience scope).Plain newYear2026 :=
    ⟨rfl, by rintro a ⟨⟩; exact numerals_str _, hIssuance, hExpiry⟩
  have hAcceptable : openIssuer.Acceptable (openVerifier audience merchant) newYear2026 newYear2026
      (openOptions subject merchantID audience scope) :=
    ⟨rfl, ⟨[audience], rfl, List.mem_singleton_self _⟩, rfl, hCurrent, hMerchant⟩
  exact verify_of_acceptable hVerifier hMerchantClaim hScopeClaim hPlain rfl rfl hShort rfl rfl
    hAcceptable

end Cashflow.Auth.Token
