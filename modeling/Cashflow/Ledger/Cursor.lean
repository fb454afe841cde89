import Cashflow.Lib.Base64
import Cashflow.Ledger.Service

/-!
# Ledger — page cursors

`services/ledger/internal/application/cursor.go`: a cursor is a JSON payload and
its HMAC-SHA256, both in base64, with a full stop between them. The payload's
texts never make `json.Marshal` fail, so `encode` has no error to return.

Main result: `decode_encode`.
-/

namespace Cashflow.Ledger

open Lib

structure CursorPayload where
  version : Int64
  merchantID : Text
  fromDate : Text
  toDate : Text
  limit : Int64
  highWaterPosition : Int64
  lastDate : Text
  lastTime : Text
  lastID : Text
deriving DecidableEq, Repr

/-- A key to sign cursors with. -/
structure CursorCodec where
  secret : List UInt8
  longEnough : 32 ≤ secret.length

def newCursorCodec (secret : List UInt8) : Except LedgerError CursorCodec :=
  if h : secret.length < 32 then .error .invalidArgument else .ok ⟨secret, Nat.not_lt.mp h⟩

namespace CursorPayload

def members (p : CursorPayload) : List (Text × Json.Scalar) :=
  [("v".toList, .int p.version.toInt), ("merchant_id".toList, .text p.merchantID)] ++
  omitEmpty "from".toList p.fromDate ++ omitEmpty "to".toList p.toDate ++
  [("limit".toList, .int p.limit.toInt),
    ("high_water_position".toList, .int p.highWaterPosition.toInt),
    ("last_date".toList, .text p.lastDate), ("last_time".toList, .text p.lastTime),
    ("last_id".toList, .text p.lastID)]

/-- The bytes of `json.Marshal`. -/
def marshal (p : CursorPayload) : List UInt8 := utf8 (Json.renderObject p.members)

def ofMembers (ms : List (Text × Json)) : Option CursorPayload := do
  -- a later member of the same name overwrites an earlier one
  let version ← (Json.field "v".toList ms).foldlM Json.decodeInt64 0
  let merchantID ← (Json.field "merchant_id".toList ms).foldlM Json.decodeText []
  let fromDate ← (Json.field "from".toList ms).foldlM Json.decodeText []
  let toDate ← (Json.field "to".toList ms).foldlM Json.decodeText []
  let limit ← (Json.field "limit".toList ms).foldlM Json.decodeInt64 0
  let highWaterPosition ← (Json.field "high_water_position".toList ms).foldlM Json.decodeInt64 0
  let lastDate ← (Json.field "last_date".toList ms).foldlM Json.decodeText []
  let lastTime ← (Json.field "last_time".toList ms).foldlM Json.decodeText []
  let lastID ← (Json.field "last_id".toList ms).foldlM Json.decodeText []
  some { version, merchantID, fromDate, toDate, limit, highWaterPosition, lastDate, lastTime, lastID }

def unmarshal (bytes : List UInt8) : Option CursorPayload :=
  match Json.parse (runes bytes) with
  | some (.obj ms) => ofMembers ms
  -- `null` leaves a struct as it is
  | some .null => ofMembers []
  | _ => none

end CursorPayload

namespace CursorCodec

def sign (codec : CursorCodec) (payload : List UInt8) : List UInt8 := hmacSha256 codec.secret payload

def encode (codec : CursorCodec) (p : CursorPayload) : Text :=
  base64Encode p.marshal ++ '.' :: base64Encode (codec.sign p.marshal)

def decode (codec : CursorCodec) (token : Text) : Except LedgerError CursorPayload :=
  match token.splitOn '.' with
  | [encodedPayload, encodedSignature] =>
    match base64Decode encodedPayload, base64Decode encodedSignature with
    | some payload, some signature =>
      -- the signature is checked before the payload is parsed
      if signature ≠ codec.sign payload then .error .invalidCursor
      else
        match CursorPayload.unmarshal payload with
        | some p => if p.version ≠ 1 then .error .invalidCursor else .ok p
        | none => .error .invalidCursor
    | _, _ => .error .invalidCursor
  | _ => .error .invalidCursor

end CursorCodec

/-! ## Round trip -/

/-- Where a field of a payload is found among its members. -/
theorem field_payload (p : CursorPayload) (name : Text) :
    Json.field name (Json.members p.members) =
      Json.field name (Json.members
        [("v".toList, .int p.version.toInt), ("merchant_id".toList, .text p.merchantID)]) ++
      Json.field name (Json.members (omitEmpty "from".toList p.fromDate)) ++
      Json.field name (Json.members (omitEmpty "to".toList p.toDate)) ++
      Json.field name (Json.members
        [("limit".toList, .int p.limit.toInt),
          ("high_water_position".toList, .int p.highWaterPosition.toInt),
          ("last_date".toList, .text p.lastDate), ("last_time".toList, .text p.lastTime),
          ("last_id".toList, .text p.lastID)]) := by
  simp only [CursorPayload.members, Json.members_append, Json.field_append]

theorem payload_ofMembers (p : CursorPayload) :
    CursorPayload.ofMembers (Json.members p.members) = some p := by
  have hInt : ∀ x : Int64, (Json.parseInt64 (Json.intLiteral x.toInt)).bind some = some x :=
    fun x => by rw [Json.parseInt64_intLiteral]; rfl
  -- the two dates may be absent, so no other field is looked for there
  have hPlain : ∀ {name : Text} {v : Json},
      "from".toList.map Json.foldChar ≠ name.map Json.foldChar ∧
      "to".toList.map Json.foldChar ≠ name.map Json.foldChar →
      Json.field name (Json.members
        [("v".toList, .int p.version.toInt), ("merchant_id".toList, .text p.merchantID)]) ++
        Json.field name (Json.members
          [("limit".toList, .int p.limit.toInt),
            ("high_water_position".toList, .int p.highWaterPosition.toInt),
            ("last_date".toList, .text p.lastDate), ("last_time".toList, .text p.lastTime),
            ("last_id".toList, .text p.lastID)]) = [v] →
      Json.field name (Json.members p.members) = [v] := fun hOther hField => by
    rw [field_payload, field_omitEmpty_other _ hOther.1, field_omitEmpty_other _ hOther.2,
      List.append_nil, List.append_nil, hField]
  have hFrom : Json.field "from".toList (Json.members p.members) =
      if p.fromDate ≠ [] then [.str p.fromDate] else [] := by
    rw [field_payload, field_omitEmpty, field_omitEmpty_other _ (by decide), List.append_nil]
    exact List.append_nil _
  have hTo : Json.field "to".toList (Json.members p.members) =
      if p.toDate ≠ [] then [.str p.toDate] else [] := by
    rw [field_payload, field_omitEmpty, field_omitEmpty_other _ (by decide), List.append_nil]
    exact List.append_nil _
  unfold CursorPayload.ofMembers
  rw [hFrom, hTo, decode_omitted, decode_omitted,
    hPlain (v := .num (Json.intLiteral p.version.toInt)) (by decide) rfl,
    hPlain (v := .str p.merchantID) (by decide) rfl,
    hPlain (v := .num (Json.intLiteral p.limit.toInt)) (by decide) rfl,
    hPlain (v := .num (Json.intLiteral p.highWaterPosition.toInt)) (by decide) rfl,
    hPlain (v := .str p.lastDate) (by decide) rfl,
    hPlain (v := .str p.lastTime) (by decide) rfl,
    hPlain (v := .str p.lastID) (by decide) rfl]
  simp only [List.foldlM_cons, List.foldlM_nil, Json.decodeText, Json.decodeInt64,
    Option.pure_def, Option.bind_eq_bind, hInt, Option.bind_some]

theorem unmarshal_payload (p : CursorPayload) : CursorPayload.unmarshal p.marshal = some p := by
  rw [CursorPayload.unmarshal, CursorPayload.marshal, runes_utf8, Json.parse_renderObject]
  exact payload_ofMembers p

/-- A cursor gives back the payload it was made from. -/
theorem decode_encode (codec : CursorCodec) {p : CursorPayload} (hVersion : p.version = 1) :
    codec.decode (codec.encode p) = .ok p := by
  have hSplit : (codec.encode p).splitOn '.' =
      [base64Encode p.marshal, base64Encode (codec.sign p.marshal)] := by
    have hParts : ∀ part ∈ [base64Encode p.marshal, base64Encode (codec.sign p.marshal)],
        '.' ∉ part := by
      intro part hPart
      rcases List.mem_cons.mp hPart with rfl | hPart
      · exact base64Encode_no_dot _
      · rw [List.mem_singleton.mp hPart]
        exact base64Encode_no_dot _
    have hJoined : codec.encode p =
        ['.'].intercalate [base64Encode p.marshal, base64Encode (codec.sign p.marshal)] := by
      simp [CursorCodec.encode]
    rw [hJoined]
    exact List.splitOn_intercalate '.' hParts (List.cons_ne_nil _ _)
  rw [CursorCodec.decode, hSplit]
  simp only [base64Decode_encode, unmarshal_payload, hVersion, ne_eq, not_true_eq_false, if_false]

theorem encode_ne_nil (codec : CursorCodec) (p : CursorPayload) : codec.encode p ≠ [] :=
  List.append_ne_nil_of_right_ne_nil _ (List.cons_ne_nil _ _)

end Cashflow.Ledger
