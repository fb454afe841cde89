import Mathlib.Data.List.Basic
import Mathlib.Tactic.Ring

/-!
# SHA-256 and HMAC-SHA-256

The digest functions of FIPS 180-4 and FIPS 198-1 on lists of bytes. Nothing
is proved about them beyond test vectors; where a development needs them to
separate inputs it assumes so, for the inputs at hand (`CollisionFree`).
-/

namespace Lib

namespace Sha256

/-- The round constants. -/
def roundConstants : List Nat :=
  [0x428a2f98, 0x71374491, 0xb5c0fbcf, 0xe9b5dba5, 0x3956c25b, 0x59f111f1, 0x923f82a4, 0xab1c5ed5,
   0xd807aa98, 0x12835b01, 0x243185be, 0x550c7dc3, 0x72be5d74, 0x80deb1fe, 0x9bdc06a7, 0xc19bf174,
   0xe49b69c1, 0xefbe4786, 0x0fc19dc6, 0x240ca1cc, 0x2de92c6f, 0x4a7484aa, 0x5cb0a9dc, 0x76f988da,
   0x983e5152, 0xa831c66d, 0xb00327c8, 0xbf597fc7, 0xc6e00bf3, 0xd5a79147, 0x06ca6351, 0x14292967,
   0x27b70a85, 0x2e1b2138, 0x4d2c6dfc, 0x53380d13, 0x650a7354, 0x766a0abb, 0x81c2c92e, 0x92722c85,
   0xa2bfe8a1, 0xa81a664b, 0xc24b8b70, 0xc76c51a3, 0xd192e819, 0xd6990624, 0xf40e3585, 0x106aa070,
   0x19a4c116, 0x1e376c08, 0x2748774c, 0x34b0bcb5, 0x391c0cb3, 0x4ed8aa4a, 0x5b9cca4f, 0x682e6ff3,
   0x748f82ee, 0x78a5636f, 0x84c87814, 0x8cc70208, 0x90befffa, 0xa4506ceb, 0xbef9a3f7, 0xc67178f2]

/-- The eight working variables. -/
structure Working where
  (a b c d e f g h : Nat)

/-- The initial hash value. -/
def initial : Working :=
  ⟨0x6a09e667, 0xbb67ae85, 0x3c6ef372, 0xa54ff53a, 0x510e527f, 0x9b05688c, 0x1f83d9ab, 0x5be0cd19⟩

/-- Words are numbers below `2 ^ 32`. -/
def rotr (x n : Nat) : Nat := (x >>> n) ||| (x <<< (32 - n) % 4294967296)

/-- One round. -/
def round (s : Working) (kw : Nat) : Working :=
  let t1 := s.h + (rotr s.e 6 ^^^ rotr s.e 11 ^^^ rotr s.e 25) +
    ((s.e &&& s.f) ^^^ ((4294967295 - s.e) &&& s.g)) + kw
  let t2 := (rotr s.a 2 ^^^ rotr s.a 13 ^^^ rotr s.a 22) +
    ((s.a &&& s.b) ^^^ (s.a &&& s.c) ^^^ (s.b &&& s.c))
  ⟨(t1 + t2) % 4294967296, s.a, s.b, s.c, (s.d + t1) % 4294967296, s.e, s.f, s.g⟩

/-- Extend the message schedule, kept with its latest word first. -/
def extend : Nat → List Nat → List Nat
  | 0, ws => ws
  | n + 1, ws =>
    let w15 := ws.getD 14 0
    let w2 := ws.getD 1 0
    let s0 := rotr w15 7 ^^^ rotr w15 18 ^^^ (w15 >>> 3)
    let s1 := rotr w2 17 ^^^ rotr w2 19 ^^^ (w2 >>> 10)
    extend n ((ws.getD 15 0 + s0 + ws.getD 6 0 + s1) % 4294967296 :: ws)

/-- Four bytes, most significant first. -/
def word (b0 b1 b2 b3 : UInt8) : Nat :=
  b0.toNat * 16777216 + b1.toNat * 65536 + b2.toNat * 256 + b3.toNat

def words : List UInt8 → List Nat
  | b0 :: b1 :: b2 :: b3 :: rest => word b0 b1 b2 b3 :: words rest
  | _ => []

/-- Process one block of sixteen words. -/
def compress (s : Working) (block : List Nat) : Working :=
  let schedule := (extend 48 block.reverse).reverse
  let t := (List.zipWith (· + ·) roundConstants schedule).foldl round s
  ⟨(s.a + t.a) % 4294967296, (s.b + t.b) % 4294967296, (s.c + t.c) % 4294967296,
    (s.d + t.d) % 4294967296, (s.e + t.e) % 4294967296, (s.f + t.f) % 4294967296,
    (s.g + t.g) % 4294967296, (s.h + t.h) % 4294967296⟩

/-- Process the words block by block. -/
def blocks : Nat → Working → List Nat → Working
  | 0, s, _ => s
  | n + 1, s, ws => blocks n (compress s (ws.take 16)) (ws.drop 16)

/-- The big-endian bytes of `n`, `width` of them. -/
def bigEndian : Nat → Nat → List UInt8
  | 0, _ => []
  | width + 1, n => bigEndian width (n / 256) ++ [UInt8.ofNat n]

@[simp] theorem length_bigEndian (width n : Nat) : (bigEndian width n).length = width := by
  induction width generalizing n with
  | zero => rfl
  | succ width ih => simp [bigEndian, ih]

/-- Numbers that fit the width are told apart by their bytes. -/
theorem bigEndian_inj {width m n : Nat} (hm : m < 256 ^ width) (hn : n < 256 ^ width)
    (h : bigEndian width m = bigEndian width n) : m = n := by
  induction width generalizing m n with
  | zero => omega
  | succ width ih =>
    rw [Nat.pow_succ] at hm hn
    obtain ⟨hHigh, hLow⟩ := List.append_inj h (by simp)
    have hHigh := ih (by omega) (by omega) hHigh
    have hLow := congrArg UInt8.toNat (List.cons.inj hLow).1
    rw [UInt8.toNat_ofNat', UInt8.toNat_ofNat'] at hLow
    omega

/-- Append the end marker, zeros and the length in bits. -/
def pad (message : List UInt8) : List UInt8 :=
  message ++ 0x80 :: List.replicate ((119 - message.length % 64) % 64) 0 ++
    bigEndian 8 (8 * message.length)

def bytesOfWord (w : Nat) : List UInt8 :=
  [UInt8.ofNat (w / 16777216), UInt8.ofNat (w / 65536), UInt8.ofNat (w / 256), UInt8.ofNat w]

end Sha256

/-- The SHA-256 digest of a message. -/
def sha256 (message : List UInt8) : List UInt8 :=
  let ws := Sha256.words (Sha256.pad message)
  let s := Sha256.blocks (ws.length / 16) Sha256.initial ws
  [s.a, s.b, s.c, s.d, s.e, s.f, s.g, s.h].flatMap Sha256.bytesOfWord

@[simp] theorem length_sha256 (message : List UInt8) : (sha256 message).length = 32 := rfl

/-- HMAC with SHA-256. -/
def hmacSha256 (key message : List UInt8) : List UInt8 :=
  let short := if key.length ≤ 64 then key else sha256 key
  let block := short ++ List.replicate (64 - short.length) 0
  sha256 (block.map (· ^^^ 0x5c) ++ sha256 (block.map (· ^^^ 0x36) ++ message))

/-- SHA-256 separates the messages of a list. -/
def CollisionFree (messages : List (List UInt8)) : Prop :=
  ∀ m ∈ messages, ∀ n ∈ messages, sha256 m = sha256 n → m = n

instance (messages : List (List UInt8)) : Decidable (CollisionFree messages) :=
  inferInstanceAs (Decidable (∀ m ∈ messages, ∀ n ∈ messages, sha256 m = sha256 n → m = n))

example : (sha256 [0x61, 0x62, 0x63]).take 4 = [0xba, 0x78, 0x16, 0xbf] := by decide +kernel

end Lib
