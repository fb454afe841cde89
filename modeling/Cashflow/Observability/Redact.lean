import Cashflow.Auth.TraceContext

/-!
# Redact — names and texts that must not be recorded

`internal/platform/observability/redact/redact.go`: the names whose values are dropped, and the
two patterns that are cut out of free text.  The patterns have no two ways to match at one
position (the classes of neighbouring parts are disjoint), so a match is read off from the left.
-/

namespace Cashflow.Redact

open Lib

/-- `Placeholder` -/
def placeholder : Text := "[redacted]".toList

def sensitiveKeys : List Text :=
  ["authorization", "proxy-authorization", "cookie", "set-cookie", "x-api-key", "idempotency-key",
    "idempotency_key", "x-idempotency-key", "token", "access_token", "refresh_token", "id_token",
    "client_secret", "password", "secret", "description", "amount", "amount_minor", "credits",
    "debits", "net", "balance", "closing_balance"].map String.toList

/-- `IsSensitiveKey` -/
def isSensitiveKey (name : Text) : Bool :=
  sensitiveKeys.contains ((Auth.trimSpace name).map Ledger.toLowerRune)

example : isSensitiveKey (" to".toList ++ Char.ofNat 0x212A :: "EN".toList) = true := by
  decide +kernel

/-! ## Patterns -/

/-- `regexp.ReplaceAllString`, for a pattern without empty matches: `matchAt` gives what is left
after a match, and sees the character in front. -/
def replaceAll (matchAt : Option Char → Text → Option Text) : Nat → Option Char → Text → Text
  | _, _, [] => []
  | skip + 1, _, c :: rest => replaceAll matchAt skip (some c) rest
  | 0, before, c :: rest =>
    match matchAt before (c :: rest) with
    | some left => placeholder ++ replaceAll matchAt (rest.length - left.length) (some c) rest
    | none => c :: replaceAll matchAt 0 (some c) rest

/-- At least so many characters of a class, and then as many as there are. -/
def many (least : Nat) (p : Char → Bool) (text : Text) : Option Text :=
  if (text.takeWhile p).length < least then none else some (text.dropWhile p)

/-- The fold of `(?i)`: besides the two cases, the long s and the Kelvin sign. -/
def folds (letter c : Char) : Bool :=
  c.toLower == letter || (letter == 's' && c == Char.ofNat 0x17F) ||
    (letter == 'k' && c == Char.ofNat 0x212A)

example : folds 'k' (Char.ofNat 0x212A) = true ∧ folds 's' (Char.ofNat 0x17F) = true := by decide

def foldedWord : Text → Text → Option Text
  | [], text => some text
  | _ :: _, [] => none
  | letter :: word, c :: text => if folds letter c then foldedWord word text else none

/-- `\w` -/
def isWordChar (c : Char) : Bool := c.isAlphanum || c == '_'

/-- `\s` -/
def isPatternSpace (c : Char) : Bool :=
  c == '\t' || c == '\n' || c == '\x0c' || c == '\r' || c == ' '

def isTokenChar (c : Char) : Bool :=
  c.isAlphanum || "._~+/=-".toList.contains c || c == Char.ofNat 0x17F || c == Char.ofNat 0x212A

example : isTokenChar (Char.ofNat 0x212A) = true := by decide

/-- `bearerPattern` -/
def bearerPattern (before : Option Char) (text : Text) : Option Text :=
  -- a word boundary: the pattern starts with a letter
  if before.any isWordChar then none
  else do
    let rest ← (foldedWord "bearer".toList text).or (foldedWord "basic".toList text)
    let rest ← many 1 isPatternSpace rest
    many 1 isTokenChar rest

def isJwtChar (c : Char) : Bool := c.isAlphanum || c == '_' || c == '-'

def dot : Text → Option Text
  | '.' :: rest => some rest
  | _ => none

/-- `jwtPattern` -/
def jwtPattern (_ : Option Char) (text : Text) : Option Text := do
  let rest ← text.dropPrefix? "eyJ".toList
  let rest ← many 4 isJwtChar rest
  let rest ← dot rest
  let rest ← many 4 isJwtChar rest
  let rest ← dot rest
  many 4 isJwtChar rest

/-- `String` -/
def string (value : Text) : Text :=
  replaceAll jwtPattern 0 none (replaceAll bearerPattern 0 none value)

example : string "for basic  dXNlcg==, not xbasic dXNlcg".toList =
    "for [redacted], not xbasic dXNlcg".toList := by decide +kernel

end Cashflow.Redact
