import Cashflow.Lib.ConstantTime
import Cashflow.Lib.Text

/-!
# Auth — who owns a resource

The two ownership checks of the platform: `Identity.Owns`
(`internal/platform/auth/identity.go`), and `Guard.Authorize`
(`internal/platform/tenancy/guard.go`), which resolves the owner of a resource first and fills
both merchants up with zeros before it compares them.  A Go string is a list of bytes here.

Main results:
* `authorize_ok_iff` — what the guard admits;
* `authorize_agrees_iff` — it agrees with `Owns` unless the two merchants differ in NUL bytes at
  the end only.
-/

namespace Cashflow

open Lib

/-- The authenticated caller; ownership reads the merchant only. -/
structure Auth.Identity where
  merchantID : List UInt8
deriving DecidableEq, Repr

/-- `Identity.Owns` -/
def Auth.Identity.owns (i : Auth.Identity) (merchantID : List UInt8) : Bool :=
  if i.merchantID = [] ∨ merchantID = [] then false
  else constantTimeCompare i.merchantID merchantID == 1

namespace Tenancy

inductive GuardError (ε : Type) where
  | resourceUnavailable
  | resolver (cause : ε)
deriving DecidableEq, Repr

/-- `padded`: the value copied into a buffer of `width` bytes. -/
def padded (value : List UInt8) (width : Nat) : List UInt8 := zeroPadded 0 value width

/-- What `OwnerOf` answers: the owner and whether the resource exists, or an error. -/
abbrev OwnerResolver (ε : Type) := Text → Except ε (List UInt8 × Bool)

/-- `Guard.Authorize` -/
def Guard.authorize {ε : Type} (resolver : OwnerResolver ε) (identity : Auth.Identity)
    (resourceID : Text) : Except (GuardError ε) Unit :=
  match resolver resourceID with
  | .error cause => .error (.resolver cause)
  | .ok (owner, found) =>
    let width := max identity.merchantID.length owner.length
    -- the comparison runs on both paths
    let same := constantTimeCompare (padded identity.merchantID width) (padded owner width) == 1
    if !found || !same || identity.merchantID == [] then .error .resourceUnavailable
    else .ok ()

section Authorize

variable {ε : Type} {resolver : OwnerResolver ε} {identity : Auth.Identity} {resourceID : Text}
  {owner : List UInt8} {found : Bool}

theorem owns_iff :
    identity.owns owner = true ↔ identity.merchantID ≠ [] ∧ owner = identity.merchantID := by
  rw [Auth.Identity.owns]
  by_cases hEmpty : identity.merchantID = [] ∨ owner = []
  · rw [if_pos hEmpty]
    constructor
    · intro h
      cases h
    · rintro ⟨hCaller, rfl⟩
      exact absurd (or_self_iff.mp hEmpty) hCaller
  · rw [if_neg hEmpty, beq_iff_eq, constantTimeCompare_eq_one]
    exact ⟨fun h => ⟨fun hNil => hEmpty (.inl hNil), h.symm⟩, fun h => h.2.symm⟩

/-- The guard admits the caller, or it refuses with the one error. -/
theorem authorize_ok_or (h : resolver resourceID = .ok (owner, found)) :
    Guard.authorize resolver identity resourceID = .ok () ∨
      Guard.authorize resolver identity resourceID = .error .resourceUnavailable := by
  simp only [Guard.authorize, h]
  split
  · exact .inr rfl
  · exact .inl rfl

/-- The guard compares up to the zeros at the end. -/
theorem authorize_ok_iff (h : resolver resourceID = .ok (owner, found)) :
    Guard.authorize resolver identity resourceID = .ok () ↔
      found = true ∧ identity.merchantID ≠ [] ∧
        trimmed 0 identity.merchantID = trimmed 0 owner := by
  have hSame := zeroPadded_eq_iff (0 : UInt8)
    (le_max_left identity.merchantID.length owner.length)
    (le_max_right identity.merchantID.length owner.length)
  simp only [Guard.authorize, h, padded]
  rw [← hSame, ← constantTimeCompare_eq_one]
  cases found with
  | false => simp
  | true =>
    by_cases hEmpty : identity.merchantID = []
    · simp [hEmpty]
    · simp [hEmpty]

/-- The guard admits the owner of a resource and nobody else, and refuses with the one error,
for every caller and every answer of the resolver; except that it takes for the owner a caller
whose merchant differs from the owner's in NUL bytes at the end only. -/
theorem authorize_agrees_iff (resolver : OwnerResolver ε) (identity : Auth.Identity)
    (resourceID : Text) :
    (∀ cause, resolver resourceID = .error cause →
      Guard.authorize resolver identity resourceID = .error (.resolver cause)) ∧
    ∀ owner found, resolver resourceID = .ok (owner, found) →
      (Guard.authorize resolver identity resourceID = .ok () ∨
        Guard.authorize resolver identity resourceID = .error .resourceUnavailable) ∧
      ((Guard.authorize resolver identity resourceID = .ok () ↔
          found = true ∧ identity.owns owner = true) ↔
        ¬ (found = true ∧ identity.merchantID ≠ [] ∧ owner ≠ identity.merchantID ∧
          trimmed 0 identity.merchantID = trimmed 0 owner)) := by
  refine ⟨fun cause h => by simp only [Guard.authorize, h], fun owner found h => ?_⟩
  refine ⟨authorize_ok_or h, ?_⟩
  -- the guard compares the texts padded with zeros, `Owns` as they are
  rw [authorize_ok_iff h, owns_iff]
  constructor
  · rintro hAgree ⟨hFound, hCaller, hDiffer, hTrimmed⟩
    exact hDiffer (hAgree.mp ⟨hFound, hCaller, hTrimmed⟩).2.2
  · intro hNot
    constructor
    · rintro ⟨hFound, hCaller, hTrimmed⟩
      refine ⟨hFound, hCaller, ?_⟩
      by_contra hDiffer
      exact hNot ⟨hFound, hCaller, hDiffer, hTrimmed⟩
    · rintro ⟨hFound, hCaller, rfl⟩
      exact ⟨hFound, hCaller, rfl⟩

/-- A resolver that knows one resource, of the merchant `m-1`. -/
def oneResource : OwnerResolver Empty := fun resourceID =>
  if resourceID = "entry".toList then .ok (utf8 "m-1".toList, true) else .ok ([], false)

theorem authorize_agrees_iff_owner :
    Guard.authorize oneResource ⟨utf8 "m-1".toList⟩ "entry".toList = .ok () ↔
      true = true ∧ Auth.Identity.owns ⟨utf8 "m-1".toList⟩ (utf8 "m-1".toList) = true :=
  (((authorize_agrees_iff oneResource ⟨utf8 "m-1".toList⟩ "entry".toList).2
    (utf8 "m-1".toList) true rfl).2).mpr fun h => h.2.2.1 rfl

/-- The guard admits a caller whose merchant is the owner's with a NUL byte behind it. -/
theorem authorize_trailing_nul :
    Guard.authorize oneResource ⟨utf8 "m-1\x00".toList⟩ "entry".toList = .ok () ∧
      Auth.Identity.owns ⟨utf8 "m-1\x00".toList⟩ (utf8 "m-1".toList) = false := by
  decide

end Authorize

end Tenancy

end Cashflow
