import Mathlib.Data.Set.Basic

/-!
# Relays

Items are posted at a source, handed to a carrier and taken over by a receiver.
The source stops minding an item once the carrier has vouched for it, and the
carrier lets go of an item once it has arrived. Nothing says that an item is
carried once or arrives once.

* `Relay.Inv.somewhere` — every posted item is minded, carried, or has arrived;
* `Relay.Step.inv` — one step, whatever it moves, keeps that.
-/

namespace Lib

universe u

structure Relay (ι : Type u) where
  posted : Set ι
  -- still minded by the source
  waiting : Set ι
  -- taken over by the carrier, now or earlier
  vouched : Set ι
  carried : Set ι
  arrived : Set ι

namespace Relay

variable {ι : Type u} {r r' : Relay ι}

/-- What a step may do to each item. -/
structure Step (r r' : Relay ι) : Prop where
  posts : ∀ i ∈ r'.posted, i ∈ r.posted ∨ i ∈ r'.waiting
  leaves : ∀ i ∈ r.waiting, i ∈ r'.waiting ∨ i ∈ r'.vouched
  vouches : ∀ i ∈ r'.vouched, i ∈ r.vouched ∨ i ∈ r'.carried
  remembers : r.vouched ⊆ r'.vouched
  drops : ∀ i ∈ r.carried, i ∈ r'.carried ∨ i ∈ r'.arrived
  arrives : r.arrived ⊆ r'.arrived

structure Inv (r : Relay ι) : Prop where
  minded : ∀ i ∈ r.posted, i ∈ r.waiting ∨ i ∈ r.vouched
  kept : ∀ i ∈ r.vouched, i ∈ r.carried ∨ i ∈ r.arrived

/-- Each step hands a message on, or leaves it where it is. -/
theorem Step.inv (hInv : r.Inv) (h : Step r r') : r'.Inv where
  minded i hi := by
    rcases h.posts i hi with hOld | hNew
    · rcases hInv.minded i hOld with hWaiting | hVouched
      · exact h.leaves i hWaiting
      · exact .inr (h.remembers hVouched)
    · exact .inl hNew
  kept i hi := by
    rcases h.vouches i hi with hOld | hNew
    · rcases hInv.kept i hOld with hCarried | hArrived
      · exact h.drops i hCarried
      · exact .inr (h.arrives hArrived)
    · exact .inl hNew

/-- So a posted message is always somewhere. -/
theorem Inv.somewhere (h : r.Inv) {i : ι} (hi : i ∈ r.posted) :
    i ∈ r.waiting ∨ i ∈ r.carried ∨ i ∈ r.arrived := by
  rcases h.minded i hi with hWaiting | hVouched
  · exact .inl hWaiting
  · exact .inr (h.kept i hVouched)

end Relay

end Lib
