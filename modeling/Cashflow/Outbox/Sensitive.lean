import Cashflow.Lib.JsonTree
import Cashflow.Outbox.Publisher

/-!
# Outbox — sensitive fields are found at every depth

`prohibitedField` walks a decoded payload and stops at the first name it must not have.  It
returns that name and the empty string for none, and it meets the members of a map in whatever
order Go ranges over them: `rangedField` is the walk over a document whose members are listed in
that order.  The model of `validateEnvelope` uses the walk in the order of the text, with the
replaced members left out and `none` for no name; `rangedField_decoded` says that they agree.

Main results:
* `rangedField_eq_nil` — the walk returns the empty string exactly when no object at any depth
  has a prohibited name;
* `sensitive_field_refused` — so no payload whose decoded document has one is published.
-/

namespace Cashflow.Outbox

open Lib Pipeline

mutual

/-- `prohibitedField`, over maps listed in the order in which they are ranged over. -/
def rangedField : Json → Text
  | .obj ms => rangedMembers ms
  | .arr elems => rangedElems elems
  | _ => []

def rangedMembers : List (Text × Json) → Text
  | [] => []
  | (name, value) :: ms =>
    if prohibitedName name then name
    else
      let found := rangedField value
      if found ≠ [] then found else rangedMembers ms

def rangedElems : List Json → Text
  | [] => []
  | e :: es =>
    let found := rangedField e
    if found ≠ [] then found else rangedElems es

end

/-! ## The walk finds every name -/

/-- The empty name is not prohibited, so a name that is returned is not the answer for none. -/
theorem ne_nil_of_prohibitedName {name : Text} (h : prohibitedName name = true) : name ≠ [] := by
  rintro rfl
  exact absurd h (by decide)

/-- Nothing is found in a list when nothing is found in its elements. -/
theorem rangedElems_eq_nil {elems : List Json} :
    rangedElems elems = [] ↔ ∀ e ∈ elems, rangedField e = [] := by
  induction elems with
  | nil => simp [rangedElems]
  | cons e es ih =>
    rw [rangedElems, List.forall_mem_cons, ← ih]
    by_cases hFound : rangedField e = []
    · simp [hFound]
    · simp [hFound]

/-- Nor in an object whose names are allowed and whose values have nothing. -/
theorem rangedMembers_eq_nil {ms : List (Text × Json)} :
    rangedMembers ms = [] ↔ ∀ m ∈ ms, prohibitedName m.1 = false ∧ rangedField m.2 = [] := by
  induction ms with
  | nil => simp [rangedMembers]
  | cons m ms ih =>
    obtain ⟨name, value⟩ := m
    rw [rangedMembers, List.forall_mem_cons, ← ih]
    by_cases hName : prohibitedName name = true
    · simp [hName, ne_nil_of_prohibitedName hName]
    · by_cases hFound : rangedField value = []
      · simp [hName, hFound]
      · simp [hName, hFound]

/-- The walk answers the empty string exactly when there is nothing to find. -/
theorem rangedField_eq_nil (v : Json) :
    rangedField v = [] ↔ ¬ Json.HasKey prohibitedName v := by
  induction v using Json.tree_induction with
  | scalar v hArr hObj =>
    have hScalar : rangedField v = [] := by
      cases v with
      | arr elems => exact absurd rfl (hArr elems)
      | obj ms => exact absurd rfl (hObj ms)
      | _ => rfl
    exact ⟨fun _ => Json.not_hasKey_scalar hArr hObj, fun _ => hScalar⟩
  | arr elems ih =>
    rw [rangedField, rangedElems_eq_nil, Json.hasKey_arr]
    push Not
    exact forall₂_congr ih
  | obj ms ih =>
    rw [rangedField, rangedMembers_eq_nil, Json.hasKey_obj]
    push Not
    constructor
    · intro h
      exact ⟨fun m hm => by simp [(h m hm).1], fun m hm => (ih m hm).mp (h m hm).2⟩
    · intro h m hm
      exact ⟨by simpa using h.1 m hm, (ih m hm).mpr (h.2 m hm)⟩

/-! ## The walk over the text -/

/-- The search over a list finds what is there first. -/
theorem prohibitedElems_eq {elems : List Json}
    (h : ∀ e ∈ elems, rangedField (Json.decoded e) = (prohibitedField e).getD [] ∧
      prohibitedField e ≠ some []) :
    rangedElems (Json.decodedElems elems) = (prohibitedElems elems).getD [] ∧
      prohibitedElems elems ≠ some [] := by
  induction elems with
  | nil => exact ⟨rfl, nofun⟩
  | cons e es ih =>
    obtain ⟨hHead, hHeadNe⟩ := h e List.mem_cons_self
    obtain ⟨hTail, hTailNe⟩ := ih fun e' he' => h e' (List.mem_cons_of_mem e he')
    rw [Json.decodedElems, rangedElems, prohibitedElems, hHead, hTail]
    cases hFound : prohibitedField e with
    | none => simpa using hTailNe
    | some name =>
      rw [hFound] at hHeadNe
      have hName : name ≠ [] := fun hNil => hHeadNe (hNil ▸ rfl)
      simp [hName]

/-- The search over an object's text finds what the decoded map has. -/
theorem prohibitedMembers_eq {ms : List (Text × Json)}
    (h : ∀ m ∈ ms, rangedField (Json.decoded m.2) = (prohibitedField m.2).getD [] ∧
      prohibitedField m.2 ≠ some []) :
    rangedMembers (Json.decodedMembers ms) = (prohibitedMembers ms).getD [] ∧
      prohibitedMembers ms ≠ some [] := by
  induction ms with
  | nil => exact ⟨rfl, nofun⟩
  | cons m ms ih =>
    obtain ⟨name, value⟩ := m
    obtain ⟨hHead, hHeadNe⟩ : rangedField (Json.decoded value) = (prohibitedField value).getD [] ∧
      prohibitedField value ≠ some [] := h (name, value) List.mem_cons_self
    obtain ⟨hTail, hTailNe⟩ := ih fun m' hm' => h m' (List.mem_cons_of_mem _ hm')
    rw [Json.decodedMembers, prohibitedMembers]
    by_cases hReplaced : (ms.any fun m => decide (m.1 = name)) = true
    · -- a later member of the name takes its place in the map
      rw [if_pos hReplaced, if_pos hReplaced]
      exact ⟨hTail, hTailNe⟩
    · rw [if_neg hReplaced, if_neg hReplaced, rangedMembers]
      by_cases hName : prohibitedName name = true
      · -- the name itself, found before its value is looked at
        have hNe := ne_nil_of_prohibitedName hName
        simp [hName, hNe]
      · rw [if_neg hName, if_neg hName, hHead, hTail]
        -- the value, and then the rest
        cases hFound : prohibitedField value with
        | none => simpa using hTailNe
        | some found =>
          rw [hFound] at hHeadNe
          have hFoundNe : found ≠ [] := fun hNil => hHeadNe (hNil ▸ rfl)
          simp [hFoundNe]

/-- The walk over the text is the walk over the map in the order of the text. -/
theorem rangedField_decoded (v : Json) :
    rangedField (Json.decoded v) = (prohibitedField v).getD [] ∧ prohibitedField v ≠ some [] := by
  induction v using Json.tree_induction with
  | scalar v hArr hObj =>
    cases v with
    | arr elems => exact absurd rfl (hArr elems)
    | obj ms => exact absurd rfl (hObj ms)
    | _ => exact ⟨rfl, nofun⟩
  | arr elems ih =>
    rw [Json.decoded, rangedField, prohibitedField]
    exact prohibitedElems_eq ih
  | obj ms ih =>
    rw [Json.decoded, rangedField, prohibitedField]
    exact prohibitedMembers_eq ih

/-- Nothing is found exactly if the decoded document has no such name. -/
theorem prohibitedField_eq_none (v : Json) :
    prohibitedField v = none ↔ ¬ Json.HasKey prohibitedName (Json.decoded v) := by
  obtain ⟨hRanged, hNe⟩ := rangedField_decoded v
  rw [← rangedField_eq_nil, hRanged]
  cases hFound : prohibitedField v with
  | none => simp
  | some name =>
    rw [hFound] at hNe
    simpa using hNe

/-! ## What is published -/

/-- An accepted payload is a document in which the walk finds nothing. -/
theorem validateEnvelope_ok {event : Event} {envelope : EventEnvelope}
    (h : validateEnvelope event = .ok envelope) :
    ∃ document, Json.parse event.payload = some document ∧ prohibitedField document = none := by
  simp only [validateEnvelope] at h
  cases hParse : Json.parse event.payload with
  | none =>
    rw [hParse] at h
    cases h
  | some document =>
    refine ⟨document, rfl, ?_⟩
    rw [hParse] at h
    -- the search is over the whole document, which is an object
    cases document with
    | obj ms =>
      rw [prohibitedField]
      cases hFound : prohibitedMembers ms with
      | none => rfl
      | some name =>
        simp only [bind, Except.bind, hFound] at h
        cases h
    | null => rfl
    | _ => cases h

/-- The walk over a decoded document answers the empty string exactly when no object at any
depth has a prohibited name, in whatever order it meets the members.  So an accepted payload,
and with it the body of a published message, has no such name in its decoded document; and none
at all when no object repeats a name. -/
theorem sensitive_field_refused :
    (∀ document visited, Json.Reordered (Json.decoded document) visited →
      (rangedField visited = [] ↔ ¬ Json.HasKey prohibitedName (Json.decoded document))) ∧
    (∀ event envelope document, validateEnvelope event = .ok envelope →
      Json.parse event.payload = some document →
        ¬ Json.HasKey prohibitedName (Json.decoded document) ∧
        (Json.Distinct document → ¬ Json.HasKey prohibitedName document)) ∧
    (∀ schema event message, publication schema event = .ok message →
      message.body = event.payload ∧ ∃ envelope, validateEnvelope event = .ok envelope) := by
  refine ⟨?_, ?_, ?_⟩
  · -- whatever order the maps are ranged over in
    intro document visited hOrder
    rw [rangedField_eq_nil, Json.hasKey_reordered _ visited hOrder]
  · intro event envelope document hOk hParse
    obtain ⟨document', hParse', hNone⟩ := validateEnvelope_ok hOk
    obtain rfl : document' = document := Option.some.inj (hParse'.symm.trans hParse)
    -- what is published was searched, with the last of several members of one name
    have hClean := (prohibitedField_eq_none document').mp hNone
    refine ⟨hClean, fun hDistinct => ?_⟩
    rwa [Json.decoded_of_distinct document' hDistinct] at hClean
  · intro schema event message h
    obtain ⟨envelope, hEnvelope, rfl⟩ := publication_ok h
    exact ⟨rfl, envelope, hEnvelope⟩

/-- An event whose payload has these members beside those of its envelope. -/
def eventWith (more : Text) : Event where
  eventID := "e".toList
  aggregateID := "x".toList
  merchantID := "m".toList
  merchantPosition := 1
  eventType := eventType
  payload :=
    ["\x7b\"event_id\":\"e\",", "\"event_type\":\"",
        "ledger.entry.confirmed.v1\","].flatMap String.toList ++
      more ++
      ["\"merchant_id\":\"m\",", "\"merchant_position\":1,", "\"entry_id\":\"x\",",
        "\"occurred_at\":", "\"2024-01-01T00:00:00Z\",", "\"confirmed_at\":",
        "\"2024-01-01T00:00:00Z\"\x7d"].flatMap String.toList
  occurredAt := 1704067200000000000
  createdAt := 0
  attempts := 1
  leaseOwner := []
  leaseUntil := 0

/-- The envelope of such an event. -/
def eventEnvelope : EventEnvelope :=
  ⟨"e".toList, eventType, 1704067200000000000, "m".toList, 1, "x".toList, 1704067200000000000, []⟩

theorem validateEnvelope_eventWith : validateEnvelope (eventWith []) = .ok eventEnvelope := by
  decide +kernel

/-- An event without extra members is let through. -/
theorem sensitive_field_refused_plain :
    ∃ document, Json.parse (eventWith []).payload = some document ∧
      validateEnvelope (eventWith []) = .ok eventEnvelope ∧
      ¬ Json.HasKey prohibitedName (Json.decoded document) := by
  have hOk := validateEnvelope_eventWith
  obtain ⟨document, hParse, -⟩ := validateEnvelope_ok hOk
  exact ⟨document, hParse, hOk, (sensitive_field_refused.2.1 _ _ document hOk hParse).1⟩

/-- A member that a later one of the same name replaces is not looked into, and stays in the
text that is sent. -/
def replacedMember : Text :=
  ["\"entry_type\":", "\x7b\"password\":\"p\"\x7d,", "\"entry_type\":",
    "\"credit\","].flatMap String.toList

/-- A name that a later member replaces is not in the decoded map. -/
theorem replaced_member_accepted :
    ∃ document, Json.parse (eventWith replacedMember).payload = some document ∧
      Json.HasKey prohibitedName document ∧
      validateEnvelope (eventWith replacedMember) = .ok eventEnvelope := by
  have hOk : validateEnvelope (eventWith replacedMember) = .ok eventEnvelope := by decide +kernel
  have hFound : (Json.parse (eventWith replacedMember).payload).any
      (fun document => decide (rangedField document ≠ [])) = true := by decide +kernel
  cases hParse : Json.parse (eventWith replacedMember).payload with
  | none =>
    rw [hParse] at hFound
    cases hFound
  | some document =>
    rw [hParse] at hFound
    refine ⟨document, rfl, not_not.mp fun h => ?_, hOk⟩
    exact of_decide_eq_true hFound ((rangedField_eq_nil document).mpr h)

end Cashflow.Outbox
