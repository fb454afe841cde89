import Cashflow.Lib.Json

/-!
# JsonTree — documents as trees

What a JSON document looks like once it is decoded into maps: of several members of one name in
an object the last one stays (`decoded`), and a map is visited in no fixed order (`Reordered`).
`HasKey p v` says that an object at some depth of `v` has a key with `p`; it does not depend on
the order (`hasKey_reordered`).
-/

namespace Lib

namespace Json

/-- Induction over the elements and the members. -/
theorem tree_induction {motive : Json → Prop}
    (scalar : ∀ v, (∀ elems, v ≠ .arr elems) → (∀ ms, v ≠ .obj ms) → motive v)
    (arr : ∀ elems, (∀ e ∈ elems, motive e) → motive (.arr elems))
    (obj : ∀ ms, (∀ m ∈ ms, motive m.2) → motive (.obj ms)) : ∀ v, motive v
  | .null => scalar _ nofun nofun
  | .bool _ => scalar _ nofun nofun
  | .num _ => scalar _ nofun nofun
  | .str _ => scalar _ nofun nofun
  | .arr elems => arr elems fun e _ => tree_induction scalar arr obj e
  | .obj ms => obj ms fun m hm => by
    have hSmaller : sizeOf m.2 < sizeOf m := by
      cases m
      simp +arith
    have hMember := List.sizeOf_lt_of_mem hm
    exact tree_induction scalar arr obj m.2

/-! ## Keys at any depth -/

/-- A value occurs in another, at any depth. -/
inductive Within (w : Json) : Json → Prop
  | refl : Within w w
  | elem {elems : List Json} {e : Json} : e ∈ elems → Within w e → Within w (.arr elems)
  | member {ms : List (Text × Json)} {m : Text × Json} :
      m ∈ ms → Within w m.2 → Within w (.obj ms)

variable {p : Text → Bool}

/-- An object at some depth has a key with `p`. -/
def HasKey (p : Text → Bool) (v : Json) : Prop :=
  ∃ ms, Within (.obj ms) v ∧ ∃ m ∈ ms, p m.1 = true

/-- No object at any depth repeats a name. -/
def Distinct (v : Json) : Prop := ∀ ms, Within (.obj ms) v → (ms.map Prod.fst).Nodup

/-- A scalar has no names. -/
theorem not_hasKey_scalar {v : Json} (hArr : ∀ elems, v ≠ .arr elems) (hObj : ∀ ms, v ≠ .obj ms) :
    ¬ HasKey p v := by
  rintro ⟨ms, hWithin, -⟩
  cases hWithin with
  | refl => exact hObj ms rfl
  | elem _ _ => exact hArr _ rfl
  | member _ _ => exact hObj _ rfl

/-- The names in an array are those in its elements. -/
theorem hasKey_arr {elems : List Json} : HasKey p (.arr elems) ↔ ∃ e ∈ elems, HasKey p e := by
  constructor
  · rintro ⟨ms, hWithin, hKey⟩
    cases hWithin with
    | elem he hWithin => exact ⟨_, he, ms, hWithin, hKey⟩
  · rintro ⟨e, he, ms, hWithin, hKey⟩
    exact ⟨ms, .elem he hWithin, hKey⟩

/-- The names in an object are its own and those in its values. -/
theorem hasKey_obj {ms : List (Text × Json)} :
    HasKey p (.obj ms) ↔ (∃ m ∈ ms, p m.1 = true) ∨ ∃ m ∈ ms, HasKey p m.2 := by
  constructor
  · rintro ⟨ms', hWithin, hKey⟩
    cases hWithin with
    | refl => exact .inl hKey
    | member hm hWithin => exact .inr ⟨_, hm, ms', hWithin, hKey⟩
  · rintro (hKey | ⟨m, hm, ms', hWithin, hKey⟩)
    · exact ⟨ms, .refl, hKey⟩
    · exact ⟨ms', .member hm hWithin, hKey⟩

/-! ## Decoding into maps -/

mutual

/-- The document as maps hold it: a later member replaces an earlier one of the same name. -/
def decoded : Json → Json
  | .obj ms => .obj (decodedMembers ms)
  | .arr elems => .arr (decodedElems elems)
  | v => v

def decodedMembers : List (Text × Json) → List (Text × Json)
  | [] => []
  | (name, value) :: ms =>
    if ms.any fun m => m.1 = name then decodedMembers ms
    else (name, decoded value) :: decodedMembers ms

def decodedElems : List Json → List Json
  | [] => []
  | e :: es => decoded e :: decodedElems es

end

/-- A scalar is decoded as it is. -/
theorem decoded_scalar {v : Json} (hArr : ∀ elems, v ≠ .arr elems) (hObj : ∀ ms, v ≠ .obj ms) :
    decoded v = v := by
  cases v with
  | arr elems => exact absurd rfl (hArr elems)
  | obj ms => exact absurd rfl (hObj ms)
  | _ => rfl

/-- So are elements of which each is. -/
theorem decodedElems_eq {elems : List Json} (h : ∀ e ∈ elems, decoded e = e) :
    decodedElems elems = elems := by
  induction elems with
  | nil => rfl
  | cons e es ih =>
    rw [decodedElems, h e List.mem_cons_self, ih fun e' he' => h e' (List.mem_cons_of_mem e he')]

/-- And members, if no name occurs twice. -/
theorem decodedMembers_eq {ms : List (Text × Json)} (hNames : (ms.map Prod.fst).Nodup)
    (h : ∀ m ∈ ms, decoded m.2 = m.2) : decodedMembers ms = ms := by
  induction ms with
  | nil => rfl
  | cons m ms ih =>
    obtain ⟨name, value⟩ := m
    rw [List.map_cons, List.nodup_cons] at hNames
    have hLast : (ms.any fun m => decide (m.1 = name)) = false := by
      refine List.any_eq_false.mpr fun m hm hName => hNames.1 ?_
      exact List.mem_map.mpr ⟨m, hm, of_decide_eq_true hName⟩
    rw [decodedMembers, hLast, ih hNames.2 fun m hm => h m (List.mem_cons_of_mem _ hm)]
    have hValue : decoded value = value := h (name, value) List.mem_cons_self
    rw [hValue]
    rfl

/-- A document without repeated names is decoded as it stands. -/
theorem decoded_of_distinct (v : Json) (h : Distinct v) : decoded v = v := by
  induction v using tree_induction with
  | scalar v hArr hObj => exact decoded_scalar hArr hObj
  | arr elems ih =>
    rw [decoded, decodedElems_eq fun e he => ih e he fun ms hms => h ms (.elem he hms)]
  | obj ms ih =>
    rw [decoded, decodedMembers_eq (h ms .refl) fun m hm =>
      ih m hm fun ms' hms' => h ms' (.member hm hms')]

/-! ## Orders -/

/-- The same document with the members of every object in another order. -/
inductive Reordered : Json → Json → Prop
  | refl (v : Json) : Reordered v v
  | arr {elems elems' : List Json} :
      List.Forall₂ Reordered elems elems' → Reordered (.arr elems) (.arr elems')
  | obj {ms ms₁ ms' : List (Text × Json)} :
      ms.map Prod.fst = ms₁.map Prod.fst →
      List.Forall₂ Reordered (ms.map Prod.snd) (ms₁.map Prod.snd) →
      ms₁.Perm ms' → Reordered (.obj ms) (.obj ms')

/-- Values that agree one by one agree on whether one of them has the property. -/
theorem exists_forall₂ {α : Type} {R : α → α → Prop} {P : α → Prop} {l l' : List α}
    (hList : List.Forall₂ R l l') (h : ∀ a ∈ l, ∀ b, R a b → (P a ↔ P b)) :
    (∃ a ∈ l, P a) ↔ ∃ b ∈ l', P b := by
  induction hList with
  | nil => simp
  | @cons a b l l' hHead _ ih =>
    have hTail := ih fun a' ha' => h a' (List.mem_cons_of_mem a ha')
    rw [List.exists_mem_cons_iff, List.exists_mem_cons_iff, hTail,
      h a List.mem_cons_self b hHead]

/-- The names and the values of an object, each on its own. -/
theorem hasKey_obj_lists {ms : List (Text × Json)} :
    HasKey p (.obj ms) ↔
      (∃ name ∈ ms.map Prod.fst, p name = true) ∨ ∃ v ∈ ms.map Prod.snd, HasKey p v := by
  rw [hasKey_obj]
  simp only [List.mem_map, exists_exists_and_eq_and]

/-- The order of members does not change which names occur. -/
theorem hasKey_reordered (v : Json) : ∀ w, Reordered v w → (HasKey p v ↔ HasKey p w) := by
  induction v using tree_induction with
  | scalar v hArr hObj =>
    intro w h
    cases h with
    | refl => rfl
    | arr _ => exact absurd rfl (hArr _)
    | obj _ _ _ => exact absurd rfl (hObj _)
  | arr elems ih =>
    intro w h
    cases h with
    | refl => rfl
    | arr hElems =>
      rw [hasKey_arr, hasKey_arr]
      exact exists_forall₂ hElems fun e he w hw => ih e he w hw
  | obj ms ih =>
    intro w h
    cases h with
    | refl => rfl
    | @obj _ ms₁ ms' hNames hValues hPerm =>
      -- first the values in place, then the order of the members
      have hValue : (∃ v ∈ ms.map Prod.snd, HasKey p v) ↔ ∃ v ∈ ms₁.map Prod.snd, HasKey p v := by
        refine exists_forall₂ hValues fun v hv w hw => ?_
        obtain ⟨m, hm, rfl⟩ := List.mem_map.mp hv
        exact ih m hm w hw
      rw [hasKey_obj_lists, hasKey_obj_lists, hNames, hValue]
      simp only [(hPerm.map Prod.fst).mem_iff, (hPerm.map Prod.snd).mem_iff]

end Json

end Lib
