import Cashflow.Lib.JsonNumber
import Cashflow.Lib.JsonTree

/-!
# JsonRender — the text of a document

`render` writes a document of any nesting without white space, with strings
escaped as in `renderObject`.

Main result: `parse_render` — the document is read back from its text, as long as
its numbers are numbers.
-/

namespace Lib

namespace Json

mutual

def render : Json → Text
  | .null => "null".toList
  | .bool true => "true".toList
  | .bool false => "false".toList
  | .num literal => literal
  | .str s => quote s
  | .arr elems => '[' :: renderElems elems
  | .obj ms => '{' :: renderFields ms

/-- The elements of an array and its closing bracket. -/
def renderElems : List Json → Text
  | [] => [']']
  | [v] => render v ++ [']']
  | v :: w :: vs => render v ++ ',' :: renderElems (w :: vs)

/-- The members of an object and its closing brace. -/
def renderFields : List (Text × Json) → Text
  | [] => ['}']
  | [(name, v)] => quote name ++ ':' :: render v ++ ['}']
  | (name, v) :: m :: ms => quote name ++ ':' :: render v ++ ',' :: renderFields (m :: ms)

end

/-- Every number in the document is one. -/
def Numerals (v : Json) : Prop := ∀ literal, Within (.num literal) v → Numeral literal

/-! ## Reading it back -/

/-- The first character of a number is a sign or a digit. -/
theorem head_numeral {literal : Text} (h : Numeral literal) :
    ∃ c r, literal = c :: r ∧ (c = '-' ∨ c.isDigit = true) := by
  cases literal with
  | nil => cases h
  | cons c r =>
    refine ⟨c, r, rfl, ?_⟩
    by_contra hNot
    rw [not_or] at hNot
    -- a text that starts with neither sign nor digit has no integer part
    have hSign : (signPart (c :: r)).2 = c :: r := by
      rw [signPart.eq_def]
      split
      · rename_i heq
        cases heq
        exact absurd rfl hNot.1
      · rfl
    have hZero : c ≠ '0' := by
      rintro rfl
      exact hNot.2 rfl
    have hNone : integerPart (c :: r) = none := by
      rw [integerPart_cons hZero, List.span_eq_takeWhile_dropWhile]
      simp [hNot.2]
    rw [Numeral, parseNumber, hSign, hNone] at h
    cases h

/-- A value starts with neither white space nor a closing bracket. -/
theorem head_render {v : Json} (h : Numerals v) :
    ∃ c r, render v = c :: r ∧ isSpace c = false ∧ c ≠ ']' := by
  cases v with
  | null => exact ⟨'n', _, rfl, by decide, by decide⟩
  | bool b =>
    cases b with
    | true => exact ⟨'t', _, rfl, by decide, by decide⟩
    | false => exact ⟨'f', _, rfl, by decide, by decide⟩
  | num literal =>
    obtain ⟨c, r, hText, hc⟩ := head_numeral (h literal .refl)
    refine ⟨c, r, hText, ?_, ?_⟩
    · refine Bool.eq_false_iff.mpr fun hSpace => ?_
      simp only [isSpace, Bool.or_eq_true, decide_eq_true_eq] at hSpace
      rcases hSpace with ((rfl | rfl) | rfl) | rfl <;> rcases hc with hc | hc <;> cases hc
    · rintro rfl
      rcases hc with hc | hc <;> cases hc
  | str s => exact ⟨'"', _, rfl, by decide, by decide⟩
  | arr elems => exact ⟨'[', _, rfl, by decide, by decide⟩
  | obj ms => exact ⟨'{', _, rfl, by decide, by decide⟩

/-- A numeral is read as a number, up to what ends it. -/
theorem parseValue_number {literal rest : Text} (h : Numeral literal) (hEnds : Ends rest)
    (fuel : Nat) : parseValue (fuel + 1) (literal ++ rest) = some (.num literal, rest) := by
  have hNumber := parseNumber_append h hEnds
  obtain ⟨c, r, hText, hSpace, -⟩ := @head_render (.num literal) (by rintro l ⟨⟩; exact h)
  obtain ⟨c', r', hText', hc⟩ := head_numeral h
  rw [render, hText'] at hText
  cases hText
  rw [hText', List.nil_append, List.cons_append] at hNumber
  rw [hText', List.cons_append, parseValue.eq_def]
  simp only [skipSpace_cons hSpace]
  split
  -- no other kind of value starts with a sign or a digit
  all_goals first
    | (rename_i heq
       cases heq
       rcases hc with hc | hc <;> cases hc)
    | (rw [hNumber]
       rfl)

/-- How a value is read back wherever it stands. -/
def ReadsBack (v : Json) : Prop :=
  ∀ fuel rest, (render v).length ≤ fuel → Ends rest →
    parseValue fuel (render v ++ rest) = some (v, rest)

/-- The text of elements is that of the first one, ended by the bracket or by the comma before the
others. -/
theorem renderElems_cons (v : Json) (vs : List Json) (rest : Text) :
    ∃ tail, renderElems (v :: vs) ++ rest = render v ++ tail ∧ Ends tail ∧
      ((vs = [] ∧ tail = ']' :: rest) ∨ (vs ≠ [] ∧ tail = ',' :: (renderElems vs ++ rest))) := by
  cases vs with
  | nil =>
    refine ⟨']' :: rest, ?_, .inr ⟨_, _, rfl, .inr (.inr rfl)⟩, .inl ⟨rfl, rfl⟩⟩
    simp [renderElems]
  | cons w vs =>
    refine ⟨',' :: (renderElems (w :: vs) ++ rest), ?_, .inr ⟨_, _, rfl, .inl rfl⟩,
      .inr ⟨by simp, rfl⟩⟩
    simp [renderElems]

/-- The same for members. -/
theorem renderFields_cons (name : Text) (v : Json) (ms : List (Text × Json)) (rest : Text) :
    ∃ tail, renderFields ((name, v) :: ms) ++ rest = quote name ++ ':' :: (render v ++ tail) ∧
      Ends tail ∧
      ((ms = [] ∧ tail = '}' :: rest) ∨ (ms ≠ [] ∧ tail = ',' :: (renderFields ms ++ rest))) := by
  cases ms with
  | nil =>
    refine ⟨'}' :: rest, ?_, .inr ⟨_, _, rfl, .inr (.inl rfl)⟩, .inl ⟨rfl, rfl⟩⟩
    simp [renderFields]
  | cons m ms =>
    refine ⟨',' :: (renderFields (m :: ms) ++ rest), ?_, .inr ⟨_, _, rfl, .inl rfl⟩,
      .inr ⟨by simp, rfl⟩⟩
    simp [renderFields]

/-- Elements are read back one by one, with the length of their text as fuel. -/
theorem parseElems_render {vs : List Json} (hNe : vs ≠ []) (h : ∀ v ∈ vs, ReadsBack v) {fuel : Nat}
    (hFuel : (renderElems vs).length ≤ fuel) (rest : Text) :
    parseElems fuel (renderElems vs ++ rest) = some (vs, rest) := by
  induction vs generalizing fuel with
  | nil => exact absurd rfl hNe
  | cons v vs ih =>
    obtain ⟨tail, hText, hEnds, hTail⟩ := renderElems_cons v vs rest
    obtain ⟨fuel, rfl⟩ : ∃ k, fuel = k + 1 :=
      ⟨fuel - 1, by cases vs <;> simp [renderElems] at hFuel <;> omega⟩
    have hLength := congrArg List.length hText
    rw [hText, parseElems]
    -- the last element is ended by the bracket; behind any other the loop goes on
    rcases hTail with ⟨rfl, rfl⟩ | ⟨hMore, rfl⟩
    · simp only [List.length_append, List.length_cons] at hLength
      rw [h v List.mem_cons_self fuel _ (by omega) hEnds]
      simp only [Option.bind_eq_bind, Option.bind_some, skipSpace_cons (show isSpace ']' = false by decide)]
    · simp only [List.length_append, List.length_cons] at hLength
      rw [h v List.mem_cons_self fuel _ (by omega) hEnds]
      have hRest := @ih hMore (fun w hw => h w (List.mem_cons_of_mem v hw)) fuel (by omega)
      simp only [Option.bind_eq_bind, Option.bind_some, hRest, Option.map_some,
        skipSpace_cons (show isSpace ',' = false by decide)]

/-- And members are. -/
theorem parseMembers_renderFields {ms : List (Text × Json)} (hNe : ms ≠ [])
    (h : ∀ m ∈ ms, ReadsBack m.2) {fuel : Nat} (hFuel : (renderFields ms).length ≤ fuel)
    (rest : Text) : parseMembers fuel (renderFields ms ++ rest) = some (ms, rest) := by
  induction ms generalizing fuel with
  | nil => exact absurd rfl hNe
  | cons m ms ih =>
    obtain ⟨name, v⟩ := m
    obtain ⟨tail, hText, hEnds, hTail⟩ := renderFields_cons name v ms rest
    have hLength := congrArg List.length hText
    simp only [quote, List.length_append, List.length_cons] at hLength
    have hValue : ReadsBack v := h (name, v) List.mem_cons_self
    rw [hText]
    simp only [quote, List.cons_append, List.append_assoc, List.nil_append]
    -- the last member is ended by the brace; behind any other the loop goes on
    rcases hTail with ⟨rfl, rfl⟩ | ⟨hMore, rfl⟩
    · simp only [List.length_cons] at hLength
      obtain ⟨fuel, rfl⟩ : ∃ k, fuel = k + 1 := ⟨fuel - 1, by omega⟩
      rw [parseMembers, skipSpace_cons (by decide)]
      simp only [expect_self, parseString_quote, Option.bind_eq_bind, Option.bind_some,
        skipSpace_cons (show isSpace ':' = false by decide), hValue fuel _ (by omega) hEnds,
        skipSpace_cons (show isSpace '}' = false by decide)]
    · simp only [List.length_cons, List.length_append] at hLength
      obtain ⟨fuel, rfl⟩ : ∃ k, fuel = k + 1 := ⟨fuel - 1, by omega⟩
      have hRest := @ih hMore (fun m hm => h m (List.mem_cons_of_mem _ hm)) fuel (by omega)
      rw [parseMembers, skipSpace_cons (by decide)]
      simp only [expect_self, parseString_quote, Option.bind_eq_bind, Option.bind_some,
        skipSpace_cons (show isSpace ':' = false by decide), hValue fuel _ (by omega) hEnds,
        skipSpace_cons (show isSpace ',' = false by decide), hRest, Option.map_some]

/-- Scalars are read back. -/
theorem readsBack_scalar {v : Json} (hArr : ∀ elems, v ≠ .arr elems) (hObj : ∀ ms, v ≠ .obj ms)
    (h : Numerals v) : ReadsBack v := by
  intro fuel rest hFuel hEnds
  obtain ⟨c, r, hText, -, -⟩ := head_render h
  obtain ⟨fuel, rfl⟩ : ∃ k, fuel = k + 1 := ⟨fuel - 1, by simp [hText] at hFuel; omega⟩
  cases v with
  | null =>
    show parseValue (fuel + 1) ('n' :: 'u' :: 'l' :: 'l' :: rest) = some (.null, rest)
    rw [parseValue, skipSpace_cons (by decide)]
    simp [keyword]
  | bool b =>
    cases b with
    | true =>
      show parseValue (fuel + 1) ('t' :: 'r' :: 'u' :: 'e' :: rest) = some (.bool true, rest)
      rw [parseValue, skipSpace_cons (by decide)]
      simp [keyword]
    | false =>
      show parseValue (fuel + 1) ('f' :: 'a' :: 'l' :: 's' :: 'e' :: rest) = some (.bool false, rest)
      rw [parseValue, skipSpace_cons (by decide)]
      simp [keyword]
  | num literal => exact parseValue_number (h literal .refl) hEnds fuel
  | str s =>
    simp only [render, quote, List.cons_append, List.append_assoc]
    rw [parseValue, skipSpace_cons (by decide)]
    simp only [parseString_quote, Option.map_some, List.nil_append]
  | arr elems => exact absurd rfl (hArr elems)
  | obj ms => exact absurd rfl (hObj ms)

/-- An array is read back if its elements are. -/
theorem readsBack_arr {elems : List Json} (hElems : ∀ e ∈ elems, ReadsBack e)
    (h : ∀ e ∈ elems, Numerals e) : ReadsBack (.arr elems) := by
  intro fuel rest hFuel hEnds
  simp only [render, List.length_cons, List.cons_append] at hFuel ⊢
  obtain ⟨fuel, rfl⟩ : ∃ k, fuel = k + 1 := ⟨fuel - 1, by omega⟩
  rw [parseValue, skipSpace_cons (by decide)]
  cases elems with
  | nil =>
    simp only [renderElems, List.cons_append, List.nil_append,
      skipSpace_cons (show isSpace ']' = false by decide)]
  | cons v vs =>
    have hRead := parseElems_render (List.cons_ne_nil v vs) hElems
      (show (renderElems (v :: vs)).length ≤ fuel by omega) rest
    simp only [hRead, Option.map_some]
    split
    · -- the text of an element starts with no closing bracket
      rename_i r heq
      obtain ⟨tail, hText, -, -⟩ := renderElems_cons v vs rest
      obtain ⟨c, r', hHead, hSpace, hBracket⟩ := head_render (h v List.mem_cons_self)
      rw [hText, hHead, List.cons_append, skipSpace_cons hSpace] at heq
      exact absurd (List.cons.inj heq).1 hBracket
    · rfl

/-- An object is read back if its values are. -/
theorem readsBack_obj {ms : List (Text × Json)} (hMembers : ∀ m ∈ ms, ReadsBack m.2) :
    ReadsBack (.obj ms) := by
  intro fuel rest hFuel hEnds
  simp only [render, List.length_cons, List.cons_append] at hFuel ⊢
  obtain ⟨fuel, rfl⟩ : ∃ k, fuel = k + 1 := ⟨fuel - 1, by omega⟩
  rw [parseValue, skipSpace_cons (by decide)]
  cases ms with
  | nil =>
    simp only [renderFields, List.cons_append, List.nil_append,
      skipSpace_cons (show isSpace '}' = false by decide)]
  | cons m ms =>
    have hRead := parseMembers_renderFields (List.cons_ne_nil m ms) hMembers
      (show (renderFields (m :: ms)).length ≤ fuel by omega) rest
    simp only [hRead, Option.map_some]
    split
    · -- the text of a member starts with a quote, not with the closing brace
      rename_i r heq
      obtain ⟨tail, hText, -, -⟩ := renderFields_cons m.1 m.2 ms rest
      rw [hText, quote, List.cons_append, List.cons_append, skipSpace_cons (by decide)] at heq
      cases heq
    · rfl

/-- So every tree whose numbers are numerals is read back, by induction over it. -/
theorem readsBack (v : Json) (h : Numerals v) : ReadsBack v := by
  induction v using tree_induction with
  | scalar v hArr hObj => exact readsBack_scalar hArr hObj h
  | arr elems ih =>
    have hElems : ∀ e ∈ elems, Numerals e := fun e he l hl => h l (.elem he hl)
    exact readsBack_arr (fun e he => ih e he (hElems e he)) hElems
  | obj ms ih => exact readsBack_obj fun m hm => ih m hm fun l hl => h l (.member hm hl)

/-- What is written is read back. -/
theorem parse_render {v : Json} (h : Numerals v) : parse (render v) = some v := by
  have hValue := readsBack v h ((render v).length + 1) [] (by omega) (.inl rfl)
  rw [List.append_nil] at hValue
  rw [parse, hValue]
  rfl

end Json

end Lib
