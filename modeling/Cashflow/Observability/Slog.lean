import Cashflow.Observability.Redact

/-!
# Redact — the log handler

`internal/platform/observability/redact/slog.go`: `Handler` scrubs every attribute before it
passes it on.  Three walkers follow one another: `scrubAttr` over attributes and their groups,
`sanitizeSlogValue` over what a `LogValuer` answers, and `sanitizeReflect` over data.

What an `any` holds is reached through references into a heap, so data may be cyclic through
structs, maps and slices.  Chains of pointers are finite, and so are the attributes and the
answers of `LogValuer`s.  A walk that would not end stops for want of fuel, whatever the fuel.
`sanitizeAny` calls `LogValue` and `String` itself, and recovers nothing: where one of them
panics, so does the call of the handler, and nothing is passed on.

Main results:
* `sanitizeAny_lands` — the walk over data ends on every heap, and what it emits is clean;
* `height_sanitizeAny` — and without `LogValuer`s it is at most as high as the cut-off allows;
* `passed_on_clean` — so is all that the handler passes on.
-/

namespace Cashflow.Redact

open Lib

/-! ## What is logged -/

/-- The values the handler leaves as they are. -/
inductive Scalar where
  | bool (b : Bool)
  | int (n : Int64)
  | uint (n : UInt64)
  | float (bits : UInt64)
  | duration (nanoseconds : Int64)
  | time (nanoseconds : Int)
deriving DecidableEq, Repr

/-- A `slog.Value`; what an `any` holds is a reference. -/
inductive SlogValue (ρ : Type) where
  | group (members : List (Text × SlogValue ρ))
  | any (value : ρ)
  | string (s : Text)
  | scalar (s : Scalar)
  | logValuer (answer : SlogValue ρ)
  /-- a `LogValuer` that panics -/
  | panics

/-- A value whose `LogValuer`s have answered; `failed` is an `any` that holds the error `Resolve`
makes of one that panics or has to be asked too often. -/
inductive Resolved (ρ : Type) where
  | group (members : List (Text × SlogValue ρ))
  | any (value : ρ)
  | string (s : Text)
  | scalar (s : Scalar)
  | failed

/-- A field of a struct. -/
structure Field (ρ : Type) where
  name : Text
  exported : Bool
  canInterface : Bool
  /-- the `json` part of its tag, empty when there is none -/
  tag : Text
  value : ρ

/-- Data as `reflect` sees it; `none` stands for a value that must not be taken out. -/
inductive Data (ρ : Type) where
  | nilPointer
  | pointer (target : Data ρ)
  | string (s : Text)
  | scalar (s : Scalar)
  | bytes (s : Text)
  | items (elems : List (Option ρ))
  | map (entries : List (Option Text × Option ρ))
  | struct (fields : List (Field ρ))
  | other (sprint : Option Text)

/-- What an `any` holds, by the first of the tests of `sanitizeAny` that it passes. -/
inductive GoValue (ρ : Type) where
  | nil
  | error
  | logValuer (answer : SlogValue ρ)
  | stringer (text : Text)
  /-- a `LogValuer` or `Stringer` whose method panics, as on a nil pointer -/
  | panics
  | data (d : Data ρ)

/-- Why a walk has no result: its bound is reached, or a panic that it does not recover. -/
inductive Stop where
  | fuel
  | panicked
deriving DecidableEq, Repr

/-- What is passed on. -/
inductive Emitted where
  | nil
  | text (s : Text)
  | scalar (s : Scalar)
  | items (elems : List Emitted)
  | entries (entries : List (Text × Emitted))
  | group (members : List (Text × Emitted))

/-- An assignment to an entry of a map. -/
def put (entries : List (Text × Emitted)) (name : Text) (v : Emitted) : List (Text × Emitted) :=
  entries.filter (fun e => e.1 ≠ name) ++ [(name, v)]

/-! ## The walkers -/

/-- The calls of `LogValue` that `Resolve` makes at most. -/
def maxLogValues : Nat := 100

def SlogValue.resolveWithin {ρ : Type} : Nat → SlogValue ρ → Resolved ρ
  | 0, _ => .failed
  | n + 1, .logValuer answer => resolveWithin n answer
  | _ + 1, .panics => .failed
  | _ + 1, .group members => .group members
  | _ + 1, .any value => .any value
  | _ + 1, .string s => .string s
  | _ + 1, .scalar s => .scalar s

/-- `Value.Resolve` -/
def SlogValue.resolve {ρ : Type} (v : SlogValue ρ) : Resolved ρ := v.resolveWithin maxLogValues

/-- The members of a group are smaller than what resolved to it. -/
theorem SlogValue.sizeOf_members {ρ : Type} {members : List (Text × SlogValue ρ)} (n : Nat) :
    ∀ v : SlogValue ρ, v.resolveWithin n = .group members → sizeOf members < sizeOf v := by
  induction n with
  | zero =>
    intro v h
    cases h
  | succ n ih =>
    intro v h
    cases v with
    | logValuer answer =>
      have hAnswer := ih answer h
      rw [logValuer.sizeOf_spec]
      omega
    | group members' =>
      cases h
      rw [group.sizeOf_spec]
      omega
    | _ => cases h

section Walkers

variable {ρ : Type} (any : Nat → ρ → Except Stop Emitted)

mutual

/-- `sanitizeSlogValue(value.Resolve(), depth)`; `any` is `sanitizeAny`. -/
def sanitizeSlogValue (depth : Nat) (value : SlogValue ρ) : Except Stop Emitted :=
  match h : value.resolve with
  | .group members => (sanitizeMembers depth members []).map .entries
  | .any v => any (depth + 1) v
  | .failed => .ok (.text placeholder)
  | .string s => .ok (.text (string s))
  | .scalar s => .ok (.scalar s)
termination_by sizeOf value
decreasing_by exact SlogValue.sizeOf_members maxLogValues value h

/-- The members of a group, one after another into a map. -/
def sanitizeMembers (depth : Nat) (members : List (Text × SlogValue ρ))
    (safe : List (Text × Emitted)) : Except Stop (List (Text × Emitted)) :=
  match members with
  | [] => .ok safe
  | (key, value) :: rest =>
    -- the value of a sensitive name is not looked at
    if isSensitiveKey key then sanitizeMembers depth rest (put safe key (.text placeholder))
    else do
      let v ← sanitizeSlogValue (depth + 1) value
      sanitizeMembers depth rest (put safe key v)
termination_by sizeOf members

end

/-- The target of a chain of pointers, or `none` for a nil one. -/
def Data.elem : Data ρ → Option (Data ρ)
  | .nilPointer => none
  | .pointer target => target.elem
  | d => some d

/-- The name a field is emitted under; `none` when it is left out. -/
def Field.emittedName (f : Field ρ) : Option Text :=
  if !f.exported || !f.canInterface then none
  else
    let jsonName := f.tag.takeWhile (· ≠ ',')
    let found := f.tag.contains ','
    if found || jsonName ≠ [] then
      if jsonName = "-".toList then none
      else if jsonName ≠ [] then some jsonName else some f.name
    else some f.name

/-- An element of a slice or an array. -/
def sanitizeItem (depth : Nat) : Option ρ → Except Stop Emitted
  | some v => any (depth + 1) v
  | none => .ok (.text placeholder)

/-- A named value, put into the map of its siblings. -/
def sanitizeNamed (depth : Nat) (safe : List (Text × Emitted)) (name : Text) (value : Option ρ) :
    Except Stop (List (Text × Emitted)) :=
  if isSensitiveKey name then .ok (put safe name (.text placeholder))
  else (sanitizeItem any depth value).map (put safe name)

def sanitizeEntry (depth : Nat) (safe : List (Text × Emitted)) (entry : Option Text × Option ρ) :
    Except Stop (List (Text × Emitted)) :=
  match entry.1 with
  | none => .ok safe
  | some name => sanitizeNamed any depth safe name entry.2

def sanitizeField (depth : Nat) (safe : List (Text × Emitted)) (f : Field ρ) :
    Except Stop (List (Text × Emitted)) :=
  match f.emittedName with
  | none => .ok safe
  | some name => sanitizeNamed any depth safe name (some f.value)

/-- `sanitizeReflect` -/
def sanitizeReflect (depth : Nat) (value : Data ρ) : Except Stop Emitted :=
  -- what is nested deeper is not shown
  if 16 < depth then .ok (.text placeholder)
  else
    match value.elem with
    | none => .ok .nil
    | some (.string s) => .ok (.text (string s))
    | some (.scalar s) => .ok (.scalar s)
    -- bytes are shown as a string is
    | some (.bytes s) => .ok (.text (string s))
    | some (.items elems) => (elems.mapM (sanitizeItem any depth)).map .items
    | some (.map entries) => (entries.foldlM (sanitizeEntry any depth) []).map .entries
    | some (.struct fields) => (fields.foldlM (sanitizeField any depth) []).map .entries
    | some (.other (some sprint)) => .ok (.text (string sprint))
    -- what cannot be printed is not shown
    | some _ => .ok (.text placeholder)

end Walkers

section Handler

variable {ρ : Type} (heap : ρ → GoValue ρ)

/-- `sanitizeAny`, with a bound on how deep its calls may nest. -/
def sanitizeAny : Nat → Nat → ρ → Except Stop Emitted
  | 0, _, _ => .error .fuel
  | fuel + 1, depth, v =>
    match heap v with
    | .nil => .ok .nil
    | value =>
      if 16 < depth then .ok (.text placeholder)
      else
        match value with
        | .logValuer answer => sanitizeSlogValue (sanitizeAny fuel) (depth + 1) answer
        | .stringer text => .ok (.text (string text))
        | .panics => .error .panicked
        | .data d => sanitizeReflect (sanitizeAny fuel) depth d
        -- an error, whatever it says
        | _ => .ok (.text placeholder)

mutual

/-- `scrubAttr`; the value of a sensitive name is resolved as well, and not looked at. -/
def scrubAttr (fuel : Nat) (key : Text) (value : SlogValue ρ) : Except Stop (Text × Emitted) :=
  if isSensitiveKey key then .ok (key, .text placeholder)
  else
    match _h : value.resolve with
    | .group members => (scrubAttrs fuel members).map fun ms => (key, .group ms)
    | .string s => .ok (key, .text (string s))
    | .any v => (sanitizeAny heap fuel 0 v).map fun out => (key, out)
    -- a value whose `LogValue` failed
    | .failed => .ok (key, .text placeholder)
    | .scalar s => .ok (key, .scalar s)
termination_by sizeOf value
decreasing_by exact SlogValue.sizeOf_members maxLogValues value _h

def scrubAttrs (fuel : Nat) (attrs : List (Text × SlogValue ρ)) :
    Except Stop (List (Text × Emitted)) :=
  match attrs with
  | [] => .ok []
  | (key, value) :: rest => do
    let attr ← scrubAttr fuel key value
    let attrs ← scrubAttrs fuel rest
    .ok (attr :: attrs)
termination_by sizeOf attrs

end

/-- A call of the handler. -/
inductive HandlerCall (ρ : Type) where
  | handle (message : Text) (attrs : List (Text × SlogValue ρ))
  | withAttrs (attrs : List (Text × SlogValue ρ))
  | withGroup (name : Text)

/-- What the handler calls on the one it wraps. -/
inductive InnerCall where
  | handle (message : Text) (attrs : List (Text × Emitted))
  | withAttrs (attrs : List (Text × Emitted))
  | withGroup (name : Text)

def Handler.pass (fuel : Nat) : HandlerCall ρ → Except Stop InnerCall
  | .handle message attrs => (scrubAttrs heap fuel attrs).map (.handle (string message))
  | .withAttrs attrs => (scrubAttrs heap fuel attrs).map .withAttrs
  | .withGroup name => .ok (.withGroup name)

end Handler

/-! ## Clean values -/

/-- The entries with a sensitive name hold the placeholder. -/
def Kept (entries : List (Text × Emitted)) : Prop :=
  ∀ e ∈ entries, isSensitiveKey e.1 = true → e.2 = .text placeholder

/-- Every string is the placeholder or a result of `String`, and what has a sensitive name is the
placeholder, at every depth. -/
inductive Clean : Emitted → Prop
  | nil : Clean .nil
  | placeholder : Clean (.text placeholder)
  | string (s : Text) : Clean (.text (string s))
  | scalar (s : Scalar) : Clean (.scalar s)
  | items {elems : List Emitted} : (∀ v ∈ elems, Clean v) → Clean (.items elems)
  | entries {entries : List (Text × Emitted)} :
      Kept entries → (∀ e ∈ entries, Clean e.2) → Clean (.entries entries)
  | group {members : List (Text × Emitted)} :
      Kept members → (∀ m ∈ members, Clean m.2) → Clean (.group members)

/-- At most `n` lists and maps are nested in the value. -/
inductive Within : Nat → Emitted → Prop
  | nil (n : Nat) : Within n .nil
  | text (n : Nat) (s : Text) : Within n (.text s)
  | scalar (n : Nat) (s : Scalar) : Within n (.scalar s)
  | items {n : Nat} {elems : List Emitted} :
      (∀ v ∈ elems, Within n v) → Within (n + 1) (.items elems)
  | entries {n : Nat} {entries : List (Text × Emitted)} :
      (∀ e ∈ entries, Within n e.2) → Within (n + 1) (.entries entries)

/-- What a walk over data needs of a property `P` of its result, given `Q` of the parts. -/
structure Built (Q P : Emitted → Prop) : Prop where
  part : Q (.text placeholder)
  nil : P .nil
  placeholder : P (.text placeholder)
  string : ∀ s, P (.text (string s))
  scalar : ∀ s, P (.scalar s)
  items : ∀ elems, (∀ v ∈ elems, Q v) → P (.items elems)
  entries : ∀ entries, Kept entries → (∀ e ∈ entries, Q e.2) → P (.entries entries)

/-- Clean parts make clean values. -/
theorem built_clean : Built Clean Clean :=
  ⟨.placeholder, .nil, .placeholder, .string, .scalar, fun _ => .items, fun _ => .entries⟩

/-- Parts of a height make values one higher. -/
theorem built_within (n : Nat) : Built (Within n) (Within (n + 1)) :=
  ⟨.text n _, .nil _, .text _ _, fun _ => .text _ _, .scalar _, fun _ => .items,
    fun _ _ => .entries⟩

/-! ## The walk over data -/

section Reflect

variable {ρ : Type} {any : Nat → ρ → Except Stop Emitted} {depth : Nat} {Q P : Emitted → Prop}
  {E : Stop → Prop}

/-- A map under construction. -/
def Sound (Q : Emitted → Prop) (safe : List (Text × Emitted)) : Prop :=
  Kept safe ∧ ∀ e ∈ safe, Q e.2

/-- No attributes at all. -/
theorem sound_nil (Q : Emitted → Prop) : Sound Q [] :=
  ⟨fun _ he => absurd he List.not_mem_nil, fun _ he => absurd he List.not_mem_nil⟩

/-- An attribute is set soundly if a sensitive name has the placeholder. -/
theorem Sound.put {safe : List (Text × Emitted)} (h : Sound Q safe) {name : Text} {v : Emitted}
    (hName : isSensitiveKey name = true → v = .text placeholder) (hv : Q v) :
    Sound Q (put safe name v) := by
  have hMem : ∀ e ∈ Redact.put safe name v, e ∈ safe ∨ e = (name, v) := by
    intro e he
    rcases List.mem_append.mp he with hOld | hNew
    · exact .inl (List.mem_filter.mp hOld).1
    · exact .inr (List.mem_singleton.mp hNew)
  refine ⟨fun e he hSensitive => ?_, fun e he => ?_⟩
  · rcases hMem e he with hOld | rfl
    · exact h.1 e hOld hSensitive
    · exact hName hSensitive
  · rcases hMem e he with hOld | rfl
    · exact h.2 e hOld
    · exact hv

section Parts

variable (hAny : ∀ v, Lands E Q (any (depth + 1) v)) (hPart : Q (.text placeholder))

include hAny hPart

/-- An element is sanitized, or replaced. -/
theorem sanitizeItem_lands (value : Option ρ) : Lands E Q (sanitizeItem any depth value) := by
  cases value with
  | some v => exact hAny v
  | none => exact hPart

/-- A named value is sanitized unless its name is sensitive. -/
theorem sanitizeNamed_lands {safe : List (Text × Emitted)} (hSafe : Sound Q safe) (name : Text)
    (value : Option ρ) : Lands E (Sound Q) (sanitizeNamed any depth safe name value) := by
  rw [sanitizeNamed]
  by_cases hName : isSensitiveKey name = true
  · rw [if_pos hName]
    exact hSafe.put (fun _ => rfl) hPart
  · rw [if_neg hName]
    exact (sanitizeItem_lands hAny hPart value).map fun _ =>
      hSafe.put fun h => absurd h hName

/-- An entry of a map, whose key may not be a text. -/
theorem sanitizeEntry_lands (safe : List (Text × Emitted)) (entry : Option Text × Option ρ)
    (hSafe : Sound Q safe) : Lands E (Sound Q) (sanitizeEntry any depth safe entry) := by
  rw [sanitizeEntry]
  cases entry.1 with
  | none => exact hSafe
  | some name => exact sanitizeNamed_lands hAny hPart hSafe name entry.2

/-- A field of a struct, which may not be exported. -/
theorem sanitizeField_lands (safe : List (Text × Emitted)) (f : Field ρ) (hSafe : Sound Q safe) :
    Lands E (Sound Q) (sanitizeField any depth safe f) := by
  rw [sanitizeField]
  cases f.emittedName with
  | none => exact hSafe
  | some name => exact sanitizeNamed_lands hAny hPart hSafe name (some f.value)

end Parts

/-- The walk over data ends if the one over its parts does. -/
theorem sanitizeReflect_lands (hBuilt : Built Q P) (hAny : ∀ v, Lands E Q (any (depth + 1) v))
    (d : Data ρ) : Lands E P (sanitizeReflect any depth d) := by
  rw [sanitizeReflect]
  split_ifs
  · exact hBuilt.placeholder
  split
  · exact hBuilt.nil
  · exact hBuilt.string _
  · exact hBuilt.scalar _
  · exact hBuilt.string _
  · rename_i elems _
    -- an element that must not be taken out becomes the placeholder
    exact (mapM_lands (sanitizeItem_lands hAny hBuilt.part) elems).map hBuilt.items
  · rename_i entries _
    exact (foldlM_lands (sanitizeEntry_lands hAny hBuilt.part) entries [] (sound_nil Q)).map
      fun safe hSound => hBuilt.entries safe hSound.1 hSound.2
  · rename_i fields _
    exact (foldlM_lands (sanitizeField_lands hAny hBuilt.part) fields [] (sound_nil Q)).map
      fun safe hSound => hBuilt.entries safe hSound.1 hSound.2
  · exact hBuilt.string _
  · exact hBuilt.placeholder

end Reflect

/-! ## The walk over the answers of `LogValuer`s -/

/-- Induction over the members of the groups a value resolves to. -/
theorem SlogValue.resolve_induction {ρ : Type} {motive : SlogValue ρ → Prop}
    (step : ∀ v, (∀ members, v.resolve = .group members → ∀ m ∈ members, motive m.2) → motive v)
    (v : SlogValue ρ) : motive v := by
  refine step v fun members hGroup m hm => ?_
  have hMembers := SlogValue.sizeOf_members maxLogValues v hGroup
  have hMember := List.sizeOf_lt_of_mem hm
  have hValue : sizeOf m.2 < sizeOf m := by
    cases m
    simp +arith
  exact resolve_induction step m.2
termination_by sizeOf v

section LogValuers

variable {ρ : Type} {any : Nat → ρ → Except Stop Emitted} {E : Stop → Prop}

/-- The members of a group, one after another. -/
theorem sanitizeMembers_lands (members : List (Text × SlogValue ρ)) {depth : Nat}
    (h : ∀ m ∈ members, Lands E Clean (sanitizeSlogValue any (depth + 1) m.2)) :
    ∀ safe, Sound Clean safe → Lands E (Sound Clean) (sanitizeMembers any depth members safe) := by
  induction members with
  | nil =>
    intro safe hSafe
    rw [sanitizeMembers]
    exact hSafe
  | cons m rest ih =>
    intro safe hSafe
    obtain ⟨key, value⟩ := m
    have hRest := ih fun m hm => h m (List.mem_cons_of_mem _ hm)
    rw [sanitizeMembers]
    by_cases hKey : isSensitiveKey key = true
    · rw [if_pos hKey]
      exact hRest _ (hSafe.put (fun _ => rfl) .placeholder)
    · rw [if_neg hKey]
      refine (h (key, value) List.mem_cons_self).bind fun out hClean => ?_
      exact hRest _ (hSafe.put (fun hSensitive => absurd hSensitive hKey) hClean)

/-- Groups are followed to any depth; each adds to the depth at which data is met below it. -/
theorem sanitizeSlogValue_lands (v : SlogValue ρ) : ∀ depth,
    (∀ d > depth, ∀ r, Lands E Clean (any d r)) → Lands E Clean (sanitizeSlogValue any depth v) := by
  induction v using SlogValue.resolve_induction with
  | step v ih =>
    intro depth hAny
    rw [sanitizeSlogValue]
    split
    · rename_i members hGroup
      refine (sanitizeMembers_lands members
        (fun m hm => ih members hGroup m hm (depth + 1) fun d hd => hAny d (by omega)) []
        (sound_nil Clean)).map fun safe hSound => ?_
      exact .entries hSound.1 hSound.2
    · exact hAny (depth + 1) (by omega) _
    · exact Clean.placeholder
    · exact Clean.string _
    · exact Clean.scalar _

end LogValuers

/-! ## The walk over what an `any` holds -/

section SanitizeAny

variable {ρ : Type} {heap : ρ → GoValue ρ}

/-- A walk over this heap may stop with a panic, if there is a value whose method panics. -/
def Panics (heap : ρ → GoValue ρ) (stop : Stop) : Prop := stop = .panicked ∧ ∃ v, heap v = .panics

/-- Below the cut-off only nil stays, and no method is called. -/
theorem sanitizeAny_deep {depth : Nat} (hDepth : 16 < depth) (fuel : Nat) {v : ρ}
    (hNil : heap v ≠ .nil) : sanitizeAny heap (fuel + 1) depth v = .ok (.text placeholder) := by
  rw [sanitizeAny]
  split
  · contradiction
  · rw [if_pos hDepth]

-- A nil pointer that is a `Stringer` panics down to the cut-off.
example : sanitizeAny (fun _ : Unit => .panics) 18 16 () = .error .panicked ∧
    sanitizeAny (fun _ : Unit => .panics) 18 17 () = .ok (.text placeholder) :=
  ⟨rfl, rfl⟩

/-- The walk ends on every heap: each level of data adds to the depth. -/
theorem sanitizeAny_lands (fuel : Nat) : ∀ depth v, 0 < fuel → 17 < depth + fuel →
    Lands (Panics heap) Clean (sanitizeAny heap fuel depth v) := by
  induction fuel with
  | zero =>
    intro depth v hFuel
    omega
  | succ fuel ih =>
    intro depth v _ hFuel
    rw [sanitizeAny]
    split
    · exact Clean.nil
    · split_ifs with hDepth
      · -- too deep
        exact Clean.placeholder
      · -- one level of data uses one unit of fuel and adds one to the depth
        have hAny : ∀ d > depth, ∀ r, Lands (Panics heap) Clean (sanitizeAny heap fuel d r) :=
          fun d hd r => ih d r (by omega) (by omega)
        split
        · exact sanitizeSlogValue_lands _ (depth + 1) fun d hd => hAny d (by omega)
        · exact Clean.string _
        · -- the value's own method panics, and so does the handler
          rename_i hValue
          exact ⟨rfl, v, hValue⟩
        · exact sanitizeReflect_lands built_clean (hAny (depth + 1) (by omega)) _
        · exact Clean.placeholder

/-- Without `LogValuer`s, at most the levels down to the cut-off are emitted. -/
theorem height_sanitizeAny (hHeap : ∀ v answer, heap v ≠ .logValuer answer) (fuel : Nat) :
    ∀ depth v, 0 < fuel → 17 < depth + fuel →
      Lands (Panics heap) (Within (17 - depth)) (sanitizeAny heap fuel depth v) := by
  induction fuel with
  | zero =>
    intro depth v hFuel
    omega
  | succ fuel ih =>
    intro depth v _ hFuel
    rw [sanitizeAny]
    split
    · exact Within.nil _
    · split_ifs with hDepth
      · exact Within.text _ _
      · split
        · rename_i answer hValue
          exact absurd hValue (hHeap v answer)
        · exact Within.text _ _
        · rename_i hValue
          exact ⟨rfl, v, hValue⟩
        · -- one level more on both sides
          have hLevels : 17 - depth = 17 - (depth + 1) + 1 := by omega
          rw [hLevels]
          exact sanitizeReflect_lands (built_within _)
            (fun r => ih (depth + 1) r (by omega) (by omega)) _
        · exact Within.text _ _

end SanitizeAny

/-! ## The handler -/

section Handler

variable {ρ : Type} {heap : ρ → GoValue ρ} {fuel : Nat}

/-- An attribute keeps its name, and with a sensitive one it holds the placeholder. -/
def Scrubbed (key : Text) (attr : Text × Emitted) : Prop :=
  attr.1 = key ∧ (isSensitiveKey key = true → attr.2 = .text placeholder) ∧ Clean attr.2

/-- Attributes that are each scrubbed make a sound list. -/
theorem scrubAttrs_lands {E : Stop → Prop} (attrs : List (Text × SlogValue ρ))
    (h : ∀ a ∈ attrs, Lands E (Scrubbed a.1) (scrubAttr heap fuel a.1 a.2)) :
    Lands E (Sound Clean) (scrubAttrs heap fuel attrs) := by
  induction attrs with
  | nil =>
    rw [scrubAttrs]
    exact sound_nil Clean
  | cons a rest ih =>
    obtain ⟨key, value⟩ := a
    rw [scrubAttrs]
    refine (h (key, value) List.mem_cons_self).bind fun attr hAttr => ?_
    refine (ih fun a ha => h a (List.mem_cons_of_mem _ ha)).bind fun attrs hAttrs => ?_
    obtain ⟨rfl, hSensitive, hClean⟩ := hAttr
    exact ⟨List.forall_mem_cons.mpr ⟨hSensitive, hAttrs.1⟩,
      List.forall_mem_cons.mpr ⟨hClean, hAttrs.2⟩⟩

/-- An attribute is scrubbed, or a method of a value panics. -/
theorem scrubAttr_lands (hFuel : 17 < fuel) (value : SlogValue ρ) : ∀ key,
    Lands (Panics heap) (Scrubbed key) (scrubAttr heap fuel key value) := by
  induction value using SlogValue.resolve_induction with
  | step value ih =>
    intro key
    rw [scrubAttr]
    split_ifs with hKey
    · exact ⟨rfl, fun _ => rfl, .placeholder⟩
    · -- the name is not sensitive, so that any clean value will do
      have hScrubbed : ∀ out, Clean out → Scrubbed key (key, out) :=
        fun out hClean => ⟨rfl, fun hSensitive => absurd hSensitive hKey, hClean⟩
      split
      · -- the members of a group are attributes of their own
        rename_i members hGroup
        refine (scrubAttrs_lands members fun m hm => ih members hGroup m hm m.1).map
          fun outs hSound => hScrubbed _ ?_
        exact .group hSound.1 hSound.2
      · exact hScrubbed _ (.string _)
      · -- the depth starts at zero, so the fuel suffices
        exact (sanitizeAny_lands fuel 0 _ (by omega) (by omega)).map hScrubbed
      · exact hScrubbed _ .placeholder
      · exact hScrubbed _ (.scalar _)

/-- What the wrapped handler is given. -/
def InnerCall.Clean : InnerCall → Prop
  | .handle message attrs => (∃ text, message = string text) ∧ Sound Redact.Clean attrs
  | .withAttrs attrs => Sound Redact.Clean attrs
  | .withGroup _ => True

/-- What the handler passes on is clean. -/
theorem pass_lands (hFuel : 17 < fuel) (call : HandlerCall ρ) :
    Lands (Panics heap) InnerCall.Clean (Handler.pass heap fuel call) := by
  have hScrub : ∀ attrs, Lands (Panics heap) (Sound Clean) (scrubAttrs heap fuel attrs) :=
    fun attrs => scrubAttrs_lands attrs fun a _ => scrubAttr_lands hFuel a.2 a.1
  cases call with
  | handle message attrs => exact (hScrub attrs).map fun outs hSound => ⟨⟨message, rfl⟩, hSound⟩
  | withAttrs attrs => exact (hScrub attrs).map fun outs hSound => hSound
  | withGroup name => trivial

/-- Landing means a result, or the panic of a value. -/
theorem ends_of_lands {α : Type} {P : α → Prop} {x : Except Stop α} (h : Lands (Panics heap) P x) :
    (∃ a, x = .ok a ∧ P a) ∨ (x = .error .panicked ∧ ∃ v, heap v = .panics) := by
  rcases lands_iff.mp h with hOk | ⟨e, hError, rfl, hPanics⟩
  · exact .inl hOk
  · exact .inr ⟨hError, hPanics⟩

end Handler

/-- A struct that holds itself, beside a password. -/
def selfReferring : Unit → GoValue Unit := fun _ => .data (.struct
  [⟨"Self".toList, true, true, "self".toList, ()⟩, ⟨"Password".toList, true, true, [], ()⟩])

/-- A string in so many groups. -/
def inGroups : Nat → SlogValue Empty
  | 0 => .string "entry-1".toList
  | n + 1 => .group [("g".toList, inGroups n)]

def emittedInGroups : Nat → Emitted
  | 0 => .text "entry-1".toList
  | n + 1 => .group [("g".toList, emittedInGroups n)]

/-- Nested groups are emitted at any depth. -/
theorem scrubAttr_inGroups (heap : Empty → GoValue Empty) (fuel n : Nat) :
    scrubAttr heap fuel "g".toList (inGroups n) = .ok ("g".toList, emittedInGroups n) := by
  have hKey : ¬ isSensitiveKey "g".toList = true := by decide
  induction n with
  | zero =>
    have hText : string "entry-1".toList = "entry-1".toList := by decide
    rw [scrubAttr, if_neg hKey]
    show Except.ok ("g".toList, Emitted.text (string "entry-1".toList)) = _
    rw [hText]
    rfl
  | succ n ih =>
    rw [scrubAttr, if_neg hKey]
    show (scrubAttrs heap fuel [("g".toList, inGroups n)]).map _ = _
    rw [scrubAttrs, ih, scrubAttrs]
    rfl

end Cashflow.Redact
