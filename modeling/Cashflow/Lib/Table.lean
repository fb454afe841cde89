import Mathlib.Data.List.Basic
import Mathlib.Data.List.Pairwise

/-!
# Relational tables with check and unique constraints

A table is a list of rows that all pass the `check` of its schema and no two
of which `clash`. One clash predicate covers a primary key, several unique
keys at once, and a partial unique index; so a table that breaks a constraint
cannot be built. The operations are the ones SQL offers: insert, insert unless
a row clashes, and update in place.

Column ranges belong to `check` too: a value that does not fit its column is
refused like one that breaks a `CHECK`.
-/

namespace Lib

/-- The constraints of a table. -/
structure Schema (ρ : Type) where
  check : ρ → Bool
  clash : ρ → ρ → Bool
  symm : ∀ a b, clash a b = clash b a

/-- Which constraint a statement broke. -/
inductive Violation
  | check
  | unique
deriving DecidableEq, Repr

/-- Rows that pass the check and do not clash. -/
structure Table {ρ : Type} (S : Schema ρ) where
  rows : List ρ
  checked : ∀ r ∈ rows, S.check r = true
  unique : rows.Pairwise fun a b => S.clash a b = false

namespace Table

variable {ρ : Type} {S : Schema ρ}

/-- Tables with the same rows are equal. -/
@[ext] theorem ext {t u : Table S} (h : t.rows = u.rows) : t = u := by
  cases t
  cases u
  cases h
  rfl

instance [DecidableEq ρ] : DecidableEq (Table S) := fun t u =>
  decidable_of_iff (t.rows = u.rows) ⟨ext, fun h => h ▸ rfl⟩

/-- The table with no rows. -/
def empty : Table S := ⟨[], List.forall_mem_nil _, List.Pairwise.nil⟩

instance : Membership ρ (Table S) := ⟨fun t r => r ∈ t.rows⟩

instance [DecidableEq ρ] (r : ρ) (t : Table S) : Decidable (r ∈ t) :=
  inferInstanceAs (Decidable (r ∈ t.rows))

/-- The members of a table are its rows. -/
theorem mem_def {t : Table S} {r : ρ} : r ∈ t ↔ r ∈ t.rows := Iff.rfl

@[simp] theorem rows_empty : (empty : Table S).rows = [] := rfl

@[simp] theorem not_mem_empty (r : ρ) : r ∉ (empty : Table S) := fun h => by cases h

/-! ## Inserting -/

/-- Some row of the table clashes with `r`. -/
def conflicts (t : Table S) (r : ρ) : Bool := t.rows.any fun a => S.clash a r

/-- A row is free if it clashes with no row that is there. -/
theorem conflicts_eq_false {t : Table S} {r : ρ} :
    t.conflicts r = false ↔ ∀ a ∈ t, S.clash a r = false := by
  simp [conflicts, mem_def]

/-- A row is taken if it clashes with one that is there. -/
theorem conflicts_eq_true {t : Table S} {r : ρ} :
    t.conflicts r = true ↔ ∃ a ∈ t, S.clash a r = true := by
  simp [conflicts, mem_def]

/-- Add a row that keeps the constraints. -/
def push (t : Table S) (r : ρ) (hr : S.check r = true) (h : t.conflicts r = false) : Table S where
  rows := t.rows ++ [r]
  checked := by
    intro a ha
    rcases List.mem_append.mp ha with ha | ha
    · exact t.checked a ha
    · rw [List.mem_singleton.mp ha]
      exact hr
  unique := by
    rw [List.pairwise_append]
    refine ⟨t.unique, List.pairwise_singleton _ _, ?_⟩
    intro a ha b hb
    rw [List.mem_singleton.mp hb]
    exact conflicts_eq_false.mp h a ha

/-- The statement `INSERT`. -/
def insert (t : Table S) (r : ρ) : Except Violation (Table S) :=
  if hr : S.check r = true then
    if h : t.conflicts r = false then .ok (t.push r hr h) else .error .unique
  else .error .check

/-- An insert succeeds exactly on a row that passes the check and is free, and appends it. -/
theorem insert_eq_ok {t u : Table S} {r : ρ} :
    t.insert r = .ok u ↔ S.check r = true ∧ t.conflicts r = false ∧ u.rows = t.rows ++ [r] := by
  unfold insert
  split_ifs with hr h
  · rw [Except.ok.injEq, Table.ext_iff]
    exact ⟨fun hu => ⟨hr, h, hu.symm⟩, fun hu => hu.2.2.symm⟩
  · simp [h]
  · simp [hr]

/-- A free row is pushed. -/
theorem insert_of_free {t : Table S} {r : ρ} (hr : S.check r = true) (h : t.conflicts r = false) :
    t.insert r = .ok (t.push r hr h) := by
  rw [insert, dif_pos hr, dif_pos h]

/-- The statement `INSERT … ON CONFLICT DO NOTHING`, of a row that passes the check. -/
def insertOrIgnore (t : Table S) (r : ρ) (hr : S.check r = true) : Table S :=
  if h : t.conflicts r = false then t.push r hr h else t

/-- `ON CONFLICT DO NOTHING` on a row that is taken. -/
theorem insertOrIgnore_of_conflict {t : Table S} {r : ρ} {hr : S.check r = true}
    (h : t.conflicts r = true) : t.insertOrIgnore r hr = t := by
  simp [insertOrIgnore, h]

/-- And on one that is free. -/
theorem rows_insertOrIgnore_of_free {t : Table S} {r : ρ} {hr : S.check r = true}
    (h : t.conflicts r = false) : (t.insertOrIgnore r hr).rows = t.rows ++ [r] := by
  simp [insertOrIgnore, h, push]

/-- The members after `ON CONFLICT DO NOTHING` -/
theorem mem_insertOrIgnore {t : Table S} {r a : ρ} {hr : S.check r = true} :
    a ∈ t.insertOrIgnore r hr ↔ a ∈ t ∨ (t.conflicts r = false ∧ a = r) := by
  cases h : t.conflicts r with
  | true => simp [insertOrIgnore_of_conflict h]
  | false => simp [mem_def, rows_insertOrIgnore_of_free h]

/-! ## Updating in place -/

/-- The statement `UPDATE`: rewrite rows by a function that keeps their keys. -/
def update (t : Table S) (f : ρ → ρ) (hf : ∀ a b, S.clash (f a) (f b) = S.clash a b) :
    Except Violation (Table S) :=
  if h : ∀ r ∈ t.rows.map f, S.check r = true then
    .ok ⟨t.rows.map f, h, by
      rw [List.pairwise_map]
      exact t.unique.imp fun hab => by rw [hf]; exact hab⟩
  else .error .check

/-- An update succeeds exactly if every row passes the check afterwards. -/
theorem update_eq_ok {t u : Table S} {f : ρ → ρ}
    {hf : ∀ a b, S.clash (f a) (f b) = S.clash a b} :
    t.update f hf = .ok u ↔ (∀ r ∈ t, S.check (f r) = true) ∧ u.rows = t.rows.map f := by
  unfold update
  split_ifs with h
  · rw [Except.ok.injEq, Table.ext_iff]
    exact ⟨fun hu => ⟨fun r hr => h _ (List.mem_map_of_mem hr), hu.symm⟩, fun hu => hu.2.symm⟩
  · simp only [false_iff, not_and]
    intro hAll
    refine absurd ?_ h
    intro r hr
    obtain ⟨a, ha, rfl⟩ := List.mem_map.mp hr
    exact hAll a ha

/-- So it succeeds where the function keeps the check. -/
theorem exists_update {t : Table S} {f : ρ → ρ} (hf : ∀ a b, S.clash (f a) (f b) = S.clash a b)
    (h : ∀ r ∈ t, S.check (f r) = true) : ∃ u, t.update f hf = .ok u ∧ u.rows = t.rows.map f := by
  have hAll : ∀ r ∈ t.rows.map f, S.check r = true := by
    intro r hr
    obtain ⟨a, ha, rfl⟩ := List.mem_map.mp hr
    exact h a ha
  exact ⟨_, by rw [update, dif_pos hAll], rfl⟩

/-- The statement `DELETE`. -/
def delete (t : Table S) (p : ρ → Bool) : Table S where
  rows := t.rows.filter fun r => !p r
  checked := fun r hr => t.checked r (List.mem_of_mem_filter hr)
  unique := t.unique.filter _

/-- The table a statement leaves: its outcome, or the table as it was. -/
def orKeep (t : Table S) : Except Violation (Table S) → Table S
  | .ok u => u
  | .error _ => t

/-! ## Looking up -/

/-- The first row that satisfies `p`. -/
def find? (t : Table S) (p : ρ → Bool) : Option ρ := t.rows.find? p

/-- What a search finds is a row of the table that meets the condition. -/
theorem find?_some {t : Table S} {p : ρ → Bool} {r : ρ} (h : t.find? p = some r) :
    r ∈ t ∧ p r = true :=
  ⟨List.mem_of_find?_eq_some h, List.find?_some h⟩

/-- A search that finds nothing has seen every row. -/
theorem find?_none {t : Table S} {p : ρ → Bool} :
    t.find? p = none ↔ ∀ a ∈ t, p a = false := by
  simp [find?, mem_def]

/-- Two rows of a table that clash are one row. -/
theorem eq_of_clash {t : Table S} {a b : ρ} (ha : a ∈ t) (hb : b ∈ t)
    (h : S.clash a b = true) : a = b := by
  have hClashSymm : Std.Symm fun x y : ρ => S.clash x y = false :=
    ⟨fun x y hxy => by rw [S.symm]; exact hxy⟩
  by_contra hne
  rw [t.unique.forall ha hb hne] at h
  cases h

/-- A lookup by a predicate that only rows clashing with `r` satisfy finds `r`. -/
theorem find?_eq_some_of_mem {t : Table S} {p : ρ → Bool} {r : ρ} (hr : r ∈ t) (hp : p r = true)
    (hClash : ∀ a, p a = true → S.clash a r = true) : t.find? p = some r := by
  cases h : t.find? p with
  | none => rw [find?_none.mp h r hr] at hp; cases hp
  | some a =>
    obtain ⟨ha, hpa⟩ := find?_some h
    rw [eq_of_clash ha hr (hClash a hpa)]

/-- The rows of a table around one of them, none of which clashes with it. -/
theorem exists_split {t : Table S} {r : ρ} (hr : r ∈ t) :
    ∃ before after, t.rows = before ++ r :: after ∧ ∀ a ∈ before ++ after, S.clash a r = false := by
  obtain ⟨before, after, hRows⟩ := List.append_of_mem hr
  have hUnique := t.unique
  rw [hRows, List.pairwise_append, List.pairwise_cons] at hUnique
  obtain ⟨-, ⟨hAfter, -⟩, hBefore⟩ := hUnique
  refine ⟨before, after, hRows, fun a ha => ?_⟩
  rcases List.mem_append.mp ha with ha | ha
  · exact hBefore a ha r List.mem_cons_self
  · rw [S.symm]
    exact hAfter a ha

/-- Only `r` satisfies a predicate that only rows clashing with `r` satisfy. -/
theorem filter_eq_of_mem {t : Table S} {p : ρ → Bool} {r : ρ} (hr : r ∈ t) (hp : p r = true)
    (hClash : ∀ a, p a = true → S.clash a r = true) : t.rows.filter p = [r] := by
  obtain ⟨before, after, hRows, hOthers⟩ := exists_split hr
  have hNone : ∀ l : List ρ, (∀ a ∈ l, S.clash a r = false) → l.filter p = [] := by
    intro l hl
    refine List.filter_eq_nil_iff.mpr fun a ha hpa => ?_
    exact absurd (hClash a hpa) (by rw [hl a ha]; exact Bool.false_ne_true)
  rw [hRows, List.filter_append, List.filter_cons, if_pos hp,
    hNone before fun a ha => hOthers a (List.mem_append_left _ ha),
    hNone after fun a ha => hOthers a (List.mem_append_right _ ha), List.nil_append]

/-! ## Growing -/

/-- `u` has the rows of `t`, and its other rows satisfy `New`. -/
structure Grows (New : ρ → Prop) (t u : Table S) : Prop where
  keeps : ∀ r ∈ t, r ∈ u
  new : ∀ r ∈ u, r ∈ t ∨ New r

/-- A table that does not change has grown by nothing. -/
theorem Grows.refl (New : ρ → Prop) (t : Table S) : t.Grows New t := ⟨fun _ h => h, fun _ h => Or.inl h⟩

/-- What is known of the new rows may be weakened. -/
theorem Grows.mono {New New' : ρ → Prop} {t u : Table S} (h : t.Grows New u)
    (hNew : ∀ r, New r → New' r) : t.Grows New' u :=
  ⟨h.keeps, fun r hr => (h.new r hr).imp_right (hNew r)⟩

/-- The members after an insert. -/
theorem mem_insert {t u : Table S} {r a : ρ} (h : t.insert r = .ok u) : a ∈ u ↔ a ∈ t ∨ a = r := by
  rw [mem_def, (insert_eq_ok.mp h).2.2, List.mem_append, List.mem_singleton]
  rfl

/-- A row that clashes with no new row can be inserted after them. -/
theorem Grows.exists_insert {New : ρ → Prop} {t u t' : Table S} {r : ρ} (h : t.Grows New u)
    (hInsert : t.insert r = .ok t') (hApart : ∀ a, New a → S.clash a r = false) :
    ∃ u', u.insert r = .ok u' := by
  obtain ⟨hCheck, hFree, -⟩ := insert_eq_ok.mp hInsert
  have hFree' : u.conflicts r = false := conflicts_eq_false.mpr fun a ha =>
    (h.new a ha).elim (conflicts_eq_false.mp hFree a) (hApart a)
  exact ⟨_, insert_of_free hCheck hFree'⟩

/-- The same row is inserted on both sides. -/
theorem Grows.insert {New : ρ → Prop} {t u t' u' : Table S} {r : ρ} (h : t.Grows New u)
    (ht : t.insert r = .ok t') (hu : u.insert r = .ok u') : t'.Grows New u' where
  keeps a ha := (mem_insert hu).mpr (((mem_insert ht).mp ha).imp_left (h.keeps a))
  new a ha := by
    rcases (mem_insert hu).mp ha with ha | rfl
    · exact (h.new a ha).imp_left fun hOld => (mem_insert ht).mpr (Or.inl hOld)
    · exact Or.inl ((mem_insert ht).mpr (Or.inr rfl))

/-- A new row is inserted. -/
theorem Grows.insert_new {New : ρ → Prop} {t u u' : Table S} {r : ρ} (h : t.Grows New u)
    (hu : u.insert r = .ok u') (hNew : New r) : t.Grows New u' where
  keeps a ha := (mem_insert hu).mpr (Or.inl (h.keeps a ha))
  new a ha := by
    rcases (mem_insert hu).mp ha with ha | rfl
    · exact h.new a ha
    · exact Or.inr hNew

/-- The same update is made on both sides. -/
theorem Grows.map {New : ρ → Prop} {t u t' u' : Table S} {f : ρ → ρ} (h : t.Grows New u)
    (hNew : ∀ r, New r → New (f r)) (ht : t'.rows = t.rows.map f) (hu : u'.rows = u.rows.map f) :
    t'.Grows New u' where
  keeps a ha := by
    rw [mem_def, ht] at ha
    obtain ⟨r, hr, rfl⟩ := List.mem_map.mp ha
    rw [mem_def, hu]
    exact List.mem_map_of_mem (h.keeps r hr)
  new a ha := by
    rw [mem_def, hu] at ha
    obtain ⟨r, hr, rfl⟩ := List.mem_map.mp ha
    refine (h.new r hr).imp (fun hOld => ?_) (hNew r)
    rw [mem_def, ht]
    exact List.mem_map_of_mem hOld

/-- An update that spares the rows of `t`. -/
theorem Grows.map_new {New : ρ → Prop} {t u u' : Table S} {f : ρ → ρ} (h : t.Grows New u)
    (hSpared : ∀ r ∈ t, f r = r) (hNew : ∀ r, New r → New (f r)) (hu : u'.rows = u.rows.map f) :
    t.Grows New u' where
  keeps a ha := by
    rw [mem_def, hu, ← hSpared a ha]
    exact List.mem_map_of_mem (h.keeps a ha)
  new a ha := by
    rw [mem_def, hu] at ha
    obtain ⟨r, hr, rfl⟩ := List.mem_map.mp ha
    exact (h.new r hr).imp (fun hOld => by rw [hSpared r hOld]; exact hOld) (hNew r)

end Table

end Lib
