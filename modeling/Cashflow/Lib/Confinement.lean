import Cashflow.Lib.Table
import Cashflow.Lib.Transaction

/-!
# Programs confined to a part of the database

`Table.restrict p` is the part of a table whose rows satisfy `p`. A statement
that only looks for rows of the part, and only writes rows that clash with none
outside it, does on the part what it does on the whole table, and leaves the
rest alone.

For programs, `Follows` says the same of a projection of the whole database:
run on the part, the program answers what it answers on the whole, and leaves
the part of what it leaves there. The rules below take it from statements to
programs.

Main results:

* `Table.insert_restrict`, `Table.update_restrict` — the two kinds of writes;
* `Engine.Follows.bind` — a sequence follows when both halves do.
-/

namespace Lib

namespace Table

variable {ρ : Type} {S : Schema ρ} {t u : Table S} {p q : ρ → Bool} {r : ρ}

/-! ## Parts of a table -/

/-- The rows that satisfy `p`. -/
def restrict (p : ρ → Bool) (t : Table S) : Table S where
  rows := t.rows.filter p
  checked := fun r hr => t.checked r (List.mem_of_mem_filter hr)
  unique := t.unique.filter _

/-- The rows of a part. -/
theorem mem_restrict : r ∈ t.restrict p ↔ r ∈ t ∧ p r = true := List.mem_filter

/-- Rows that are all in the part are found there. -/
theorem any_restrict (h : ∀ a ∈ t, q a = true → p a = true) :
    (t.restrict p).rows.any q = t.rows.any q := by
  rw [Bool.eq_iff_iff, List.any_eq_true, List.any_eq_true]
  constructor
  · rintro ⟨a, ha, hq⟩
    exact ⟨a, (mem_restrict.mp ha).1, hq⟩
  · rintro ⟨a, ha, hq⟩
    exact ⟨a, mem_restrict.mpr ⟨ha, h a ha hq⟩, hq⟩

/-- A selection within the part sees the part only. -/
theorem filter_restrict (h : ∀ a ∈ t, q a = true → p a = true) :
    (t.restrict p).rows.filter q = t.rows.filter q := by
  show (t.rows.filter p).filter q = t.rows.filter q
  rw [List.filter_filter]
  refine List.filter_congr fun a ha => ?_
  cases hq : q a with
  | false => rfl
  | true => exact h a ha hq

/-- And so does a search. -/
theorem find?_restrict (h : ∀ a ∈ t, q a = true → p a = true) :
    (t.restrict p).find? q = t.find? q := by
  rw [find?, find?, ← List.head?_filter, ← List.head?_filter, filter_restrict h]

/-! ## Writing into a part -/

/-- A row that clashes with none outside the part clashes as it does there. -/
theorem conflicts_restrict (hApart : (t.restrict fun a => !p a).conflicts r = false) :
    (t.restrict p).conflicts r = t.conflicts r := by
  refine any_restrict fun a ha hClash => ?_
  cases hp : p a with
  | true => rfl
  | false =>
    have hOut : a ∈ t.restrict fun a => !p a := mem_restrict.mpr ⟨ha, by rw [hp]; rfl⟩
    rw [conflicts_eq_false.mp hApart a hOut] at hClash
    cases hClash

/-- An insert into the part is the part of the insert, if no row outside is in its way. -/
theorem insert_restrict (hr : p r = true)
    (hApart : (t.restrict fun a => !p a).conflicts r = false) :
    (t.restrict p).insert r = (t.insert r).map (restrict p) := by
  have hConflicts := conflicts_restrict hApart
  by_cases hCheck : S.check r = true
  · by_cases hFree : t.conflicts r = false
    · rw [insert_of_free hCheck hFree, insert_of_free hCheck (hConflicts.trans hFree), Except.map]
      refine congrArg Except.ok (Table.ext ?_)
      show t.rows.filter p ++ [r] = (t.rows ++ [r]).filter p
      rw [List.filter_append, List.filter_cons_of_pos hr, List.filter_nil]
    · rw [insert, insert, dif_pos hCheck, dif_pos hCheck, dif_neg hFree,
        dif_neg (hConflicts ▸ hFree)]
      rfl
  · rw [insert, insert, dif_neg hCheck, dif_neg hCheck]
    rfl

/-- A row of the part changes nothing outside it. -/
theorem restrict_insert (hr : p r = false) (h : t.insert r = .ok u) :
    u.restrict p = t.restrict p := by
  refine Table.ext ?_
  show u.rows.filter p = t.rows.filter p
  rw [(insert_eq_ok.mp h).2.2, List.filter_append, List.filter_cons_of_neg (by rw [hr]; decide),
    List.filter_nil, List.append_nil]

section Update

variable {f : ρ → ρ} {hf : ∀ a b, S.clash (f a) (f b) = S.clash a b}

/-- `f` moves no row into the part or out of it. -/
theorem filter_map_of_keeps (hKeeps : ∀ a ∈ t, p (f a) = p a) :
    (t.rows.map f).filter p = (t.rows.filter p).map f := by
  rw [List.filter_map]
  exact congrArg (List.map f) (List.filter_congr hKeeps)

/-- An update that leaves the rows outside alone acts on the part as on the whole. -/
theorem update_restrict (hKeeps : ∀ a ∈ t, p (f a) = p a)
    (hOut : ∀ a ∈ t, p a = false → f a = a) :
    (t.restrict p).update f hf = (t.update f hf).map (restrict p) := by
  have hRows : (t.rows.map f).filter p = (t.rows.filter p).map f := filter_map_of_keeps hKeeps
  by_cases hAll : ∀ a ∈ t, S.check (f a) = true
  · -- all rows pass the check, so both updates succeed
    obtain ⟨u, hu, huRows⟩ := exists_update hf hAll
    have hPart : ∀ a ∈ t.restrict p, S.check (f a) = true := fun a ha =>
      hAll a (mem_restrict.mp ha).1
    obtain ⟨v, hv, hvRows⟩ := exists_update hf hPart
    rw [hu, hv, Except.map]
    refine congrArg Except.ok (Table.ext ?_)
    show v.rows = u.rows.filter p
    rw [hvRows, huRows, hRows]
    rfl
  · -- the row that fails is in the part, since the others stay as they are
    have hPart : ¬ ∀ r ∈ (t.restrict p).rows.map f, S.check r = true := by
      intro hPart
      refine hAll fun a ha => ?_
      cases hp : p a with
      | true => exact hPart _ (List.mem_map_of_mem (mem_restrict.mpr ⟨ha, hp⟩))
      | false =>
        rw [hOut a ha hp]
        exact t.checked a ha
    have hWhole : ¬ ∀ r ∈ t.rows.map f, S.check r = true := fun hWhole =>
      hAll fun a ha => hWhole _ (List.mem_map_of_mem ha)
    rw [update, update, dif_neg hPart, dif_neg hWhole]
    rfl

/-- An update of rows outside leaves the part as it is. -/
theorem restrict_update (hKeeps : ∀ a ∈ t, p (f a) = p a)
    (hSame : ∀ a ∈ t, p a = true → f a = a) (h : t.update f hf = .ok u) :
    u.restrict p = t.restrict p := by
  refine Table.ext ?_
  show u.rows.filter p = t.rows.filter p
  rw [(update_eq_ok.mp h).2, filter_map_of_keeps hKeeps]
  exact (List.map_congr_left fun a ha =>
    hSame a (List.mem_filter.mp ha).1 (List.mem_filter.mp ha).2).trans (List.map_id _)

end Update

/-- Keeping the old table on failure commutes with taking the part. -/
theorem orKeep_map_restrict (x : Except Violation (Table S)) :
    (t.restrict p).orKeep (x.map (restrict p)) = (t.orKeep x).restrict p := by
  cases x <;> rfl

/-- Whether or not the update succeeds, the part stays. -/
theorem restrict_orKeep {x : Except Violation (Table S)}
    (h : ∀ u, x = .ok u → u.restrict p = t.restrict p) :
    (t.orKeep x).restrict p = t.restrict p := by
  cases x with
  | error e => rfl
  | ok u => exact h u rfl

end Table

namespace Engine

variable {S : Type} {R : S → Type} {E ε α β D W : Type} {engine : Engine S R E D W}
  {part : D → D} {Inv : D → Prop}

/-! ## Programs on a part of the database -/

/-- A statement answers the same on the part of a database, and writes the same
there; `Q` is what its answer satisfies. -/
structure Confined (engine : Engine S R E D W) (part : D → D) (Inv : D → Prop) (s : S)
    (Q : R s → Prop) : Prop where
  answer : ∀ d, Inv d → engine.eval s (part d) = engine.eval s d
  writes : ∀ d, Inv d → ∀ r ws, engine.eval s d = .ok (r, ws) →
    engine.view (part d) ws = part (engine.view d ws) ∧ Inv (engine.view d ws) ∧ Q r

/-- A program does the same on the part of a database. -/
def Follows (engine : Engine S R E D W) (part : D → D) (Inv : D → Prop) (p : Prog S R E ε α)
    (Q : α → Prop) : Prop :=
  ∀ d, Inv d → engine.exec p (part d) = (engine.exec p d).map (fun x => (x.1, part x.2)) ∧
    ∀ a d', engine.exec p d = .ok (a, d') → Inv d' ∧ Q a

/-- Faults do not look at the rows. -/
theorem Confined.withFaults {s : S} {Q : R s → Prop} (h : engine.Confined part Inv s Q)
    (fault : S → Option E) : (engine.withFaults fault).Confined part Inv s Q := by
  cases hFault : fault s with
  | some e =>
    refine ⟨fun d _ => ?_, fun d _ r ws hEval => ?_⟩
    · simp only [Engine.withFaults, hFault]
    · simp only [Engine.withFaults, hFault] at hEval
      cases hEval
  | none =>
    refine ⟨fun d hInv => ?_, fun d hInv r ws hEval => ?_⟩
    · simp only [Engine.withFaults, hFault]
      exact h.answer d hInv
    · simp only [Engine.withFaults, hFault] at hEval
      exact h.writes d hInv r ws hEval

/-- The rule for one statement. -/
theorem Follows.call {s : S} {Q : R s → Prop} {fail : E → ε} (h : engine.Confined part Inv s Q) :
    engine.Follows part Inv (Prog.call s fail : Prog S R E ε (R s)) Q := by
  intro d hInv
  have hAnswer := h.answer d hInv
  have hWrites := h.writes d hInv
  simp only [Prog.call, exec]
  rw [hAnswer]
  cases hEval : engine.eval s d with
  | error e => exact ⟨rfl, fun a d' hEq => by cases hEq⟩
  | ok x =>
    obtain ⟨r, ws⟩ := x
    obtain ⟨hView, hInv', hQ⟩ := hWrites r ws hEval
    refine ⟨?_, fun a d' hEq => ?_⟩
    · show Except.ok (r, engine.view (part d) ws) = .ok (r, part (engine.view d ws))
      rw [hView]
    · cases hEq
      exact ⟨hInv', hQ⟩

/-- The rule for a computation without statements. -/
theorem Follows.lift {x : Except ε α} {Q : α → Prop} (h : ∀ a, x = .ok a → Q a) :
    engine.Follows part Inv (Prog.lift x : Prog S R E ε α) Q := by
  intro d hInv
  cases x with
  | error e => exact ⟨rfl, fun a d' hEq => by cases hEq⟩
  | ok b =>
    refine ⟨rfl, fun a d' hEq => ?_⟩
    cases hEq
    exact ⟨hInv, h b rfl⟩

/-- The rule for a result. -/
theorem Follows.pure {a : α} {Q : α → Prop} (h : Q a) :
    engine.Follows part Inv (pure a : Prog S R E ε α) Q :=
  Follows.lift fun b hb => by cases hb; exact h

/-- A sequence follows when both halves do, the second on what the first
answers. -/
theorem Follows.bind {p : Prog S R E ε α} {f : α → Prog S R E ε β} {P : α → Prop} {Q : β → Prop}
    (hp : engine.Follows part Inv p P) (hf : ∀ a, P a → engine.Follows part Inv (f a) Q) :
    engine.Follows part Inv (p >>= f) Q := by
  intro d hInv
  obtain ⟨hPart, hOk⟩ := hp d hInv
  rw [exec_bind, exec_bind, hPart]
  cases hExec : engine.exec p d with
  | error e => exact ⟨rfl, fun a d' hEq => by cases hEq⟩
  | ok x =>
    obtain ⟨hInv', hP⟩ := hOk x.1 x.2 hExec
    exact hf x.1 hP x.2 hInv'

end Engine

end Lib
