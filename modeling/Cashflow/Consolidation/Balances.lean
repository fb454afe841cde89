import Cashflow.Consolidation.Effects

/-!
# Consolidation — the balance table under each statement

`balanceOn` is the row of a merchant's day. Each statement that touches the
balance table is described by what it does to that row; the row of every other
day is left alone.
-/

namespace Cashflow.Consolidation

open Lib

variable {t u : Table balanceSchema} {m : Text} {d : Int} {event : EntryConfirmed}

/-- The row of a merchant's day. -/
def balanceOn (t : Table balanceSchema) (m : Text) (d : Int) : Option DailyBalance :=
  t.find? (onDay m d)

theorem onDay_iff {r : DailyBalance} : onDay m d r = true ↔ r.merchantID = m ∧ r.businessDate = d := by
  simp [onDay]

theorem onDay_self (r : DailyBalance) : onDay r.merchantID r.businessDate r = true :=
  onDay_iff.mpr ⟨rfl, rfl⟩

/-- The row of a merchant and day is one of that merchant and day. -/
theorem balanceOn_key {r : DailyBalance} (h : balanceOn t m d = some r) :
    r.merchantID = m ∧ r.businessDate = d :=
  onDay_iff.mp (Table.find?_some h).2

theorem balanceOn_of_mem {r : DailyBalance} (h : r ∈ t) :
    balanceOn t r.merchantID r.businessDate = some r :=
  Table.find?_eq_some_of_mem h (onDay_self r) fun a ha => by
    simp [balanceSchema, onDay_iff.mp ha]

theorem mem_of_balanceOn {r : DailyBalance} (h : balanceOn t m d = some r) : r ∈ t :=
  (Table.find?_some h).1

/-- Rewriting rows without touching their keys rewrites the row of each day. -/
theorem balanceOn_map {f : DailyBalance → DailyBalance} (hRows : u.rows = t.rows.map f)
    (hKey : ∀ r, (f r).merchantID = r.merchantID ∧ (f r).businessDate = r.businessDate)
    (m : Text) (d : Int) : balanceOn u m d = (balanceOn t m d).map f := by
  have hPred : onDay m d ∘ f = onDay m d := by
    funext r
    simp [onDay, hKey r]
  rw [balanceOn, Table.find?, hRows, List.find?_map, hPred]
  rfl

/-- A row added at the end is the row of its own day. -/
theorem balanceOn_append {r : DailyBalance} (hRows : u.rows = t.rows ++ [r]) (m : Text) (d : Int) :
    balanceOn u m d = (balanceOn t m d).or (if onDay m d r then some r else none) := by
  rw [balanceOn, Table.find?, hRows, List.find?_append]
  cases h : onDay m d r <;> simp [balanceOn, Table.find?, h]

/-! ## Materializing a block -/

/-- The days of a range. -/
theorem mem_days {first last : Int} : d ∈ days first last ↔ first ≤ d ∧ d ≤ last := by
  simp only [days, List.mem_map, List.mem_range]
  constructor
  · rintro ⟨i, hi, rfl⟩
    omega
  · intro h
    exact ⟨(d - first).toNat, by omega, by omega⟩

/-- A day that has a row cannot be given another. -/
theorem conflicts_zeroBalance (t : Table balanceSchema) (m : Text) (d : Int) :
    t.conflicts (zeroBalance m d) = (balanceOn t m d).isSome := by
  rw [balanceOn, Table.find?, List.isSome_find?]
  rfl

/-- A zero row fills a day that has none. -/
theorem balanceOn_insert_zero (t : Table balanceSchema) (m m' : Text) (d d' : Int) :
    balanceOn (t.insertOrIgnore (zeroBalance m' d') (zeroBalance_check m' d')) m d =
      (balanceOn t m d).or (if m = m' ∧ d = d' then some (zeroBalance m d) else none) := by
  cases hConflict : t.conflicts (zeroBalance m' d') with
  | true =>
    -- the day has a row, which stays
    rw [Table.insertOrIgnore_of_conflict hConflict]
    rw [conflicts_zeroBalance, Option.isSome_iff_exists] at hConflict
    obtain ⟨r, hr⟩ := hConflict
    split_ifs with h
    · rw [h.1, h.2, hr, Option.some_or]
    · rw [Option.or_none]
  | false =>
    -- the new row is found on its own day, and on no other
    rw [balanceOn_append (Table.rows_insertOrIgnore_of_free hConflict)]
    by_cases h : m = m' ∧ d = d'
    · rw [if_pos h, if_pos (by simp [onDay, zeroBalance, h]), h.1, h.2]
    · have hOn : onDay m d (zeroBalance m' d') = false := by
        rw [Bool.eq_false_iff, Ne, onDay_iff]
        exact fun hKey => h ⟨hKey.1.symm, hKey.2.symm⟩
      rw [if_neg h, hOn]
      rfl

/-- After materializing, every day of the block has a row; a row that was
there stays, and a new one is zero. -/
theorem balanceOn_materialize (t : Table balanceSchema) (m m' : Text) (d first last : Int) :
    balanceOn (materialize t m' first last) m d =
      (balanceOn t m d).or
        (if m = m' ∧ first ≤ d ∧ d ≤ last then some (zeroBalance m d) else none) := by
  have hFold : ∀ (ds : List Int) (t : Table balanceSchema),
      balanceOn (ds.foldl (fun t d => t.insertOrIgnore (zeroBalance m' d)
        (zeroBalance_check m' d)) t) m d =
      (balanceOn t m d).or (if m = m' ∧ d ∈ ds then some (zeroBalance m d) else none) := by
    intro ds
    induction ds with
    | nil => simp
    | cons d' ds ih =>
      intro t
      rw [List.foldl_cons, ih, balanceOn_insert_zero]
      cases balanceOn t m d with
      | some r => simp
      | none =>
        by_cases hm : m = m' <;> by_cases hd : d = d' <;> simp [hm, hd]
  rw [materialize, hFold, if_congr (by rw [mem_days]) rfl rfl]

/-- Materializing only adds zero rows of the block. -/
theorem rows_materialize (t : Table balanceSchema) (m : Text) (first last : Int) :
    ∃ extra, (materialize t m first last).rows = t.rows ++ extra ∧
      ∀ r ∈ extra, ∃ d, first ≤ d ∧ d ≤ last ∧ r = zeroBalance m d := by
  -- day by day: a day that has a row keeps it, another one gets a zero row
  have hFold : ∀ (ds : List Int) (t : Table balanceSchema), ∃ extra,
      (ds.foldl (fun t d => t.insertOrIgnore (zeroBalance m d) (zeroBalance_check m d)) t).rows =
        t.rows ++ extra ∧ ∀ r ∈ extra, ∃ d ∈ ds, r = zeroBalance m d := by
    -- induction on the days, over the table so far
    intro ds
    induction ds with
    | nil => exact fun t => ⟨[], by simp, by simp⟩
    | cons d ds ih =>
      intro t
      obtain ⟨extra, hRows, hExtra⟩ :=
        ih (t.insertOrIgnore (zeroBalance m d) (zeroBalance_check m d))
      cases hConflict : t.conflicts (zeroBalance m d) with
      | true =>
        rw [Table.insertOrIgnore_of_conflict hConflict] at hRows
        refine ⟨extra, by rw [List.foldl_cons, Table.insertOrIgnore_of_conflict hConflict, hRows], ?_⟩
        intro r hr
        obtain ⟨d', hd', rfl⟩ := hExtra r hr
        exact ⟨d', List.mem_cons_of_mem _ hd', rfl⟩
      | false =>
        rw [Table.rows_insertOrIgnore_of_free hConflict] at hRows
        refine ⟨zeroBalance m d :: extra, by rw [List.foldl_cons, hRows]; simp, ?_⟩
        intro r hr
        rcases List.mem_cons.mp hr with rfl | hr
        · exact ⟨d, List.mem_cons_self, rfl⟩
        · obtain ⟨d', hd', rfl⟩ := hExtra r hr
          exact ⟨d', List.mem_cons_of_mem _ hd', rfl⟩
  obtain ⟨extra, hRows, hExtra⟩ := hFold (days first last) t
  refine ⟨extra, hRows, fun r hr => ?_⟩
  obtain ⟨d, hd, rfl⟩ := hExtra r hr
  exact ⟨d, (mem_days.mp hd).1, (mem_days.mp hd).2, rfl⟩

/-! ## Adding an event to its day -/

theorem addEffect_of_not_onDay {r : DailyBalance}
    (h : ¬ onDay event.merchantID event.businessDate r = true) : addEffect event r = r := by
  rw [addEffect, if_neg h]

/-- The upsert changes the row of the event's day only. -/
theorem balanceOn_upsert (h : upsertBalance t event = .ok u) (m : Text) (d : Int) :
    balanceOn u m d =
      if event.merchantID = m ∧ event.businessDate = d then
        some ((balanceOn t m d).elim (firstBalance event) (addEffect event))
      else balanceOn t m d := by
  unfold upsertBalance at h
  split_ifs at h with hAny
  · rw [balanceOn_map (Table.update_eq_ok.mp h).2 (addEffect_key event)]
    split_ifs with hDay
    · -- the day has a row, so the update hits it
      obtain ⟨r, hr⟩ := Option.isSome_iff_exists.mp
        (List.find?_isSome.mpr (List.any_eq_true.mp hAny))
      have hOn : balanceOn t m d = some r := by rw [← hDay.1, ← hDay.2]; exact hr
      rw [hOn]
      rfl
    · cases hOn : balanceOn t m d with
      | none => rfl
      | some r =>
        rw [Option.map_some, addEffect_of_not_onDay]
        rw [onDay_iff, (balanceOn_key hOn).1, (balanceOn_key hOn).2]
        exact fun hKey => hDay ⟨hKey.1.symm, hKey.2.symm⟩
  · -- the merchant's first event of the day
    rw [balanceOn_append (Table.insert_eq_ok.mp h).2.2]
    split_ifs with hOn hDay hDay
    · have hNone : balanceOn t m d = none := by
        rw [← hDay.1, ← hDay.2]
        exact List.find?_eq_none.mpr fun r hr hOn => hAny (List.any_eq_true.mpr ⟨r, hr, hOn⟩)
      rw [hNone]
      rfl
    · exact absurd (onDay_iff.mp hOn) hDay
    · exact absurd (onDay_iff.mpr hDay) hOn
    · rw [Option.or_none]

end Cashflow.Consolidation
