import Mathlib.Data.List.Basic

/-!
# Scripts of steps

A script is a list of steps done one after another, each of which establishes
something. A run that may stop anywhere knows at every point what the steps
done so far have established, as long as no later step undoes an earlier one:

* `Done.next` — doing the next step adds what it establishes and keeps the rest;
* `Done.keep` — what is done stays done under a change that undoes none of it.
-/

namespace Lib

section Script

variable {ι σ : Type*} (Holds : ι → σ → Prop)

/-- What the first `k` steps of the script establish holds in `s`. -/
def Done (script : List ι) (k : Nat) (s : σ) : Prop := ∀ step ∈ script.take k, Holds step s

/-- No step undoes an earlier one. -/
def Orderly (undoes : ι → ι → Bool) (script : List ι) : Prop :=
  script.Pairwise fun earlier later => undoes later earlier = false

instance (undoes : ι → ι → Bool) (script : List ι) : Decidable (Orderly undoes script) :=
  inferInstanceAs (Decidable (script.Pairwise fun earlier later => undoes later earlier = false))

variable {Holds} {undoes : ι → ι → Bool} {script : List ι} {k : Nat} {s t : σ} {step : ι}

/-- Steps that were done stay done if nothing undoes them. -/
theorem Done.keep (hDone : Done Holds script k s)
    (hKeep : ∀ earlier ∈ script.take k, Holds earlier s → Holds earlier t) :
    Done Holds script k t :=
  fun earlier hEarlier => hKeep earlier hEarlier (hDone earlier hEarlier)

/-- In an orderly script a step undoes none before it. -/
theorem Orderly.undoes_eq (hOrderly : Orderly undoes script) (hStep : script[k]? = some step)
    {earlier : ι} (hEarlier : earlier ∈ script.take k) : undoes step earlier = false := by
  obtain ⟨i, hi, rfl⟩ := List.mem_take_iff_getElem.mp hEarlier
  obtain ⟨hk, rfl⟩ := List.getElem?_eq_some_iff.mp hStep
  exact List.pairwise_iff_getElem.mp hOrderly i k (by omega) hk (by omega)

/-- One more step is done, and all before it still are. -/
theorem Done.next (hDone : Done Holds script k s) (hOrderly : Orderly undoes script)
    (hStep : script[k]? = some step)
    (hKeep : ∀ earlier, undoes step earlier = false → Holds earlier s → Holds earlier t)
    (hHolds : Holds step t) : Done Holds script (k + 1) t := by
  intro earlier hEarlier
  rw [List.take_add_one, hStep, List.mem_append] at hEarlier
  rcases hEarlier with hEarlier | hEarlier
  · exact hKeep earlier (hOrderly.undoes_eq hStep hEarlier) (hDone earlier hEarlier)
  · obtain rfl : earlier = step := by simpa using hEarlier
    exact hHolds

/-- Past the last step the whole script is done. -/
theorem Done.all (hDone : Done Holds script k s) (hEnd : script[k]? = none) :
    ∀ step ∈ script, Holds step s := by
  intro step hStep
  have hLe : script.length ≤ k := List.getElem?_eq_none_iff.mp hEnd
  exact hDone step (by rwa [List.take_of_length_le hLe])

end Script

end Lib
