-- SUMMARY: Things that each come from a source of their own, and the steps that keep it so.
import Mathlib.Algebra.BigOperators.Group.Finset.Basic
import Mathlib.Data.List.Forall2
import Mathlib.Data.Multiset.MapFold

/-!
# Provenance

Things move through a system: they arrive, change from one form into another, and get
lost. Each of them can be traced to a source, and no source is used twice. `From` is
kept by an arrival and by a loss. It can be read off two lists in step, added up over the
parts of a system, and followed over two stages.
-/

namespace Lib.Provenance

variable {α β : Type*} {R : α → β → Prop}

/-- Each of the things comes from a source of its own. -/
def From (R : α → β → Prop) (sources : Multiset α) (things : Multiset β) : Prop :=
  ∃ used ≤ sources, Multiset.Rel R used things

variable {sources : Multiset α} {things : Multiset β} {a : α} {b : β}

theorem coe_concat (l : List α) (a : α) : ((l ++ [a] : List α) : Multiset α) = a ::ₘ (l : Multiset α) :=
  Multiset.coe_eq_coe.mpr (List.perm_append_singleton a l)

theorem from_zero : From R sources 0 := ⟨0, Multiset.zero_le _, .zero⟩

/-- Some of the sources, in their order, and one thing of each. -/
theorem from_of_forall₂ {used l : List α} {l' : List β} (hsub : used.Sublist l) (h : List.Forall₂ R used l') :
    From R (l : Multiset α) (l' : Multiset β) := by
  refine ⟨used, hsub.subperm, ?_⟩
  clear hsub
  induction h with
  | nil => exact .zero
  | cons hab _ ih => exact ih.cons hab

namespace From

/-- A thing arrives together with its source. -/
theorem arrive (hab : R a b) (h : From R sources things) : From R (a ::ₘ sources) (b ::ₘ things) := by
  obtain ⟨used, hle, hrel⟩ := h
  exact ⟨a ::ₘ used, Multiset.cons_le_cons a hle, hrel.cons hab⟩

/-- Some of the things. -/
theorem of_le {things' : Multiset β} (h : From R sources things) (hle : things' ≤ things) :
    From R sources things' := by
  obtain ⟨others, rfl⟩ := Multiset.le_iff_exists_add.mp hle
  obtain ⟨used, hle', hrel⟩ := h
  obtain ⟨used', rest, hrel', -, rfl⟩ := Multiset.rel_add_right.mp hrel
  exact ⟨used', (Multiset.le_add_right used' rest).trans hle', hrel'⟩

/-- More sources. -/
theorem mono_left {sources' : Multiset α} (h : From R sources things) (hle : sources ≤ sources') :
    From R sources' things := by
  obtain ⟨used, hle', hrel⟩ := h
  exact ⟨used, hle'.trans hle, hrel⟩

theorem add {sources' : Multiset α} {things' : Multiset β} (h : From R sources things)
    (h' : From R sources' things') : From R (sources + sources') (things + things') := by
  obtain ⟨used, hle, hrel⟩ := h
  obtain ⟨used', hle', hrel'⟩ := h'
  exact ⟨used + used', add_le_add hle hle', hrel.add hrel'⟩

/-- The things of a second stage, over those of the first that they come from. -/
theorem trans {γ : Type*} {S : β → γ → Prop} {results : Multiset γ} (h : From R sources things)
    (h' : From S things results) : ∃ middle ≤ things, From R sources middle ∧ Multiset.Rel S middle results := by
  obtain ⟨middle, hle, hrel⟩ := h'
  exact ⟨middle, hle, h.of_le hle, hrel⟩

/-- What is known of the things by a view of them. -/
theorem of_map {γ : Type*} {S : α → γ → Prop} {g : β → γ} (h : From S sources (things.map g)) :
    From (fun a b => S a (g b)) sources things := by
  obtain ⟨used, hle, hrel⟩ := h
  exact ⟨used, hle, Multiset.rel_map_right.mp hrel⟩

theorem exists_source (h : From R sources things) (hb : b ∈ things) : ∃ a ∈ sources, R a b := by
  obtain ⟨used, hle, hrel⟩ := h
  obtain ⟨rest, rfl⟩ := Multiset.exists_cons_of_mem hb
  obtain ⟨a, used', hab, -, rfl⟩ := Multiset.rel_cons_right.mp hrel
  exact ⟨a, Multiset.mem_of_le hle (Multiset.mem_cons_self a used'), hab⟩

end From

theorem from_sum {ι : Type*} {s : Finset ι} {f : ι → Multiset α} {g : ι → Multiset β}
    (h : ∀ i, From R (f i) (g i)) : From R (∑ i ∈ s, f i) (∑ i ∈ s, g i) := by
  classical
  induction s using Finset.induction_on with
  | empty => exact from_zero
  | insert i s hi ih =>
    rw [Finset.sum_insert hi, Finset.sum_insert hi]
    exact (h i).add ih

end Lib.Provenance
