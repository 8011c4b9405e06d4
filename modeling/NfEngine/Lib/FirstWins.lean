-- SUMMARY: Insertion into a collection with keys that keeps an entry that is already there.
import Mathlib.Data.List.Induction
import Mathlib.Data.List.Nodup

/-!
# The first of a key wins

`emplace` into a hash map inserts an entry unless one with its key is there. Inserting a
list of entries so leaves one entry for each key, the first that the list has.
-/

namespace Lib.FirstWins

variable {α κ : Type*} [DecidableEq κ] (key : α → κ)

def emplace (entries : List α) (a : α) : List α :=
  if entries.any fun b => key b = key a then entries else entries ++ [a]

def emplaceAll (as : List α) : List α := as.foldl (emplace key) []

/-- An element of the list in front of which none has its key. -/
def IsFirst (as : List α) (a : α) : Prop :=
  ∃ front rest, as = front ++ a :: rest ∧ ∀ b ∈ front, key b ≠ key a

variable {key}

omit [DecidableEq κ] in
theorem isFirst_concat {as : List α} {a x : α} :
    IsFirst key (as ++ [x]) a ↔ IsFirst key as a ∨ a = x ∧ ∀ b ∈ as, key b ≠ key x := by
  constructor
  · rintro ⟨front, rest, heq, hfront⟩
    rcases List.eq_nil_or_concat rest with rfl | ⟨rest, last, rfl⟩
    · obtain ⟨rfl, hx⟩ := List.append_inj' heq rfl
      cases hx
      exact .inr ⟨rfl, hfront⟩
    · rw [List.concat_eq_append, ← List.cons_append, ← List.append_assoc] at heq
      obtain ⟨rfl, _⟩ := List.append_inj' heq rfl
      exact .inl ⟨front, rest, rfl, hfront⟩
  · rintro (⟨front, rest, rfl, hfront⟩ | ⟨rfl, hnew⟩)
    · exact ⟨front, rest ++ [x], by simp, hfront⟩
    · exact ⟨as, [], rfl, hnew⟩

/-- The entries are the first elements of their keys, one for each key. -/
structure Firsts (key : α → κ) (as entries : List α) : Prop where
  nodup : (entries.map key).Nodup
  mem_iff : ∀ a, a ∈ entries ↔ IsFirst key as a
  exists_iff : ∀ k, (∃ b ∈ entries, key b = k) ↔ ∃ b ∈ as, key b = k

theorem Firsts.emplace {as entries : List α} (h : Firsts key as entries) (x : α) :
    Firsts key (as ++ [x]) (emplace key entries x) := by
  unfold FirstWins.emplace
  by_cases hthere : ∃ b ∈ entries, key b = key x
  · have hany : (entries.any fun b => key b = key x) = true := by simpa using hthere
    obtain ⟨b, hb, hkey⟩ := (h.exists_iff _).mp hthere
    rw [if_pos hany]
    refine ⟨h.nodup, ?_, ?_⟩
    · intro a
      rw [isFirst_concat, h.mem_iff]
      exact ⟨.inl, fun hor => hor.resolve_right fun hnew => hnew.2 b hb hkey⟩
    · intro k
      rw [h.exists_iff]
      constructor
      · rintro ⟨c, hc, rfl⟩
        exact ⟨c, List.mem_append_left _ hc, rfl⟩
      · rintro ⟨c, hc, rfl⟩
        rcases List.mem_append.mp hc with hc | hc
        · exact ⟨c, hc, rfl⟩
        · rw [List.mem_singleton.mp hc]
          exact ⟨b, hb, hkey⟩
  · have hany : ¬ (entries.any fun b => key b = key x) = true := by simpa using hthere
    have hnew : ∀ b ∈ as, key b ≠ key x := by
      intro b hb hkey
      exact hthere ((h.exists_iff _).mpr ⟨b, hb, hkey⟩)
    rw [if_neg hany]
    refine ⟨?_, ?_, ?_⟩
    · rw [List.map_append, List.map_singleton]
      refine List.nodup_append.mpr ⟨h.nodup, List.nodup_singleton _, ?_⟩
      intro k hk k' hk' heq
      obtain ⟨b, hb, rfl⟩ := List.mem_map.mp hk
      rw [List.mem_singleton.mp hk'] at heq
      exact hthere ⟨b, hb, heq⟩
    · intro a
      rw [isFirst_concat, List.mem_append, h.mem_iff, List.mem_singleton]
      exact or_congr_right ⟨fun ha => ⟨ha, hnew⟩, fun ha => ha.1⟩
    · intro k
      simp only [List.mem_append, or_and_right, exists_or, h.exists_iff]

/-- Inserting a list leaves the first entry of each key. -/
theorem firsts_emplaceAll (as : List α) : Firsts key as (emplaceAll key as) := by
  induction as using List.reverseRecOn with
  | nil => exact ⟨List.nodup_nil, by simp [emplaceAll, IsFirst], by simp [emplaceAll]⟩
  | append_singleton as x ih =>
    rw [emplaceAll, List.foldl_concat]
    exact ih.emplace x

end Lib.FirstWins
