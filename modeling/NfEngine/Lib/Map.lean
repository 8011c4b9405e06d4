-- SUMMARY: Finite maps with the interface of a C++ `unordered_map`, as functions into `Option`.
import Mathlib.Logic.Function.Basic
import Mathlib.Algebra.BigOperators.Fin
import Mathlib.Algebra.BigOperators.Group.Finset.Basic

/-!
# Maps

A map is the function that looks a key up. Equality of maps is therefore
equality of contents, which is what "the table is unchanged" has to mean for a
hash map. `emplace` keeps an existing entry, as the standard container does.

The second part counts over a table of components indexed by a finite type, one
of which changes.
-/

namespace Lib

/-- A map from `κ` to `ν`. -/
def Map (κ ν : Type*) : Type _ := κ → Option ν

namespace Map

variable {κ ν : Type*} [DecidableEq κ]

/-- The entry of a key. -/
def find (m : Map κ ν) (k : κ) : Option ν := m k

def empty : Map κ ν := fun _ => none

/-- `m[k] = v`. -/
def insert (m : Map κ ν) (k : κ) (v : ν) : Map κ ν := fun k' => if k' = k then some v else m k'

def erase (m : Map κ ν) (k : κ) : Map κ ν := fun k' => if k' = k then none else m k'

/-- `count(k) != 0`. -/
def contains (m : Map κ ν) (k : κ) : Bool := (m.find k).isSome

/-- Insert unless the key is present. -/
def emplace (m : Map κ ν) (k : κ) (v : ν) : Map κ ν :=
  if m.contains k then m else m.insert k v

omit [DecidableEq κ] in
@[ext] theorem ext {m m' : Map κ ν} (h : ∀ k, m.find k = m'.find k) : m = m' := funext h

omit [DecidableEq κ] in
@[simp] theorem find_empty (k : κ) : (empty : Map κ ν).find k = none := rfl

theorem find_insert (m : Map κ ν) (k k' : κ) (v : ν) :
    (m.insert k v).find k' = if k' = k then some v else m.find k' := rfl

theorem find_erase (m : Map κ ν) (k k' : κ) :
    (m.erase k).find k' = if k' = k then none else m.find k' := rfl

@[simp] theorem find_insert_same (m : Map κ ν) (k : κ) (v : ν) :
    (m.insert k v).find k = some v := by simp [find_insert]

@[simp] theorem find_insert_ne (m : Map κ ν) {k k' : κ} (v : ν) (h : k' ≠ k) :
    (m.insert k v).find k' = m.find k' := by simp [find_insert, h]

@[simp] theorem find_erase_same (m : Map κ ν) (k : κ) : (m.erase k).find k = none := by
  simp [find_erase]

@[simp] theorem find_erase_ne (m : Map κ ν) {k k' : κ} (h : k' ≠ k) :
    (m.erase k).find k' = m.find k' := by simp [find_erase, h]

/-- Erasing only forgets. -/
theorem find_erase_eq_some {m : Map κ ν} {k k' : κ} {v : ν} :
    (m.erase k).find k' = some v ↔ k' ≠ k ∧ m.find k' = some v := by
  rw [find_erase]
  by_cases hk : k' = k <;> simp [hk]

omit [DecidableEq κ] in
theorem contains_eq_false {m : Map κ ν} {k : κ} : m.contains k = false ↔ m.find k = none := by
  simp [contains]

omit [DecidableEq κ] in
theorem contains_eq_true {m : Map κ ν} {k : κ} : m.contains k = true ↔ ∃ v, m.find k = some v := by
  simp [contains, Option.isSome_iff_exists]

/-- An entry after `emplace` was there before, or is the new one. -/
theorem find_emplace_eq_some {m : Map κ ν} {k k' : κ} {v v' : ν}
    (h : (m.emplace k v).find k' = some v') : m.find k' = some v' ∨ (k' = k ∧ v' = v) := by
  unfold emplace at h
  split at h
  next => exact .inl h
  next =>
    by_cases hk : k' = k
    · subst hk
      rw [find_insert_same] at h
      exact .inr ⟨rfl, (Option.some.inj h).symm⟩
    · rw [find_insert_ne m v hk] at h
      exact .inl h

/-- `emplace` keeps what is there. -/
theorem find_emplace_of_find {m : Map κ ν} {k' : κ} {v' : ν} (h : m.find k' = some v') (k : κ) (v : ν) :
    (m.emplace k v).find k' = some v' := by
  unfold emplace
  split
  next => exact h
  next hnew =>
    have hne : k' ≠ k := fun heq => hnew (by simp [contains, ← heq, h])
    rw [find_insert_ne m v hne, h]

theorem emplace_of_find_none {m : Map κ ν} {k : κ} (h : m.find k = none) (v : ν) :
    m.emplace k v = m.insert k v := by
  simp [emplace, contains, h]

theorem insert_insert (m : Map κ ν) (k : κ) (v v' : ν) : (m.insert k v).insert k v' = m.insert k v' := by
  ext1 k'
  by_cases hk : k' = k
  · rw [hk, find_insert_same, find_insert_same]
  · rw [find_insert_ne _ _ hk, find_insert_ne _ _ hk, find_insert_ne _ _ hk]

/-- Writing back the entry a key already has changes nothing. -/
theorem insert_eq_self {m : Map κ ν} {k : κ} {v : ν} : m.insert k v = m ↔ m.find k = some v := by
  constructor
  · intro h
    rw [← h, find_insert_same]
  · intro h
    ext1 k'
    by_cases hk : k' = k
    · rw [hk, find_insert_same, h]
    · rw [find_insert_ne _ _ hk]

end Map

/-! ## Counting over a table -/

/-- Replacing one component moves the total by the difference of its weights. -/
theorem sum_update_add {ι β M : Type*} [Fintype ι] [DecidableEq ι] [AddCommMonoid M] (w : β → M)
    (g : ι → β) (i : ι) (b : β) :
    ∑ j, w (Function.update g i b j) + w (g i) = ∑ j, w (g j) + w b := by
  have hupd : ∀ j, w (Function.update g i b j) = Function.update (fun j => w (g j)) i (w b) j := by
    intro j
    by_cases hj : j = i
    · subst hj; simp
    · simp [hj]
  simp only [hupd]
  rw [Finset.sum_update_of_mem (Finset.mem_univ i),
    Finset.sum_eq_add_sum_sdiff_singleton_of_mem (Finset.mem_univ i) (fun j => w (g j)),
    add_comm (w b), add_assoc, add_comm (w b), ← add_assoc, add_comm (w (g i))]

/-- The total is the weight of one component and a rest that does not depend on it. -/
theorem exists_sum_update_eq {ι β M : Type*} [Fintype ι] [DecidableEq ι] [AddCommMonoid M] (w : β → M)
    (g : ι → β) (i : ι) :
    ∃ rest, ∑ j, w (g j) = w (g i) + rest ∧ ∀ b, ∑ j, w (Function.update g i b j) = w b + rest := by
  refine ⟨∑ j ∈ Finset.univ \ {i}, w (g j), ?_, fun b => ?_⟩
  · exact Finset.sum_eq_add_sum_sdiff_singleton_of_mem (Finset.mem_univ i) (fun j => w (g j))
  · have hcomp : ∑ j, w (Function.update g i b j) = ∑ j, Function.update (w ∘ g) i (w b) j := by
      rw [← Function.comp_update]
      rfl
    rw [hcomp, Finset.sum_update_of_mem (Finset.mem_univ i)]
    rfl

end Lib
