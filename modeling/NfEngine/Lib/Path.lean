-- SUMMARY: Resolution of path components against a directory, and when a path stays below the directory it starts from.
import Mathlib.Data.List.Induction

/-!
# Paths

A directory is the list of the names that lead to it from the root. A path is a list of
components, each of which stays, goes up or enters a name; going up from the root stays
there. This is resolution by the components alone: what a link would do is not part of
it.

A path that never goes up further than it has come down resolves to a place below its
start, whatever the start is. Any other path leaves some start.
-/

namespace Lib.Path

variable {ν : Type*}

inductive Component (ν : Type*) where
  | here
  | up
  | name (n : ν)

def enter (dir : List ν) : Component ν → List ν
  | .here => dir
  | .up => dir.dropLast
  | .name n => dir ++ [n]

def resolve (dir : List ν) (cs : List (Component ν)) : List ν := cs.foldl enter dir

/-- From `depth` levels below its start the path never goes above it. -/
def stays : ℕ → List (Component ν) → Bool
  | _, [] => true
  | depth, .here :: cs => stays depth cs
  | 0, .up :: _ => false
  | depth + 1, .up :: cs => stays depth cs
  | depth, .name _ :: cs => stays (depth + 1) cs

theorem resolve_append (dir : List ν) (cs cs' : List (Component ν)) :
    resolve dir (cs ++ cs') = resolve (resolve dir cs) cs' := List.foldl_append

theorem resolve_cons (dir : List ν) (c : Component ν) (cs : List (Component ν)) :
    resolve dir (c :: cs) = resolve (enter dir c) cs := rfl

/-- A path that stays does not depend on what is above its start. -/
theorem resolve_of_stays {base dir : List ν} {cs : List (Component ν)}
    (h : stays dir.length cs = true) : resolve (base ++ dir) cs = base ++ resolve dir cs := by
  induction cs generalizing dir with
  | nil => rfl
  | cons c cs ih =>
    cases c with
    | here => exact ih h
    | up =>
      cases dir using List.reverseRecOn with
      | nil => cases h
      | append_singleton dir n =>
        rw [List.length_append, List.length_singleton] at h
        simp only [resolve_cons, enter, ← List.append_assoc, List.dropLast_concat]
        exact ih h
    | name n =>
      simp only [resolve_cons, enter, List.append_assoc]
      apply ih
      rw [List.length_append]
      exact h

theorem isPrefix_resolve {base : List ν} {cs : List (Component ν)} (h : stays 0 cs = true) :
    base <+: resolve base cs := by
  have hbase := @resolve_of_stays _ base [] cs h
  rw [List.append_nil] at hbase
  exact ⟨_, hbase.symm⟩

/-- Names come from the start or from the path. -/
theorem mem_resolve {dir : List ν} {cs : List (Component ν)} {n : ν} (h : n ∈ resolve dir cs) :
    n ∈ dir ∨ .name n ∈ cs := by
  induction cs generalizing dir with
  | nil => exact .inl h
  | cons c cs ih =>
    rcases ih h with hdir | hcs
    · cases c with
      | here => exact .inl hdir
      | up => exact .inl ((List.dropLast_sublist dir).mem hdir)
      | name m =>
        rcases List.mem_append.mp hdir with hold | hnew
        · exact .inl hold
        · rw [List.mem_singleton.mp hnew]
          exact .inr List.mem_cons_self
    · exact .inr (List.mem_cons_of_mem c hcs)

/-- A path that does not stay leaves a directory whose name it does not mention. -/
theorem not_mem_resolve_of_not_stays {dir : List ν} {cs : List (Component ν)} {n : ν}
    (h : stays dir.length cs = false) (hdir : n ∉ dir) (hcs : .name n ∉ cs) :
    n ∉ resolve (n :: dir) cs := by
  induction cs generalizing dir with
  | nil => cases h
  | cons c cs ih =>
    have hcs' : .name n ∉ cs := fun hmem => hcs (List.mem_cons_of_mem c hmem)
    cases c with
    | here => exact ih h hdir hcs'
    | up =>
      cases dir using List.reverseRecOn with
      | nil =>
        -- from here on the start is the root
        intro hmem
        have hroot : n ∈ resolve [] cs := hmem
        rcases mem_resolve hroot with hnil | hname
        · cases hnil
        · exact hcs' hname
      | append_singleton dir m =>
        rw [List.length_append, List.length_singleton] at h
        rw [resolve_cons, enter, ← List.cons_append, List.dropLast_concat]
        exact ih h (fun hmem => hdir (List.mem_append_left _ hmem)) hcs'
    | name m =>
      rw [resolve_cons, enter, List.cons_append]
      refine ih ?_ ?_ hcs'
      · rw [List.length_append]
        exact h
      · intro hmem
        rcases List.mem_append.mp hmem with hold | hnew
        · exact hdir hold
        · exact hcs (List.mem_singleton.mp hnew ▸ List.mem_cons_self)

end Lib.Path
