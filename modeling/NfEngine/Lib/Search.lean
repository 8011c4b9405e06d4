-- SUMMARY: What stands behind the first occurrence of a key in a text, and search in texts that are put together with separators.
import Mathlib.Data.List.Basic

/-!
# Searching a text for a key

An occurrence of the key cannot reach over an element that the key does not contain. So
a text that is cut at such an element is searched piece by piece.
-/

namespace Lib.Search

variable {α : Type*} [DecidableEq α] {key : List α} {c : α}

/-- What follows the first occurrence of the key. -/
def behind (key : List α) : List α → Option (List α)
  | [] => if key = [] then some [] else none
  | c :: text =>
    if key.isPrefixOf (c :: text) then some ((c :: text).drop key.length) else behind key text

theorem behind_cons_eq (key : List α) (c : α) (text : List α) :
    behind key (c :: text) =
      if key.isPrefixOf (c :: text) then some ((c :: text).drop key.length) else behind key text := rfl

theorem behind_append_self (key rest : List α) : behind key (key ++ rest) = some rest := by
  have hprefix : key.isPrefixOf (key ++ rest) = true :=
    List.isPrefixOf_iff_prefix.mpr (List.prefix_append key rest)
  cases htext : key ++ rest with
  | nil =>
    obtain ⟨rfl, rfl⟩ := List.append_eq_nil_iff.mp htext
    rfl
  | cons c text =>
    rw [htext] at hprefix
    rw [behind_cons_eq, if_pos hprefix, ← htext, List.drop_left]

/-- What follows the key is the end of the text. -/
theorem behind_suffix {text rest : List α} (h : behind key text = some rest) : rest <:+ text := by
  induction text with
  | nil =>
    unfold behind at h
    split at h
    · cases h
      exact List.suffix_rfl
    · cases h
  | cons c text ih =>
    rw [behind_cons_eq] at h
    split at h
    · cases h
      exact List.drop_suffix _ _
    · exact (ih h).trans (List.suffix_cons c text)

omit [DecidableEq α] in
/-- The key does not reach over a foreign element. -/
theorem isPrefix_append_cons_iff (hc : c ∉ key) (xs ys : List α) :
    key <+: xs ++ c :: ys ↔ key <+: xs := by
  refine ⟨fun h => ?_, fun h => h.trans (List.prefix_append _ _)⟩
  rcases Nat.lt_or_ge xs.length key.length with hlong | hshort
  · have hxs : xs ++ [c] <+: xs ++ c :: ys := ⟨ys, by rw [List.append_assoc]; rfl⟩
    have hsub : xs ++ [c] <+: key := List.prefix_of_prefix_length_le hxs h (by
      rw [List.length_append]
      exact hlong)
    exact absurd (hsub.subset (List.mem_append_right _ List.mem_cons_self)) hc
  · exact List.prefix_of_prefix_length_le h (List.prefix_append _ _) hshort

theorem behind_append_cons (hkey : key ≠ []) (hc : c ∉ key) (xs ys : List α) :
    behind key (xs ++ c :: ys) =
      match behind key xs with
      | some rest => some (rest ++ c :: ys)
      | none => behind key ys := by
  have hiff : ∀ zs, key.isPrefixOf (zs ++ c :: ys) = key.isPrefixOf zs := by
    intro zs
    rw [Bool.eq_iff_iff, List.isPrefixOf_iff_prefix, List.isPrefixOf_iff_prefix]
    exact isPrefix_append_cons_iff hc zs ys
  induction xs with
  | nil =>
    have hnot : ¬ key.isPrefixOf (c :: ys) = true := by
      rw [← List.nil_append (c :: ys), hiff, List.isPrefixOf_iff_prefix]
      exact fun h => hkey (List.prefix_nil.mp h)
    simp only [List.nil_append, behind, if_neg hnot, if_neg hkey]
  | cons x xs ih =>
    rw [List.cons_append, behind_cons_eq, ← List.cons_append, hiff, behind_cons_eq]
    split
    next hpre =>
      have hlen := (List.isPrefixOf_iff_prefix.mp hpre).length_le
      dsimp only
      rw [List.drop_append_of_le_length hlen]
    next => exact ih

/-- A foreign element in front is passed over. -/
theorem behind_cons (hkey : key ≠ []) (hc : c ∉ key) (text : List α) :
    behind key (c :: text) = behind key text := by
  have h := behind_append_cons hkey hc [] text
  rwa [List.nil_append, behind, if_neg hkey] at h

end Lib.Search
