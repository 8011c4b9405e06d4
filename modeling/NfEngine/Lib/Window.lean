-- SUMMARY: Arithmetic of ticket windows: masks, residues and prefixes of a claim order.
import Mathlib.Data.Nat.Bitwise
import Mathlib.Data.List.Infix

/-!
# Ticket windows

A bounded queue hands out tickets in order and stores ticket `t` in slot
`t % c`. Two tickets of one window of length `c` never share a slot.
-/

namespace Lib.Window

/-- Masking with a power of two minus one is the residue. -/
theorem and_mask {c : ℕ} (hc : ∃ k, c = 2 ^ k) (t : ℕ) : t &&& (c - 1) = t % c := by
  obtain ⟨k, rfl⟩ := hc
  exact Nat.and_two_pow_sub_one_eq_mod t k

theorem eq_of_mod_eq {a c t u : ℕ} (hat : a ≤ t) (htc : t < a + c) (hau : a ≤ u) (huc : u < a + c)
    (h : t % c = u % c) : t = u := by
  have key : ∀ {x y : ℕ}, a ≤ x → y < a + c → x ≤ y → x % c = y % c → x = y := by
    intro x y hx hy hle hmod
    have hdvd : c ∣ y - x := Nat.dvd_of_mod_eq_zero (Nat.sub_mod_eq_zero_of_mod_eq hmod.symm)
    have hzero : y - x = 0 := Nat.eq_zero_of_dvd_of_lt hdvd (by omega)
    omega
  rcases Nat.le_total t u with hle | hle
  · exact key hat huc hle h
  · exact (key hau htc hle h.symm).symm

/-- A prefix grows by the element that follows it. -/
theorem prefix_concat {α : Type*} {l m : List α} {x : α} (h : l <+: m) (hx : m[l.length]? = some x) :
    l ++ [x] <+: m := by
  obtain ⟨r, rfl⟩ := h
  rw [List.getElem?_append_right (Nat.le_refl _), Nat.sub_self] at hx
  cases r with
  | nil => simp at hx
  | cons y r =>
    simp only [List.getElem?_cons_zero, Option.some.injEq] at hx
    subst hx
    exact ⟨r, by simp⟩

end Lib.Window
