-- SUMMARY: The contents of a circular buffer: taking from the front and appending at the back.
import Mathlib.Data.List.Rotate
import NfEngine.Lib.Window

/-!
# Circular buffers

A circular buffer is a list of fixed length with a position and a number of
elements; its contents are read off from the position onwards, starting again at
the front when the end is reached. Moving the position drops elements at the
front of the contents, and overwriting the place after the last element appends
at their back.
-/

namespace Lib.Ring

open Lib.Window

variable {α : Type*} {buf data : List α} {head size pos n k : ℕ}

/-- The `size` elements from position `head` on, going round the end. -/
def window (buf : List α) (head size : ℕ) : List α := (buf.rotate head).take size

/-- Replace the elements from position `pos` on by `data`. -/
def overwrite (buf : List α) (pos : ℕ) (data : List α) : List α :=
  buf.take pos ++ data ++ buf.drop (pos + data.length)

theorem length_window (h : size ≤ buf.length) : (window buf head size).length = size := by
  simp [window, h]

theorem length_overwrite (h : pos + data.length ≤ buf.length) :
    (overwrite buf pos data).length = buf.length := by
  simp only [overwrite, List.length_append, List.length_take, List.length_drop]
  omega

theorem getElem?_window (hsize : size ≤ buf.length) (hk : k < size) :
    (window buf head size)[k]? = buf[(head + k) % buf.length]? := by
  rw [window, List.getElem?_take_of_lt hk, List.getElem?_rotate (by omega), Nat.add_comm]

theorem getElem?_overwrite_of_mem (h : pos ≤ buf.length) (hk : k < data.length) :
    (overwrite buf pos data)[pos + k]? = data[k]? := by
  have hlen : (buf.take pos).length = pos := by simp [h]
  rw [overwrite, List.append_assoc, List.getElem?_append_right (by omega),
    List.getElem?_append_left (by omega), hlen, Nat.add_sub_cancel_left]

theorem getElem?_overwrite_of_not_mem (h : pos ≤ buf.length)
    (hk : k < pos ∨ pos + data.length ≤ k) : (overwrite buf pos data)[k]? = buf[k]? := by
  have hlen : (buf.take pos).length = pos := by simp [h]
  rcases hk with hk | hk
  · rw [overwrite, List.append_assoc, List.getElem?_append_left (by omega),
      List.getElem?_take_of_lt hk]
  · rw [overwrite, List.getElem?_append_right (by simp only [List.length_append]; omega),
      List.getElem?_drop, List.length_append, hlen]
    congr 1
    omega

/-- Both parts of a window that may go round the end. -/
theorem window_eq_append (hhead : head ≤ buf.length) (hsize : size ≤ buf.length) :
    window buf head size = (buf.drop head).take size ++ buf.take (size - (buf.length - head)) := by
  rw [window, List.rotate_eq_drop_append_take hhead, List.take_append, List.length_drop,
    List.take_take, Nat.min_eq_left (by omega)]

theorem take_window (h : n ≤ size) : (window buf head size).take n = window buf head n := by
  rw [window, window, List.take_take, Nat.min_eq_left h]

/-- Moving the position drops elements at the front. -/
theorem window_drop (hn : n ≤ size) (hsize : size ≤ buf.length) :
    window buf ((head + n) % buf.length) (size - n) = (window buf head size).drop n := by
  have hlen : (buf.rotate head).length = buf.length := List.length_rotate ..
  rw [window, window, List.rotate_mod, ← List.rotate_rotate,
    List.rotate_eq_drop_append_take (show n ≤ (buf.rotate head).length by omega),
    List.take_append_of_le_length (by rw [List.length_drop]; omega), List.drop_take]

/-- Overwriting the place after the last element appends. -/
theorem window_overwrite (hpos : pos = (head + size) % buf.length)
    (hend : pos + data.length ≤ buf.length) (hroom : size + data.length ≤ buf.length) :
    window (overwrite buf pos data) head (size + data.length) = window buf head size ++ data := by
  have hlen := length_overwrite hend
  have hold : (window buf head size).length = size := length_window (by omega)
  have hmod : ∀ j, j < data.length → (head + size + j) % buf.length = pos + j := by
    intro j hj
    rw [Nat.add_mod, ← hpos, Nat.add_mod_mod]
    exact Nat.mod_eq_of_lt (by omega)
  apply List.ext_getElem?
  intro k
  by_cases hk : k < size + data.length
  · rw [getElem?_window (by omega) hk, hlen]
    by_cases hks : k < size
    · -- an old element: its place is not among the overwritten ones
      rw [List.getElem?_append_left (by omega), getElem?_window (by omega) hks]
      apply getElem?_overwrite_of_not_mem (by omega)
      by_contra hmem
      obtain ⟨j, hj⟩ := Nat.exists_eq_add_of_le (show pos ≤ (head + k) % buf.length by omega)
      have hplace := hj.trans (hmod j (by omega)).symm
      have := eq_of_mod_eq (show head ≤ head + k by omega) (by omega)
        (show head ≤ head + size + j by omega) (by omega) hplace
      omega
    · rw [List.getElem?_append_right (by omega), hold,
        show head + k = head + size + (k - size) by omega, hmod (k - size) (by omega)]
      exact getElem?_overwrite_of_mem (by omega) (by omega)
  · rw [List.getElem?_eq_none, List.getElem?_eq_none]
    · simp only [List.length_append]
      omega
    · rw [length_window (by omega)]
      omega

end Lib.Ring
