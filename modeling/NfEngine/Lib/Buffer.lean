-- SUMMARY: A buffer of fixed size that is filled in place from its front.
import NfEngine.Lib.Bytes

/-!
# Filling a buffer

A frame is built in a vector that has its final size from the start. A store copies
bytes to an offset; one that does not stay inside the vector is an error. Stores of
which each begins where the one before it ends leave what they have stored, and zeros
behind it.
-/

namespace Lib.Buffer

/-- `memcpy(buf + off, data)`. -/
def store (buf : List UInt8) (off : ℕ) (data : List UInt8) : Option (List UInt8) :=
  if off + data.length ≤ buf.length then
    some (buf.take off ++ data ++ buf.drop (off + data.length))
  else
    none

/-- Stores one after the other, each with its offset. -/
def storeAll (buf : List UInt8) : List (ℕ × List UInt8) → Option (List UInt8)
  | [] => some buf
  | (off, data) :: stores => (store buf off data).bind (storeAll · stores)

/-- The first store is at `start`, and each begins where the one before it ends. -/
def Adjacent : ℕ → List (ℕ × List UInt8) → Prop
  | _, [] => True
  | start, (off, data) :: stores => off = start ∧ Adjacent (start + data.length) stores

/-- `n` bytes of zero. -/
def zeros (n : ℕ) : List UInt8 := List.replicate n 0

@[simp] theorem length_zeros (n : ℕ) : (zeros n).length = n := List.length_replicate

/-- A store at the first byte that was not stored yet. -/
theorem store_next {done data : List UInt8} {off n : ℕ} (hoff : off = done.length) (hn : data.length ≤ n) :
    store (done ++ zeros n) off data = some (done ++ data ++ zeros (n - data.length)) := by
  subst hoff
  have hdrop : (done ++ zeros n).drop (done.length + data.length) = zeros (n - data.length) := by
    rw [List.drop_append, List.drop_of_length_le (Nat.le_add_right _ _), List.nil_append,
      Nat.add_sub_cancel_left]
    exact List.drop_replicate ..
  unfold store
  rw [if_pos (by rw [List.length_append, length_zeros]; omega), hdrop, List.take_left]

/-- Adjacent stores behind what is already there. -/
theorem storeAll_adjacent {done : List UInt8} {stores : List (ℕ × List UInt8)} {n : ℕ}
    (hadj : Adjacent done.length stores) (hn : (stores.flatMap Prod.snd).length ≤ n) :
    storeAll (done ++ zeros n) stores =
      some (done ++ stores.flatMap Prod.snd ++ zeros (n - (stores.flatMap Prod.snd).length)) := by
  induction stores generalizing done n with
  | nil => simp [storeAll]
  | cons first stores ih =>
    obtain ⟨off, data⟩ := first
    obtain ⟨hoff, hnext⟩ := hadj
    rw [List.flatMap_cons, List.length_append] at hn
    dsimp only at hn
    rw [← List.length_append] at hnext
    rw [storeAll, store_next hoff (by omega), Option.bind_some, ih hnext (by omega),
      List.flatMap_cons, List.length_append, Nat.sub_sub, List.append_assoc done]

/-- Adjacent stores that fill the vector. -/
theorem storeAll_zeros {stores : List (ℕ × List UInt8)} {n : ℕ} (hadj : Adjacent 0 stores)
    (hn : (stores.flatMap Prod.snd).length = n) :
    storeAll (zeros n) stores = some (stores.flatMap Prod.snd) := by
  have hall := @storeAll_adjacent [] stores n hadj (Nat.le_of_eq hn)
  rw [hn, Nat.sub_self] at hall
  simpa [zeros] using hall

end Lib.Buffer
