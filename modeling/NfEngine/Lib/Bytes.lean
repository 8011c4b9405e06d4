-- SUMMARY: Byte strings read and written in network order.
import Mathlib.Algebra.Group.Nat.Defs
import Mathlib.Data.List.Basic
import Mathlib.Data.List.Induction

/-!
# Bytes in network order

`memcpy` of a fixed-width field followed by `ntohs`, `ntohl` or `be64toh` reads
the field big-endian, and the reverse pair writes it so. A field is a slice of
the byte string; reading it gives a natural number below `256 ^ width`.
-/

namespace Lib.Bytes

/-- The `len` bytes at offset `off`. -/
def slice (bs : List UInt8) (off len : ℕ) : List UInt8 := (bs.drop off).take len

/-- The number a byte string spells, most significant byte first. -/
def beNat (bs : List UInt8) : ℕ := bs.foldl (fun acc b => acc * 256 + b.toNat) 0

/-- The `width` bytes of a number, most significant byte first. -/
def beBytes : ℕ → ℕ → List UInt8
  | 0, _ => []
  | width + 1, n => beBytes width (n / 256) ++ [UInt8.ofNat (n % 256)]

theorem length_slice_le (bs : List UInt8) (off len : ℕ) : (slice bs off len).length ≤ len :=
  List.length_take_le _ _

/-- A slice that lies inside a prefix does not see what follows. -/
theorem slice_append {bs : List UInt8} {off len : ℕ} (h : off + len ≤ bs.length) (cs : List UInt8) :
    slice (bs ++ cs) off len = slice bs off len := by
  rw [slice, slice, List.drop_append_of_le_length (by omega),
    List.take_append_of_le_length (by rw [List.length_drop]; omega)]

/-- A slice behind a prefix does not see the prefix. -/
theorem slice_append_right (bs cs : List UInt8) (off len : ℕ) :
    slice (bs ++ cs) (bs.length + off) len = slice cs off len := by
  rw [slice, slice, List.drop_append, List.drop_of_length_le (Nat.le_add_right _ _), List.nil_append,
    Nat.add_sub_cancel_left]

/-- A field that stands in front of the rest. -/
theorem slice_left {bs : List UInt8} {len : ℕ} (h : bs.length = len) (cs : List UInt8) :
    slice (bs ++ cs) 0 len = bs := by
  rw [slice, List.drop_zero, List.take_left' h]

theorem slice_take {bs : List UInt8} {off len n : ℕ} (h : off + len ≤ n) :
    slice (bs.take n) off len = slice bs off len := by
  rw [slice, slice, List.drop_take, List.take_take, Nat.min_eq_left (by omega)]

theorem beNat_concat (bs : List UInt8) (b : UInt8) : beNat (bs ++ [b]) = beNat bs * 256 + b.toNat := by
  rw [beNat, List.foldl_append]
  rfl

theorem beNat_lt (bs : List UInt8) : beNat bs < 256 ^ bs.length := by
  suffices ∀ (bs : List UInt8) (acc k : ℕ), acc < 256 ^ k →
      bs.foldl (fun acc b => acc * 256 + b.toNat) acc < 256 ^ (k + bs.length) by
    simpa [beNat] using this bs 0 0 (by simp)
  intro bs
  induction bs with
  | nil => intro acc k h; simpa using h
  | cons b bs ih =>
    intro acc k h
    have hb := b.toNat_lt
    have hnext := ih (acc * 256 + b.toNat) (k + 1) (by rw [Nat.pow_succ]; omega)
    rwa [List.foldl_cons, List.length_cons, Nat.add_comm bs.length, ← Nat.add_assoc]

/-- A field of `len` bytes is below `256 ^ len`. -/
theorem beNat_slice_lt (bs : List UInt8) (off len : ℕ) : beNat (slice bs off len) < 256 ^ len :=
  Nat.lt_of_lt_of_le (beNat_lt _) (Nat.pow_le_pow_right (by omega) (length_slice_le bs off len))

@[simp] theorem length_beBytes (width n : ℕ) : (beBytes width n).length = width := by
  induction width generalizing n with
  | zero => rfl
  | succ width ih => rw [beBytes, List.length_append, ih, List.length_singleton]

/-- Two bytes written with shifts. -/
theorem beBytes_two (n : ℕ) : beBytes 2 n = [UInt8.ofNat (n >>> 8), UInt8.ofNat (n &&& 0xFF)] := by
  have hlow : n &&& 255 = n % 256 := Nat.and_two_pow_sub_one_eq_mod n 8
  have hhigh : n >>> 8 = n / 256 := Nat.shiftRight_eq_div_pow n 8
  have hbyte : UInt8.ofNat (n / 256 % 256) = UInt8.ofNat (n / 256) := UInt8.ofNat_mod_size
  rw [hlow, hhigh, ← hbyte]
  rfl

/-- Reading a field back gives what was written, as long as it fits. -/
theorem beNat_beBytes {width n : ℕ} (h : n < 256 ^ width) : beNat (beBytes width n) = n := by
  induction width generalizing n with
  | zero => exact (Nat.lt_one_iff.mp h).symm
  | succ width ih =>
    have hdiv : n / 256 < 256 ^ width := Nat.div_lt_of_lt_mul (by rwa [Nat.pow_succ'] at h)
    have hlow : (UInt8.ofNat (n % 256)).toNat = n % 256 := by simp
    rw [beBytes, beNat_concat, ih hdiv, hlow]
    exact Nat.div_add_mod' n 256

/-- A byte string is what its number is written as in its own length. -/
theorem beBytes_beNat (bs : List UInt8) : beBytes bs.length (beNat bs) = bs := by
  induction bs using List.reverseRecOn with
  | nil => rfl
  | append_singleton bs b ih =>
    have hb := b.toNat_lt
    have hdiv : (beNat bs * 256 + b.toNat) / 256 = beNat bs := by omega
    have hmod : (beNat bs * 256 + b.toNat) % 256 = b.toNat := by omega
    rw [beNat_concat, List.length_append, List.length_singleton, beBytes, hdiv, hmod, ih,
      UInt8.ofNat_toNat]

end Lib.Bytes
