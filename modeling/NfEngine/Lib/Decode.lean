-- SUMMARY: Decoders that read fields off the front of a byte string, and exactly which byte strings they accept.
import NfEngine.Lib.Bytes

/-!
# Decoding fields one after the other

A decoder takes a field off the front of a byte string and leaves the rest. For each
kind of field one equivalence says which byte strings it accepts and what it makes of
them: those that begin with the encoding of the value.
-/

namespace Lib.Decode

open Lib.Bytes

/-- The field at the front and the bytes behind it. -/
abbrev Decoder (α : Type*) := List UInt8 → Option (α × List UInt8)

/-- So many bytes. -/
def bytes (n : ℕ) : Decoder (List UInt8) := fun xs =>
  if n ≤ xs.length then some (xs.take n, xs.drop n) else none

/-- A number in network order. -/
def uint (width : ℕ) : Decoder ℕ := fun xs => (bytes width xs).map fun (ys, rest) => (beNat ys, rest)

/-- A byte string with its length in front. -/
def sized (width : ℕ) : Decoder (List UInt8) := fun xs =>
  (uint width xs).bind fun (n, rest) => bytes n rest

/-- So many fields of one kind. -/
def many {α : Type*} (d : Decoder α) : ℕ → Decoder (List α)
  | 0, xs => some ([], xs)
  | n + 1, xs =>
    (d xs).bind fun (a, rest) => (many d n rest).map fun (as, rest') => (a :: as, rest')

variable {xs ys rest : List UInt8} {n width : ℕ}

theorem bytes_eq_some : bytes n xs = some (ys, rest) ↔ xs = ys ++ rest ∧ ys.length = n := by
  unfold bytes
  constructor
  · intro h
    split at h
    next hle =>
      cases h
      exact ⟨(List.take_append_drop n xs).symm, List.length_take_of_le hle⟩
    next => cases h
  · rintro ⟨rfl, rfl⟩
    rw [if_pos (by rw [List.length_append]; exact Nat.le_add_right _ _), List.take_left, List.drop_left]

theorem uint_eq_some : uint width xs = some (n, rest) ↔ xs = beBytes width n ++ rest ∧ n < 256 ^ width := by
  unfold uint
  constructor
  · intro h
    obtain ⟨⟨ys, rest'⟩, hbytes, heq⟩ := Option.map_eq_some_iff.mp h
    cases heq
    obtain ⟨rfl, rfl⟩ := bytes_eq_some.mp hbytes
    exact ⟨by rw [beBytes_beNat], beNat_lt ys⟩
  · rintro ⟨rfl, hn⟩
    rw [bytes_eq_some.mpr ⟨rfl, length_beBytes width n⟩, Option.map_some]
    dsimp only
    rw [beNat_beBytes hn]

theorem sized_eq_some :
    sized width xs = some (ys, rest) ↔ xs = beBytes width ys.length ++ ys ++ rest ∧ ys.length < 256 ^ width := by
  unfold sized
  constructor
  · intro h
    obtain ⟨⟨n, tail⟩, hlen, hbody⟩ := Option.bind_eq_some_iff.mp h
    obtain ⟨rfl, hn⟩ := uint_eq_some.mp hlen
    obtain ⟨rfl, rfl⟩ := bytes_eq_some.mp hbody
    exact ⟨(List.append_assoc ..).symm, hn⟩
  · rintro ⟨rfl, hn⟩
    rw [List.append_assoc, uint_eq_some.mpr ⟨rfl, hn⟩]
    exact bytes_eq_some.mpr ⟨rfl, rfl⟩

/-- A sized field read at an offset, with its two bounds checked against the length of
    the text. -/
theorem sized_drop_take {buf : List UInt8} {len off : ℕ} (hlen : len ≤ buf.length) (hoff : off ≤ len) :
    sized width ((buf.take len).drop off) =
      if off + width ≤ len ∧ off + width + beNat (slice buf off width) ≤ len then
        some (slice buf (off + width) (beNat (slice buf off width)),
          (buf.take len).drop (off + width + beNat (slice buf off width)))
      else
        none := by
  have hlength : ∀ k, ((buf.take len).drop k).length = len - k := by
    intro k
    rw [List.length_drop, List.length_take_of_le hlen]
  have hfield : ∀ k n, k + n ≤ len → ((buf.take len).drop k).take n = slice buf k n :=
    fun k n h => slice_take h
  unfold sized uint bytes
  rw [hlength]
  by_cases hhead : off + width ≤ len
  · rw [if_pos (by omega), Option.map_some, Option.bind_some]
    dsimp only
    rw [hfield off width hhead, List.drop_drop, hlength]
    by_cases hbody : off + width + beNat (slice buf off width) ≤ len
    · rw [if_pos (by omega), if_pos ⟨hhead, hbody⟩, hfield _ _ hbody, List.drop_drop]
    · rw [if_neg (by omega), if_neg (fun h => hbody h.2)]
  · rw [if_neg (by omega), if_neg (fun h => hhead h.1)]
    rfl

/-- Encodings put one behind the other are decoded one after the other. -/
theorem many_flatMap {α β : Type*} {d : Decoder β} {enc : α → List UInt8} {f : α → β}
    (h : ∀ a rest, d (enc a ++ rest) = some (f a, rest)) (as : List α) (rest : List UInt8) :
    many d as.length (as.flatMap enc ++ rest) = some (as.map f, rest) := by
  induction as with
  | nil => rfl
  | cons a as ih =>
    rw [List.flatMap_cons, List.append_assoc, List.length_cons, many, h a, Option.bind_some]
    dsimp only
    rw [ih]
    rfl

end Lib.Decode
