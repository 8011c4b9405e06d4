-- SUMMARY: The byte ring of the connections and its contents as a plain byte string.
import NfEngine.Lib.Bytes
import NfEngine.Lib.Ring

/-!
# The byte ring buffer

`algorithm/ByteRingBuffer`: a vector with a read position, a write position and a
size. `content` is the byte string it stands for. A valid ring refines it: direct
writes at the write position append, `read` and `consume` take from the front,
`peek` looks at the front.
-/

namespace NfEngine

open Lib.Bytes Lib.Ring

structure ByteRingBuffer where
  buffer : List UInt8
  head : ℕ
  tail : ℕ
  size : ℕ

namespace ByteRingBuffer

/-- The constructor. -/
def new (capacity : ℕ) : ByteRingBuffer := ⟨List.replicate capacity 0, 0, 0, 0⟩

def readable (r : ByteRingBuffer) : ℕ := r.size

def writable (r : ByteRingBuffer) : ℕ := r.buffer.length - r.size

def writeLen (r : ByteRingBuffer) : ℕ :=
  if r.writable = 0 then 0 else min (r.buffer.length - r.tail) r.writable

/-- The caller stores bytes at `writePtr()`. -/
def store (r : ByteRingBuffer) (data : List UInt8) : ByteRingBuffer :=
  { r with buffer := overwrite r.buffer r.tail data }

def produce (r : ByteRingBuffer) (n : ℕ) : ByteRingBuffer :=
  { r with tail := (r.tail + n) % r.buffer.length, size := r.size + n }

/-- The loop of `write`, with the number of bytes it stores; every round stores at
    least one byte, so as many rounds as there are bytes are enough. -/
def writeLoop : ℕ → ByteRingBuffer → List UInt8 → ℕ × ByteRingBuffer
  | 0, r, _ => (0, r)
  | fuel + 1, r, data =>
    if 0 < data.length ∧ 0 < r.writable then
      let n := min r.writeLen data.length
      let next := writeLoop fuel ((r.store (data.take n)).produce n) (data.drop n)
      (n + next.1, next.2)
    else
      (0, r)

def write (r : ByteRingBuffer) (data : List UInt8) : ℕ × ByteRingBuffer :=
  writeLoop data.length r data

def readLen (r : ByteRingBuffer) : ℕ :=
  if r.readable = 0 then 0 else min (r.buffer.length - r.head) r.readable

theorem readLen_le (r : ByteRingBuffer) : r.readLen ≤ r.readable := by
  unfold readLen
  split <;> omega

theorem readLen_le_end (r : ByteRingBuffer) : r.readLen ≤ r.buffer.length - r.head := by
  unfold readLen
  split <;> omega

def consume (r : ByteRingBuffer) (n : ℕ) : ByteRingBuffer :=
  { r with head := (r.head + n) % r.buffer.length, size := r.size - n }

/-- The loop of `read`, with the bytes it copies out; every round takes at least
    one byte, so `len` rounds are enough. -/
def readLoop : ℕ → ByteRingBuffer → ℕ → List UInt8 × ByteRingBuffer
  | 0, r, _ => ([], r)
  | fuel + 1, r, len =>
    if 0 < len ∧ 0 < r.readable then
      let n := min r.readLen len
      let next := readLoop fuel (r.consume n) (len - n)
      (slice r.buffer r.head n ++ next.1, next.2)
    else
      ([], r)

def read (r : ByteRingBuffer) (len : ℕ) : List UInt8 × ByteRingBuffer := readLoop len r len

def peek (r : ByteRingBuffer) (len : ℕ) : List UInt8 :=
  let toRead := min len r.size
  let first := min toRead (r.buffer.length - r.head)
  slice r.buffer r.head first ++ if first < toRead then slice r.buffer 0 (toRead - first) else []

/-! ## The byte string a ring stands for -/

structure Valid (r : ByteRingBuffer) : Prop where
  head_lt : r.head < r.buffer.length
  size_le : r.size ≤ r.buffer.length
  tail_eq : r.tail = (r.head + r.size) % r.buffer.length

/-- The stored bytes, oldest first. -/
def content (r : ByteRingBuffer) : List UInt8 := window r.buffer r.head r.size

theorem valid_new {capacity : ℕ} (h : 0 < capacity) : (new capacity).Valid where
  head_lt := by simpa [new] using h
  size_le := Nat.zero_le _
  tail_eq := by simp [new]

@[simp] theorem length_buffer_new (capacity : ℕ) : (new capacity).buffer.length = capacity := by
  simp [new]

@[simp] theorem content_new (capacity : ℕ) : (new capacity).content = [] := by
  simp [content, new, window]

@[simp] theorem writable_new (capacity : ℕ) : (new capacity).writable = capacity := by
  simp [writable, new]

theorem writeLen_new (capacity : ℕ) : (new capacity).writeLen = capacity := by
  simp only [writeLen, writable_new, length_buffer_new]
  split
  next hzero => exact hzero.symm
  next => exact Nat.min_self capacity

namespace Valid

variable {r : ByteRingBuffer}

theorem length_content (h : r.Valid) : r.content.length = r.readable := length_window h.size_le

/-- A ring that is not full offers room. -/
theorem writeLen_pos (h : r.Valid) (hroom : r.content.length < r.buffer.length) :
    0 < r.writeLen := by
  have hpos : 0 < r.buffer.length := Nat.zero_lt_of_lt h.head_lt
  have htail : r.tail < r.buffer.length := h.tail_eq ▸ Nat.mod_lt _ hpos
  rw [h.length_content] at hroom
  unfold readable at hroom
  unfold writeLen writable
  split <;> omega

theorem writeLen_le (h : r.Valid) :
    r.tail + r.writeLen ≤ r.buffer.length ∧ r.size + r.writeLen ≤ r.buffer.length := by
  have hpos : 0 < r.buffer.length := Nat.zero_lt_of_lt h.head_lt
  have htail : r.tail < r.buffer.length := h.tail_eq ▸ Nat.mod_lt _ hpos
  have hsize := h.size_le
  unfold writeLen writable
  split <;> omega

/-- Storing at `writePtr()` and producing appends. -/
theorem produce (h : r.Valid) {data : List UInt8} (hdata : data.length ≤ r.writeLen) :
    ((r.store data).produce data.length).Valid ∧
      ((r.store data).produce data.length).content = r.content ++ data ∧
      ((r.store data).produce data.length).buffer.length = r.buffer.length := by
  have hroom := h.writeLen_le
  have hend : r.tail + data.length ≤ r.buffer.length := by omega
  have hfit : r.size + data.length ≤ r.buffer.length := by omega
  have hlen : (overwrite r.buffer r.tail data).length = r.buffer.length := length_overwrite hend
  refine ⟨⟨?_, ?_, ?_⟩, ?_, hlen⟩
  · exact h.head_lt.trans_eq hlen.symm
  · exact hfit.trans_eq hlen.symm
  · simp only [ByteRingBuffer.produce, store, hlen]
    rw [h.tail_eq, Nat.mod_add_mod, Nat.add_assoc]
  · exact window_overwrite h.tail_eq hend hfit

/-- `write` appends as much of the data as there is room for. -/
theorem write (h : r.Valid) (data : List UInt8) :
    (r.write data).1 = min data.length r.writable ∧ (r.write data).2.Valid ∧
      (r.write data).2.content = r.content ++ data.take r.writable ∧
      (r.write data).2.buffer.length = r.buffer.length := by
  suffices ∀ (fuel : ℕ) (r : ByteRingBuffer) (data : List UInt8), r.Valid → data.length ≤ fuel →
      (writeLoop fuel r data).1 = min data.length r.writable ∧ (writeLoop fuel r data).2.Valid ∧
        (writeLoop fuel r data).2.content = r.content ++ data.take r.writable ∧
        (writeLoop fuel r data).2.buffer.length = r.buffer.length by
    exact this data.length r data h (Nat.le_refl _)
  intro fuel
  induction fuel with
  | zero =>
    intro r data hr hle
    obtain rfl := List.eq_nil_of_length_eq_zero (Nat.le_zero.mp hle)
    exact ⟨(Nat.zero_min _).symm, hr, by simp [writeLoop], rfl⟩
  | succ fuel ih =>
    intro r data hr hle
    unfold writeLoop
    split
    next hmore =>
      -- one round stores `n` bytes, and the rest of the loop works on the fuller ring
      have hroom : 0 < r.writeLen := hr.writeLen_pos (by
        rw [hr.length_content]
        have := hmore.2
        unfold writable at this
        unfold readable
        omega)
      have hfit := hr.writeLen_le
      have hlen : (data.take (min r.writeLen data.length)).length = min r.writeLen data.length := by
        rw [List.length_take]
        omega
      have hstore : (data.take (min r.writeLen data.length)).length ≤ r.writeLen := by omega
      obtain ⟨hvalid, hcontent, hbuf⟩ := hr.produce hstore
      rw [hlen] at hvalid hcontent hbuf
      have hwritable : ((r.store (data.take (min r.writeLen data.length))).produce
          (min r.writeLen data.length)).writable = r.writable - min r.writeLen data.length := by
        rw [writable, hbuf, writable]
        exact Nat.sub_add_eq ..
      obtain ⟨hcount, hvalid', hcontent', hbuf'⟩ :=
        ih _ (data.drop (min r.writeLen data.length)) hvalid (by rw [List.length_drop]; omega)
      have hle' : min r.writeLen data.length ≤ r.writable := by
        unfold writable
        omega
      dsimp only
      refine ⟨?_, hvalid', ?_, hbuf'.trans hbuf⟩
      · rw [hcount, hwritable, List.length_drop]
        omega
      · rw [hcontent', hcontent, hwritable, List.append_assoc, ← List.take_add]
        congr 2
        omega
    next hdone =>
      refine ⟨by omega, hr, ?_, rfl⟩
      have hnil : data.take r.writable = [] := by
        apply List.eq_nil_of_length_eq_zero
        rw [List.length_take]
        omega
      rw [hnil, List.append_nil]

/-- Consuming drops bytes at the front. -/
theorem consume (h : r.Valid) {n : ℕ} (hn : n ≤ r.readable) :
    (r.consume n).Valid ∧ (r.consume n).content = r.content.drop n := by
  have hpos : 0 < r.buffer.length := Nat.zero_lt_of_lt h.head_lt
  unfold readable at hn
  refine ⟨⟨Nat.mod_lt _ hpos, ?_, ?_⟩, window_drop hn h.size_le⟩
  · exact (Nat.sub_le _ _).trans h.size_le
  · simp only [ByteRingBuffer.consume]
    rw [Nat.mod_add_mod, h.tail_eq]
    congr 1
    omega

/-- A piece of the vector from the read position on is a piece of the content, as
    long as it stays inside both. -/
theorem slice_eq_take (h : r.Valid) {n : ℕ} (hend : n ≤ r.buffer.length - r.head)
    (hn : n ≤ r.readable) : slice r.buffer r.head n = r.content.take n := by
  have hsize := h.size_le
  unfold readable at hn
  rw [content, take_window hn, window_eq_append h.head_lt.le (by omega),
    Nat.sub_eq_zero_of_le hend, List.take_zero, List.append_nil]
  rfl

/-- The bytes of a contiguous piece at `readPtr()` and what is left when they are consumed. -/
theorem slice_append_consume (h : r.Valid) {n : ℕ} (hn : n ≤ r.readLen) :
    slice r.buffer r.head n ++ (r.consume n).content = r.content := by
  have hread := hn.trans r.readLen_le
  rw [h.slice_eq_take (hn.trans r.readLen_le_end) hread, (h.consume hread).2, List.take_append_drop]

theorem peek (h : r.Valid) (len : ℕ) : r.peek len = r.content.take len := by
  have hsize := h.size_le
  have htake : r.content.take len = window r.buffer r.head (min len r.size) := by
    rw [content, List.take_eq_take_min, length_window hsize, take_window (Nat.min_le_right _ _)]
  rw [htake, window_eq_append h.head_lt.le (by omega)]
  unfold ByteRingBuffer.peek slice
  simp only [List.drop_zero]
  split
  next hwrap =>
    have hfirst : min (min len r.size) (r.buffer.length - r.head) = r.buffer.length - r.head := by
      omega
    rw [hfirst, List.take_of_length_le (l := r.buffer.drop r.head) (by simp),
      List.take_of_length_le (l := r.buffer.drop r.head) (by simp only [List.length_drop]; omega)]
  next hfit =>
    have hfirst : min (min len r.size) (r.buffer.length - r.head) = min len r.size := by omega
    rw [hfirst, Nat.sub_eq_zero_of_le (by omega), List.take_zero]

/-- `read` takes from the front. -/
theorem read (h : r.Valid) (len : ℕ) :
    (r.read len).1 = r.content.take len ∧ (r.read len).2.Valid ∧
      (r.read len).2.content = r.content.drop len ∧
      (r.read len).2.buffer.length = r.buffer.length := by
  suffices ∀ (fuel : ℕ) (r : ByteRingBuffer) (len : ℕ), r.Valid → len ≤ fuel →
      (readLoop fuel r len).1 = r.content.take len ∧ (readLoop fuel r len).2.Valid ∧
        (readLoop fuel r len).2.content = r.content.drop len ∧
        (readLoop fuel r len).2.buffer.length = r.buffer.length by
    exact this len r len h (Nat.le_refl _)
  intro fuel
  induction fuel with
  | zero =>
    intro r len hr hle
    obtain rfl := Nat.le_zero.mp hle
    exact ⟨rfl, hr, rfl, rfl⟩
  | succ fuel ih =>
    intro r len hr hle
    unfold readLoop
    split
    next hmore =>
      -- one round copies `n` bytes, and the rest of the loop works on the consumed ring
      have hlen : r.readLen = min (r.buffer.length - r.head) r.readable := by
        rw [readLen, if_neg (by omega)]
      have hhead := hr.head_lt
      have hn : min r.readLen len ≤ r.readable := by omega
      obtain ⟨hvalid, hcontent⟩ := hr.consume hn
      obtain ⟨hread, hvalid', hcontent', hbuf⟩ := ih _ (len - min r.readLen len) hvalid (by omega)
      dsimp only
      refine ⟨?_, hvalid', ?_, hbuf⟩
      · rw [hread, hcontent, hr.slice_eq_take (by omega) hn, ← List.take_add]
        congr 1
        omega
      · rw [hcontent', hcontent, List.drop_drop]
        congr 1
        omega
    next hdone =>
      have hle : r.content.length ≤ len ∨ len = 0 := by
        rw [hr.length_content]
        omega
      rcases hle with hle | rfl
      · have hnil : r.content = [] := by
          apply List.eq_nil_of_length_eq_zero
          rw [hr.length_content] at hle ⊢
          omega
        simp [hnil, hr]
      · exact ⟨rfl, hr, rfl, rfl⟩

end Valid

end ByteRingBuffer

end NfEngine
