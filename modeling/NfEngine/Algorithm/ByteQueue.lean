-- SUMMARY: The bounded byte queue that the byte ring buffer stands for, and that the ring refines it.
import NfEngine.Algorithm.ByteRingBuffer
import NfEngine.Lib.Refinement

/-!
# The byte ring buffer as a bounded queue

`ByteQueue` says what a `ByteRingBuffer` is for: a first-in first-out queue of at most
`capacity` bytes. The operations are those of the class, where a caller of `produce`
has stored as many bytes at `writePtr()` before and stays inside `writeLen()`, and a
caller of `consume` stays inside `readLen()`. The ring answers every sequence of them
as the queue does.
-/

namespace NfEngine

open Lib.Bytes Lib.Ring Lib.Refinement

namespace ByteRingBuffer

def clear (r : ByteRingBuffer) : ByteRingBuffer := { r with head := 0, tail := 0, size := 0 }

theorem Valid.clear {r : ByteRingBuffer} (h : r.Valid) : r.clear.Valid ∧ r.clear.content = [] := by
  refine ⟨⟨Nat.zero_lt_of_lt h.head_lt, Nat.zero_le _, ?_⟩, rfl⟩
  exact (Nat.zero_mod _).symm

/-! ## The loops end -/

/-- The loop of `write` on the data that is left ends, after storing so many bytes. -/
inductive WriteEnds : ByteRingBuffer → List UInt8 → ℕ → ByteRingBuffer → Prop
  | exit {r : ByteRingBuffer} {data : List UInt8} (hexit : ¬ (0 < data.length ∧ 0 < r.writable)) :
    WriteEnds r data 0 r
  | round {r r' : ByteRingBuffer} {data : List UInt8} {n written : ℕ}
    (hmore : 0 < data.length ∧ 0 < r.writable) (hn : n = min r.writeLen data.length)
    (hrest : WriteEnds ((r.store (data.take n)).produce n) (data.drop n) written r') :
    WriteEnds r data (n + written) r'

/-- The loop of `read` ends, after copying these bytes out. -/
inductive ReadEnds : ByteRingBuffer → ℕ → List UInt8 → ByteRingBuffer → Prop
  | exit {r : ByteRingBuffer} {len : ℕ} (hexit : ¬ (0 < len ∧ 0 < r.readable)) :
    ReadEnds r len [] r
  | round {r r' : ByteRingBuffer} {len n : ℕ} {out : List UInt8} (hmore : 0 < len ∧ 0 < r.readable)
    (hn : n = min r.readLen len) (hrest : ReadEnds (r.consume n) (len - n) out r') :
    ReadEnds r len (slice r.buffer r.head n ++ out) r'

/-- Every round of `write` on a valid ring stores something, so the loop is over when
    the bound on its rounds is. -/
theorem writeLoop_ends (fuel : ℕ) {r : ByteRingBuffer} {data : List UInt8} (h : r.Valid)
    (hfuel : data.length ≤ fuel) :
    WriteEnds r data (writeLoop fuel r data).1 (writeLoop fuel r data).2 := by
  induction fuel generalizing r data with
  | zero => exact .exit fun hmore => Nat.not_lt.mpr hfuel hmore.1
  | succ fuel ih =>
    unfold writeLoop
    split
    next hmore =>
      have hroom : 0 < r.writeLen := h.writeLen_pos (by
        rw [h.length_content]
        exact Nat.lt_of_sub_pos hmore.2)
      have hlen : (data.take (min r.writeLen data.length)).length = min r.writeLen data.length := by
        rw [List.length_take, Nat.min_assoc, Nat.min_self]
      obtain ⟨hvalid, _, _⟩ := h.produce (hlen.trans_le (Nat.min_le_left _ _))
      rw [hlen] at hvalid
      refine .round hmore rfl (ih hvalid ?_)
      rw [List.length_drop]
      omega
    next hexit => exact .exit hexit

theorem readLoop_ends (fuel : ℕ) {r : ByteRingBuffer} {len : ℕ} (h : r.Valid) (hfuel : len ≤ fuel) :
    ReadEnds r len (readLoop fuel r len).1 (readLoop fuel r len).2 := by
  induction fuel generalizing r len with
  | zero => exact .exit fun hmore => Nat.not_lt.mpr hfuel hmore.1
  | succ fuel ih =>
    unfold readLoop
    split
    next hmore =>
      have hpos : 0 < r.readLen := by
        have hhead := h.head_lt
        rw [readLen, if_neg hmore.2.ne']
        omega
      obtain ⟨hvalid, _⟩ := h.consume ((Nat.min_le_left _ len).trans r.readLen_le)
      exact .round hmore rfl (ih hvalid (by omega))
    next hexit => exact .exit hexit

end ByteRingBuffer

/-! ## The queue -/

/-- A first-in first-out queue of at most `capacity` bytes. -/
structure ByteQueue (capacity : ℕ) where
  content : List UInt8
  length_le : content.length ≤ capacity

namespace ByteQueue

inductive Op where
  | write (data : List UInt8)
  | read (len : ℕ)
  | peek (len : ℕ)
  | consume (n : ℕ)
  | clear
  /-- Bytes stored at `writePtr()`, and then `produce` of their number. -/
  | produce (data : List UInt8)

inductive Answer where
  | written (n : ℕ)
  | bytes (data : List UInt8)
  | done
  deriving DecidableEq, Repr

variable {capacity : ℕ}

def empty (capacity : ℕ) : ByteQueue capacity := ⟨[], Nat.zero_le _⟩

def room (q : ByteQueue capacity) : ℕ := capacity - q.content.length

/-- Append as much of the data as there is room for. -/
def append (q : ByteQueue capacity) (data : List UInt8) : ByteQueue capacity where
  content := q.content ++ data.take q.room
  length_le := by
    have hle := q.length_le
    have htake := List.length_take_le q.room data
    rw [List.length_append]
    unfold room at htake ⊢
    omega

/-- Take bytes off the front. -/
def drop (q : ByteQueue capacity) (n : ℕ) : ByteQueue capacity where
  content := q.content.drop n
  length_le := by
    rw [List.length_drop]
    exact (Nat.sub_le _ _).trans q.length_le

def step (q : ByteQueue capacity) : Op → Option (Answer × ByteQueue capacity)
  | .write data => some (.written (min data.length q.room), q.append data)
  | .read len => some (.bytes (q.content.take len), q.drop len)
  | .peek len => some (.bytes (q.content.take len), q)
  | .consume n => if n ≤ q.content.length then some (.done, q.drop n) else none
  | .clear => some (.done, empty capacity)
  | .produce data => if data.length ≤ q.room then some (.done, q.append data) else none

end ByteQueue

namespace ByteRingBuffer

open ByteQueue (Op Answer)

variable {capacity : ℕ}

/-- The operations of the class. -/
def step (r : ByteRingBuffer) : Op → Option (Answer × ByteRingBuffer)
  | .write data => some (.written (r.write data).1, (r.write data).2)
  | .read len => some (.bytes (r.read len).1, (r.read len).2)
  | .peek len => some (.bytes (r.peek len), r)
  | .consume n => if n ≤ r.readLen then some (.done, r.consume n) else none
  | .clear => some (.done, r.clear)
  | .produce data =>
    if data.length ≤ r.writeLen then some (.done, (r.store data).produce data.length) else none

/-! ## Refinement -/

/-- The ring stands for the queue. -/
structure Represents (r : ByteRingBuffer) (q : ByteQueue capacity) : Prop where
  valid : r.Valid
  length_buffer : r.buffer.length = capacity
  content : r.content = q.content

namespace Represents

variable {r : ByteRingBuffer} {q : ByteQueue capacity}

theorem writable_eq (h : r.Represents q) : r.writable = q.room := by
  have hlen := h.valid.length_content
  rw [h.content] at hlen
  rw [writable, ByteQueue.room, h.length_buffer, hlen]
  rfl

theorem readable_eq (h : r.Represents q) : r.readable = q.content.length := by
  rw [← h.content, h.valid.length_content]

end Represents

theorem represents_new (hcap : 0 < capacity) :
    (new capacity).Represents (.empty capacity) where
  valid := valid_new hcap
  length_buffer := length_buffer_new capacity
  content := content_new capacity

theorem step_simulates : Simulates step (@ByteQueue.step capacity) Represents := by
  rintro r q op answer r' h hstep
  cases op with
  | write data =>
    cases hstep
    obtain ⟨hcount, hvalid, hcontent, hbuf⟩ := h.valid.write data
    refine ⟨q.append data, ?_, hvalid, hbuf.trans h.length_buffer, ?_⟩
    · rw [hcount, h.writable_eq]
      rfl
    · rw [hcontent, h.content, h.writable_eq]
      rfl
  | read len =>
    cases hstep
    obtain ⟨hbytes, hvalid, hcontent, hbuf⟩ := h.valid.read len
    refine ⟨q.drop len, ?_, hvalid, hbuf.trans h.length_buffer, ?_⟩
    · rw [hbytes, h.content]
      rfl
    · rw [hcontent, h.content]
      rfl
  | peek len =>
    cases hstep
    refine ⟨q, ?_, h⟩
    rw [h.valid.peek, h.content]
    rfl
  | consume n =>
    simp only [step] at hstep
    split at hstep <;> cases hstep
    next hn =>
    have hn' : n ≤ r.readable := hn.trans r.readLen_le
    obtain ⟨hvalid, hcontent⟩ := h.valid.consume hn'
    refine ⟨q.drop n, if_pos (h.readable_eq ▸ hn'), hvalid, h.length_buffer, ?_⟩
    rw [hcontent, h.content]
    rfl
  | clear =>
    cases hstep
    obtain ⟨hvalid, hcontent⟩ := h.valid.clear
    exact ⟨.empty capacity, rfl, hvalid, h.length_buffer, hcontent⟩
  | produce data =>
    simp only [step] at hstep
    split at hstep <;> cases hstep
    next hlen =>
    obtain ⟨hvalid, hcontent, hbuf⟩ := h.valid.produce hlen
    have hroom : data.length ≤ q.room := by
      have := h.valid.writeLen_le
      rw [← h.writable_eq, writable]
      omega
    refine ⟨q.append data, if_pos hroom, hvalid, hbuf.trans h.length_buffer, ?_⟩
    change _ = q.content ++ data.take q.room
    rw [hcontent, h.content, List.take_of_length_le hroom]

/-- What holds of the ring after any sequence of operations: it holds the bytes of the
    queue from `m_head` on, its positions are in bounds, a look at it shows what a read
    would return, and the loops end with what `write` and `read` return. -/
structure RefinesQueue (r : ByteRingBuffer) (q : ByteQueue capacity) : Prop where
  length_eq : q.content.length = r.size
  byte_eq : ∀ i < r.size, q.content[i]? = r.buffer[(r.head + i) % capacity]?
  head_lt : r.head < capacity
  tail_lt : r.tail < capacity
  size_le : r.size ≤ capacity
  tail_eq : r.tail = (r.head + r.size) % capacity
  peek_eq_read : ∀ len, r.peek len = (r.read len).1
  write_ends : ∀ data, WriteEnds r data (r.write data).1 (r.write data).2
  read_ends : ∀ len, ReadEnds r len (r.read len).1 (r.read len).2

theorem Represents.refinesQueue {r : ByteRingBuffer} {q : ByteQueue capacity}
    (h : r.Represents q) : r.RefinesQueue q := by
  obtain ⟨hvalid, rfl, hcontent⟩ := h
  have hpos := Nat.zero_lt_of_lt hvalid.head_lt
  have htail := hvalid.tail_eq
  exact
    { length_eq := hcontent ▸ hvalid.length_content
      byte_eq := fun i hi => hcontent ▸ getElem?_window hvalid.size_le hi
      head_lt := hvalid.head_lt
      tail_lt := htail ▸ Nat.mod_lt _ hpos
      size_le := hvalid.size_le
      tail_eq := htail
      peek_eq_read := fun len => (hvalid.peek len).trans (hvalid.read len).1.symm
      write_ends := fun data => writeLoop_ends data.length hvalid (Nat.le_refl _)
      read_ends := fun len => readLoop_ends len hvalid (Nat.le_refl _) }

/-- Every sequence of operations on a new ring is answered as by the bounded queue, and
    leaves a ring that holds the bytes of the queue. -/
theorem refines_byteQueue (hcap : 0 < capacity) {ops : List Op}
    {answers : List Answer} {r : ByteRingBuffer}
    (hexec : exec step (new capacity) ops = some (answers, r)) :
    ∃ q : ByteQueue capacity,
      exec ByteQueue.step (.empty capacity) ops = some (answers, q) ∧ r.RefinesQueue q := by
  obtain ⟨q, hspec, hrep⟩ := step_simulates.exec (represents_new hcap) hexec
  exact ⟨q, hspec, hrep.refinesQueue⟩

/-- A ring of four bytes is filled, emptied halfway and filled across its end. -/
theorem refines_byteQueue_wrapped :
    ∃ r, exec step (new 4) [.write [1, 2, 3], .read 2, .write [4, 5, 6, 7], .peek 4, .consume 2] =
        some ([.written 3, .bytes [1, 2], .written 3, .bytes [3, 4, 5, 6], .done], r) ∧
      ∃ q : ByteQueue 4, r.RefinesQueue q :=
  have hexec : exec step (new 4) _ = some (_, _) := rfl
  ⟨_, hexec, (refines_byteQueue (by decide) hexec).imp fun _ h => h.2⟩

end ByteRingBuffer

end NfEngine
