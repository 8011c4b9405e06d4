-- SUMMARY: The single-producer queue as a system of atomic steps, and that it delivers what it accepts in order.
import NfEngine.Algorithm.MpscQueue
import NfEngine.Lib.Window

/-!
# The single-producer single-consumer queue

`SpscQueue::enqueue` and `SpscQueue::dequeue`, one atomic access at a time, in any
interleaving of the producer with the consumer. The counters are `size_t` and wrap.

Two components are history: the items in the order of the stores of `m_tail`, and the
pointers in the order of the stores of `m_head`. Their lengths are what the counters
would be if they did not wrap. They are never more than `capacity` apart, so the
counters tell them apart modulo `2 ^ 64`, and the items in between occupy distinct
slots.
-/

namespace NfEngine

open Lib.Transition Lib.Window

namespace SpscQueue

/-- Where the producer stands in `enqueue`. -/
inductive ProducerPc (τ : Type) where
  | idle
  | loadTail (item : τ)
  | loadHead (item : τ) (tail : ℕ)
  | storePtr (item : τ) (tail : ℕ)
  | storeTail (item : τ) (tail : ℕ)
  | returned (ok : Bool)
  deriving DecidableEq

/-- Where the consumer stands in `dequeue`. -/
inductive ConsumerPc (τ : Type) where
  | idle
  | loadHead
  | loadTail (head : ℕ)
  | loadPtr (head : ℕ)
  | clearPtr (head : ℕ) (ptr : Option τ)
  | storeHead (head : ℕ) (ptr : Option τ)
  | returned (ptr : Option τ)
  deriving DecidableEq

end SpscQueue

open SpscQueue in
structure SpscQueue (τ : Type) where
  capacity : ℕ
  head : ℕ
  tail : ℕ
  buffer : ℕ → Option τ
  producer : ProducerPc τ
  consumer : ConsumerPc τ
  accepted : List τ
  delivered : List (Option τ)

namespace SpscQueue

variable {τ : Type}

/-- The constructor. -/
def init (τ : Type) (capacity : ℕ) : SpscQueue τ :=
  ⟨capacity, 0, 0, fun _ => none, .idle, .idle, [], []⟩

/-- `counter & m_mask`. -/
def index (q : SpscQueue τ) (counter : ℕ) : ℕ := counter &&& (q.capacity - 1)

def slot (q : SpscQueue τ) (counter : ℕ) : Option τ := q.buffer (q.index counter)

def setSlot (q : SpscQueue τ) (counter : ℕ) (ptr : Option τ) : SpscQueue τ :=
  { q with buffer := Function.update q.buffer (q.index counter) ptr }

def setProducer (q : SpscQueue τ) (pc : ProducerPc τ) : SpscQueue τ := { q with producer := pc }

def setConsumer (q : SpscQueue τ) (pc : ConsumerPc τ) : SpscQueue τ := { q with consumer := pc }

/-! ## Steps -/

/-- The next access of the producer inside `enqueue`. -/
def enqueueStep (q : SpscQueue τ) : Option (SpscQueue τ) :=
  match q.producer with
  | .loadTail item => some (q.setProducer (.loadHead item q.tail))
  | .loadHead item tail =>
    if q.capacity < sizeSub ((tail + 1) % sizeMod) q.head then
      some (q.setProducer (.returned false))
    else
      some (q.setProducer (.storePtr item tail))
  | .storePtr item tail => some ((q.setSlot tail (some item)).setProducer (.storeTail item tail))
  | .storeTail item tail =>
    some { q with
      tail := (tail + 1) % sizeMod, accepted := q.accepted ++ [item], producer := .returned true }
  | .idle => none
  | .returned _ => none

/-- The next access of the consumer inside `dequeue`. -/
def dequeueStep (q : SpscQueue τ) : Option (SpscQueue τ) :=
  match q.consumer with
  | .loadHead => some (q.setConsumer (.loadTail q.head))
  | .loadTail head =>
    if head = q.tail then
      some (q.setConsumer (.returned none))
    else
      some (q.setConsumer (.loadPtr head))
  | .loadPtr head => some (q.setConsumer (.clearPtr head (q.slot head)))
  | .clearPtr head ptr => some ((q.setSlot head none).setConsumer (.storeHead head ptr))
  | .storeHead head ptr =>
    some { q with
      head := (head + 1) % sizeMod, delivered := q.delivered ++ [ptr], consumer := .returned ptr }
  | .idle => none
  | .returned _ => none

inductive Act (τ : Type) where
  /-- The producer calls `enqueue`. -/
  | enqueue (item : τ)
  | producer
  /-- The consumer calls `dequeue`. -/
  | dequeue
  | consumer

/-- A call starts when the thread is outside the function. -/
def step (q : SpscQueue τ) : Act τ → Option (SpscQueue τ)
  | .enqueue item =>
    match q.producer with
    | .idle | .returned _ => some (q.setProducer (.loadTail item))
    | _ => none
  | .producer => q.enqueueStep
  | .dequeue =>
    match q.consumer with
    | .idle | .returned _ => some (q.setConsumer .loadHead)
    | _ => none
  | .consumer => q.dequeueStep

/-- What an access of the producer does. -/
inductive Enqueues (q : SpscQueue τ) : SpscQueue τ → Prop
  | loadTail {item : τ} (hpc : q.producer = .loadTail item) :
    Enqueues q (q.setProducer (.loadHead item q.tail))
  | full {item : τ} {tail : ℕ} (hpc : q.producer = .loadHead item tail)
    (hfull : q.capacity < sizeSub ((tail + 1) % sizeMod) q.head) :
    Enqueues q (q.setProducer (.returned false))
  | room {item : τ} {tail : ℕ} (hpc : q.producer = .loadHead item tail)
    (hroom : ¬ q.capacity < sizeSub ((tail + 1) % sizeMod) q.head) :
    Enqueues q (q.setProducer (.storePtr item tail))
  | storePtr {item : τ} {tail : ℕ} (hpc : q.producer = .storePtr item tail) :
    Enqueues q ((q.setSlot tail (some item)).setProducer (.storeTail item tail))
  | storeTail {item : τ} {tail : ℕ} (hpc : q.producer = .storeTail item tail) :
    Enqueues q { q with
      tail := (tail + 1) % sizeMod, accepted := q.accepted ++ [item], producer := .returned true }

theorem enqueues_of_step {q q' : SpscQueue τ} (hstep : q.enqueueStep = some q') : Enqueues q q' := by
  unfold enqueueStep at hstep
  split at hstep
  next item hpc =>
    cases hstep
    exact .loadTail hpc
  next item tail hpc =>
    split at hstep <;> cases hstep
    next hfull => exact .full hpc hfull
    next hroom => exact .room hpc hroom
  next item tail hpc =>
    cases hstep
    exact .storePtr hpc
  next item tail hpc =>
    cases hstep
    exact .storeTail hpc
  next => cases hstep
  next => cases hstep

/-- What an access of the consumer does. -/
inductive Dequeues (q : SpscQueue τ) : SpscQueue τ → Prop
  | loadHead (hpc : q.consumer = .loadHead) : Dequeues q (q.setConsumer (.loadTail q.head))
  | empty {head : ℕ} (hpc : q.consumer = .loadTail head) (heq : head = q.tail) :
    Dequeues q (q.setConsumer (.returned none))
  | found {head : ℕ} (hpc : q.consumer = .loadTail head) (hne : head ≠ q.tail) :
    Dequeues q (q.setConsumer (.loadPtr head))
  | loadPtr {head : ℕ} (hpc : q.consumer = .loadPtr head) :
    Dequeues q (q.setConsumer (.clearPtr head (q.slot head)))
  | clearPtr {head : ℕ} {ptr : Option τ} (hpc : q.consumer = .clearPtr head ptr) :
    Dequeues q ((q.setSlot head none).setConsumer (.storeHead head ptr))
  | storeHead {head : ℕ} {ptr : Option τ} (hpc : q.consumer = .storeHead head ptr) :
    Dequeues q { q with
      head := (head + 1) % sizeMod, delivered := q.delivered ++ [ptr], consumer := .returned ptr }

theorem dequeues_of_step {q q' : SpscQueue τ} (hstep : q.dequeueStep = some q') : Dequeues q q' := by
  unfold dequeueStep at hstep
  split at hstep
  next hpc =>
    cases hstep
    exact .loadHead hpc
  next head hpc =>
    split at hstep <;> cases hstep
    next heq => exact .empty hpc heq
    next hne => exact .found hpc hne
  next head hpc =>
    cases hstep
    exact .loadPtr hpc
  next head ptr hpc =>
    cases hstep
    exact .clearPtr hpc
  next head ptr hpc =>
    cases hstep
    exact .storeHead hpc
  next => cases hstep
  next => cases hstep

/-! ## The invariant -/

/-- The place of the next item, and that it is free. -/
def Room (q : SpscQueue τ) (tail : ℕ) : Prop :=
  tail = q.tail ∧ q.accepted.length < q.delivered.length + q.capacity

/-- What the producer knows at each program point. -/
def ProducerOk (q : SpscQueue τ) : ProducerPc τ → Prop
  | .loadHead _ tail => tail = q.tail
  | .storePtr _ tail => q.Room tail
  | .storeTail item tail => q.Room tail ∧ q.slot tail = some item
  | .idle | .loadTail _ | .returned _ => True

/-- What the consumer knows at each program point. -/
def ConsumerOk (q : SpscQueue τ) : ConsumerPc τ → Prop
  | .loadTail head => head = q.head
  | .loadPtr head => head = q.head ∧ q.delivered.length < q.accepted.length
  | .clearPtr head ptr | .storeHead head ptr =>
    head = q.head ∧ ∃ item, ptr = some item ∧ q.accepted[q.delivered.length]? = some item
  | .idle | .loadHead | .returned _ => True

/-- The consumer has cleared the first occupied slot. -/
def Cleared (q : SpscQueue τ) (t : ℕ) : Prop :=
  t = q.delivered.length ∧ ∃ head ptr, q.consumer = .storeHead head ptr

structure Inv (q : SpscQueue τ) : Prop where
  pow : ∃ k < 64, q.capacity = 2 ^ k
  tail_eq : q.tail = q.accepted.length % sizeMod
  head_eq : q.head = q.delivered.length % sizeMod
  delivered : q.delivered <+: q.accepted.map some
  room : q.accepted.length ≤ q.delivered.length + q.capacity
  slots : ∀ t item, q.delivered.length ≤ t → q.accepted[t]? = some item → ¬ q.Cleared t →
    q.slot t = some item
  producer : q.ProducerOk q.producer
  consumer : q.ConsumerOk q.consumer

theorem inv_init {capacity : ℕ} (hpow : ∃ k < 64, capacity = 2 ^ k) : (init τ capacity).Inv where
  pow := hpow
  tail_eq := rfl
  head_eq := rfl
  delivered := List.nil_prefix
  room := Nat.zero_le _
  slots t item _ h := by simp [init] at h
  producer := trivial
  consumer := trivial

/-- The distance of two wrapped counters is that of the true ones. -/
theorem sizeSub_mod {a b : ℕ} (hle : b ≤ a) (hlt : a - b < sizeMod) :
    sizeSub (a % sizeMod) (b % sizeMod) = a - b := by
  unfold sizeSub sizeMod at *
  omega

/-! ## Derived facts -/

theorem slot_setSlot (q : SpscQueue τ) (t u : ℕ) (ptr : Option τ) :
    (q.setSlot t ptr).slot u = if q.index u = q.index t then ptr else q.slot u :=
  Function.update_apply q.buffer (q.index t) ptr (q.index u)

/-- What the producer knows survives a step of the consumer that leaves its slot
    alone. -/
theorem ProducerOk.transfer {q q' : SpscQueue τ} {pc : ProducerPc τ} (h : q.ProducerOk pc)
    (htail : q'.tail = q.tail) (hroom : ∀ t, q.Room t → q'.Room t)
    (hslot : ∀ t item, q.Room t → q.slot t = some item → q'.slot t = some item) :
    q'.ProducerOk pc := by
  cases pc with
  | loadHead item t =>
    rw [ProducerOk, htail]
    exact h
  | storePtr item t => exact hroom t h
  | storeTail item t => exact ⟨hroom t h.1, hslot t item h.1 h.2⟩
  | idle | loadTail | returned => trivial

/-- What the consumer knows survives an acceptance. -/
theorem ConsumerOk.transfer {q q' : SpscQueue τ} {pc : ConsumerPc τ} (h : q.ConsumerOk pc)
    (hhead : q'.head = q.head) (hdel : q'.delivered = q.delivered)
    (hacc : q.accepted <+: q'.accepted) : q'.ConsumerOk pc := by
  have hitem : ∀ item, q.accepted[q.delivered.length]? = some item →
      q'.accepted[q'.delivered.length]? = some item := by
    intro item hx
    obtain ⟨rest, hrest⟩ := hacc
    rwa [hdel, ← hrest, List.getElem?_append_left (List.getElem?_eq_some_iff.mp hx).1]
  cases pc with
  | loadTail head =>
    rw [ConsumerOk, hhead]
    exact h
  | loadPtr head =>
    rw [ConsumerOk, hhead, hdel]
    exact ⟨h.1, h.2.trans_le hacc.length_le⟩
  | clearPtr head ptr | storeHead head ptr =>
    obtain ⟨hh, item, hptr, hx⟩ := h
    exact ⟨hh.trans hhead.symm, item, hptr, hitem item hx⟩
  | idle | loadHead | returned => trivial

namespace Inv

variable {q : SpscQueue τ}

theorem capacity_lt (h : q.Inv) : q.capacity + 1 < sizeMod := by
  obtain ⟨k, hk, hcap⟩ := h.pow
  have hle : 2 ^ k ≤ 2 ^ 63 := Nat.pow_le_pow_right (by decide) (Nat.le_of_lt_succ hk)
  rw [hcap, sizeMod]
  omega

theorem capacity_dvd (h : q.Inv) : q.capacity ∣ sizeMod := by
  obtain ⟨k, hk, hcap⟩ := h.pow
  rw [hcap]
  exact Nat.pow_dvd_pow 2 (Nat.le_of_lt hk)

theorem index_eq (h : q.Inv) (t : ℕ) : q.index t = t % q.capacity := by
  obtain ⟨k, _, hcap⟩ := h.pow
  exact and_mask ⟨k, hcap⟩ t

/-- A wrapped counter has the slot of the true one. -/
theorem index_mod (h : q.Inv) (t : ℕ) : q.index (t % sizeMod) = q.index t := by
  rw [h.index_eq, h.index_eq, Nat.mod_mod_of_dvd t h.capacity_dvd]

theorem delivered_le (h : q.Inv) : q.delivered.length ≤ q.accepted.length := by
  simpa using h.delivered.length_le

/-- Two tickets of the window from the first undelivered one have different slots. -/
theorem index_ne (h : q.Inv) {t u : ℕ} (hdt : q.delivered.length ≤ t)
    (ht : t < q.delivered.length + q.capacity) (hdu : q.delivered.length ≤ u)
    (hu : u < q.delivered.length + q.capacity) (hne : t ≠ u) : q.index t ≠ q.index u := by
  rw [h.index_eq, h.index_eq]
  exact fun heq => hne (eq_of_mod_eq hdt ht hdu hu heq)

/-- An accepted ticket lies in the window. -/
theorem lt_window (h : q.Inv) {t : ℕ} {item : τ} (hacc : q.accepted[t]? = some item) :
    t < q.delivered.length + q.capacity :=
  (List.getElem?_eq_some_iff.mp hacc).1.trans_le h.room

/-- The test of `enqueue` finds the room it lets through. -/
theorem room_of_not_full (h : q.Inv)
    (hroom : ¬ q.capacity < sizeSub ((q.tail + 1) % sizeMod) q.head) : q.Room q.tail := by
  have hlt := h.capacity_lt
  have hle := h.delivered_le
  have hcap := h.room
  rw [h.tail_eq, h.head_eq, Nat.mod_add_mod, sizeSub_mod (by omega) (by omega)] at hroom
  exact ⟨rfl, by omega⟩

/-- The test of `enqueue` rejects an item only when every slot is taken. -/
theorem length_of_full (h : q.Inv) (hfull : q.capacity < sizeSub ((q.tail + 1) % sizeMod) q.head) :
    q.accepted.length = q.delivered.length + q.capacity := by
  have hlt := h.capacity_lt
  have hle := h.delivered_le
  have hcap := h.room
  rw [h.tail_eq, h.head_eq, Nat.mod_add_mod, sizeSub_mod (by omega) (by omega)] at hfull
  omega

/-- Equal counters mean that everything has been delivered. -/
theorem delivered_of_empty (h : q.Inv) (hempty : q.head = q.tail) :
    q.delivered.length = q.accepted.length := by
  have hlt := h.capacity_lt
  have hle := h.delivered_le
  have hcap := h.room
  have hdist := sizeSub_mod hle (by omega)
  rw [← h.tail_eq, ← h.head_eq, hempty] at hdist
  have hzero : sizeSub q.tail q.tail = 0 := by
    rw [sizeSub, Nat.add_sub_cancel_left, Nat.mod_self]
  omega

theorem setProducer (h : q.Inv) {pc : ProducerPc τ} (hok : q.ProducerOk pc) :
    (q.setProducer pc).Inv :=
  { h with producer := hok }

/-- A step of the consumer that clears no slot. -/
theorem setConsumer (h : q.Inv) {pc : ConsumerPc τ} (hok : q.ConsumerOk pc)
    (hpc : ∀ head ptr, q.consumer ≠ .storeHead head ptr) : (q.setConsumer pc).Inv :=
  { h with
    slots := fun t item ht hacc _ => by
      refine h.slots t item ht hacc ?_
      rintro ⟨_, head, ptr, hstore⟩
      exact hpc head ptr hstore
    consumer := hok }

/-- The producer writes the free slot. -/
theorem storePtr (h : q.Inv) {item : τ} {tail : ℕ} (hroom : q.Room tail) :
    ((q.setSlot tail (some item)).setProducer (.storeTail item tail)).Inv := by
  obtain ⟨rfl, hlt⟩ := hroom
  have hle := h.delivered_le
  refine { h with slots := ?_, producer := ⟨⟨rfl, hlt⟩, ?_⟩, consumer := h.consumer }
  · intro t x ht hacc hcleared
    have hne : q.index t ≠ q.index q.tail := by
      rw [h.tail_eq, h.index_mod]
      refine h.index_ne ht (h.lt_window hacc) hle hlt ?_
      exact (List.getElem?_eq_some_iff.mp hacc).1.ne
    have hslot := slot_setSlot q q.tail t (some item)
    rw [if_neg hne] at hslot
    exact hslot.trans (h.slots t x ht hacc hcleared)
  · have hslot := slot_setSlot q q.tail q.tail (some item)
    rwa [if_pos rfl] at hslot

/-- The producer publishes the slot. -/
theorem storeTail (h : q.Inv) {item : τ} {tail : ℕ} (hroom : q.Room tail)
    (hslot : q.slot tail = some item) :
    Inv { q with
      tail := (tail + 1) % sizeMod, accepted := q.accepted ++ [item], producer := .returned true } := by
  obtain ⟨rfl, hlt⟩ := hroom
  refine ⟨h.pow, ?_, h.head_eq, ?_, ?_, ?_, trivial, ?_⟩
  · rw [h.tail_eq, Nat.mod_add_mod, List.length_append, List.length_singleton]
  · rw [List.map_append]
    exact h.delivered.trans (List.prefix_append _ _)
  · rw [List.length_append, List.length_singleton]
    exact hlt
  · intro t x ht hacc hcleared
    rcases Nat.lt_or_ge t q.accepted.length with hold | hnew
    · rw [List.getElem?_append_left hold] at hacc
      exact h.slots t x ht hacc hcleared
    · have hlen := (List.getElem?_eq_some_iff.mp hacc).1
      rw [List.length_append, List.length_singleton] at hlen
      obtain rfl : t = q.accepted.length := by omega
      rw [List.getElem?_append_right (Nat.le_refl _), Nat.sub_self] at hacc
      cases hacc
      rwa [h.tail_eq, slot, h.index_mod] at hslot
  · exact h.consumer.transfer rfl rfl (List.prefix_append _ _)

/-- The consumer clears the first occupied slot. -/
theorem clearPtr (h : q.Inv) {head : ℕ} {ptr : Option τ} (hpc : q.consumer = .clearPtr head ptr) :
    ((q.setSlot head none).setConsumer (.storeHead head ptr)).Inv := by
  have hok := h.consumer
  rw [hpc] at hok
  obtain ⟨rfl, item, hptr, hitem⟩ := hok
  have hfirst := h.lt_window hitem
  have hother : ∀ t, q.delivered.length ≤ t → t < q.delivered.length + q.capacity →
      t ≠ q.delivered.length → (q.setSlot q.head none).slot t = q.slot t := by
    intro t ht hlt hne
    rw [slot_setSlot, if_neg]
    rw [h.head_eq, h.index_mod]
    exact h.index_ne ht hlt (Nat.le_refl _) hfirst hne
  refine { h with slots := ?_, producer := ?_, consumer := ⟨rfl, item, hptr, hitem⟩ }
  · intro t x ht hacc hcleared
    have hne : t ≠ q.delivered.length := fun heq => hcleared ⟨heq, _, _, rfl⟩
    refine (hother t ht (h.lt_window hacc) hne).trans (h.slots t x ht hacc ?_)
    exact fun hc => hne hc.1
  · refine h.producer.transfer rfl (fun _ hroom => hroom) fun t x hroom hslot => ?_
    obtain ⟨rfl, hlt⟩ := hroom
    have hacc : q.delivered.length < q.accepted.length := (List.getElem?_eq_some_iff.mp hitem).1
    have hsame := hother _ (Nat.le_of_lt hacc) hlt hacc.ne'
    rw [slot, h.tail_eq, h.index_mod] at hslot
    have hgoal : (q.setSlot q.head none).slot q.tail = (q.setSlot q.head none).slot q.accepted.length := by
      rw [h.tail_eq, slot_setSlot, slot_setSlot, h.index_mod, slot, h.index_mod, slot]
    exact hgoal.trans (hsame.trans hslot)

/-- The consumer gives the slot back. -/
theorem storeHead (h : q.Inv) {head : ℕ} {ptr : Option τ} (hpc : q.consumer = .storeHead head ptr) :
    Inv { q with
      head := (head + 1) % sizeMod, delivered := q.delivered ++ [ptr], consumer := .returned ptr } := by
  have hok := h.consumer
  rw [hpc] at hok
  obtain ⟨rfl, item, rfl, hitem⟩ := hok
  refine ⟨h.pow, h.tail_eq, ?_, ?_, ?_, ?_, ?_, trivial⟩
  · rw [h.head_eq, Nat.mod_add_mod, List.length_append, List.length_singleton]
  · refine prefix_concat h.delivered ?_
    rw [List.getElem?_map, hitem]
    rfl
  · have hroom := h.room
    simp only [List.length_append, List.length_singleton]
    omega
  · intro t x ht hacc _
    rw [List.length_append, List.length_singleton] at ht
    refine h.slots t x (Nat.le_of_succ_le ht) hacc fun hc => ?_
    exact absurd hc.1 (Nat.ne_of_gt ht)
  · refine h.producer.transfer rfl ?_ fun _ _ _ hslot => hslot
    rintro t ⟨htail, hlt⟩
    refine ⟨htail, ?_⟩
    simp only [List.length_append, List.length_singleton]
    omega

theorem enqueueStep {q' : SpscQueue τ} (h : q.Inv) (hstep : q.enqueueStep = some q') : q'.Inv := by
  have hok := h.producer
  cases enqueues_of_step hstep with
  | loadTail => exact h.setProducer rfl
  | full => exact h.setProducer trivial
  | room hpc hroom =>
    rw [hpc] at hok
    obtain rfl : _ = q.tail := hok
    exact h.setProducer (h.room_of_not_full hroom)
  | storePtr hpc =>
    rw [hpc] at hok
    exact h.storePtr hok
  | storeTail hpc =>
    rw [hpc] at hok
    exact h.storeTail hok.1 hok.2

theorem dequeueStep {q' : SpscQueue τ} (h : q.Inv) (hstep : q.dequeueStep = some q') : q'.Inv := by
  have hok := h.consumer
  cases dequeues_of_step hstep with
  | loadHead hpc => exact h.setConsumer rfl (by simp [hpc])
  | empty hpc => exact h.setConsumer trivial (by simp [hpc])
  | found hpc hne =>
    rw [hpc] at hok
    obtain rfl : _ = q.head := hok
    refine h.setConsumer ⟨rfl, ?_⟩ (by simp [hpc])
    refine lt_of_le_of_ne h.delivered_le fun heq => hne ?_
    rw [h.head_eq, h.tail_eq, heq]
  | loadPtr hpc =>
    rw [hpc] at hok
    obtain ⟨rfl, hlt⟩ := hok
    have hitem := List.getElem?_eq_getElem hlt
    have hslot := h.slots _ _ (Nat.le_refl _) hitem (by rintro ⟨_, _, _, hs⟩; simp [hpc] at hs)
    refine h.setConsumer ⟨rfl, _, ?_, hitem⟩ (by simp [hpc])
    rw [← hslot, h.head_eq, slot, h.index_mod, slot]
  | clearPtr hpc => exact h.clearPtr hpc
  | storeHead hpc => exact h.storeHead hpc

end Inv

theorem Inv.step {q q' : SpscQueue τ} {a : Act τ} (h : q.Inv) (hstep : q.step a = some q') :
    q'.Inv := by
  cases a with
  | enqueue item =>
    simp only [SpscQueue.step] at hstep
    split at hstep <;> cases hstep <;> exact h.setProducer trivial
  | producer => exact h.enqueueStep hstep
  | dequeue =>
    simp only [SpscQueue.step] at hstep
    split at hstep
    next hpc =>
      cases hstep
      exact h.setConsumer trivial (by simp [hpc])
    next hpc =>
      cases hstep
      exact h.setConsumer trivial (by simp [hpc])
    next => cases hstep
  | consumer => exact h.dequeueStep hstep

/-- The producer moves only the tail, and its call is then over. -/
theorem enqueueStep_frame {q q' : SpscQueue τ} (hstep : q.enqueueStep = some q') :
    q'.head = q.head ∧ q'.consumer = q.consumer ∧ (q'.tail = q.tail ∨ q'.producer = .returned true) ∧
      (q.producer ≠ .idle ∧ q.producer ≠ .returned true) := by
  cases enqueues_of_step hstep with
  | loadTail hpc | full hpc | room hpc | storePtr hpc => exact ⟨rfl, rfl, .inl rfl, by simp [hpc]⟩
  | storeTail hpc => exact ⟨rfl, rfl, .inr rfl, by simp [hpc]⟩

/-- The consumer moves only the head, and finds nothing only in an empty queue. -/
theorem Inv.dequeueStep_frame {q q' : SpscQueue τ} (h : q.Inv) (hstep : q.dequeueStep = some q') :
    q'.tail = q.tail ∧ q'.producer = q.producer ∧
      (q'.consumer = .returned none → q'.head = q'.tail) := by
  have hok := h.consumer
  cases dequeues_of_step hstep with
  | loadHead | found | loadPtr | clearPtr => exact ⟨rfl, rfl, by simp [SpscQueue.setConsumer]⟩
  | empty hpc heq =>
    rw [hpc] at hok
    obtain rfl : _ = q.head := hok
    exact ⟨rfl, rfl, fun _ => heq⟩
  | storeHead hpc =>
    rw [hpc] at hok
    obtain ⟨_, item, rfl, _⟩ := hok
    exact ⟨rfl, rfl, by simp⟩

end SpscQueue

end NfEngine
