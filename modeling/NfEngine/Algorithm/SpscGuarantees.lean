-- SUMMARY: What the single-producer queue guarantees to its callers, in terms of the calls that have returned.
import NfEngine.Algorithm.SpscQueue

/-!
# Guarantees of the single-producer queue

A caller sees the calls that have returned: an `enqueue` with its item and its answer,
a `dequeue` with its answer. `Observed` logs them beside the queue. The items that
`dequeue` has returned are a prefix of those that `enqueue` has accepted, the slot that
the producer writes is empty, and an answer that a call has failed is true at the read
that decides it.

`Free` adds to the invariant of the queue what it does not say of the slots outside the
window of undelivered items: they hold the null pointer.
-/

namespace NfEngine

open Lib.Transition

namespace SpscQueue

variable {τ : Type} {q q' : SpscQueue τ} {capacity : ℕ}

/-! ## Free slots -/

structure Free (q : SpscQueue τ) : Prop where
  empty : ∀ t, q.accepted.length ≤ t → t < q.delivered.length + q.capacity →
    (∀ item tail, q.producer = .storeTail item tail → t ≠ q.accepted.length) → q.slot t = none
  cleared : ∀ head ptr, q.consumer = .storeHead head ptr → q.slot q.delivered.length = none

theorem free_init (τ : Type) (capacity : ℕ) : (init τ capacity).Free where
  empty _ _ _ _ := rfl
  cleared _ _ h := by cases h

namespace Free

/-- A step of the producer that touches no slot. -/
theorem setProducer (f : q.Free) {pc : ProducerPc τ}
    (hpc : ∀ item tail, q.producer ≠ .storeTail item tail) : (q.setProducer pc).Free where
  empty t hle hlt _ := f.empty t hle hlt fun item tail h => absurd h (hpc item tail)
  cleared := f.cleared

/-- A step of the consumer that touches no slot. -/
theorem setConsumer (f : q.Free) {pc : ConsumerPc τ}
    (hpc : ∀ head ptr, pc ≠ .storeHead head ptr) : (q.setConsumer pc).Free where
  empty := f.empty
  cleared head ptr h := absurd h (hpc head ptr)

theorem enqueueStep (f : q.Free) (h : q.Inv) (hstep : q.enqueueStep = some q') : q'.Free := by
  have hok := h.producer
  cases enqueues_of_step hstep with
  | loadTail hpc | full hpc | room hpc => exact f.setProducer (by simp [hpc])
  | @storePtr item tail hpc =>
    -- the written slot is the one behind the last accepted item
    rw [hpc] at hok
    obtain ⟨rfl, hlt⟩ := hok
    have hle := h.delivered_le
    have hother : ∀ t, q.delivered.length ≤ t → t < q.delivered.length + q.capacity →
        t ≠ q.accepted.length → (q.setSlot q.tail (some item)).slot t = q.slot t := by
      intro t hdt ht hne
      rw [slot_setSlot, h.tail_eq, h.index_mod, if_neg (h.index_ne hdt ht hle hlt hne)]
    constructor
    · intro t hle' hlt' hne
      have ht : t ≠ q.accepted.length := hne item q.tail rfl
      refine (hother t (hle.trans hle') hlt' ht).trans (f.empty t hle' hlt' ?_)
      simp [hpc]
    · intro head ptr hcons
      have hconsumer := h.consumer
      rw [show q.consumer = .storeHead head ptr from hcons] at hconsumer
      obtain ⟨_, x, _, hx⟩ := hconsumer
      have hdel : q.delivered.length < q.accepted.length := (List.getElem?_eq_some_iff.mp hx).1
      exact (hother _ (Nat.le_refl _) (by omega) hdel.ne).trans (f.cleared head ptr hcons)
  | storeTail hpc =>
    constructor
    · intro t hle hlt _
      rw [List.length_append, List.length_singleton] at hle
      refine f.empty t (Nat.le_of_succ_le hle) hlt fun _ _ _ => ?_
      exact Nat.ne_of_gt hle
    · exact f.cleared

theorem dequeueStep (f : q.Free) (h : q.Inv) (hstep : q.dequeueStep = some q') : q'.Free := by
  have hok := h.consumer
  cases dequeues_of_step hstep with
  | loadHead | empty | found | loadPtr => exact f.setConsumer (by simp)
  | @clearPtr head ptr hpc =>
    rw [hpc] at hok
    obtain rfl : head = q.head := hok.1
    constructor
    · intro t hle hlt hne
      have hslot := slot_setSlot q q.head t none
      rw [f.empty t hle hlt hne] at hslot
      exact hslot.trans (ite_self _)
    · intro _ _ _
      have hslot := slot_setSlot q q.head q.delivered.length none
      rw [if_pos (by rw [h.head_eq, h.index_mod])] at hslot
      exact hslot
  | @storeHead head ptr hpc =>
    constructor
    · intro t hle hlt hne
      simp only [List.length_append, List.length_singleton] at hlt
      rcases Nat.lt_or_ge t (q.delivered.length + q.capacity) with hold | hnew
      · exact f.empty t hle hold hne
      · -- the slot given back is one capacity further on
        have ht : t = q.delivered.length + q.capacity := by omega
        have hindex : q.index t = q.index q.delivered.length := by
          rw [ht, h.index_eq, h.index_eq, Nat.add_mod_right]
        have hnone := f.cleared head ptr hpc
        rwa [slot, ← hindex] at hnone
    · intro _ _ hcons
      cases hcons

end Free

/-! ## Calls that have returned -/

/-- The call of `enqueue` that ends in a step of the producer. -/
def ended : ProducerPc τ → ProducerPc τ → List (τ × Bool)
  | .loadTail item, .returned ok | .loadHead item _, .returned ok
  | .storePtr item _, .returned ok | .storeTail item _, .returned ok => [(item, ok)]
  | _, _ => []

/-- The call of `dequeue` that ends in a step of the consumer. -/
def answered : ConsumerPc τ → ConsumerPc τ → List (Option τ)
  | .loadHead, .returned ptr | .loadTail _, .returned ptr | .loadPtr _, .returned ptr
  | .clearPtr _ _, .returned ptr | .storeHead _ _, .returned ptr => [ptr]
  | _, _ => []

theorem ended_self (pc : ProducerPc τ) : ended pc pc = [] := by cases pc <;> rfl

theorem answered_self (pc : ConsumerPc τ) : answered pc pc = [] := by cases pc <;> rfl

/-- The queue and the calls that have returned, in order. -/
structure Observed (τ : Type) where
  queue : SpscQueue τ
  enqueued : List (τ × Bool)
  dequeued : List (Option τ)

namespace Observed

def init (τ : Type) (capacity : ℕ) : Observed τ := ⟨.init τ capacity, [], []⟩

def step (s : Observed τ) (a : Act τ) : Option (Observed τ) :=
  (s.queue.step a).map fun q =>
    ⟨q, s.enqueued ++ ended s.queue.producer q.producer,
      s.dequeued ++ answered s.queue.consumer q.consumer⟩

/-- The items of the calls of `enqueue` that have returned true. -/
def accepted (s : Observed τ) : List τ := (s.enqueued.filter (·.2)).map (·.1)

/-- The items that `dequeue` has returned. -/
def delivered (s : Observed τ) : List τ := s.dequeued.filterMap id

/-- The logs agree with the history of the counters. -/
structure Inv (capacity : ℕ) (s : Observed τ) : Prop where
  capacity : s.queue.capacity = capacity
  queue : s.queue.Inv
  free : s.queue.Free
  accepted : s.queue.accepted = s.accepted
  delivered : s.queue.delivered = s.delivered.map some

theorem inv_init (hpow : ∃ k < 64, capacity = 2 ^ k) : (init τ capacity).Inv capacity where
  capacity := rfl
  queue := SpscQueue.inv_init hpow
  free := free_init τ capacity
  accepted := rfl
  delivered := rfl

variable {s s' : Observed τ}

/-- A call that starts is not in the logs yet. -/
theorem Inv.start (h : s.Inv capacity) {q : SpscQueue τ} (hq : q.Inv) (hfree : q.Free)
    (hcap : q.capacity = s.queue.capacity) (hacc : q.accepted = s.queue.accepted)
    (hdel : q.delivered = s.queue.delivered) (hended : ended s.queue.producer q.producer = [])
    (hanswered : answered s.queue.consumer q.consumer = []) :
    Inv capacity ⟨q, s.enqueued ++ ended s.queue.producer q.producer,
      s.dequeued ++ answered s.queue.consumer q.consumer⟩ where
  capacity := hcap.trans h.capacity
  queue := hq
  free := hfree
  accepted := by
    rw [hended, List.append_nil]
    exact hacc.trans h.accepted
  delivered := by
    rw [hanswered, List.append_nil]
    exact hdel.trans h.delivered

theorem Inv.enqueueStep (h : s.Inv capacity) {q : SpscQueue τ} (hstep : s.queue.enqueueStep = some q) :
    Inv capacity ⟨q, s.enqueued ++ ended s.queue.producer q.producer,
      s.dequeued ++ answered s.queue.consumer q.consumer⟩ := by
  have hq := h.queue.enqueueStep hstep
  have hfree := h.free.enqueueStep h.queue hstep
  have hsame : answered s.queue.consumer s.queue.consumer = [] := answered_self _
  cases enqueues_of_step hstep with
  | loadTail hpc | room hpc | storePtr hpc =>
    exact h.start hq hfree rfl rfl rfl (by rw [hpc]; rfl) hsame
  | full hpc =>
    refine ⟨h.capacity, hq, hfree, h.accepted.trans ?_, h.delivered.trans ?_⟩
    · simp [Observed.accepted, hpc, ended, SpscQueue.setProducer]
    · simp [Observed.delivered, hsame, SpscQueue.setProducer]
  | storeTail hpc =>
    refine ⟨h.capacity, hq, hfree, ?_, h.delivered.trans ?_⟩
    · simp [Observed.accepted, hpc, ended, h.accepted]
    · simp [Observed.delivered, hsame]

theorem Inv.dequeueStep (h : s.Inv capacity) {q : SpscQueue τ} (hstep : s.queue.dequeueStep = some q) :
    Inv capacity ⟨q, s.enqueued ++ ended s.queue.producer q.producer,
      s.dequeued ++ answered s.queue.consumer q.consumer⟩ := by
  have hq := h.queue.dequeueStep hstep
  have hfree := h.free.dequeueStep h.queue hstep
  have hok := h.queue.consumer
  have hsame : ended s.queue.producer s.queue.producer = [] := ended_self _
  cases dequeues_of_step hstep with
  | loadHead hpc | found hpc | loadPtr hpc | clearPtr hpc =>
    exact h.start hq hfree rfl rfl rfl hsame (by rw [hpc]; rfl)
  | empty hpc =>
    refine ⟨h.capacity, hq, hfree, h.accepted.trans ?_, h.delivered.trans ?_⟩
    · simp [Observed.accepted, hsame, SpscQueue.setConsumer]
    · simp [Observed.delivered, hpc, answered, SpscQueue.setConsumer]
  | storeHead hpc =>
    rw [hpc] at hok
    obtain ⟨_, item, rfl, _⟩ := hok
    refine ⟨h.capacity, hq, hfree, h.accepted.trans ?_, ?_⟩
    · simp [Observed.accepted, hsame]
    · simp [Observed.delivered, hpc, answered, h.delivered]

theorem Inv.step {a : Act τ} (h : s.Inv capacity) (hstep : s.step a = some s') : s'.Inv capacity := by
  obtain ⟨q, hq, rfl⟩ := Option.map_eq_some_iff.mp hstep
  have hinv := h.queue.step hq
  cases a with
  | enqueue item =>
    simp only [SpscQueue.step] at hq
    split at hq <;> cases hq
    all_goals
      next hpc =>
      refine h.start hinv (h.free.setProducer (by simp [hpc])) rfl rfl rfl ?_ (answered_self _)
      rw [hpc]
      rfl
  | producer => exact h.enqueueStep hq
  | dequeue =>
    simp only [SpscQueue.step] at hq
    split at hq <;> cases hq
    all_goals
      next hpc =>
      refine h.start hinv (h.free.setConsumer (by simp)) rfl rfl rfl (ended_self _) ?_
      rw [hpc]
      rfl
  | consumer => exact h.dequeueStep hq

/-! ## The guarantees -/

/-- What holds in every state of the queue. The last two say what a step that ends a
    call without success tells about the state it is taken in. -/
structure Fifo (s : Observed τ) (capacity : ℕ) : Prop where
  in_order : s.delivered <+: s.accepted
  bounded : s.accepted.length ≤ s.delivered.length + capacity
  slot_free : ∀ item tail, s.queue.producer = .storePtr item tail → s.queue.slot tail = none ∧
    ∀ t, s.delivered.length ≤ t → t < s.accepted.length → s.queue.index t ≠ s.queue.index tail
  full : ∀ s', s.step .producer = some s' → s'.queue.producer = .returned false →
    s.accepted.length = s.delivered.length + capacity
  empty : ∀ s', s.step .consumer = some s' → s'.queue.consumer = .returned none →
    s.accepted.length = s.delivered.length

theorem Inv.length_delivered (h : s.Inv capacity) : s.queue.delivered.length = s.delivered.length := by
  rw [h.delivered, List.length_map]

/-- The slot that the producer is about to write. -/
theorem Inv.slot_free (h : s.Inv capacity) {item : τ} {tail : ℕ}
    (hpc : s.queue.producer = .storePtr item tail) :
    s.queue.slot tail = none ∧ ∀ t, s.delivered.length ≤ t → t < s.accepted.length →
      s.queue.index t ≠ s.queue.index tail := by
  have hok := h.queue.producer
  rw [hpc] at hok
  obtain ⟨rfl, hlt⟩ := hok
  have hindex : s.queue.index s.queue.tail = s.queue.index s.queue.accepted.length := by
    rw [h.queue.tail_eq, h.queue.index_mod]
  constructor
  · rw [slot, hindex]
    exact h.free.empty _ (Nat.le_refl _) hlt (by simp [hpc])
  · intro t hdt hta
    rw [hindex]
    rw [← h.length_delivered] at hdt
    rw [← h.accepted] at hta
    exact h.queue.index_ne hdt (by omega) h.queue.delivered_le hlt hta.ne

theorem Inv.full (h : s.Inv capacity) (hstep : s.step .producer = some s')
    (hfalse : s'.queue.producer = .returned false) :
    s.accepted.length = s.delivered.length + capacity := by
  obtain ⟨q, hq, rfl⟩ := Option.map_eq_some_iff.mp hstep
  have hok := h.queue.producer
  rw [← h.accepted, ← h.length_delivered, ← h.capacity]
  cases enqueues_of_step hq with
  | full hpc hfull =>
    rw [hpc] at hok
    obtain rfl : _ = s.queue.tail := hok
    exact h.queue.length_of_full hfull
  | loadTail | room | storePtr | storeTail => cases hfalse

theorem Inv.empty (h : s.Inv capacity) (hstep : s.step .consumer = some s')
    (hnone : s'.queue.consumer = .returned none) : s.accepted.length = s.delivered.length := by
  obtain ⟨q, hq, rfl⟩ := Option.map_eq_some_iff.mp hstep
  have hok := h.queue.consumer
  rw [← h.accepted, ← h.length_delivered]
  cases dequeues_of_step hq with
  | empty hpc heq =>
    rw [hpc] at hok
    obtain rfl : _ = s.queue.head := hok
    exact (h.queue.delivered_of_empty heq).symm
  | storeHead hpc =>
    rw [hpc] at hok
    obtain ⟨_, item, rfl, _⟩ := hok
    cases hnone
  | loadHead | found | loadPtr | clearPtr => cases hnone

theorem Inv.fifo (h : s.Inv capacity) : s.Fifo capacity where
  in_order := by
    have hpre := h.queue.delivered
    rw [h.delivered, h.accepted] at hpre
    exact (List.prefix_map_iff_of_injective (Option.some_injective τ)).mp hpre
  bounded := by
    rw [← h.accepted, ← h.length_delivered, ← h.capacity]
    exact h.queue.room
  slot_free _ _ hpc := h.slot_free hpc
  full _ hstep hfalse := h.full hstep hfalse
  empty _ hstep hnone := h.empty hstep hnone

/-- Every interleaving of one producer with one consumer is that of a bounded queue. -/
theorem fifo_of_run (hpow : ∃ k < 64, capacity = 2 ^ k) {acts : List (Act τ)}
    (hrun : run step (init τ capacity) acts = some s) : s.Fifo capacity := by
  have hinv : s.Inv capacity :=
    run_induct (fun _ _ _ h _ hstep => h.step hstep) (inv_init hpow) (along_true _ _) hrun
  exact hinv.fifo

/-- One slot: the second item is rejected while the consumer has loaded the pointer of
    the first and not yet given its slot back. -/
def contendedActs : List (Act ℕ) :=
  [.enqueue 1, .producer, .producer, .producer, .producer, .dequeue, .consumer, .consumer, .consumer,
    .enqueue 2, .producer, .producer, .consumer, .consumer, .dequeue, .consumer, .consumer]

theorem fifo_contended :
    ∃ s, run step (init ℕ 1) contendedActs = some s ∧ s.enqueued = [(1, true), (2, false)] ∧
      s.dequeued = [some 1, none] ∧ s.Fifo 1 :=
  have hrun : run step (init ℕ 1) contendedActs = some _ := rfl
  ⟨_, hrun, rfl, rfl, fifo_of_run ⟨0, by decide, rfl⟩ hrun⟩

end Observed

end SpscQueue

end NfEngine
