-- SUMMARY: The bounded multi-producer queue as a system of atomic steps.
import Mathlib.Algebra.Group.Nat.Defs
import NfEngine.Lib.Transition

/-!
# The multi-producer single-consumer queue

`MpscQueue::enqueue` and `MpscQueue::dequeueAll`, one atomic access at a time.
Any number of producers and one consumer run in any order; the program counter
of each thread names the access it is about to make and carries its locals. The
counters are `size_t`, so their arithmetic is modulo `2 ^ 64`.

Five components are history, read by no step: the items in the order of their
compare-exchange, the tickets whose `enqueue` returned `true`, the pointers the
consumer has taken out of the slots, the batches that `dequeueAll` has returned,
and, for each producer, whether the queue has been full since its call began.
-/

namespace NfEngine

open Lib.Transition

/-- `2 ^ 64`, the modulus of `size_t`. -/
def sizeMod : ℕ := 2 ^ 64

/-- `a - b` on `size_t`. -/
def sizeSub (a b : ℕ) : ℕ := (a + sizeMod - b) % sizeMod

namespace MpscQueue

structure Slot (τ : Type) where
  ready : Bool
  ptr : Option τ

/-- Where a producer stands in `enqueue`. -/
inductive ProducerPc (τ : Type) where
  | idle
  | loadTail (item : τ)
  | loadHead (item : τ) (tail : ℕ)
  | casTail (item : τ) (tail : ℕ)
  | storePtr (item : τ) (tail : ℕ)
  | storeReady (item : τ) (tail : ℕ)
  | returned (ok : Bool)

/-- Where the consumer stands in `dequeueAll`; `out` holds the pointers appended
    so far. -/
inductive ConsumerPc (τ : Type) where
  | idle
  | loadHead
  | loadReady (start head : ℕ) (out : List (Option τ))
  | loadPtr (start head : ℕ) (out : List (Option τ))
  | clearPtr (start head : ℕ) (out : List (Option τ)) (ptr : Option τ)
  | clearReady (start head : ℕ) (out : List (Option τ)) (ptr : Option τ)
  | storeHead (start head : ℕ) (out : List (Option τ))
  | returned (out : List (Option τ))

end MpscQueue

open MpscQueue in
structure MpscQueue (τ P : Type) where
  capacity : ℕ
  head : ℕ
  tail : ℕ
  buffer : ℕ → Slot τ
  producers : P → ProducerPc τ
  consumer : ConsumerPc τ
  claimed : List (P × τ)
  accepted : List ℕ
  delivered : List (Option τ)
  batches : List (List (Option τ))
  sawFull : P → Bool

namespace MpscQueue

variable {τ P : Type}

/-- The constructor: every slot cleared, both counters zero. -/
def init (τ P : Type) (capacity : ℕ) : MpscQueue τ P :=
  { capacity := capacity
    head := 0
    tail := 0
    buffer := fun _ => ⟨false, none⟩
    producers := fun _ => .idle
    consumer := .idle
    claimed := []
    accepted := []
    delivered := []
    batches := []
    sawFull := fun _ => false }

/-- `counter & m_mask`. -/
def index (q : MpscQueue τ P) (counter : ℕ) : ℕ := counter &&& (q.capacity - 1)

/-- The slot of a ticket. -/
def slot (q : MpscQueue τ P) (counter : ℕ) : Slot τ := q.buffer (q.index counter)

/-- The queue is really full: `m_tail - m_head = m_capacity`. -/
def isFull (q : MpscQueue τ P) : Bool := sizeSub q.tail q.head == q.capacity

def setSlot (q : MpscQueue τ P) (counter : ℕ) (s : Slot τ) : MpscQueue τ P :=
  { q with buffer := Function.update q.buffer (q.index counter) s }

/-! ## Steps -/

variable [DecidableEq P]

def setProducer (q : MpscQueue τ P) (p : P) (pc : ProducerPc τ) : MpscQueue τ P :=
  { q with producers := Function.update q.producers p pc }

def setConsumer (q : MpscQueue τ P) (pc : ConsumerPc τ) : MpscQueue τ P :=
  { q with consumer := pc }

/-- The next access of a producer inside `enqueue`. `spurious` lets the weak
    compare-exchange fail although the value is the expected one. -/
def enqueueStep (q : MpscQueue τ P) (p : P) (spurious : Bool) : Option (MpscQueue τ P) :=
  match q.producers p with
  | .loadTail item => some (q.setProducer p (.loadHead item q.tail))
  | .loadHead item tail =>
    if q.capacity ≤ sizeSub tail q.head then
      some (q.setProducer p (.returned false))
    else
      some (q.setProducer p (.casTail item tail))
  | .casTail item tail =>
    if q.tail = tail ∧ spurious = false then
      some ({ q with
        tail := (tail + 1) % sizeMod
        claimed := q.claimed ++ [(p, item)] }.setProducer p (.storePtr item tail))
    else
      some (q.setProducer p (.loadTail item))
  | .storePtr item tail =>
    some ((q.setSlot tail { q.slot tail with ptr := some item }).setProducer p
      (.storeReady item tail))
  | .storeReady _ tail =>
    some ({ q.setSlot tail { q.slot tail with ready := true } with
      accepted := q.accepted ++ [tail] }.setProducer p (.returned true))
  | .idle => none
  | .returned _ => none

/-- The next access of the consumer inside `dequeueAll`. -/
def dequeueStep (q : MpscQueue τ P) : Option (MpscQueue τ P) :=
  match q.consumer with
  | .loadHead => some (q.setConsumer (.loadReady q.head q.head []))
  | .loadReady start head out =>
    if (q.slot head).ready then
      some (q.setConsumer (.loadPtr start head out))
    else
      some (q.setConsumer (.storeHead start head out))
  | .loadPtr start head out =>
    some ({ q with delivered := q.delivered ++ [(q.slot head).ptr] }.setConsumer
      (.clearPtr start head out (q.slot head).ptr))
  | .clearPtr start head out ptr =>
    some ((q.setSlot head { q.slot head with ptr := none }).setConsumer
      (.clearReady start head out ptr))
  | .clearReady start head out ptr =>
    some ((q.setSlot head { q.slot head with ready := false }).setConsumer
      (.loadReady start ((head + 1) % sizeMod) (out ++ [ptr])))
  | .storeHead start head out =>
    if head ≠ start then
      some ({ q with head := head, batches := q.batches ++ [out] }.setConsumer (.returned out))
    else
      some ({ q with batches := q.batches ++ [out] }.setConsumer (.returned out))
  | .idle => none
  | .returned _ => none

inductive Act (τ P : Type) where
  /-- A producer calls `enqueue`. -/
  | enqueue (p : P) (item : τ)
  | producer (p : P) (spurious : Bool)
  /-- The consumer calls `dequeueAll`. -/
  | dequeueAll
  | consumer

/-- A call starts when the thread is outside the function. -/
def callStep (q : MpscQueue τ P) : Act τ P → Option (MpscQueue τ P)
  | .enqueue p item =>
    match q.producers p with
    | .idle | .returned _ =>
      some { q.setProducer p (.loadTail item) with sawFull := Function.update q.sawFull p q.isFull }
    | _ => none
  | .producer p spurious => q.enqueueStep p spurious
  | .dequeueAll =>
    match q.consumer with
    | .idle | .returned _ => some (q.setConsumer .loadHead)
    | _ => none
  | .consumer => q.dequeueStep

/-- Every running call sees the state that the step leaves. -/
def observe (q : MpscQueue τ P) : MpscQueue τ P :=
  { q with sawFull := fun p => q.sawFull p || q.isFull }

def step (q : MpscQueue τ P) (a : Act τ P) : Option (MpscQueue τ P) := (q.callStep a).map observe

/-! ## What an access does -/

/-- An access of a producer, with the guards it has passed. -/
inductive Enqueues (q : MpscQueue τ P) (p : P) : MpscQueue τ P → Prop
  | loadTail {item : τ} (hpc : q.producers p = .loadTail item) :
    Enqueues q p (q.setProducer p (.loadHead item q.tail))
  | full {item : τ} {tail : ℕ} (hpc : q.producers p = .loadHead item tail)
    (hfull : q.capacity ≤ sizeSub tail q.head) : Enqueues q p (q.setProducer p (.returned false))
  | room {item : τ} {tail : ℕ} (hpc : q.producers p = .loadHead item tail)
    (hroom : ¬ q.capacity ≤ sizeSub tail q.head) :
    Enqueues q p (q.setProducer p (.casTail item tail))
  | claim {item : τ} {tail : ℕ} (hpc : q.producers p = .casTail item tail) (htail : q.tail = tail) :
    Enqueues q p ({ q with
      tail := (tail + 1) % sizeMod
      claimed := q.claimed ++ [(p, item)] }.setProducer p (.storePtr item tail))
  | retry {item : τ} {tail : ℕ} (hpc : q.producers p = .casTail item tail) :
    Enqueues q p (q.setProducer p (.loadTail item))
  | storePtr {item : τ} {tail : ℕ} (hpc : q.producers p = .storePtr item tail) :
    Enqueues q p ((q.setSlot tail { q.slot tail with ptr := some item }).setProducer p
      (.storeReady item tail))
  | storeReady {item : τ} {tail : ℕ} (hpc : q.producers p = .storeReady item tail) :
    Enqueues q p ({ q.setSlot tail { q.slot tail with ready := true } with
      accepted := q.accepted ++ [tail] }.setProducer p (.returned true))

theorem enqueues_of_step {q q' : MpscQueue τ P} {p : P} {spurious : Bool}
    (hstep : q.enqueueStep p spurious = some q') : Enqueues q p q' := by
  unfold enqueueStep at hstep
  split at hstep
  next item hpc =>
    cases hstep
    exact .loadTail hpc
  next item tail hpc =>
    split at hstep <;> cases hstep
    next hfull => exact .full hpc hfull
    next hroom => exact .room hpc hroom
  next item tail hpc =>
    split at hstep <;> cases hstep
    next hcas => exact .claim hpc hcas.1
    · exact .retry hpc
  next item tail hpc =>
    cases hstep
    exact .storePtr hpc
  next item tail hpc =>
    cases hstep
    exact .storeReady hpc
  next => cases hstep
  next => cases hstep

omit [DecidableEq P] in
/-- An access of the consumer, with the guards it has passed. -/
inductive Dequeues (q : MpscQueue τ P) : MpscQueue τ P → Prop
  | loadHead (hpc : q.consumer = .loadHead) :
    Dequeues q (q.setConsumer (.loadReady q.head q.head []))
  | ready {start head : ℕ} {out : List (Option τ)} (hpc : q.consumer = .loadReady start head out)
    (hready : (q.slot head).ready = true) : Dequeues q (q.setConsumer (.loadPtr start head out))
  | unready {start head : ℕ} {out : List (Option τ)} (hpc : q.consumer = .loadReady start head out)
    (hready : ¬ (q.slot head).ready = true) :
    Dequeues q (q.setConsumer (.storeHead start head out))
  | loadPtr {start head : ℕ} {out : List (Option τ)} (hpc : q.consumer = .loadPtr start head out) :
    Dequeues q ({ q with delivered := q.delivered ++ [(q.slot head).ptr] }.setConsumer
      (.clearPtr start head out (q.slot head).ptr))
  | clearPtr {start head : ℕ} {out : List (Option τ)} {ptr : Option τ}
    (hpc : q.consumer = .clearPtr start head out ptr) :
    Dequeues q ((q.setSlot head { q.slot head with ptr := none }).setConsumer
      (.clearReady start head out ptr))
  | clearReady {start head : ℕ} {out : List (Option τ)} {ptr : Option τ}
    (hpc : q.consumer = .clearReady start head out ptr) :
    Dequeues q ((q.setSlot head { q.slot head with ready := false }).setConsumer
      (.loadReady start ((head + 1) % sizeMod) (out ++ [ptr])))
  | storeHead {start head : ℕ} {out : List (Option τ)} (hpc : q.consumer = .storeHead start head out)
    (hne : head ≠ start) :
    Dequeues q ({ q with head := head, batches := q.batches ++ [out] }.setConsumer (.returned out))
  | keepHead {start head : ℕ} {out : List (Option τ)} (hpc : q.consumer = .storeHead start head out)
    (heq : head = start) :
    Dequeues q ({ q with batches := q.batches ++ [out] }.setConsumer (.returned out))

omit [DecidableEq P] in
theorem dequeues_of_step {q q' : MpscQueue τ P} (hstep : q.dequeueStep = some q') : Dequeues q q' := by
  unfold dequeueStep at hstep
  split at hstep
  next hpc =>
    cases hstep
    exact .loadHead hpc
  next start head out hpc =>
    split at hstep <;> cases hstep
    next hready => exact .ready hpc hready
    next hready => exact .unready hpc hready
  next start head out hpc =>
    cases hstep
    exact .loadPtr hpc
  next start head out ptr hpc =>
    cases hstep
    exact .clearPtr hpc
  next start head out ptr hpc =>
    cases hstep
    exact .clearReady hpc
  next start head out hpc =>
    split at hstep <;> cases hstep
    next hne => exact .storeHead hpc hne
    next heq => exact .keepHead hpc (not_ne_iff.mp heq)
  next => cases hstep
  next => cases hstep

end MpscQueue

end NfEngine
