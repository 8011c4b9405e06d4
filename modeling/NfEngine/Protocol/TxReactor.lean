-- SUMMARY: The loop of the reactors that are woken for their multi-producer transmit queue, and when no queue strands an item.
import NfEngine.Algorithm.LockQueue
import NfEngine.Algorithm.MpscGuarantees
import NfEngine.Protocol.Wakeup

/-!
# Waking a reactor

`TcpReactor`, `TlsReactor` and `IpcReactor` share their eventfd between `enqueueTx`
and, for TLS, `handover`. When `epoll_wait` reports it the reactor drains it, empties
the handover queue, and takes what it finds in the transmit queue.

The transmit queue has many producers, and a slot may be published while an earlier
one is not, so `dequeueAll` may stop at a hole in front of published items. The
producer of the hole will then publish it and wake the reactor. What is always
announced is therefore the slot at the cursor of the consumer, not every item.

A reactor creates its eventfd when its thread starts. The threads of the TCP and the
TLS reactor start together, and the TCP reactor may hand a connection over before the
TLS reactor has an eventfd to write to.
-/

namespace NfEngine

open Lib.Transition

/-! ## The transmit queue and its announcements -/

namespace MpscQueue

variable {τ P : Type} {q q' : MpscQueue τ P}

/-- The slot that the consumer looks at next is published. -/
def FrontReady (q : MpscQueue τ P) : Prop := (q.slot q.cursor).ready = true

/-- The running call of `dequeueAll` will look at the slot at its cursor. -/
def Looking (q : MpscQueue τ P) : Prop :=
  match q.consumer with
  | .idle | .storeHead _ _ _ | .returned _ => False
  | .loadHead | .loadReady _ _ _ | .loadPtr _ _ _ | .clearPtr _ _ _ _ | .clearReady _ _ _ _ => True

/-- The consumer has been woken, or is about to be woken, or is about to look. -/
def Announced (q : MpscQueue τ P) (eventFd : Option ℕ) (looking : Prop) : Prop :=
  q.FrontReady → Epoll.signalled eventFd = true ∨ (∃ p, q.producers p = .returned true) ∨ looking

/-- The consumer is outside `dequeueAll`. -/
def OutOfCall (q : MpscQueue τ P) : Prop :=
  q.consumer = .idle ∨ ∃ out, q.consumer = .returned out

theorem Inv.beginCall (h : q.Inv) (hout : q.OutOfCall) : (q.setConsumer .loadHead).Inv := by
  refine h.startBatch ?_ rfl rfl id
  rcases hout with hidle | hret
  · exact .inl hidle
  · exact .inr (.inr hret)

/-- With every producer outside `enqueue`, an unpublished front means an empty
    queue. -/
theorem Inv.empty_of_not_frontReady (h : q.Inv) (hout : q.OutOfCall)
    (hprod : ∀ p, q.producers p = .idle ∨ q.producers p = .returned false) (hfront : ¬ q.FrontReady) :
    q.head = q.tail ∧ q.delivered = q.claimed.map fun c => some c.2 := by
  have hstart : q.cursor = q.head ∧ q.delivered.length = q.head := by
    have hok := h.consumer
    rcases hout with hpc | ⟨out, hpc⟩ <;> simp only [hpc, ConsumerOk] at hok <;>
      exact ⟨by simp only [cursor, hpc], hok⟩
  have hempty : q.head = q.tail := by
    refine Nat.le_antisymm (hstart.1 ▸ h.cursor_le) (Nat.le_of_not_lt fun hlt => ?_)
    -- the front ticket is claimed and unpublished, so its producer is inside `enqueue`
    rw [h.tail_eq] at hlt
    obtain ⟨⟨p, item⟩, hclaim⟩ : ∃ c, q.claimed[q.head]? = some c :=
      ⟨_, List.getElem?_eq_getElem hlt⟩
    have hheld := h.held q.head hstart.1.le p item hclaim
      (by simpa [FrontReady, hstart.1] using hfront)
    rcases hheld with hpc | hpc <;> rcases hprod p with hp | hp <;> rw [hp] at hpc <;> cases hpc
  refine ⟨hempty, h.prefix_claimed.eq_of_length ?_⟩
  rw [List.length_map, hstart.2, hempty, h.tail_eq]

theorem Announced.of_looking {eventFd : Option ℕ} {looking : Prop} (h : looking) :
    q.Announced eventFd looking :=
  fun _ => .inr (.inr h)

theorem Announced.mono {eventFd eventFd' : Option ℕ} {looking looking' : Prop}
    (h : q.Announced eventFd looking)
    (hfd : Epoll.signalled eventFd = true → Epoll.signalled eventFd' = true)
    (hlook : looking → looking') : q.Announced eventFd' looking' := by
  intro hready
  rcases h hready with hsig | hpub | hl
  · exact .inl (hfd hsig)
  · exact .inr (.inl hpub)
  · exact .inr (.inr (hlook hl))

section Steps

variable [DecidableEq P]

/-- A producer inside `enqueue` publishes a slot only when its call returns. -/
theorem enqueueStep_front {p : P} {spurious : Bool} (hstep : q.enqueueStep p spurious = some q') :
    q'.consumer = q.consumer ∧ (∀ p', p' ≠ p → q'.producers p' = q.producers p') ∧
      (q.producers p ≠ .idle ∧ q.producers p ≠ .returned true) ∧
      (q'.FrontReady → q.FrontReady ∨ q'.producers p = .returned true) := by
  have hothers : ∀ {r : MpscQueue τ P} {pc : ProducerPc τ}, r.producers = q.producers →
      ∀ p', p' ≠ p → (r.setProducer p pc).producers p' = q.producers p' := by
    intro r pc hr p' hp
    simp [setProducer, hp, hr]
  cases enqueues_of_step hstep with
  | loadTail hpc | full hpc | room hpc | claim hpc | retry hpc =>
    exact ⟨rfl, hothers rfl, by simp [hpc], .inl⟩
  | @storePtr item tail hpc =>
    refine ⟨rfl, hothers rfl, by simp [hpc], fun hready => .inl ?_⟩
    exact (q.slot_setSlot_ready tail (some item) q.cursor).symm.trans hready
  | storeReady hpc =>
    exact ⟨rfl, hothers rfl, by simp [hpc], fun _ => .inr (by simp [setProducer])⟩

theorem Announced.producer {p : P} {spurious : Bool} {eventFd : Option ℕ} {looking : Prop}
    (h : q.Announced eventFd looking) (hstep : q.step (.producer p spurious) = some q') :
    q'.Announced eventFd looking := by
  obtain ⟨r, hr, rfl⟩ := Option.map_eq_some_iff.mp hstep
  obtain ⟨_, hothers, ⟨_, hret⟩, hfront⟩ := enqueueStep_front hr
  intro hready
  rcases hfront hready with hold | hnew
  · rcases h hold with hsig | ⟨p', hp'⟩ | hlook
    · exact .inl hsig
    · refine .inr (.inl ⟨p', ?_⟩)
      have hp : p' ≠ p := by
        rintro rfl
        exact hret hp'
      exact (hothers p' hp).trans hp'
    · exact .inr (.inr hlook)
  · exact .inr (.inl ⟨p, hnew⟩)

/-- A call of `enqueue` only moves its thread. -/
theorem eq_of_step_enqueue {p : P} {item : τ} (hstep : q.step (.enqueue p item) = some q') :
    ∃ sawFull, q' = { q.setProducer p (.loadTail item) with sawFull := sawFull } := by
  obtain ⟨r, hr, rfl⟩ := Option.map_eq_some_iff.mp hstep
  simp only [callStep] at hr
  split at hr <;> cases hr <;> exact ⟨_, rfl⟩

/-- A thread that owes no wakeup may call `enqueue`. -/
theorem Announced.enqueue {p : P} {item : τ} {eventFd : Option ℕ} {looking : Prop}
    (h : q.Announced eventFd looking) (hp : q.producers p ≠ .returned true)
    (hstep : q.step (.enqueue p item) = some q') : q'.Announced eventFd looking := by
  obtain ⟨sawFull, rfl⟩ := eq_of_step_enqueue hstep
  intro hready
  rcases h hready with hsig | ⟨p', hp'⟩ | hlook
  · exact .inl hsig
  · refine .inr (.inl ⟨p', ?_⟩)
    have hne : p' ≠ p := by
      rintro rfl
      exact hp hp'
    simpa [setProducer, hne] using hp'
  · exact .inr (.inr hlook)

/-- `dequeueAll` stops looking only at a slot that is not published. -/
theorem Inv.announced_consumer (h : q.Inv) {eventFd : Option ℕ} (hann : q.Announced eventFd q.Looking)
    (hstep : q.step .consumer = some q') : q'.Announced eventFd q'.Looking := by
  obtain ⟨r, hr, rfl⟩ := Option.map_eq_some_iff.mp hstep
  have hdeq : Dequeues q r := dequeues_of_step hr
  -- the call ends with the slot at its cursor as it was
  have hends : ∀ {start head : ℕ} {out : List (Option τ)}, q.consumer = .storeHead start head out →
      (r.FrontReady → q.FrontReady) → r.observe.Announced eventFd r.observe.Looking := by
    intro start head out hpc hfront hready
    rcases hann (hfront hready) with hsig | ⟨p, hp⟩ | hlook
    · exact .inl hsig
    · exact .inr (.inl ⟨p, (congrFun (dequeueStep_frame hr).1 p).trans hp⟩)
    · rw [Looking, hpc] at hlook
      exact hlook.elim
  cases hdeq with
  | loadHead | ready | loadPtr | clearPtr | clearReady => exact .of_looking trivial
  | unready hpc hready => exact fun hfront => absurd hfront hready
  | storeHead hpc =>
    refine hends hpc fun hready => ?_
    rw [FrontReady, cursor, hpc]
    exact hready
  | keepHead hpc heq =>
    refine hends hpc fun hready => ?_
    have hok := h.consumer
    rw [hpc] at hok
    rw [FrontReady, cursor, hpc, heq.trans hok.1]
    exact hready

end Steps

end MpscQueue

/-! ## The loop of a reactor -/

/-- Where the thread of a reactor is in `start`. Events of connections do not touch
    the queues; `serving` is the loop over a batch, in which the wakeup is still to
    come or not. -/
inductive TxReactor.Pc where
  | idle
  | top
  /-- In `epoll_wait`. -/
  | waiting
  | serving (ringing : Bool)
  /-- In `drainWakeup`. -/
  | draining
  /-- Before `processHandover`. -/
  | handover
  /-- In `processTxQueue`. -/
  | transmit
  | ended
  deriving DecidableEq

open TxReactor in
/-- A reactor; `tls` tells the one with a handover queue. `handing` threads have put
    a connection there and are about to wake the reactor. -/
structure TxReactor (τ P η : Type) where
  tls : Bool
  running : Bool
  eventFd : Option ℕ
  handoverQueue : LockQueue η
  handing : ℕ
  txQueue : MpscQueue τ P
  pc : Pc

namespace TxReactor

variable {τ P η : Type} [DecidableEq P]

def init (τ P η : Type) (tls : Bool) (capacity handoverCapacity : ℕ) : TxReactor τ P η :=
  ⟨tls, false, none, ⟨handoverCapacity, []⟩, 0, .init τ P capacity, .idle⟩

inductive Act (τ P η : Type) where
  /-- `start` up to its loop, with `Epoll::init`. -/
  | start
  | loop
  /-- `epoll_wait` returns: it fails, or reports a batch with the eventfd or without. -/
  | interrupt
  | wake (ringing : Bool)
  /-- The batch comes to the eventfd. -/
  | serve
  /-- The batch is over. -/
  | next
  /-- One read of `drainWakeup`. -/
  | drain
  | processHandover
  | dequeue
  /-- The rest of `processTxQueue`. -/
  | place
  /-- `handover` up to the end of the critical section. -/
  | handover (item : η)
  /-- `wakeup` in `handover`. -/
  | handoverWakeup
  | enqueueTx (p : P) (item : τ)
  | producer (p : P) (spurious : Bool)
  /-- `wakeup` in `enqueueTx`. -/
  | wakeup (p : P)
  | stop
  /-- `wakeup` in `stop`. -/
  | stopWakeup

omit [DecidableEq P] in
/-- `processTxQueue` calls `dequeueAll`. -/
def beginTx (s : TxReactor τ P η) : TxReactor τ P η :=
  { s with txQueue := s.txQueue.setConsumer .loadHead, pc := .transmit }

def enqueueTx (s : TxReactor τ P η) (p : P) (item : τ) : Option (TxReactor τ P η) :=
  match s.txQueue.producers p with
  | .idle | .returned false =>
    (s.txQueue.step (.enqueue p item)).map fun q => { s with txQueue := q }
  | _ => none

def wakeup (s : TxReactor τ P η) (p : P) : Option (TxReactor τ P η) :=
  match s.txQueue.producers p with
  | .returned true =>
    some { s with txQueue := s.txQueue.setProducer p .idle, eventFd := Epoll.wakeup s.eventFd }
  | _ => none

omit [DecidableEq P] in
def place (s : TxReactor τ P η) : Option (TxReactor τ P η) :=
  match s.pc, s.txQueue.consumer with
  | .transmit, .returned _ => some { s with pc := .serving false }
  | _, _ => none

def step (s : TxReactor τ P η) : Act τ P η → Option (TxReactor τ P η)
  | .start =>
    if s.pc = .idle then some { s with running := true, eventFd := some 0, pc := .top } else none
  | .loop =>
    if s.pc = .top then some { s with pc := if s.running then .waiting else .ended } else none
  | .interrupt => if s.pc = .waiting then some { s with pc := .top } else none
  | .wake ringing =>
    if s.pc = .waiting ∧ (ringing = true → Epoll.signalled s.eventFd = true) then
      some { s with pc := .serving ringing }
    else none
  | .serve => if s.pc = .serving true then some { s with pc := .draining } else none
  | .next => if s.pc = .serving false then some { s with pc := .top } else none
  | .drain =>
    if s.pc = .draining then
      if Epoll.signalled s.eventFd = true then some { s with eventFd := some 0 }
      else if s.tls then some { s with pc := .handover }
      else some s.beginTx
    else none
  | .processHandover =>
    if s.pc = .handover then some { s with handoverQueue := s.handoverQueue.cleared }.beginTx
    else none
  | .dequeue =>
    if s.pc = .transmit then (s.txQueue.step .consumer).map fun q => { s with txQueue := q }
    else none
  | .place => s.place
  | .handover item =>
    if s.tls then
      (s.handoverQueue.enqueue item).map fun q =>
        { s with handoverQueue := q, handing := s.handing + 1 }
    else none
  | .handoverWakeup =>
    if 0 < s.handing then
      some { s with handing := s.handing - 1, eventFd := Epoll.wakeup s.eventFd }
    else none
  | .enqueueTx p item => s.enqueueTx p item
  | .producer p spurious =>
    (s.txQueue.step (.producer p spurious)).map fun q => { s with txQueue := q }
  | .wakeup p => s.wakeup p
  | .stop => some { s with running := false }
  | .stopWakeup => some { s with eventFd := Epoll.wakeup s.eventFd }

/-- The reactor will look at the handover queue before it waits again. -/
def Pc.beforeHandover : Pc → Prop
  | .draining | .handover => True
  | _ => False

/-- What a step does. `goto` is a step of the loop that touches no queue. -/
inductive Moves (s : TxReactor τ P η) : Act τ P η → TxReactor τ P η → Prop
  | start (hpc : s.pc = .idle) :
    Moves s .start { s with running := true, eventFd := some 0, pc := .top }
  | goto {a : Act τ P η} {pc : Pc} (hpc : s.pc ≠ .transmit) (hon : s.pc ≠ .idle) (hidle : pc ≠ .idle)
    (hlook : s.pc.beforeHandover → pc.beforeHandover) : Moves s a { s with pc := pc }
  | drain (hpc : s.pc = .draining) : Moves s .drain { s with eventFd := some 0 }
  | beginTx {a : Act τ P η} {handoverQueue : LockQueue η} (hpc : s.pc.beforeHandover)
    (hempty : handoverQueue.items = [] ∨ s.tls = false ∧ handoverQueue = s.handoverQueue) :
    Moves s a { s with handoverQueue := handoverQueue }.beginTx
  | dequeue {q : MpscQueue τ P} (hpc : s.pc = .transmit) (hq : s.txQueue.step .consumer = some q) :
    Moves s .dequeue { s with txQueue := q }
  | place {out : List (Option τ)} (hpc : s.pc = .transmit) (hret : s.txQueue.consumer = .returned out) :
    Moves s .place { s with pc := .serving false }
  | handover {item : η} {q : LockQueue η} (htls : s.tls = true) :
    Moves s (.handover item) { s with handoverQueue := q, handing := s.handing + 1 }
  | handoverWakeup (hpos : 0 < s.handing) :
    Moves s .handoverWakeup { s with handing := s.handing - 1, eventFd := Epoll.wakeup s.eventFd }
  | enqueueTx {p : P} {item : τ} {q : MpscQueue τ P}
    (hp : s.txQueue.producers p = .idle ∨ s.txQueue.producers p = .returned false)
    (hq : s.txQueue.step (.enqueue p item) = some q) :
    Moves s (.enqueueTx p item) { s with txQueue := q }
  | producer {p : P} {spurious : Bool} {q : MpscQueue τ P}
    (hq : s.txQueue.step (.producer p spurious) = some q) :
    Moves s (.producer p spurious) { s with txQueue := q }
  | wakeup {p : P} (hp : s.txQueue.producers p = .returned true) :
    Moves s (.wakeup p)
      { s with txQueue := s.txQueue.setProducer p .idle, eventFd := Epoll.wakeup s.eventFd }
  | stop : Moves s .stop { s with running := false }
  | stopWakeup : Moves s .stopWakeup { s with eventFd := Epoll.wakeup s.eventFd }

section Inversion

variable {s s' : TxReactor τ P η}

theorem moves_enqueueTx {p : P} {item : τ} (h : s.enqueueTx p item = some s') :
    Moves s (.enqueueTx p item) s' := by
  unfold enqueueTx at h
  split at h
  next hp =>
    obtain ⟨q, hq, rfl⟩ := Option.map_eq_some_iff.mp h
    exact .enqueueTx (.inl hp) hq
  next hp =>
    obtain ⟨q, hq, rfl⟩ := Option.map_eq_some_iff.mp h
    exact .enqueueTx (.inr hp) hq
  next => cases h

theorem moves_wakeup {p : P} (h : s.wakeup p = some s') : Moves s (.wakeup p) s' := by
  unfold wakeup at h
  split at h
  next hp =>
    cases h
    exact .wakeup hp
  next => cases h

theorem moves_place (h : s.place = some s') : Moves s .place s' := by
  unfold place at h
  split at h
  next hpc hret =>
    cases h
    exact .place hpc hret
  next => cases h

/-- A step of the loop from a point where no queue is looked at. -/
theorem moves_goto {a : Act τ P η} {pc pc' : Pc} (hpc : s.pc = pc) (hto : pc' ≠ .idle)
    (hfrom : pc ≠ .transmit ∧ pc ≠ .idle ∧ ¬ pc.beforeHandover) : Moves s a { s with pc := pc' } := by
  subst hpc
  exact .goto hfrom.1 hfrom.2.1 hto fun hl => absurd hl hfrom.2.2

theorem moves_drain (h : s.step .drain = some s') : Moves s .drain s' := by
  simp only [step] at h
  split at h
  next hpc =>
    have hlook : s.pc.beforeHandover := by
      rw [hpc]
      trivial
    split at h
    · cases h
      exact .drain hpc
    split at h
    · cases h
      exact .goto (by simp [hpc]) (by simp [hpc]) (by simp) fun _ => trivial
    next htls =>
      cases h
      exact .beginTx hlook (.inr ⟨by simpa using htls, rfl⟩)
  next => cases h

theorem moves_of_step {a : Act τ P η} (h : s.step a = some s') : Moves s a s' := by
  cases a with
  | start =>
    obtain ⟨hpc, heq⟩ := Option.ite_none_right_eq_some.mp h
    cases heq
    exact .start hpc
  | loop =>
    obtain ⟨hpc, heq⟩ := Option.ite_none_right_eq_some.mp h
    cases heq
    exact moves_goto hpc (by split <;> simp) (by simp [Pc.beforeHandover])
  | interrupt =>
    obtain ⟨hpc, heq⟩ := Option.ite_none_right_eq_some.mp h
    cases heq
    exact moves_goto hpc (by simp) (by simp [Pc.beforeHandover])
  | wake ringing =>
    obtain ⟨hguard, heq⟩ := Option.ite_none_right_eq_some.mp h
    cases heq
    exact moves_goto hguard.1 (by simp) (by simp [Pc.beforeHandover])
  | serve =>
    obtain ⟨hpc, heq⟩ := Option.ite_none_right_eq_some.mp h
    cases heq
    exact moves_goto hpc (by simp) (by simp [Pc.beforeHandover])
  | next =>
    obtain ⟨hpc, heq⟩ := Option.ite_none_right_eq_some.mp h
    cases heq
    exact moves_goto hpc (by simp) (by simp [Pc.beforeHandover])
  | drain => exact moves_drain h
  | processHandover =>
    obtain ⟨hpc, heq⟩ := Option.ite_none_right_eq_some.mp h
    cases heq
    exact .beginTx (by rw [hpc]; trivial) (.inl rfl)
  | dequeue =>
    obtain ⟨hpc, hmap⟩ := Option.ite_none_right_eq_some.mp h
    obtain ⟨q, hq, rfl⟩ := Option.map_eq_some_iff.mp hmap
    exact .dequeue hpc hq
  | place => exact moves_place h
  | handover item =>
    obtain ⟨htls, hmap⟩ := Option.ite_none_right_eq_some.mp h
    obtain ⟨q, _, rfl⟩ := Option.map_eq_some_iff.mp hmap
    exact .handover htls
  | handoverWakeup =>
    obtain ⟨hpos, heq⟩ := Option.ite_none_right_eq_some.mp h
    cases heq
    exact .handoverWakeup hpos
  | enqueueTx p item => exact moves_enqueueTx h
  | producer p spurious =>
    obtain ⟨q, hq, rfl⟩ := Option.map_eq_some_iff.mp h
    exact .producer hq
  | wakeup p => exact moves_wakeup h
  | stop =>
    cases h
    exact .stop
  | stopWakeup =>
    cases h
    exact .stopWakeup

/-- The claims of the transmit queue only grow. -/
theorem claimed_le_of_step {a : Act τ P η} (hstep : s.step a = some s') :
    s.txQueue.claimed.length ≤ s'.txQueue.claimed.length := by
  cases moves_of_step hstep with
  | dequeue _ hq => exact MpscQueue.claimed_le_of_step hq
  | enqueueTx _ hq => exact MpscQueue.claimed_le_of_step hq
  | producer hq => exact MpscQueue.claimed_le_of_step hq
  | start | goto | drain | beginTx | place | handover | handoverWakeup | wakeup | stop | stopWakeup =>
    exact Nat.le_refl _

end Inversion

/-! ## Announcements -/

omit [DecidableEq P]

/-- The reactor will look at the transmit queue before it waits again. -/
def LookingTx (s : TxReactor τ P η) : Prop :=
  s.pc.beforeHandover ∨ (s.pc = .transmit ∧ s.txQueue.Looking)

/-- A connection in the handover queue is announced. -/
def HandoverAnnounced (s : TxReactor τ P η) : Prop :=
  s.handoverQueue.items ≠ [] →
    Epoll.signalled s.eventFd = true ∨ 0 < s.handing ∨ s.pc.beforeHandover

structure Inv (s : TxReactor τ P η) : Prop where
  queue : s.txQueue.Inv
  idle : s.pc = .idle ↔ s.eventFd = none
  off : s.eventFd = none → s.handing = 0 ∧ ∀ p, s.txQueue.producers p = .idle
  consumer : s.pc = .transmit ∨ s.txQueue.OutOfCall
  plain : s.tls = false → s.handoverQueue.items = []
  tx : s.txQueue.Announced s.eventFd s.LookingTx
  handover : s.HandoverAnnounced

/-- A call of `enqueueTx` or of `handover` starts when the reactor has its eventfd. -/
def Started (s : TxReactor τ P η) : Act τ P η → Prop
  | .enqueueTx _ _ | .handover _ => s.eventFd.isSome
  | _ => True

instance (s : TxReactor τ P η) : DecidablePred s.Started
  | .enqueueTx _ _ | .handover _ => inferInstanceAs (Decidable (s.eventFd.isSome = true))
  | .start | .loop | .interrupt | .wake _ | .serve | .next | .drain | .processHandover | .dequeue
  | .place | .handoverWakeup | .producer _ _ | .wakeup _ | .stop | .stopWakeup => isTrue trivial

theorem inv_init {capacity : ℕ} (hpow : ∃ k, capacity = 2 ^ k) (tls : Bool) (handoverCapacity : ℕ) :
    (init τ P η tls capacity handoverCapacity).Inv where
  queue := MpscQueue.inv_init hpow
  idle := iff_of_true rfl rfl
  off _ := ⟨rfl, fun _ => rfl⟩
  consumer := .inr (.inl rfl)
  plain _ := rfl
  tx hready := by cases hready
  handover hne := absurd rfl hne

section Steps

variable {s s' : TxReactor τ P η}

theorem lookingTx_of_ne (hpc : s.pc ≠ .transmit) : s.LookingTx ↔ s.pc.beforeHandover :=
  or_iff_left fun h => hpc h.1

theorem Inv.outOfCall (h : s.Inv) (hpc : s.pc ≠ .transmit) : s.txQueue.OutOfCall :=
  h.consumer.resolve_left hpc

/-- The thread moves on without touching a queue. -/
theorem Inv.setPc (h : s.Inv) {pc : Pc} (hpc : s.pc ≠ .transmit) (hon : s.pc ≠ .idle)
    (hidle : pc ≠ .idle) (hlook : s.pc.beforeHandover → pc.beforeHandover) :
    Inv { s with pc := pc } where
  queue := h.queue
  idle := iff_of_false hidle (h.idle.not.mp hon)
  off := h.off
  consumer := .inr (h.outOfCall hpc)
  plain := h.plain
  tx := h.tx.mono id fun hl => .inl (hlook ((lookingTx_of_ne hpc).mp hl))
  handover hne := (h.handover hne).imp_right fun hr => hr.imp_right hlook

/-- Before the start nothing is announced, so nothing is there. -/
theorem Inv.start (h : s.Inv) (hpc : s.pc = .idle) :
    Inv { s with running := true, eventFd := some 0, pc := .top } := by
  have hoff := h.idle.mp hpc
  obtain ⟨hzero, hprod⟩ := h.off hoff
  have hdark : Epoll.signalled s.eventFd ≠ true := by simp [hoff, Epoll.signalled]
  refine ⟨h.queue, by simp, fun hnone => (by cases hnone), .inr ?_, h.plain, ?_, ?_⟩
  · exact h.outOfCall (by simp [hpc])
  · intro hready
    rcases h.tx hready with hsig | ⟨p, hp⟩ | hl
    · exact absurd hsig hdark
    · rw [hprod p] at hp
      cases hp
    · rw [lookingTx_of_ne (by simp [hpc]), hpc] at hl
      exact hl.elim
  · intro hne
    rcases h.handover hne with hsig | hpos | hl
    · exact absurd hsig hdark
    · exact absurd hzero hpos.ne'
    · rw [hpc] at hl
      exact hl.elim

/-- A read of the eventfd comes before the queues are looked at. -/
theorem Inv.drain (h : s.Inv) (hpc : s.pc = .draining) : Inv { s with eventFd := some 0 } where
  queue := h.queue
  idle := by simp [hpc]
  off hnone := by cases hnone
  consumer := h.consumer
  plain := h.plain
  tx := .of_looking (.inl (by rw [hpc]; trivial))
  handover _ := .inr (.inr (by simp [hpc, Pc.beforeHandover]))

/-- `processTxQueue` starts once the handover queue is empty. -/
theorem Inv.beginTx (h : s.Inv) (hpc : s.pc.beforeHandover) {handoverQueue : LockQueue η}
    (hempty : handoverQueue.items = []) :
    Inv { s with handoverQueue := handoverQueue }.beginTx where
  queue := h.queue.beginCall (h.outOfCall fun heq => by simp [heq, Pc.beforeHandover] at hpc)
  idle := iff_of_false (by simp [TxReactor.beginTx])
    (h.idle.not.mp fun heq => by simp [heq, Pc.beforeHandover] at hpc)
  off := h.off
  consumer := .inl rfl
  plain _ := hempty
  tx := .of_looking (.inr ⟨rfl, trivial⟩)
  handover hne := absurd hempty hne

theorem Inv.place (h : s.Inv) {out : List (Option τ)} (hpc : s.pc = .transmit)
    (hret : s.txQueue.consumer = .returned out) : Inv { s with pc := .serving false } := by
  refine ⟨h.queue, iff_of_false (by simp) (h.idle.not.mp (by simp [hpc])), h.off,
    .inr (.inr ⟨_, hret⟩), h.plain, ?_, ?_⟩
  · refine h.tx.mono id ?_
    rintro (hl | ⟨_, hl⟩)
    · rw [hpc] at hl
      exact hl.elim
    · rw [MpscQueue.Looking, hret] at hl
      exact hl.elim
  · intro hne
    refine (h.handover hne).imp_right fun hr => hr.imp_right fun hl => ?_
    rw [hpc] at hl
    exact hl.elim

theorem Inv.handoverEnqueue (h : s.Inv) {q : LockQueue η} (htls : s.tls = true)
    (hfd : s.eventFd.isSome = true) :
    Inv { s with handoverQueue := q, handing := s.handing + 1 } where
  queue := h.queue
  idle := h.idle
  off hnone := absurd hnone (Option.isSome_iff_ne_none.mp hfd)
  consumer := h.consumer
  plain hplain := by
    rw [htls] at hplain
    cases hplain
  tx := h.tx
  handover _ := .inr (.inl (Nat.succ_pos _))

theorem Inv.on_of_handing (h : s.Inv) (hpos : 0 < s.handing) : s.eventFd ≠ none :=
  fun hnone => absurd (h.off hnone).1 hpos.ne'

theorem Inv.handoverWakeup (h : s.Inv) (hpos : 0 < s.handing) :
    Inv { s with handing := s.handing - 1, eventFd := Epoll.wakeup s.eventFd } := by
  have hon := h.on_of_handing hpos
  have hsig := Epoll.signalled_wakeup hon
  have hon' : Epoll.wakeup s.eventFd ≠ none := fun hnone => hon (Epoll.wakeup_eq_none.mp hnone)
  exact ⟨h.queue, iff_of_false (h.idle.not.mpr hon) hon', fun hnone => absurd hnone hon', h.consumer,
    h.plain, fun _ => .inl hsig, fun _ => .inl hsig⟩

theorem Inv.stopWakeup (h : s.Inv) : Inv { s with eventFd := Epoll.wakeup s.eventFd } where
  queue := h.queue
  idle := h.idle.trans Epoll.wakeup_eq_none.symm
  off hnone := h.off (Epoll.wakeup_eq_none.mp hnone)
  consumer := h.consumer
  plain := h.plain
  tx := h.tx.mono Epoll.signalled_wakeup_of_signalled id
  handover hne := (h.handover hne).imp_left Epoll.signalled_wakeup_of_signalled

/-- A step of a producer leaves the consumer alone and keeps the announcements. -/
theorem Inv.setTx (h : s.Inv) {q : MpscQueue τ P} (hon : s.eventFd ≠ none) (hinv : q.Inv)
    (hcons : q.consumer = s.txQueue.consumer)
    (hann : q.Announced s.eventFd s.LookingTx) : Inv { s with txQueue := q } where
  queue := hinv
  idle := h.idle
  off hnone := absurd hnone hon
  consumer := by
    refine h.consumer.imp_right fun hout => ?_
    rwa [MpscQueue.OutOfCall, hcons]
  plain := h.plain
  tx := by
    refine hann.mono id fun hl => hl.imp_right fun hr => ⟨hr.1, ?_⟩
    have hlook := hr.2
    rwa [MpscQueue.Looking, ← hcons] at hlook
  handover := h.handover

section Producers

variable [DecidableEq P]

theorem Inv.enqueueTx {p : P} {item : τ} {q : MpscQueue τ P} (h : s.Inv) (hon : s.eventFd ≠ none)
    (hp : s.txQueue.producers p = .idle ∨ s.txQueue.producers p = .returned false)
    (hq : s.txQueue.step (.enqueue p item) = some q) : Inv { s with txQueue := q } := by
  have hann := h.tx.enqueue (by rcases hp with hp | hp <;> simp [hp]) hq
  obtain ⟨sawFull, rfl⟩ := MpscQueue.eq_of_step_enqueue hq
  have hset : (s.txQueue.setProducer p (.loadTail item)).Inv := by
    refine h.queue.setProducer ?_ trivial
    rcases hp with hp | hp <;> simp [hp]
  exact h.setTx hon (hset.setSawFull _) rfl hann

theorem Inv.producer {p : P} {spurious : Bool} {q : MpscQueue τ P} (h : s.Inv)
    (hstep : s.txQueue.step (.producer p spurious) = some q) (hcount : q.claimed.length < sizeMod) :
    Inv { s with txQueue := q } := by
  have hinv := h.queue.step hstep hcount
  have hann := h.tx.producer hstep
  obtain ⟨r, hr, rfl⟩ := Option.map_eq_some_iff.mp hstep
  obtain ⟨hcons, _, ⟨hidle, _⟩, _⟩ := MpscQueue.enqueueStep_front hr
  exact h.setTx (fun hnone => hidle ((h.off hnone).2 p)) hinv hcons hann

theorem Inv.wakeup {p : P} (h : s.Inv) (hp : s.txQueue.producers p = .returned true) :
    Inv { s with txQueue := s.txQueue.setProducer p .idle, eventFd := Epoll.wakeup s.eventFd } := by
  have hon : s.eventFd ≠ none := by
    intro hnone
    rw [(h.off hnone).2 p] at hp
    cases hp
  have hsig := Epoll.signalled_wakeup hon
  have hon' : Epoll.wakeup s.eventFd ≠ none := fun hnone => hon (Epoll.wakeup_eq_none.mp hnone)
  exact ⟨h.queue.setProducer (by simp [hp]) trivial, iff_of_false (h.idle.not.mpr hon) hon',
    fun hnone => absurd hnone hon', h.consumer, h.plain, fun _ => .inl hsig, fun _ => .inl hsig⟩

theorem Inv.dequeue {q : MpscQueue τ P} (h : s.Inv) (hpc : s.pc = .transmit)
    (hstep : s.txQueue.step .consumer = some q) (hcount : q.claimed.length < sizeMod) :
    Inv { s with txQueue := q } := by
  have hlook : s.LookingTx → s.txQueue.Looking := by
    rintro (hl | hl)
    · rw [hpc] at hl
      exact hl.elim
    · exact hl.2
  have hann := h.queue.announced_consumer (h.tx.mono id hlook) hstep
  have hinv := h.queue.step hstep hcount
  obtain ⟨r, hr, rfl⟩ := Option.map_eq_some_iff.mp hstep
  have hprod := (MpscQueue.dequeueStep_frame hr).1
  refine ⟨hinv, h.idle, fun hnone => ⟨(h.off hnone).1, fun p => ?_⟩, .inl hpc, h.plain,
    hann.mono id fun hl => .inr ⟨hpc, hl⟩, h.handover⟩
  exact (congrFun hprod p).trans ((h.off hnone).2 p)

theorem Inv.step {a : Act τ P η} (h : s.Inv) (hok : s.Started a) (hstep : s.step a = some s')
    (hcount : s'.txQueue.claimed.length < sizeMod) : s'.Inv := by
  cases moves_of_step hstep with
  | start hpc => exact h.start hpc
  | goto hpc hon hidle hlook => exact h.setPc hpc hon hidle hlook
  | drain hpc => exact h.drain hpc
  | beginTx hpc hempty =>
    refine h.beginTx hpc ?_
    rcases hempty with hempty | ⟨htls, rfl⟩
    · exact hempty
    · exact h.plain htls
  | dequeue hpc hq => exact h.dequeue hpc hq hcount
  | place hpc hret => exact h.place hpc hret
  | handover htls => exact h.handoverEnqueue htls hok
  | handoverWakeup hpos => exact h.handoverWakeup hpos
  | enqueueTx hp hq => exact h.enqueueTx (Option.isSome_iff_ne_none.mp hok) hp hq
  | producer hq => exact h.producer hq hcount
  | wakeup hp => exact h.wakeup hp
  | stop => exact ⟨h.queue, h.idle, h.off, h.consumer, h.plain, h.tx, h.handover⟩
  | stopWakeup => exact h.stopWakeup

/-- The invariant holds after every run whose calls all come after the start and that
    claims fewer than `2 ^ 64` tickets. -/
theorem inv_of_run {tls : Bool} {capacity handoverCapacity : ℕ} (hpow : ∃ k, capacity = 2 ^ k)
    {acts : List (Act τ P η)} (hok : Along step Started (init τ P η tls capacity handoverCapacity) acts)
    (hrun : run step (init τ P η tls capacity handoverCapacity) acts = some s)
    (hcount : s.txQueue.claimed.length < sizeMod) : s.Inv := by
  refine run_induct (I := fun s => s.txQueue.claimed.length < sizeMod → s.Inv) ?_
    (fun _ => inv_init hpow tls handoverCapacity) hok hrun hcount
  intro t a t' ht hstarted hstep hlt
  exact (ht (lt_of_le_of_lt (claimed_le_of_step hstep) hlt)).step hstarted hstep hlt

end Producers

end Steps

/-! ## Stranded items -/

/-- No thread is inside `enqueueTx`. -/
def TxOut (s : TxReactor τ P η) : Prop :=
  ∀ p, s.txQueue.producers p = .idle ∨ s.txQueue.producers p = .returned false

/-- When the reactor sleeps with a zero counter, a queue none of whose producers is
    between the start of its call and the end of its wakeup is empty. -/
structure NoStranded (s : TxReactor τ P η) : Prop where
  tx : s.pc = .waiting → s.eventFd = some 0 → s.TxOut →
    s.txQueue.head = s.txQueue.tail ∧ s.txQueue.delivered = s.txQueue.claimed.map fun c => some c.2
  handover : s.pc = .waiting → s.eventFd = some 0 → s.handing = 0 → s.handoverQueue.items = []

theorem Inv.noStranded {s : TxReactor τ P η} (h : s.Inv) : s.NoStranded where
  tx := by
    intro hpc hzero hout
    have hmoved : s.pc ≠ .transmit := by simp [hpc]
    refine h.queue.empty_of_not_frontReady (h.outOfCall hmoved) hout fun hready => ?_
    rcases h.tx hready with hsig | ⟨p, hp⟩ | hl
    · rw [hzero] at hsig
      cases hsig
    · rcases hout p with hp' | hp' <;> rw [hp'] at hp <;> cases hp
    · rw [lookingTx_of_ne hmoved, hpc] at hl
      exact hl
  handover := by
    intro hpc hzero hnone
    by_contra hne
    rcases h.handover hne with hsig | hpos | hl
    · rw [hzero] at hsig
      cases hsig
    · exact absurd hnone hpos.ne'
    · rw [hpc] at hl
      exact hl

end TxReactor

/-- In every run of a worker or of a reactor whose producers call it only once it has
    its eventfd, and that claims fewer than `2 ^ 64` tickets of a transmit queue, no
    queue strands an item. -/
theorem noStranded_of_started {τ P η : Type} [DecidableEq P] :
    (∀ {capacity : ℕ} {acts : List (RxWorker.Act τ)} {s : RxWorker τ}, (∃ k < 64, capacity = 2 ^ k) →
      Along RxWorker.step RxWorker.Started (.init τ capacity) acts →
      run RxWorker.step (.init τ capacity) acts = some s → s.NoStranded) ∧
    (∀ {tls : Bool} {capacity handoverCapacity : ℕ} {acts : List (TxReactor.Act τ P η)}
      {s : TxReactor τ P η}, (∃ k, capacity = 2 ^ k) →
      Along TxReactor.step TxReactor.Started (.init τ P η tls capacity handoverCapacity) acts →
      run TxReactor.step (.init τ P η tls capacity handoverCapacity) acts = some s →
      s.txQueue.claimed.length < sizeMod → s.NoStranded) :=
  ⟨fun hpow hok hrun => (RxWorker.inv_of_run hpow hok hrun).noStranded,
    fun hpow hok hrun hcount => (TxReactor.inv_of_run hpow hok hrun hcount).noStranded⟩

/-- A packet goes through a worker, which then sleeps again. -/
def servedWorkerActs : List (RxWorker.Act ℕ) :=
  List.flatten [[.start, .loop, .enqueueRx 7], List.replicate 4 .producer,
    [.wakeup, .wake, .drain, .drain, .dequeue], List.replicate 5 .consumer,
    [.got, .handle, .dequeue, .consumer, .consumer, .got, .loop]]

/-- A connection and a packet go through a TLS reactor, which then sleeps again. -/
def servedReactorActs : List (TxReactor.Act ℕ Unit ℕ) :=
  List.flatten [[.start, .loop, .handover 5, .handoverWakeup, .enqueueTx () 7],
    List.replicate 5 (.producer () false),
    [.wakeup (), .wake true, .serve, .drain, .drain, .processHandover],
    List.replicate 7 .dequeue, [.place, .next, .loop]]

theorem noStranded_served :
    (∃ s, run RxWorker.step (.init ℕ 2) servedWorkerActs = some s ∧ s.pc = .waiting ∧
      s.queue.delivered = [some 7] ∧ s.NoStranded) ∧
    ∃ s, run TxReactor.step (.init ℕ Unit ℕ true 2 4096) servedReactorActs = some s ∧
      s.pc = .waiting ∧ s.txQueue.delivered = [some 7] ∧ s.NoStranded := by
  have hworker : run RxWorker.step (.init ℕ 2) servedWorkerActs = some _ := rfl
  have hreactor : run TxReactor.step (.init ℕ Unit ℕ true 2 4096) servedReactorActs = some _ := rfl
  have hstranded := @noStranded_of_started ℕ Unit ℕ _
  exact ⟨⟨_, hworker, rfl, rfl, hstranded.1 ⟨1, by decide, rfl⟩ (by decide +kernel) hworker⟩,
    ⟨_, hreactor, rfl, rfl, hstranded.2 ⟨1, rfl⟩ (by decide +kernel) hreactor (by decide)⟩⟩

/-- A connection is handed over before the TLS reactor has started. -/
def earlyHandoverActs : List (TxReactor.Act ℕ Unit ℕ) := [.handover 5, .handoverWakeup, .start, .loop]

/-- The wakeup had no eventfd to write to, and the connection stays in the queue of a
    sleeping reactor. -/
theorem handover_stranded :
    ∃ s, run TxReactor.step (.init ℕ Unit ℕ true 2 4096) earlyHandoverActs = some s ∧
      s.pc = .waiting ∧ s.eventFd = some 0 ∧ s.handing = 0 ∧ s.handoverQueue.items = [5] ∧
      ¬ s.NoStranded := by
  refine ⟨_, rfl, rfl, rfl, rfl, rfl, fun h => ?_⟩
  exact absurd (h.handover rfl rfl rfl) (by decide)

end NfEngine
