-- SUMMARY: The eventfd behind Epoll::wakeup, and the loop of the workers that take their packets from a single-producer queue.
import NfEngine.Algorithm.SpscQueue

/-!
# Waking a worker

A consumer sleeps in `epoll_wait` until its eventfd is written. `Epoll::wakeup` adds
one to the counter of the eventfd, `Epoll::drainWakeup` reads until nothing is left,
and a read takes the whole counter. Before `Epoll::init` there is no eventfd, and a
wakeup is a failed write.

`TcpWorker`, `TlsWorker`, `UdpWorker` and `IpcWorker` run the same loop: wait, drain,
dequeue until the queue is empty. Their producer publishes before it wakes, and the
loop drains before it looks, so that an item in the queue is always announced: the
counter is not zero, or the producer is about to add to it, or the loop is about to
look.
-/

namespace NfEngine

open Lib.Transition

namespace Epoll

/-- The largest value of an eventfd counter. -/
def maxCount : ℕ := 2 ^ 64 - 2

/-- `wakeup`, on the counter of the eventfd if it has been created. A write that
    would overflow the counter fails. -/
def wakeup (eventFd : Option ℕ) : Option ℕ :=
  eventFd.map fun count => if count < maxCount then count + 1 else count

/-- The eventfd is readable. -/
def signalled (eventFd : Option ℕ) : Bool := eventFd.any (0 < ·)

theorem signalled_wakeup {eventFd : Option ℕ} (h : eventFd ≠ none) :
    signalled (wakeup eventFd) = true := by
  cases eventFd with
  | none => exact absurd rfl h
  | some count =>
    simp only [signalled, wakeup, Option.map_some, Option.any_some, decide_eq_true_eq]
    split
    · exact Nat.succ_pos count
    next hmax => exact lt_of_lt_of_le (by decide) (Nat.le_of_not_lt hmax)

/-- A readable eventfd stays readable. -/
theorem signalled_wakeup_of_signalled {eventFd : Option ℕ} (h : signalled eventFd = true) :
    signalled (wakeup eventFd) = true := by
  refine signalled_wakeup fun hnone => ?_
  rw [hnone] at h
  cases h

theorem wakeup_eq_none {eventFd : Option ℕ} : wakeup eventFd = none ↔ eventFd = none := by
  simp [wakeup]

end Epoll

/-! ## The loop of a worker -/

/-- Where the thread of a worker is in `processPacket`. `last` tells the loop after
    the end of the main one. -/
inductive RxWorker.Pc (τ : Type) where
  | idle
  /-- At the head of the main loop. -/
  | top
  /-- In `epoll_wait`. -/
  | waiting
  /-- In `drainWakeup`. -/
  | draining
  | dequeuing (last : Bool)
  | handling (last : Bool) (item : τ)
  | ended

open RxWorker in
structure RxWorker (τ : Type) where
  running : Bool
  eventFd : Option ℕ
  queue : SpscQueue τ
  pc : Pc τ

namespace RxWorker

variable {τ : Type}

def init (τ : Type) (capacity : ℕ) : RxWorker τ := ⟨false, none, .init τ capacity, .idle⟩

inductive Act (τ : Type) where
  /-- `start`, with `Epoll::init`. -/
  | start
  /-- The producer calls `enqueueRx`. -/
  | enqueueRx (item : τ)
  | producer
  /-- `wakeup` in `enqueueRx`. -/
  | wakeup
  | loop
  /-- `epoll_wait` fails. -/
  | interrupt
  /-- `epoll_wait` reports the eventfd. -/
  | wake
  /-- One read of `drainWakeup`. -/
  | drain
  | dequeue
  | consumer
  /-- `dequeue` has returned. -/
  | got
  | handle
  | stop
  /-- `wakeup` in `stop`. -/
  | stopWakeup

/-! ## Steps -/

def enqueueRx (s : RxWorker τ) (item : τ) : Option (RxWorker τ) :=
  match s.queue.producer with
  | .idle | .returned false => some { s with queue := s.queue.setProducer (.loadTail item) }
  | _ => none

def wakeup (s : RxWorker τ) : Option (RxWorker τ) :=
  match s.queue.producer with
  | .returned true =>
    some { s with queue := s.queue.setProducer .idle, eventFd := Epoll.wakeup s.eventFd }
  | _ => none

def loop (s : RxWorker τ) : Option (RxWorker τ) :=
  match s.pc with
  | .top => some { s with pc := if s.running then .waiting else .dequeuing true }
  | _ => none

/-- `epoll_wait` returns, with the eventfd or without. -/
def wake (s : RxWorker τ) (ringing : Bool) : Option (RxWorker τ) :=
  match s.pc with
  | .waiting =>
    if ringing then
      if Epoll.signalled s.eventFd then some { s with pc := .draining } else none
    else
      some { s with pc := .top }
  | _ => none

def drain (s : RxWorker τ) : Option (RxWorker τ) :=
  match s.pc with
  | .draining =>
    if Epoll.signalled s.eventFd then some { s with eventFd := some 0 }
    else some { s with pc := .dequeuing false }
  | _ => none

def dequeue (s : RxWorker τ) : Option (RxWorker τ) :=
  match s.pc, s.queue.consumer with
  | .dequeuing _, .idle => some { s with queue := s.queue.setConsumer .loadHead }
  | _, _ => none

def consumer (s : RxWorker τ) : Option (RxWorker τ) :=
  match s.pc with
  | .dequeuing _ => s.queue.dequeueStep.map fun queue => { s with queue := queue }
  | _ => none

def got (s : RxWorker τ) : Option (RxWorker τ) :=
  match s.pc, s.queue.consumer with
  | .dequeuing last, .returned (some item) =>
    some { s with queue := s.queue.setConsumer .idle, pc := .handling last item }
  | .dequeuing last, .returned none =>
    some { s with queue := s.queue.setConsumer .idle, pc := if last then .ended else .top }
  | _, _ => none

def handle (s : RxWorker τ) : Option (RxWorker τ) :=
  match s.pc with
  | .handling last _ => some { s with pc := .dequeuing last }
  | _ => none

def start (s : RxWorker τ) : Option (RxWorker τ) :=
  match s.pc with
  | .idle => some { s with running := true, eventFd := some 0, pc := .top }
  | _ => none

def step (s : RxWorker τ) : Act τ → Option (RxWorker τ)
  | .start => s.start
  | .enqueueRx item => s.enqueueRx item
  | .producer => s.queue.enqueueStep.map fun queue => { s with queue := queue }
  | .wakeup => s.wakeup
  | .loop => s.loop
  | .interrupt => s.wake false
  | .wake => s.wake true
  | .drain => s.drain
  | .dequeue => s.dequeue
  | .consumer => s.consumer
  | .got => s.got
  | .handle => s.handle
  | .stop => some { s with running := false }
  | .stopWakeup => some { s with eventFd := Epoll.wakeup s.eventFd }

/-- The producer is outside `enqueueRx`. -/
def ProducerOut (s : RxWorker τ) : Prop :=
  s.queue.producer = .idle ∨ s.queue.producer = .returned false

/-- What a step does, with the guards it has passed. -/
inductive Moves (s : RxWorker τ) : Act τ → RxWorker τ → Prop
  | start (hpc : s.pc = .idle) :
    Moves s .start { s with running := true, eventFd := some 0, pc := .top }
  | enqueueRx {item : τ} (hout : s.ProducerOut) :
    Moves s (.enqueueRx item) { s with queue := s.queue.setProducer (.loadTail item) }
  | producer {q : SpscQueue τ} (hq : s.queue.enqueueStep = some q) :
    Moves s .producer { s with queue := q }
  | wakeup (hpub : s.queue.producer = .returned true) :
    Moves s .wakeup { s with queue := s.queue.setProducer .idle, eventFd := Epoll.wakeup s.eventFd }
  | loop (hpc : s.pc = .top) :
    Moves s .loop { s with pc := if s.running then .waiting else .dequeuing true }
  | interrupt (hpc : s.pc = .waiting) : Moves s .interrupt { s with pc := .top }
  | wake (hpc : s.pc = .waiting) : Moves s .wake { s with pc := .draining }
  | drain (hpc : s.pc = .draining) : Moves s .drain { s with eventFd := some 0 }
  | drained (hpc : s.pc = .draining) : Moves s .drain { s with pc := .dequeuing false }
  | dequeue {last : Bool} (hpc : s.pc = .dequeuing last) (hidle : s.queue.consumer = .idle) :
    Moves s .dequeue { s with queue := s.queue.setConsumer .loadHead }
  | consumer {last : Bool} {q : SpscQueue τ} (hpc : s.pc = .dequeuing last)
    (hq : s.queue.dequeueStep = some q) : Moves s .consumer { s with queue := q }
  | got {last : Bool} {item : τ} (hpc : s.pc = .dequeuing last)
    (hret : s.queue.consumer = .returned (some item)) :
    Moves s .got { s with queue := s.queue.setConsumer .idle, pc := .handling last item }
  | empty {last : Bool} (hpc : s.pc = .dequeuing last) (hret : s.queue.consumer = .returned none) :
    Moves s .got { s with queue := s.queue.setConsumer .idle, pc := if last then .ended else .top }
  | handle {last : Bool} {item : τ} (hpc : s.pc = .handling last item) :
    Moves s .handle { s with pc := .dequeuing last }
  | stop : Moves s .stop { s with running := false }
  | stopWakeup : Moves s .stopWakeup { s with eventFd := Epoll.wakeup s.eventFd }

section Inversion

variable {s s' : RxWorker τ}

theorem moves_enqueueRx {item : τ} (h : s.enqueueRx item = some s') : Moves s (.enqueueRx item) s' := by
  unfold enqueueRx at h
  split at h
  next hidle =>
    cases h
    exact .enqueueRx (.inl hidle)
  next hfull =>
    cases h
    exact .enqueueRx (.inr hfull)
  next => cases h

theorem moves_drain (h : s.drain = some s') : Moves s .drain s' := by
  unfold drain at h
  split at h
  next hpc =>
    split at h <;> cases h
    · exact .drain hpc
    · exact .drained hpc
  next => cases h

theorem moves_got (h : s.got = some s') : Moves s .got s' := by
  unfold got at h
  split at h
  next hpc hret =>
    cases h
    exact .got hpc hret
  next hpc hret =>
    cases h
    exact .empty hpc hret
  next => cases h

theorem moves_of_step {a : Act τ} (h : s.step a = some s') : Moves s a s' := by
  cases a with
  | start =>
    simp only [step, start] at h
    split at h
    next hpc =>
      cases h
      exact .start hpc
    next => cases h
  | enqueueRx item => exact moves_enqueueRx h
  | producer =>
    obtain ⟨q, hq, rfl⟩ := Option.map_eq_some_iff.mp h
    exact .producer hq
  | wakeup =>
    simp only [step, wakeup] at h
    split at h
    next hpub =>
      cases h
      exact .wakeup hpub
    next => cases h
  | loop =>
    simp only [step, loop] at h
    split at h
    next hpc =>
      cases h
      exact .loop hpc
    next => cases h
  | interrupt =>
    simp only [step, wake, Bool.false_eq_true, if_false] at h
    split at h
    next hpc =>
      cases h
      exact .interrupt hpc
    next => cases h
  | wake =>
    simp only [step, wake, if_true] at h
    split at h
    next hpc =>
      obtain ⟨_, heq⟩ := Option.ite_none_right_eq_some.mp h
      cases heq
      exact .wake hpc
    next => cases h
  | drain => exact moves_drain h
  | dequeue =>
    simp only [step, dequeue] at h
    split at h
    next hpc hidle =>
      cases h
      exact .dequeue hpc hidle
    next => cases h
  | consumer =>
    simp only [step, consumer] at h
    split at h
    next hpc =>
      obtain ⟨q, hq, rfl⟩ := Option.map_eq_some_iff.mp h
      exact .consumer hpc hq
    next => cases h
  | got => exact moves_got h
  | handle =>
    simp only [step, handle] at h
    split at h
    next hpc =>
      cases h
      exact .handle hpc
    next => cases h
  | stop =>
    cases h
    exact .stop
  | stopWakeup =>
    cases h
    exact .stopWakeup

end Inversion

/-! ## Announcements -/

/-- The loop will look at the queue before it waits again. -/
def Looking (s : RxWorker τ) : Prop :=
  match s.pc with
  | .draining | .handling _ _ => True
  | .dequeuing _ => s.queue.consumer ≠ .returned none
  | .idle | .top | .waiting | .ended => False

/-- The worker has been woken, or is about to be woken, or is about to look. -/
def Announced (s : RxWorker τ) : Prop :=
  Epoll.signalled s.eventFd = true ∨ s.queue.producer = .returned true ∨ s.Looking

/-- The consumer is inside `dequeue` only in the loops that call it. -/
def ConsumerIdle (s : RxWorker τ) : Prop :=
  match s.pc with
  | .dequeuing _ => True
  | _ => s.queue.consumer = .idle

structure Inv (s : RxWorker τ) : Prop where
  queue : s.queue.Inv
  idle : s.pc = .idle → s.eventFd = none
  off : s.eventFd = none → s.queue.producer = .idle
  consumer : s.ConsumerIdle
  announced : s.queue.head ≠ s.queue.tail → s.Announced

/-- A call of `enqueueRx` starts when the worker has its eventfd. -/
def Started (s : RxWorker τ) : Act τ → Prop
  | .enqueueRx _ => s.eventFd.isSome
  | _ => True

instance (s : RxWorker τ) : DecidablePred s.Started
  | .enqueueRx _ => inferInstanceAs (Decidable (s.eventFd.isSome = true))
  | .start | .producer | .wakeup | .loop | .interrupt | .wake | .drain | .dequeue | .consumer | .got
  | .handle | .stop | .stopWakeup => isTrue trivial

theorem inv_init {capacity : ℕ} (hpow : ∃ k < 64, capacity = 2 ^ k) : (init τ capacity).Inv where
  queue := SpscQueue.inv_init hpow
  idle _ := rfl
  off _ := rfl
  consumer := rfl
  announced hne := absurd rfl hne

section Steps

variable {s s' : RxWorker τ}

/-- A step of the loop that leaves the queue alone. -/
theorem Inv.of_loop (h : s.Inv) (hqueue : s'.queue = s.queue) (hidle : s'.pc ≠ .idle)
    (hfd : s'.eventFd = none → s.eventFd = none) (hconsumer : s.ConsumerIdle → s'.ConsumerIdle)
    (hann : s.Announced → s'.Announced) : s'.Inv where
  queue := hqueue ▸ h.queue
  idle hpc := absurd hpc hidle
  off hnone := hqueue ▸ h.off (hfd hnone)
  consumer := hconsumer h.consumer
  announced hne := hann (h.announced (hqueue ▸ hne))

theorem Inv.start (h : s.Inv) (hpc : s.pc = .idle) :
    Inv { s with running := true, eventFd := some 0, pc := .top } := by
  have hoff := h.idle hpc
  have hprod := h.off hoff
  refine h.of_loop rfl (by simp) (fun hnone => by cases hnone) ?_ ?_
  · simp only [ConsumerIdle, hpc]
    exact id
  · -- nothing is announced before the start, so the queue is empty
    simp [Announced, Looking, hpc, hoff, hprod, Epoll.signalled]

theorem Inv.enqueueRx {item : τ} (h : s.Inv) (hon : s.eventFd.isSome) (hout : s.ProducerOut) :
    Inv { s with queue := s.queue.setProducer (.loadTail item) } := by
  refine ⟨h.queue.setProducer trivial, h.idle, fun hnone => ?_, h.consumer, fun hne => ?_⟩
  · simp only at hnone
    rw [hnone] at hon
    cases hon
  · rcases h.announced hne with hsig | hpub | hlook
    · exact .inl hsig
    · rcases hout with hout | hout <;> rw [hout] at hpub <;> cases hpub
    · exact .inr (.inr hlook)

theorem Inv.producer {q' : SpscQueue τ} (h : s.Inv) (hstep : s.queue.enqueueStep = some q') :
    Inv { s with queue := q' } := by
  obtain ⟨hhead, hcons, htail, hidle, hret⟩ := SpscQueue.enqueueStep_frame hstep
  refine ⟨h.queue.enqueueStep hstep, h.idle, fun hnone => absurd (h.off hnone) hidle, ?_, fun hne => ?_⟩
  · have hconsumer := h.consumer
    unfold ConsumerIdle at hconsumer ⊢
    simpa only [hcons] using hconsumer
  · rcases htail with htail | hdone
    · simp only [hhead, htail] at hne
      rcases h.announced hne with hsig | hpub | hlook
      · exact .inl hsig
      · exact absurd hpub hret
      · refine .inr (.inr ?_)
        unfold Looking at hlook ⊢
        simpa only [hcons] using hlook
    · exact .inr (.inl hdone)

theorem Inv.wakeup (h : s.Inv) (hpub : s.queue.producer = .returned true) :
    Inv { s with queue := s.queue.setProducer .idle, eventFd := Epoll.wakeup s.eventFd } := by
  have hon : s.eventFd ≠ none := by
    intro hnone
    rw [h.off hnone] at hpub
    cases hpub
  refine ⟨h.queue.setProducer trivial, fun hpc => ?_, fun _ => rfl, h.consumer, fun _ => ?_⟩
  · exact absurd (h.idle hpc) hon
  · exact .inl (Epoll.signalled_wakeup hon)

/-- Before the loop looks, somebody else announces what is in the queue. -/
theorem Announced.of_not_looking {s' : RxWorker τ} (h : s.Announced) (hnot : ¬ s.Looking)
    (hfd : s'.eventFd = s.eventFd) (hqueue : s'.queue = s.queue) : s'.Announced := by
  rcases h with hsig | hpub | hlook
  · exact .inl (hfd ▸ hsig)
  · exact .inr (.inl (hqueue ▸ hpub))
  · exact absurd hlook hnot

theorem Inv.loop (h : s.Inv) (hpc : s.pc = .top) :
    Inv { s with pc := if s.running then .waiting else .dequeuing true } := by
  have hconsumer := h.consumer
  rw [ConsumerIdle, hpc] at hconsumer
  refine h.of_loop rfl ?_ id (fun _ => ?_) fun hann => hann.of_not_looking (by simp [Looking, hpc]) rfl rfl
  · split <;> simp
  · unfold ConsumerIdle
    split
    · trivial
    · exact hconsumer

theorem Inv.interrupt (h : s.Inv) (hpc : s.pc = .waiting) : Inv { s with pc := .top } := by
  refine h.of_loop rfl (by simp) id ?_ fun hann => hann.of_not_looking (by simp [Looking, hpc]) rfl rfl
  rw [ConsumerIdle, hpc]
  exact id

theorem Inv.wake (h : s.Inv) (hpc : s.pc = .waiting) : Inv { s with pc := .draining } := by
  refine h.of_loop rfl (by simp) id ?_ fun _ => .inr (.inr trivial)
  rw [ConsumerIdle, hpc]
  exact id

theorem Inv.drain (h : s.Inv) (hpc : s.pc = .draining) : Inv { s with eventFd := some 0 } := by
  refine h.of_loop rfl (by simp [hpc]) (fun hnone => by cases hnone) ?_ fun _ => .inr (.inr ?_)
  · rw [ConsumerIdle, ConsumerIdle, hpc]
    exact id
  · rw [Looking, hpc]
    trivial

theorem Inv.drained (h : s.Inv) (hpc : s.pc = .draining) : Inv { s with pc := .dequeuing false } := by
  have hidle := h.consumer
  rw [ConsumerIdle, hpc] at hidle
  exact h.of_loop rfl (by simp) id (fun _ => trivial) fun _ => .inr (.inr (by simp [Looking, hidle]))

theorem Inv.dequeue {last : Bool} (h : s.Inv) (hpc : s.pc = .dequeuing last)
    (hidle : s.queue.consumer = .idle) : Inv { s with queue := s.queue.setConsumer .loadHead } := by
  refine ⟨h.queue.setConsumer trivial (by simp [hidle]), h.idle, h.off, ?_, fun _ => .inr (.inr ?_)⟩
  · rw [ConsumerIdle, hpc]
    trivial
  · simp [Looking, hpc, SpscQueue.setConsumer]

theorem Inv.consumerStep {last : Bool} {q' : SpscQueue τ} (h : s.Inv) (hpc : s.pc = .dequeuing last)
    (hq : s.queue.dequeueStep = some q') : Inv { s with queue := q' } := by
  obtain ⟨htail, hprod, hnone⟩ := h.queue.dequeueStep_frame hq
  refine ⟨h.queue.dequeueStep hq, h.idle, fun hoff => hprod.trans (h.off hoff), ?_, fun hne => ?_⟩
  · rw [ConsumerIdle, hpc]
    trivial
  · -- as long as the call has not found the queue empty it is still looking
    refine .inr (.inr ?_)
    rw [Looking, hpc]
    exact fun hret => hne (hnone hret)

theorem Inv.got {last : Bool} {item : τ} (h : s.Inv)
    (hret : s.queue.consumer = .returned (some item)) :
    Inv { s with queue := s.queue.setConsumer .idle, pc := .handling last item } :=
  ⟨h.queue.setConsumer trivial (by simp [hret]), by simp, h.off, rfl, fun _ => .inr (.inr trivial)⟩

theorem Inv.empty {last : Bool} (h : s.Inv) (hpc : s.pc = .dequeuing last)
    (hret : s.queue.consumer = .returned none) :
    Inv { s with queue := s.queue.setConsumer .idle, pc := if last then .ended else .top } := by
  refine ⟨h.queue.setConsumer trivial (by simp [hret]), by split <;> simp, h.off, ?_, fun hne => ?_⟩
  · unfold ConsumerIdle
    split
    · trivial
    · rfl
  · rcases h.announced hne with hsig | hpub | hlook
    · exact .inl hsig
    · exact .inr (.inl hpub)
    · rw [Looking, hpc] at hlook
      exact absurd hret hlook

theorem Inv.handle {last : Bool} {item : τ} (h : s.Inv) (hpc : s.pc = .handling last item) :
    Inv { s with pc := .dequeuing last } := by
  have hidle := h.consumer
  rw [ConsumerIdle, hpc] at hidle
  exact h.of_loop rfl (by simp) id (fun _ => trivial) fun _ => .inr (.inr (by simp [Looking, hidle]))

theorem Inv.stopWakeup (h : s.Inv) : Inv { s with eventFd := Epoll.wakeup s.eventFd } := by
  refine ⟨h.queue, fun hpc => ?_, fun hnone => h.off (Epoll.wakeup_eq_none.mp hnone), h.consumer,
    fun hne => ?_⟩
  · exact Epoll.wakeup_eq_none.mpr (h.idle hpc)
  · exact (h.announced hne).imp_left Epoll.signalled_wakeup_of_signalled

theorem Inv.step {a : Act τ} (h : s.Inv) (hok : s.Started a) (hstep : s.step a = some s') :
    s'.Inv := by
  cases moves_of_step hstep with
  | start hpc => exact h.start hpc
  | enqueueRx hout => exact h.enqueueRx hok hout
  | producer hq => exact h.producer hq
  | wakeup hpub => exact h.wakeup hpub
  | loop hpc => exact h.loop hpc
  | interrupt hpc => exact h.interrupt hpc
  | wake hpc => exact h.wake hpc
  | drain hpc => exact h.drain hpc
  | drained hpc => exact h.drained hpc
  | dequeue hpc hidle => exact h.dequeue hpc hidle
  | consumer hpc hq => exact h.consumerStep hpc hq
  | got _ hret => exact h.got hret
  | empty hpc hret => exact h.empty hpc hret
  | handle hpc => exact h.handle hpc
  | stop => exact ⟨h.queue, h.idle, h.off, h.consumer, h.announced⟩
  | stopWakeup => exact h.stopWakeup

end Steps

/-- A worker that sleeps with a zero counter, and whose producer is elsewhere, has
    nothing in its queue. -/
def NoStranded (s : RxWorker τ) : Prop :=
  s.pc = .waiting → s.eventFd = some 0 → s.ProducerOut →
    s.queue.head = s.queue.tail ∧ s.queue.delivered = s.queue.accepted.map some

theorem Inv.noStranded {s : RxWorker τ} (h : s.Inv) : s.NoStranded := by
  intro hpc hzero hout
  have hempty : s.queue.head = s.queue.tail := by
    by_contra hne
    rcases h.announced hne with hsig | hpub | hlook
    · rw [hzero] at hsig
      cases hsig
    · rcases hout with hout | hout <;> rw [hout] at hpub <;> cases hpub
    · rw [Looking, hpc] at hlook
      exact hlook
  refine ⟨hempty, h.queue.delivered.eq_of_length ?_⟩
  rw [List.length_map]
  exact h.queue.delivered_of_empty hempty

theorem inv_of_run {capacity : ℕ} (hpow : ∃ k < 64, capacity = 2 ^ k) {acts : List (Act τ)}
    {s : RxWorker τ} (hok : Along step Started (init τ capacity) acts)
    (hrun : run step (init τ capacity) acts = some s) : s.Inv :=
  run_induct (fun _ _ _ h hc hstep => h.step hc hstep) (inv_init hpow) hok hrun

end RxWorker

end NfEngine
