-- SUMMARY: What the multi-producer queue guarantees over whole runs: delivery, order, bounds, and when `enqueue` may report a full queue.
import Mathlib.Data.List.Forall2
import NfEngine.Algorithm.MpscInvariant

/-!
# Guarantees of the multi-producer queue

The step lemmas of the invariant give it for every run with fewer than `2 ^ 64`
claims. `Observed` logs beside the queue what its callers see: the compare-exchanges
that succeed and the calls that return, with their answers. Two results follow: the
item of every call that has returned true is delivered once, in the order of the
compare-exchanges, or still in its slot; and `enqueue` reports a full queue truthfully
as long as no producer subtracts a head that has overtaken the tail it loaded.
-/

namespace NfEngine.MpscQueue

open Lib.Transition

variable {τ P : Type} [DecidableEq P] {q q' : MpscQueue τ P}

/-! ## The invariant along a run -/

/-- The item whose compare-exchange succeeds in a step of a producer. -/
def exchanged : ProducerPc τ → ProducerPc τ → List τ
  | .casTail item _, .storePtr _ _ => [item]
  | _, _ => []

/-- What a step of a producer adds to a log of the producers. -/
def logged {β : Type} (f : ProducerPc τ → ProducerPc τ → List β) (q q' : MpscQueue τ P) :
    Act τ P → List (P × β)
  | .producer p _ => (f (q.producers p) (q'.producers p)).map (Prod.mk p)
  | _ => []

/-- The history of claims is the log of the compare-exchanges. -/
theorem claimed_of_step {a : Act τ P} (hstep : q.step a = some q') :
    q'.claimed = q.claimed ++ logged exchanged q q' a := by
  obtain ⟨r, hr, rfl⟩ := Option.map_eq_some_iff.mp hstep
  cases a with
  | enqueue p item =>
    simp only [callStep] at hr
    split at hr <;> cases hr <;> exact (List.append_nil _).symm
  | producer p spurious =>
    cases enqueues_of_step hr with
    | loadTail hpc | full hpc | room hpc | claim hpc | retry hpc | storePtr hpc | storeReady hpc =>
      simp [logged, hpc, exchanged, observe, setProducer, setSlot]
  | dequeueAll =>
    simp only [callStep] at hr
    split at hr <;> cases hr <;> exact (List.append_nil _).symm
  | consumer => cases dequeues_of_step hr <;> exact (List.append_nil _).symm

/-- The claim order only grows. -/
theorem claimed_le_of_step {a : Act τ P} (hstep : q.step a = some q') :
    q.claimed.length ≤ q'.claimed.length := by
  rw [claimed_of_step hstep, List.length_append]
  exact Nat.le_add_right _ _

theorem Inv.enqueueStep (h : q.Inv) {p : P} {spurious : Bool}
    (hstep : q.enqueueStep p spurious = some q') (hcount : q'.claimed.length < sizeMod) :
    q'.Inv := by
  have hok := h.producer p
  cases enqueues_of_step hstep with
  | loadTail hpc => exact h.setProducer (by simp [hpc]) (Nat.le_refl _)
  | full hpc => exact h.setProducer (by simp [hpc]) trivial
  | room hpc hroom =>
    rw [hpc] at hok
    have hlt : _ < sizeMod := hok.trans_lt (h.tail_eq.trans_lt hcount)
    exact h.setProducer (by simp [hpc]) ⟨hok, lt_of_sizeSub_lt hlt (Nat.lt_of_not_le hroom)⟩
  | claim hpc htail =>
    refine h.claim hpc htail ?_
    simpa [MpscQueue.setProducer] using hcount
  | retry hpc => exact h.setProducer (by simp [hpc]) trivial
  | storePtr hpc => exact h.storePtr hpc
  | storeReady hpc => exact h.storeReady hpc

omit [DecidableEq P] in
theorem Inv.dequeueStep (h : q.Inv) (hstep : q.dequeueStep = some q')
    (hcount : q.claimed.length < sizeMod) : q'.Inv := by
  have hok := h.consumer
  have hflight := h.flight
  cases dequeues_of_step hstep with
  | loadHead hpc => exact h.startBatch (.inr (.inl hpc)) rfl rfl fun hlen => ⟨rfl, hlen⟩
  | @ready start head out hpc hready =>
    simp only [hpc, ConsumerOk, inFlight] at hok hflight
    have hcur : q.cursor = head := by simp only [cursor, hpc]
    exact h.setConsumer (not_clearing_of_ne (by simp [hpc])) hcur.symm (Nat.le_refl _) h.head_le
      h.prefix_claimed hflight h.batches_length h.batch_le ⟨hok.1, hok.2, hready⟩
  | @unready start head out hpc _ =>
    simp only [hpc, ConsumerOk, inFlight] at hok hflight
    have hcur : q.cursor = head := by simp only [cursor, hpc]
    exact h.setConsumer (not_clearing_of_ne (by simp [hpc])) hcur.symm (Nat.le_refl _) h.head_le
      h.prefix_claimed hflight h.batches_length h.batch_le hok
  | loadPtr hpc => exact h.loadPtr hpc
  | clearPtr hpc => exact h.clearPtr hpc
  | clearReady hpc => exact h.clearReady hpc hcount
  | storeHead hpc => exact h.storeHead hpc
  | @keepHead start head out hpc heq =>
    have hret := h.storeHead hpc
    rw [hpc] at hok
    have hhead : head = q.head := heq.trans hok.1
    rwa [hhead] at hret

/-- One step of any thread. -/
theorem Inv.step (h : q.Inv) {a : Act τ P} (hstep : q.step a = some q')
    (hcount : q'.claimed.length < sizeMod) : q'.Inv := by
  have hle := claimed_le_of_step hstep
  simp only [MpscQueue.step, Option.map_eq_some_iff] at hstep
  obtain ⟨r, hr, rfl⟩ := hstep
  apply Inv.setSawFull
  have hcount : r.claimed.length < sizeMod := hcount
  cases a with
  | enqueue p item =>
    simp only [callStep] at hr
    split at hr
    next hpc =>
      cases hr
      have hcall : (q.setProducer p (.loadTail item)).Inv := h.setProducer (by simp [hpc]) trivial
      exact hcall.setSawFull _
    next ok hpc =>
      cases hr
      have hcall : (q.setProducer p (.loadTail item)).Inv := h.setProducer (by simp [hpc]) trivial
      exact hcall.setSawFull _
    next => cases hr
  | producer p spurious => exact h.enqueueStep hr hcount
  | dequeueAll =>
    simp only [callStep] at hr
    split at hr
    next hpc =>
      cases hr
      exact h.startBatch (.inl hpc) rfl rfl id
    next out hpc =>
      cases hr
      exact h.startBatch (.inr (.inr ⟨out, hpc⟩)) rfl rfl id
    next => cases hr
  | consumer => exact h.dequeueStep hr (lt_of_le_of_lt hle hcount)

/-! ## The loop of `dequeueAll` ends -/

/-- A bound on the accesses the running call of `dequeueAll` has still to make:
    four for each item it may still take. -/
def remaining (q : MpscQueue τ P) : ℕ :=
  match q.consumer with
  | .idle | .returned _ => 0
  | .loadHead => 4 * q.capacity + 3
  | .loadReady _ _ out => 4 * (q.capacity - out.length) + 2
  | .loadPtr _ _ out => 4 * (q.capacity - out.length) + 1
  | .clearPtr _ _ out _ => 4 * (q.capacity - out.length)
  | .clearReady _ _ out _ => 4 * (q.capacity - out.length) - 1
  | .storeHead _ _ _ => 1

omit [DecidableEq P] in
/-- Every access of the consumer brings its call closer to the end. -/
theorem Inv.remaining_dequeueStep (h : q.Inv) (hstep : q.dequeueStep = some q') :
    q'.remaining < q.remaining := by
  have hle := h.inFlight_le
  cases dequeues_of_step hstep with
  | loadHead hpc | ready hpc | unready hpc | loadPtr hpc | storeHead hpc | keepHead hpc =>
    simp [remaining, hpc, MpscQueue.setConsumer]
  | clearPtr hpc =>
    simp only [hpc, inFlight, List.length_append, List.length_singleton] at hle
    simp only [remaining, hpc, MpscQueue.setConsumer, setSlot]
    omega
  | clearReady hpc =>
    simp only [hpc, inFlight, List.length_append, List.length_singleton] at hle
    simp only [remaining, hpc, MpscQueue.setConsumer, setSlot, List.length_append,
      List.length_singleton]
    omega

/-- The accesses of the producers do not lengthen a call of `dequeueAll`. -/
theorem remaining_enqueueStep {p : P} {spurious : Bool}
    (hstep : q.enqueueStep p spurious = some q') : q'.remaining = q.remaining := by
  cases enqueues_of_step hstep <;> rfl

/-! ## Delivery -/

omit [DecidableEq P] in
/-- A ticket that has been published has been delivered or is in its slot. -/
theorem Inv.kept (h : q.Inv) {t : ℕ} (ht : t ∈ q.accepted) {p : P} {item : τ}
    (hc : q.claimed[t]? = some (p, item)) :
    q.delivered[t]? = some (some item) ∨ q.slot t = ⟨true, some item⟩ := by
  by_cases hd : t < q.delivered.length
  · exact .inl (h.delivered_getElem hc hd)
  · have hd := Nat.not_lt.mp hd
    exact .inr (h.slot_eq hc hd ((h.accepted t ht).2 (h.cursor_le_delivered.1.trans hd)))

omit [DecidableEq P] in
theorem Inv.pending (h : q.Inv) {t : ℕ} {p : P} {item : τ} (hc : q.claimed[t]? = some (p, item)) :
    q.delivered[t]? = some (some item) ∨ q.slot t = ⟨true, some item⟩ ∨
      q.producers p = .storePtr item t ∨ q.producers p = .storeReady item t := by
  by_cases hd : t < q.delivered.length
  · exact .inl (h.delivered_getElem hc hd)
  · have hd := Nat.not_lt.mp hd
    cases hr : (q.slot t).ready with
    | true => exact .inr (.inl (h.slot_eq hc hd hr))
    | false => exact .inr (.inr (h.held t (h.cursor_le_delivered.1.trans hd) p item hc hr))

/-! ## Calls that have returned -/

/-- The call of `enqueue` that ends in a step of a producer. -/
def ended : ProducerPc τ → ProducerPc τ → List (τ × Bool)
  | .loadTail item, .returned ok | .loadHead item _, .returned ok | .casTail item _, .returned ok
  | .storePtr item _, .returned ok | .storeReady item _, .returned ok => [(item, ok)]
  | _, _ => []

/-- The call of `dequeueAll` that ends in a step of the consumer. -/
def answered : ConsumerPc τ → ConsumerPc τ → List (List (Option τ))
  | .idle, _ | .returned _, _ => []
  | _, .returned out => [out]
  | _, _ => []

theorem answered_self (pc : ConsumerPc τ) : answered pc pc = [] := by cases pc <;> rfl

/-- The history of batches is the log of the answers of `dequeueAll`. -/
theorem batches_of_step {a : Act τ P} (hstep : q.step a = some q') :
    q'.batches = q.batches ++ answered q.consumer q'.consumer := by
  obtain ⟨r, hr, rfl⟩ := Option.map_eq_some_iff.mp hstep
  have hcons : answered q.consumer q.consumer = [] := answered_self _
  cases a with
  | enqueue p item =>
    simp only [callStep] at hr
    split at hr <;> cases hr <;> simp [observe, setProducer, hcons]
  | producer p spurious =>
    cases enqueues_of_step hr <;> simp [observe, setProducer, setSlot, hcons]
  | dequeueAll =>
    simp only [callStep] at hr
    split at hr <;> cases hr <;> simp [observe, setConsumer, answered, *]
  | consumer =>
    cases dequeues_of_step hr with
    | loadHead hpc | ready hpc | unready hpc | loadPtr hpc | clearPtr hpc | clearReady hpc
    | storeHead hpc | keepHead hpc => simp [hpc, answered, observe, setConsumer, setSlot]

/-- A call of `enqueue` returns true as it publishes its ticket, and publishes no other. -/
theorem accepted_of_step (h : q.Inv) {a : Act τ P} (hstep : q.step a = some q') :
    (q'.accepted = q.accepted ∧ (logged ended q q' a).filter (·.2.2) = []) ∨
      ∃ t p item, q'.accepted = q.accepted ++ [t] ∧ q.claimed[t]? = some (p, item) ∧
        logged ended q q' a = [(p, item, true)] := by
  obtain ⟨r, hr, rfl⟩ := Option.map_eq_some_iff.mp hstep
  cases a with
  | enqueue p item =>
    simp only [callStep] at hr
    split at hr <;> cases hr <;> exact .inl ⟨rfl, rfl⟩
  | producer p spurious =>
    have hok := h.producer p
    cases enqueues_of_step hr with
    | loadTail hpc | full hpc | room hpc | claim hpc | retry hpc | storePtr hpc =>
      refine .inl ⟨rfl, ?_⟩
      simp [logged, hpc, ended, observe, setProducer, setSlot]
    | @storeReady item tail hpc =>
      rw [hpc] at hok
      refine .inr ⟨tail, p, item, rfl, hok.1.2.1, ?_⟩
      simp [logged, hpc, ended, observe, setProducer]
  | dequeueAll =>
    simp only [callStep] at hr
    split at hr <;> cases hr <;> exact .inl ⟨rfl, rfl⟩
  | consumer => cases dequeues_of_step hr <;> exact .inl ⟨rfl, rfl⟩

/-- The queue and what its callers see of it: the compare-exchanges on `m_tail` that have
    succeeded, the calls of `enqueue` that have returned, with their items and answers, and the
    items that each call of `dequeueAll` has returned. -/
structure Observed (τ P : Type) where
  queue : MpscQueue τ P
  exchanges : List (P × τ)
  enqueued : List (P × τ × Bool)
  dequeued : List (List (Option τ))

namespace Observed

def init (τ P : Type) (capacity : ℕ) : Observed τ P := ⟨.init τ P capacity, [], [], []⟩

def step (s : Observed τ P) (a : Act τ P) : Option (Observed τ P) :=
  (s.queue.step a).map fun q =>
    ⟨q, s.exchanges ++ logged exchanged s.queue q a, s.enqueued ++ logged ended s.queue q a,
      s.dequeued ++ answered s.queue.consumer q.consumer⟩

/-- The calls of `enqueue` that have returned true. -/
def accepted (s : Observed τ P) : List (P × τ) := (s.enqueued.filter (·.2.2)).map fun c => (c.1, c.2.1)

/-- The items that the calls of `dequeueAll` have returned, and those that the running call has
    taken. -/
def delivered (s : Observed τ P) : List (Option τ) := s.dequeued.flatten ++ s.queue.inFlight

/-- The logs agree with the history of the queue. -/
structure Inv (s : Observed τ P) : Prop where
  queue : s.queue.Inv
  exchanges : s.queue.claimed = s.exchanges
  dequeued : s.queue.batches = s.dequeued
  accepted : List.Forall₂ (fun call t => s.queue.claimed[t]? = some call) s.accepted s.queue.accepted

omit [DecidableEq P] in
theorem inv_init {capacity : ℕ} (hpow : ∃ k, capacity = 2 ^ k) : (init τ P capacity).Inv where
  queue := MpscQueue.inv_init hpow
  exchanges := rfl
  dequeued := rfl
  accepted := .nil

variable {s s' : Observed τ P}

theorem Inv.step (h : s.Inv) {a : Act τ P} (hstep : s.step a = some s')
    (hcount : s'.exchanges.length < sizeMod) : s'.Inv := by
  obtain ⟨q, hq, rfl⟩ := Option.map_eq_some_iff.mp hstep
  have hclaimed := claimed_of_step hq
  have hexchanges : q.claimed = s.exchanges ++ logged exchanged s.queue q a := by
    rw [hclaimed, h.exchanges]
  refine ⟨h.queue.step hq (by rw [hexchanges]; exact hcount), hexchanges, ?_, ?_⟩
  · exact (batches_of_step hq).trans (congrArg (· ++ _) h.dequeued)
  · -- the tickets granted before keep their places in the order of the exchanges
    have hold : List.Forall₂ (fun call t => q.claimed[t]? = some call) s.accepted s.queue.accepted := by
      refine h.accepted.imp fun call t ht => ?_
      rw [hclaimed, List.getElem?_append_left (List.getElem?_eq_some_iff.mp ht).1]
      exact ht
    rcases accepted_of_step h.queue hq with ⟨hsame, hnone⟩ | ⟨t, p, item, hnew, hticket, hlog⟩
    · simpa [Observed.accepted, hsame, hnone] using hold
    · have hnext : q.claimed[t]? = some (p, item) := by
        rw [hclaimed, List.getElem?_append_left (List.getElem?_eq_some_iff.mp hticket).1]
        exact hticket
      simpa [Observed.accepted, hnew, hlog] using List.rel_append hold (.cons hnext .nil)

/-- The log of the exchanges only grows. -/
theorem exchanges_le_of_step {a : Act τ P} (hstep : s.step a = some s') :
    s.exchanges.length ≤ s'.exchanges.length := by
  obtain ⟨q, hq, rfl⟩ := Option.map_eq_some_iff.mp hstep
  simp

theorem inv_of_run {capacity : ℕ} (hpow : ∃ k, capacity = 2 ^ k) {acts : List (Act τ P)}
    (hrun : run step (init τ P capacity) acts = some s) (hcount : s.exchanges.length < sizeMod) :
    s.Inv := by
  refine run_induct (I := fun s => s.exchanges.length < sizeMod → s.Inv) ?_
    (fun _ => inv_init hpow) (along_true _ acts) hrun hcount
  intro s a s' hs _ hstep hcount'
  exact (hs (lt_of_le_of_lt (exchanges_le_of_step hstep) hcount')).step hstep hcount'

/-! ## The guarantees -/

/-- The call of `enqueue` holds this place in the order of the compare-exchanges, and its item
    has been delivered from there or is in the slot of it. -/
def Keeps (s : Observed τ P) (call : P × τ) (t : ℕ) : Prop :=
  s.exchanges[t]? = some call ∧
    (s.delivered[t]? = some (some call.2) ∨ s.queue.slot t = ⟨true, some call.2⟩)

/-- What holds in every state of the queue. -/
structure Safe (s : Observed τ P) : Prop where
  /-- The counters stay in order and at most one lap apart. -/
  counters : s.queue.head ≤ s.queue.tail ∧ s.queue.tail ≤ s.queue.head + s.queue.capacity
  /-- Items come out in the order of their compare-exchange, each exchange once. -/
  inOrder : s.delivered <+: s.exchanges.map fun c => some c.2
  /-- The calls that have returned true have exchanges of their own, and nothing of them is
      lost. -/
  kept : ∃ places : List ℕ, places.Nodup ∧ List.Forall₂ s.Keeps s.accepted places
  /-- An exchanged item has been delivered, is in its slot or is with its producer. -/
  pending : ∀ t p item, s.exchanges[t]? = some (p, item) →
    s.delivered[t]? = some (some item) ∨ s.queue.slot t = ⟨true, some item⟩ ∨
      s.queue.producers p = .storePtr item t ∨ s.queue.producers p = .storeReady item t
  /-- A call of `dequeueAll` takes at most `capacity` items. -/
  batch : (∀ b ∈ s.dequeued, b.length ≤ s.queue.capacity) ∧ s.queue.inFlight.length ≤ s.queue.capacity
  /-- Its loop ends: a running call can always take its next access, every access uses up a
      finite budget, and no step of another thread refills it. -/
  ends : (s.queue.consumer = .idle ∨ (∃ out, s.queue.consumer = .returned out) ∨
      ∃ s', s.step .consumer = some s') ∧
    (∀ s', s.step .consumer = some s' → s'.queue.remaining < s.queue.remaining) ∧
    ∀ a s', a ≠ .consumer → a ≠ .dequeueAll → s.step a = some s' →
      s'.queue.remaining = s.queue.remaining

omit [DecidableEq P] in
theorem Inv.delivered_eq (h : s.Inv) : s.delivered = s.queue.delivered := by
  rw [delivered, ← h.dequeued, h.queue.flight]

omit [DecidableEq P] in
theorem Inv.kept (h : s.Inv) : List.Forall₂ s.Keeps s.accepted s.queue.accepted := by
  rw [List.forall₂_iff_zip]
  refine ⟨h.accepted.length_eq, fun {call t} hmem => ?_⟩
  have hticket : s.queue.claimed[t]? = some call := (List.forall₂_iff_zip.mp h.accepted).2 hmem
  rw [Keeps, ← h.exchanges, h.delivered_eq]
  exact ⟨hticket, h.queue.kept (List.of_mem_zip hmem).2 hticket⟩

omit [DecidableEq P] in
/-- A running call of `dequeueAll` is never stuck. -/
theorem dequeueStep_of_running (q : MpscQueue τ P) :
    q.consumer = .idle ∨ (∃ out, q.consumer = .returned out) ∨ ∃ q', q.dequeueStep = some q' := by
  unfold MpscQueue.dequeueStep
  cases q.consumer with
  | idle => exact .inl rfl
  | returned out => exact .inr (.inl ⟨out, rfl⟩)
  | loadReady | storeHead =>
    refine .inr (.inr ?_)
    dsimp only
    split <;> exact ⟨_, rfl⟩
  | loadHead | loadPtr | clearPtr | clearReady => exact .inr (.inr ⟨_, rfl⟩)

theorem Inv.ends (h : s.Inv) :
    (s.queue.consumer = .idle ∨ (∃ out, s.queue.consumer = .returned out) ∨
      ∃ s', s.step .consumer = some s') ∧
    (∀ s', s.step .consumer = some s' → s'.queue.remaining < s.queue.remaining) ∧
    ∀ a s', a ≠ .consumer → a ≠ .dequeueAll → s.step a = some s' →
      s'.queue.remaining = s.queue.remaining := by
  refine ⟨?_, ?_, ?_⟩
  · rcases dequeueStep_of_running s.queue with hidle | hreturned | ⟨q, hq⟩
    · exact .inl hidle
    · exact .inr (.inl hreturned)
    · have hqueue : s.queue.step .consumer = some q.observe := by
        rw [MpscQueue.step, callStep, hq, Option.map_some]
      exact .inr (.inr ⟨_, congrArg (Option.map _) hqueue⟩)
  · intro s' hstep
    obtain ⟨_, hqueue, rfl⟩ := Option.map_eq_some_iff.mp hstep
    obtain ⟨q, hq, rfl⟩ := Option.map_eq_some_iff.mp hqueue
    change q.remaining < s.queue.remaining
    exact h.queue.remaining_dequeueStep hq
  · intro a s' hconsumer hdequeue hstep
    obtain ⟨_, hqueue, rfl⟩ := Option.map_eq_some_iff.mp hstep
    obtain ⟨q, hq, rfl⟩ := Option.map_eq_some_iff.mp hqueue
    change q.remaining = s.queue.remaining
    cases a with
    | enqueue p item =>
      simp only [callStep] at hq
      split at hq <;> cases hq <;> rfl
    | producer p spurious => exact remaining_enqueueStep hq
    | dequeueAll => exact absurd rfl hdequeue
    | consumer => exact absurd rfl hconsumer

theorem Inv.safe (h : s.Inv) : s.Safe where
  counters := ⟨h.queue.head_le.trans h.queue.cursor_le, h.queue.tail_le⟩
  inOrder := by
    rw [h.delivered_eq, ← h.exchanges]
    exact h.queue.prefix_claimed
  kept := ⟨s.queue.accepted, h.queue.nodup, h.kept⟩
  pending t p item hc := by
    rw [← h.exchanges] at hc
    rw [h.delivered_eq]
    exact h.queue.pending hc
  batch := ⟨h.dequeued ▸ h.queue.batch_le, h.queue.inFlight_le⟩
  ends := h.ends

/-- Every interleaving of any number of producers with the consumer keeps the guarantees, as
    long as fewer than `2 ^ 64` compare-exchanges have succeeded. -/
theorem safe_of_run {capacity : ℕ} (hpow : ∃ k, capacity = 2 ^ k) {acts : List (Act τ P)}
    (hrun : run step (init τ P capacity) acts = some s) (hcount : s.exchanges.length < sizeMod) :
    s.Safe :=
  (inv_of_run hpow hrun hcount).safe

/-- Two slots and two producers. Both load the same tail; `true` loses the compare-exchange,
    claims the second slot and is the first to publish. The consumer then finds nothing, a third
    item is rejected, and both items come out once the first is published. -/
def contendedActs : List (Act ℕ Bool) :=
  [.enqueue false 1, .enqueue true 2] ++
    List.flatten (List.replicate 3 [.producer false false, .producer true false]) ++
    List.replicate 5 (.producer true false) ++
    [.dequeueAll, .consumer, .consumer, .consumer] ++
    [.enqueue true 3, .producer true false, .producer true false] ++
    List.replicate 2 (.producer false false) ++
    .dequeueAll :: List.replicate 11 .consumer

theorem safe_contended :
    ∃ s, run step (init ℕ Bool 2) contendedActs = some s ∧ s.exchanges = [(false, 1), (true, 2)] ∧
      s.enqueued = [(true, 2, true), (true, 3, false), (false, 1, true)] ∧
      s.dequeued = [[], [some 1, some 2]] ∧ s.Safe := by
  have hexchanges : (run step (init ℕ Bool 2) contendedActs).map exchanges =
      some [(false, 1), (true, 2)] := by
    decide +kernel
  have henqueued : (run step (init ℕ Bool 2) contendedActs).map enqueued =
      some [(true, 2, true), (true, 3, false), (false, 1, true)] := by
    decide +kernel
  have hdequeued : (run step (init ℕ Bool 2) contendedActs).map dequeued =
      some [[], [some 1, some 2]] := by
    decide +kernel
  obtain ⟨s, hrun, hexchanges⟩ := Option.map_eq_some_iff.mp hexchanges
  rw [hrun, Option.map_some, Option.some.injEq] at henqueued hdequeued
  have hcount : s.exchanges.length < sizeMod := by
    rw [hexchanges]
    decide
  exact ⟨s, hrun, hexchanges, henqueued, hdequeued, safe_of_run ⟨1, rfl⟩ hrun hcount⟩

end Observed

/-- The accesses of one successful `enqueue`. -/
def enqueueActs (p : P) (item : τ) : List (Act τ P) :=
  .enqueue p item :: List.replicate 5 (.producer p false)

/-- The accesses of one `dequeueAll` that finds one item. -/
def dequeueOneActs : List (Act τ P) := .dequeueAll :: List.replicate 7 .consumer

/-! ## Reports of a full queue -/

/-- Every call that reported a full queue saw one: at some moment of the call
    `m_tail - m_head` was the capacity. -/
def Truthful (q : MpscQueue τ P) : Prop := ∀ p, q.producers p = .returned false → q.sawFull p = true

/-- A producer that is about to load `m_head` holds a tail that the published
    head has not overtaken. -/
def HeadNotPast (q : MpscQueue τ P) : Act τ P → Prop
  | .producer p _ =>
    match q.producers p with
    | .loadHead _ tail => q.head ≤ tail
    | _ => True
  | _ => True

instance (q : MpscQueue τ P) : DecidablePred q.HeadNotPast
  | .producer p _ =>
    match h : q.producers p with
    | .loadHead _ tail => decidable_of_iff (q.head ≤ tail) (by simp [HeadNotPast, h])
    | .idle | .loadTail _ | .casTail _ _ | .storePtr _ _ | .storeReady _ _ | .returned _ =>
      isTrue (by simp [HeadNotPast, h])
  | .enqueue _ _ | .dequeueAll | .consumer => isTrue trivial

omit [DecidableEq P] in
/-- A step whose threads report nothing new, or that leaves the queue full. -/
theorem Truthful.observe {r : MpscQueue τ P} (h : q.Truthful)
    (hr : ∀ p, r.producers p = .returned false →
      r.isFull = true ∨ (q.producers p = .returned false ∧ r.sawFull p = q.sawFull p)) :
    r.observe.Truthful := by
  intro p hp
  simp only [MpscQueue.observe, Bool.or_eq_true]
  rcases hr p hp with hfull | ⟨hq, hsame⟩
  · exact .inr hfull
  · exact .inl (hsame.trans (h p hq))

theorem Truthful.enqueueStep (h : q.Truthful) (hinv : q.Inv) {p : P} {spurious : Bool}
    (hok : q.HeadNotPast (.producer p spurious)) (hcount : q.claimed.length < sizeMod)
    (hstep : q.enqueueStep p spurious = some q') : q'.observe.Truthful := by
  -- only the load of the head can turn into a report
  have hquiet : ∀ {r : MpscQueue τ P} {pc : ProducerPc τ}, r.producers = q.producers →
      r.sawFull = q.sawFull → pc ≠ .returned false → (r.setProducer p pc).observe.Truthful := by
    intro r pc hprod hsaw hpc
    refine h.observe fun p' hp' => .inr ?_
    by_cases hp : p' = p
    · subst hp
      simp only [setProducer, Function.update_self] at hp'
      exact absurd hp' hpc
    · simp only [setProducer, Function.update_of_ne hp, hprod] at hp'
      exact ⟨hp', congrFun hsaw p'⟩
  have hprod := hinv.producer p
  cases enqueues_of_step hstep with
  | full hpc hfull =>
    simp only [hpc, HeadNotPast, ProducerOk] at hok hprod
    exact h.observe fun _ _ => .inl (hinv.isFull_of_le hcount hprod hok hfull)
  | loadTail | room | claim | retry | storePtr | storeReady => exact hquiet rfl rfl (by simp)

omit [DecidableEq P] in
/-- The consumer reports nothing and observes nothing. -/
theorem dequeueStep_frame (hstep : q.dequeueStep = some q') :
    q'.producers = q.producers ∧ q'.sawFull = q.sawFull := by
  cases dequeues_of_step hstep <;> exact ⟨rfl, rfl⟩

theorem Truthful.step (h : q.Truthful) (hinv : q.Inv) {a : Act τ P} (hok : q.HeadNotPast a)
    (hcount : q.claimed.length < sizeMod) (hstep : q.step a = some q') : q'.Truthful := by
  simp only [MpscQueue.step, Option.map_eq_some_iff] at hstep
  obtain ⟨r, hr, rfl⟩ := hstep
  cases a with
  | enqueue p item =>
    refine h.observe fun p' hp' => .inr ?_
    simp only [callStep] at hr
    have hr : r = { q.setProducer p (.loadTail item) with
        sawFull := Function.update q.sawFull p q.isFull } := by
      split at hr <;> cases hr <;> rfl
    subst hr
    have hp : p' ≠ p := by
      rintro rfl
      simp [setProducer] at hp'
    simpa [setProducer, hp] using hp'
  | producer p spurious => exact h.enqueueStep hinv hok hcount hr
  | dequeueAll =>
    refine h.observe fun p' hp' => .inr ?_
    have hr : r = q.setConsumer .loadHead := by
      simp only [callStep] at hr
      split at hr <;> cases hr <;> rfl
    subst hr
    exact ⟨hp', rfl⟩
  | consumer =>
    obtain ⟨hprod, hsaw⟩ := dequeueStep_frame hr
    exact h.observe fun p' hp' => .inr ⟨hprod ▸ hp', congrFun hsaw p'⟩

/-- `enqueue` reports a full queue truthfully in every run in which no producer
    subtracts a head that has overtaken the tail it loaded. -/
theorem truthful_of_headNotPast {capacity : ℕ} (hpow : ∃ k, capacity = 2 ^ k)
    {acts : List (Act τ P)} (hok : Along step HeadNotPast (init τ P capacity) acts)
    (hrun : run step (init τ P capacity) acts = some q) (hcount : q.claimed.length < sizeMod) :
    q.Truthful := by
  have hinit : (init τ P capacity).Truthful := by
    intro p hp
    cases hp
  refine (run_induct (I := fun q => q.claimed.length < sizeMod → q.Inv ∧ q.Truthful) ?_
    (fun _ => ⟨inv_init hpow, hinit⟩) hok hrun hcount).2
  intro s a s' hs hcond hstep hcount'
  have hlt := lt_of_le_of_lt (claimed_le_of_step hstep) hcount'
  obtain ⟨hinv, htruth⟩ := hs hlt
  exact ⟨hinv.step hstep hcount', htruth.step hinv hcond hlt hstep⟩

/-- Two items fill a queue of two, and a third call asks for a place. -/
def overfillActs : List (Act ℕ Unit) :=
  enqueueActs () 1 ++ enqueueActs () 2 ++ [.enqueue () 3, .producer () false, .producer () false]

theorem truthful_overfill :
    ∃ q, run step (init ℕ Unit 2) overfillActs = some q ∧ q.producers () = .returned false ∧
      q.Truthful :=
  have hrun : run step (init ℕ Unit 2) overfillActs = some _ := rfl
  have hok : Along step HeadNotPast (init ℕ Unit 2) overfillActs := by decide +kernel
  ⟨_, hrun, rfl, truthful_of_headNotPast ⟨1, rfl⟩ hok hrun (by decide)⟩

/-- A producer loads the tail, another item goes through the queue, and the first
    producer then loads the newer head. -/
def overtakenActs : List (Act ℕ Bool) :=
  [.enqueue false 1, .producer false false] ++ enqueueActs true 2 ++ dequeueOneActs ++
    [.producer false false]

/-- `0 - 1` wraps, and a queue of capacity two that never held more than one item
    is reported full. -/
theorem not_truthful_overtaken :
    ∃ q, run step (init ℕ Bool 2) overtakenActs = some q ∧ ¬ q.Truthful := by
  refine ⟨_, rfl, fun h => ?_⟩
  have hsaw := h false rfl
  exact absurd hsaw (by decide +kernel)

end NfEngine.MpscQueue
