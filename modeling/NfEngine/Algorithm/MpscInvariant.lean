-- SUMMARY: The invariant of the multi-producer queue and the delivery guarantees it gives.
import NfEngine.Algorithm.MpscQueue
import NfEngine.Lib.Window

/-!
# Delivery of the multi-producer queue

Tickets are the positions of the claim order. The consumer's cursor splits them:
tickets below it have been taken out, and the tickets of the window of length
`capacity` above it occupy pairwise distinct slots. A ticket of the window that
has been claimed is either published in its slot or still in the hands of its
producer; an unclaimed one has a slot that is not ready. Every step keeps this,
because a producer writes only the slot of a ticket it holds and the consumer
only the slot at its cursor.
-/

namespace NfEngine.MpscQueue

open Lib.Transition Lib.Window

variable {τ P : Type}

/-- The next ticket the consumer looks at: its local head inside a call. -/
def cursor (q : MpscQueue τ P) : ℕ :=
  match q.consumer with
  | .loadReady _ head _ | .loadPtr _ head _ | .storeHead _ head _ => head
  | .clearPtr _ head _ _ | .clearReady _ head _ _ => head
  | .idle | .loadHead | .returned _ => q.head

/-- The pointers that the running call of `dequeueAll` has taken. -/
def inFlight (q : MpscQueue τ P) : List (Option τ) :=
  match q.consumer with
  | .loadReady _ _ out | .loadPtr _ _ out | .storeHead _ _ out => out
  | .clearPtr _ _ out ptr | .clearReady _ _ out ptr => out ++ [ptr]
  | .idle | .loadHead | .returned _ => []

/-- The consumer has emptied the slot at its cursor and not yet released it. -/
def Clearing (q : MpscQueue τ P) : Prop := ∃ start head out ptr, q.consumer = .clearReady start head out ptr

/-- The producer has claimed the ticket and not published it. -/
def Holds (q : MpscQueue τ P) (p : P) (item : τ) (t : ℕ) : Prop :=
  q.cursor ≤ t ∧ q.claimed[t]? = some (p, item) ∧ (q.slot t).ready = false

/-- What a producer knows at each program point. -/
def ProducerOk (q : MpscQueue τ P) (p : P) : ProducerPc τ → Prop
  | .loadHead _ t => t ≤ q.tail
  | .casTail _ t => t ≤ q.tail ∧ t < q.head + q.capacity
  | .storePtr item t => q.Holds p item t
  | .storeReady item t => q.Holds p item t ∧ (q.slot t).ptr = some item
  | .idle | .loadTail _ | .returned _ => True

/-- What the consumer knows at each program point: how far it has delivered. -/
def ConsumerOk (q : MpscQueue τ P) : ConsumerPc τ → Prop
  | .idle | .loadHead | .returned _ => q.delivered.length = q.head
  | .loadReady start head _ | .storeHead start head _ =>
    start = q.head ∧ q.delivered.length = head
  | .loadPtr start head _ =>
    start = q.head ∧ q.delivered.length = head ∧ (q.slot head).ready = true
  | .clearPtr start head _ _ | .clearReady start head _ _ =>
    start = q.head ∧ q.delivered.length = head + 1 ∧ (q.slot head).ready = true

/-- A ready slot of the window holds the item of its ticket, except while the
    consumer clears it. -/
def Published (q : MpscQueue τ P) (t : ℕ) : Prop :=
  (q.slot t).ready = true → ∃ p item, q.claimed[t]? = some (p, item) ∧
    ((q.slot t).ptr = some item ∨ (t = q.cursor ∧ q.Clearing))

/-- A claimed ticket whose slot is not ready is with its producer. -/
def Held (q : MpscQueue τ P) (t : ℕ) : Prop :=
  ∀ p item, q.claimed[t]? = some (p, item) → (q.slot t).ready = false →
    q.producers p = .storePtr item t ∨ q.producers p = .storeReady item t

structure Inv (q : MpscQueue τ P) : Prop where
  pow : ∃ k, q.capacity = 2 ^ k
  tail_eq : q.tail = q.claimed.length
  head_le : q.head ≤ q.cursor
  tail_le : q.tail ≤ q.head + q.capacity
  prefix_claimed : q.delivered <+: q.claimed.map fun c => some c.2
  flight : q.batches.flatten ++ q.inFlight = q.delivered
  batches_length : q.batches.flatten.length = q.head
  batch_le : ∀ b ∈ q.batches, b.length ≤ q.capacity
  consumer : q.ConsumerOk q.consumer
  producer : ∀ p, q.ProducerOk p (q.producers p)
  published : ∀ t, q.cursor ≤ t → t < q.cursor + q.capacity → q.Published t
  held : ∀ t, q.cursor ≤ t → q.Held t
  nodup : q.accepted.Nodup
  accepted : ∀ t ∈ q.accepted, t < q.claimed.length ∧ (q.cursor ≤ t → (q.slot t).ready = true)

theorem inv_init {capacity : ℕ} (hpow : ∃ k, capacity = 2 ^ k) : (init τ P capacity).Inv where
  pow := hpow
  tail_eq := rfl
  head_le := Nat.le_refl _
  tail_le := Nat.zero_le _
  prefix_claimed := List.nil_prefix
  flight := rfl
  batches_length := rfl
  batch_le b h := by simp [init] at h
  consumer := rfl
  producer _ := trivial
  published t _ _ := by simp [Published, init, slot]
  held t _ := by simp [Held, init]
  nodup := List.nodup_nil
  accepted t h := by simp [init] at h

/-! ## Derived facts -/

/-- The subtraction of `enqueue`, on counters that are in order. -/
theorem sizeSub_of_le {a b : ℕ} (ha : a < sizeMod) (h : b ≤ a) : sizeSub a b = a - b := by
  unfold sizeSub
  rw [show a + sizeMod - b = a - b + sizeMod by omega, Nat.add_mod_right]
  exact Nat.mod_eq_of_lt (by omega)

theorem lt_of_sizeSub_lt {a b c : ℕ} (ha : a < sizeMod) (h : sizeSub a b < c) : a < b + c := by
  by_cases hab : b ≤ a
  · rw [sizeSub_of_le ha hab] at h
    omega
  · omega

namespace Inv

variable {q : MpscQueue τ P}

theorem index_eq (h : q.Inv) (t : ℕ) : q.index t = t % q.capacity := and_mask h.pow t

theorem capacity_pos (h : q.Inv) : 0 < q.capacity := by
  obtain ⟨k, hk⟩ := h.pow
  rw [hk]
  exact Nat.two_pow_pos k

theorem delivered_le (h : q.Inv) : q.delivered.length ≤ q.claimed.length := by
  simpa using h.prefix_claimed.length_le

/-- The consumer never runs past the claimed tickets. -/
theorem cursor_le (h : q.Inv) : q.cursor ≤ q.tail := by
  have hc := h.consumer
  have hd := h.delivered_le
  rw [h.tail_eq]
  unfold cursor
  cases hpc : q.consumer <;> simp only [hpc, ConsumerOk] at hc ⊢ <;> omega

/-- A claimed ticket that is still pending lies in the window. -/
theorem lt_window (h : q.Inv) {t : ℕ} {c : P × τ} (hc : q.claimed[t]? = some c) :
    t < q.cursor + q.capacity := by
  have hlt : t < q.claimed.length := (List.getElem?_eq_some_iff.mp hc).1
  have := h.tail_eq
  have := h.tail_le
  have := h.head_le
  omega

/-- Two pending tickets of the window have different slots. -/
theorem index_ne (h : q.Inv) {t u : ℕ} (hct : q.cursor ≤ t) (ht : t < q.cursor + q.capacity)
    (hcu : q.cursor ≤ u) (hu : u < q.cursor + q.capacity) (hne : t ≠ u) : q.index t ≠ q.index u := by
  rw [h.index_eq, h.index_eq]
  exact fun heq => hne (eq_of_mod_eq hct ht hcu hu heq)

/-- The slot of a ticket that nobody has claimed is free. -/
theorem slot_free (h : q.Inv) {t : ℕ} (hlen : q.claimed.length ≤ t) (hct : q.cursor ≤ t)
    (ht : t < q.cursor + q.capacity) : (q.slot t).ready = false := by
  cases hr : (q.slot t).ready with
  | false => rfl
  | true =>
    obtain ⟨p, item, hc, _⟩ := h.published t hct ht hr
    rw [List.getElem?_eq_none hlen] at hc
    cases hc

/-- A call never holds more than `capacity` items. -/
theorem inFlight_le (h : q.Inv) : q.inFlight.length ≤ q.capacity := by
  have hsum : q.batches.flatten.length + q.inFlight.length = q.delivered.length := by
    rw [← h.flight, List.length_append]
  have := h.batches_length
  have := h.delivered_le
  have := h.tail_eq
  have := h.tail_le
  omega

/-- Deliveries reach at least to the cursor, and past it while its slot is cleared. -/
theorem cursor_le_delivered (h : q.Inv) :
    q.cursor ≤ q.delivered.length ∧ (q.Clearing → q.cursor < q.delivered.length) := by
  have hok := h.consumer
  refine ⟨?_, ?_⟩
  · unfold cursor
    cases hpc : q.consumer <;> simp only [hpc, ConsumerOk] at hok ⊢ <;> omega
  · rintro ⟨start, head, out, ptr, hpc⟩
    simp only [hpc, ConsumerOk] at hok
    simp only [cursor, hpc]
    omega

/-- A claimed ticket below the deliveries has been delivered with its own item. -/
theorem delivered_getElem (h : q.Inv) {t : ℕ} {p : P} {item : τ}
    (hc : q.claimed[t]? = some (p, item)) (ht : t < q.delivered.length) :
    q.delivered[t]? = some (some item) := by
  obtain ⟨rest, hrest⟩ := h.prefix_claimed
  have hmap : (q.claimed.map fun c => some c.2)[t]? = some (some item) := by
    rw [List.getElem?_map, hc]
    rfl
  rwa [← hrest, List.getElem?_append_left ht] at hmap

/-- A ready slot of a ticket that has not been delivered holds that ticket's item. -/
theorem slot_eq (h : q.Inv) {t : ℕ} {p : P} {item : τ} (hc : q.claimed[t]? = some (p, item))
    (ht : q.delivered.length ≤ t) (hr : (q.slot t).ready = true) : q.slot t = ⟨true, some item⟩ := by
  have hcur := h.cursor_le_delivered
  obtain ⟨p', item', hc', hptr⟩ := h.published t (hcur.1.trans ht) (h.lt_window hc) hr
  obtain ⟨rfl, rfl⟩ : p' = p ∧ item' = item := by simpa [hc] using hc'.symm
  have hptr : (q.slot t).ptr = some item' := by
    refine hptr.resolve_right ?_
    rintro ⟨rfl, hclear⟩
    exact absurd (hcur.2 hclear) (Nat.not_lt.mpr ht)
  cases hs : q.slot t with
  | mk ready ptr => simp_all

/-- The fullness test is right when the head has not overtaken the loaded tail:
    the loaded tail is then the current one. -/
theorem isFull_of_le (h : q.Inv) {t : ℕ} (hcount : q.claimed.length < sizeMod)
    (ht : t ≤ q.tail) (hhead : q.head ≤ t) (hfull : q.capacity ≤ sizeSub t q.head) :
    q.isFull = true := by
  have hlen := h.tail_eq
  have hle := h.tail_le
  rw [sizeSub_of_le (by omega) hhead] at hfull
  simp only [isFull, beq_iff_eq]
  rw [sizeSub_of_le (by omega) (by omega)]
  omega

end Inv

/-- What a producer knows survives a step that leaves its own ticket alone and
    does not move a counter back. -/
theorem ProducerOk.transfer {q q' : MpscQueue τ P} {p : P} {pc : ProducerPc τ}
    (h : q.ProducerOk p pc) (htail : q.tail ≤ q'.tail) (hhead : q.head ≤ q'.head)
    (hcap : q'.capacity = q.capacity)
    (hholds : ∀ item t, pc = .storePtr item t ∨ pc = .storeReady item t → q.Holds p item t →
      q'.Holds p item t ∧ (q'.slot t).ptr = (q.slot t).ptr) :
    q'.ProducerOk p pc := by
  cases pc with
  | idle => trivial
  | loadTail item => trivial
  | returned ok => trivial
  | loadHead item t =>
    simp only [ProducerOk] at h ⊢
    omega
  | casTail item t =>
    simp only [ProducerOk, hcap] at h ⊢
    omega
  | storePtr item t => exact (hholds item t (.inl rfl) h).1
  | storeReady item t =>
    obtain ⟨hheld, hptr⟩ := h
    have hkeep := hholds item t (.inr rfl) hheld
    exact ⟨hkeep.1, hkeep.2.trans hptr⟩

/-- What the consumer knows survives a step of a producer that does not unpublish
    a slot. -/
theorem ConsumerOk.transfer {q q' : MpscQueue τ P} {pc : ConsumerPc τ} (h : q.ConsumerOk pc)
    (hhead : q'.head = q.head) (hdel : q'.delivered = q.delivered)
    (hready : ∀ t, (q.slot t).ready = true → (q'.slot t).ready = true) : q'.ConsumerOk pc := by
  cases pc <;> simp only [ConsumerOk, hhead, hdel] at h ⊢
  case loadPtr start head out => exact ⟨h.1, h.2.1, hready head h.2.2⟩
  case clearPtr start head out ptr => exact ⟨h.1, h.2.1, hready head h.2.2⟩
  case clearReady start head out ptr => exact ⟨h.1, h.2.1, hready head h.2.2⟩
  all_goals exact h

theorem slot_setSlot (q : MpscQueue τ P) (t u : ℕ) (s : Slot τ) :
    (q.setSlot t s).slot u = if q.index u = q.index t then s else q.slot u :=
  Function.update_apply q.buffer (q.index t) s (q.index u)

theorem slot_setSlot_self (q : MpscQueue τ P) (t : ℕ) (s : Slot τ) : (q.setSlot t s).slot t = s := by
  simp [slot_setSlot]

/-- Writing a pointer moves no ready flag. -/
theorem slot_setSlot_ready (q : MpscQueue τ P) (t : ℕ) (x : Option τ) (u : ℕ) :
    ((q.setSlot t { q.slot t with ptr := x }).slot u).ready = (q.slot u).ready := by
  rw [slot_setSlot]
  split
  next heq => simp only [slot, heq]
  next => rfl

/-- Writing the slot of one ticket of the window leaves the other tickets of the
    window alone. -/
theorem Inv.slot_setSlot_ne {q : MpscQueue τ P} (h : q.Inv) {t u : ℕ} (s : Slot τ)
    (hct : q.cursor ≤ t) (ht : t < q.cursor + q.capacity)
    (hcu : q.cursor ≤ u) (hu : u < q.cursor + q.capacity) (hne : u ≠ t) :
    (q.setSlot t s).slot u = q.slot u := by
  rw [slot_setSlot, if_neg (h.index_ne hcu hu hct ht hne)]

/-- Tickets of two producers differ. -/
theorem Holds.ne {q : MpscQueue τ P} {t u : ℕ} {item item' : τ} {p p' : P} (h : q.Holds p item t)
    (h' : q.Holds p' item' u) (hp : p' ≠ p) : u ≠ t := by
  rintro rfl
  have hsame := h.2.1.symm.trans h'.2.1
  simp only [Option.some.injEq, Prod.mk.injEq] at hsame
  exact hp hsame.1.symm

/-- A held ticket is not that of a ready slot. -/
theorem Holds.ne_of_ready {q : MpscQueue τ P} {t u : ℕ} {item : τ} {p : P} (h : q.Holds p item t)
    (hready : (q.slot u).ready = true) : t ≠ u := by
  rintro rfl
  rw [h.2.2] at hready
  cases hready

/-- No part of the invariant reads the observations. -/
theorem Inv.setSawFull {q : MpscQueue τ P} (h : q.Inv) (f : P → Bool) : { q with sawFull := f }.Inv :=
  { h with
    consumer := h.consumer.transfer rfl rfl fun _ hr => hr
    producer := fun p => (h.producer p).transfer (Nat.le_refl _) (Nat.le_refl _) rfl
      fun _ _ _ hh => ⟨hh, rfl⟩ }

/-! ## Steps of a producer -/

section Producer

variable [DecidableEq P] {q : MpscQueue τ P} {p : P}

/-- What the producers know after a step of one of them: no producer knows where
    another stands. -/
theorem producerOk_setProducer {pc : ProducerPc τ} (hown : q.ProducerOk p pc)
    (hother : ∀ p', p' ≠ p → q.ProducerOk p' (q.producers p')) (p' : P) :
    (q.setProducer p pc).ProducerOk p' ((q.setProducer p pc).producers p') := by
  have hsame : ∀ {pc'}, q.ProducerOk p' pc' → (q.setProducer p pc).ProducerOk p' pc' :=
    fun h => h.transfer (Nat.le_refl _) (Nat.le_refl _) rfl fun _ _ _ hh => ⟨hh, rfl⟩
  by_cases hp : p' = p
  · subst hp
    simpa [MpscQueue.setProducer] using hsame hown
  · simpa [MpscQueue.setProducer, hp] using hsame (hother p' hp)

/-- A producer that holds no ticket before or after its step touches nothing
    that another thread relies on. -/
theorem Inv.setProducer (h : q.Inv) {pc : ProducerPc τ}
    (hfree : ∀ item t, q.producers p ≠ .storePtr item t ∧ q.producers p ≠ .storeReady item t)
    (hok : q.ProducerOk p pc) : (q.setProducer p pc).Inv :=
  { h with
    producer := producerOk_setProducer hok fun p' _ => h.producer p'
    held := by
      intro t ht p' item hc hr
      have hheld := h.held t ht p' item hc hr
      by_cases hp : p' = p
      · subst hp
        rcases hheld with hpc | hpc
        · exact absurd hpc (hfree item t).1
        · exact absurd hpc (hfree item t).2
      · simpa [MpscQueue.setProducer, hp] using hheld }

/-- A successful compare-exchange: the ticket is the next one, its slot is free,
    and it now belongs to the producer. -/
theorem Inv.claim (h : q.Inv) {item : τ} {t : ℕ} (hpc : q.producers p = .casTail item t)
    (htail : q.tail = t) (hcount : q.claimed.length + 1 < sizeMod) :
    ({ q with
      tail := (t + 1) % sizeMod
      claimed := q.claimed ++ [(p, item)] }.setProducer p (.storePtr item t)).Inv := by
  have hcas := h.producer p
  simp only [hpc, ProducerOk] at hcas
  have hlen : q.claimed.length = t := h.tail_eq.symm.trans htail
  have hcur : q.cursor ≤ t := htail ▸ h.cursor_le
  have hwin : t < q.cursor + q.capacity := by
    have := h.head_le
    omega
  have hwrap : (t + 1) % sizeMod = t + 1 := Nat.mod_eq_of_lt (by omega)
  have hfree : (q.slot t).ready = false := h.slot_free hlen.le hcur hwin
  have hgrow : ∀ {u : ℕ} {c : P × τ}, q.claimed[u]? = some c → (q.claimed ++ [(p, item)])[u]? = some c := by
    intro u c hc
    rw [List.getElem?_append_left (List.getElem?_eq_some_iff.mp hc).1]
    exact hc
  have hnew : (q.claimed ++ [(p, item)])[t]? = some (p, item) := by
    rw [← hlen]
    simp
  exact
    { pow := h.pow
      tail_eq := by simp [MpscQueue.setProducer, hwrap, hlen]
      head_le := h.head_le
      tail_le := by simp only [MpscQueue.setProducer, hwrap]; omega
      prefix_claimed := by
        simp only [MpscQueue.setProducer, List.map_append]
        exact h.prefix_claimed.trans (List.prefix_append _ _)
      flight := h.flight
      batches_length := h.batches_length
      batch_le := h.batch_le
      nodup := h.nodup
      consumer := h.consumer.transfer rfl rfl fun _ hr => hr
      producer := by
        refine producerOk_setProducer ⟨hcur, hnew, hfree⟩ fun p' _ => ?_
        refine (h.producer p').transfer ?_ (Nat.le_refl _) rfl ?_
        · simp only [hwrap]
          omega
        · rintro item' t' _ ⟨hct, hclaim, hr⟩
          exact ⟨⟨hct, hgrow hclaim, hr⟩, rfl⟩
      published := by
        intro u hcu hu hr
        obtain ⟨p', item', hc, hptr⟩ := h.published u hcu hu hr
        exact ⟨p', item', hgrow hc, hptr⟩
      held := by
        intro u hcu p' item' hc hr
        by_cases hu : u < q.claimed.length
        · simp only [MpscQueue.setProducer, List.getElem?_append_left hu] at hc
          have hheld := h.held u hcu p' item' hc hr
          have hp : p' ≠ p := by
            rintro rfl
            rw [hpc] at hheld
            rcases hheld with hheld | hheld <;> cases hheld
          simpa [MpscQueue.setProducer, hp] using hheld
        · -- the only new ticket is the one just claimed
          have hut : u = t := by
            have hlt := (List.getElem?_eq_some_iff.mp hc).1
            simp only [MpscQueue.setProducer, List.length_append, List.length_singleton] at hlt
            omega
          subst hut
          simp only [MpscQueue.setProducer, hnew, Option.some.injEq, Prod.mk.injEq] at hc
          obtain ⟨rfl, rfl⟩ := hc
          exact .inl (by simp [MpscQueue.setProducer])
      accepted := by
        intro u hu
        obtain ⟨hlt, hr⟩ := h.accepted u hu
        refine ⟨?_, hr⟩
        simp only [MpscQueue.setProducer, List.length_append]
        omega }

/-- The producer writes its item into the slot of the ticket it holds. -/
theorem Inv.storePtr (h : q.Inv) {item : τ} {t : ℕ} (hpc : q.producers p = .storePtr item t) :
    ((q.setSlot t { q.slot t with ptr := some item }).setProducer p (.storeReady item t)).Inv := by
  have hholds := h.producer p
  simp only [hpc, ProducerOk] at hholds
  obtain ⟨hct, hclaim, hfree⟩ := id hholds
  have hwin := h.lt_window hclaim
  have hready := q.slot_setSlot_ready t (some item)
  exact
    { h with
      consumer := h.consumer.transfer rfl rfl fun u hr => (hready u).trans hr
      producer := by
        refine producerOk_setProducer ⟨⟨hct, hclaim, (hready t).trans hfree⟩, ?_⟩ fun p' hp => ?_
        · exact congrArg Slot.ptr (q.slot_setSlot_self t _)
        · refine (h.producer p').transfer (Nat.le_refl _) (Nat.le_refl _) rfl ?_
          intro item' u _ hu
          have hslot := h.slot_setSlot_ne { q.slot t with ptr := some item } hct hwin hu.1
            (h.lt_window hu.2.1) (hholds.ne hu hp)
          exact ⟨⟨hu.1, hu.2.1, (hready u).trans hu.2.2⟩, congrArg Slot.ptr hslot⟩
      published := by
        intro u hcu hu hr
        have hr' : (q.slot u).ready = true := (hready u).symm.trans hr
        obtain ⟨p', item', hc, hptr⟩ := h.published u hcu hu hr'
        have hne : u ≠ t := (hholds.ne_of_ready hr').symm
        have hslot := h.slot_setSlot_ne { q.slot t with ptr := some item } hct hwin hcu hu hne
        exact ⟨p', item', hc, hptr.imp_left (congrArg Slot.ptr hslot).trans⟩
      held := by
        intro u hcu p' item' hc hr
        have hheld := h.held u hcu p' item' hc ((hready u).symm.trans hr)
        by_cases hp : p' = p
        · subst hp
          rw [hpc] at hheld
          have heq : ProducerPc.storePtr item t = .storePtr item' u :=
            hheld.resolve_right fun hbad => by cases hbad
          cases heq
          exact .inr (by simp [MpscQueue.setProducer])
        · simpa [MpscQueue.setProducer, setSlot, hp] using hheld
      accepted := by
        intro u hu
        obtain ⟨hlt, hr⟩ := h.accepted u hu
        exact ⟨hlt, fun hcu => (hready u).trans (hr hcu)⟩ }

/-- The producer publishes the slot: the call returns `true`, and the ticket is
    in the queue. -/
theorem Inv.storeReady (h : q.Inv) {item : τ} {t : ℕ} (hpc : q.producers p = .storeReady item t) :
    ({ q.setSlot t { q.slot t with ready := true } with
      accepted := q.accepted ++ [t] }.setProducer p (.returned true)).Inv := by
  have hholds := h.producer p
  simp only [hpc, ProducerOk] at hholds
  obtain ⟨⟨hct, hclaim, hfree⟩, hptr⟩ := id hholds
  have hwin := h.lt_window hclaim
  have hself := q.slot_setSlot_self t { q.slot t with ready := true }
  have hkeep : ∀ u, (q.slot u).ready = true →
      ((q.setSlot t { q.slot t with ready := true }).slot u).ready = true := by
    intro u hr
    rw [slot_setSlot]
    split
    · rfl
    · exact hr
  exact
    { h with
      consumer := h.consumer.transfer rfl rfl hkeep
      producer := by
        refine producerOk_setProducer trivial fun p' hp => ?_
        refine (h.producer p').transfer (Nat.le_refl _) (Nat.le_refl _) rfl ?_
        intro item' u _ hu
        have hslot := h.slot_setSlot_ne { q.slot t with ready := true } hct hwin hu.1
          (h.lt_window hu.2.1) (hholds.1.ne hu hp)
        exact ⟨⟨hu.1, hu.2.1, (congrArg Slot.ready hslot).trans hu.2.2⟩, congrArg Slot.ptr hslot⟩
      published := by
        intro u hcu hu hr
        by_cases hut : u = t
        · subst hut
          exact ⟨p, item, hclaim, .inl ((congrArg Slot.ptr hself).trans hptr)⟩
        · have hslot := h.slot_setSlot_ne { q.slot t with ready := true } hct hwin hcu hu hut
          obtain ⟨p', item', hc, hp'⟩ :=
            h.published u hcu hu ((congrArg Slot.ready hslot).symm.trans hr)
          exact ⟨p', item', hc, hp'.imp_left (congrArg Slot.ptr hslot).trans⟩
      held := by
        intro u hcu p' item' hc hr
        have hut : u ≠ t := by
          rintro rfl
          have hr' := (congrArg Slot.ready hself).symm.trans hr
          cases hr'
        have hslot := h.slot_setSlot_ne { q.slot t with ready := true } hct hwin hcu
          (h.lt_window hc) hut
        have hheld := h.held u hcu p' item' hc ((congrArg Slot.ready hslot).symm.trans hr)
        have hp : p' ≠ p := by
          rintro rfl
          rw [hpc] at hheld
          rcases hheld with hbad | hbad <;> cases hbad
          exact hut rfl
        simpa [MpscQueue.setProducer, setSlot, hp] using hheld
      nodup := by
        refine List.nodup_append.mpr ⟨h.nodup, by simp, ?_⟩
        rintro u hu _ hut rfl
        rw [List.mem_singleton.mp hut] at hu
        rw [(h.accepted t hu).2 hct] at hfree
        cases hfree
      accepted := by
        intro u hu
        simp only [MpscQueue.setProducer, List.mem_append, List.mem_singleton] at hu
        rcases hu with hu | rfl
        · obtain ⟨hlt, hr⟩ := h.accepted u hu
          exact ⟨hlt, fun hcu => hkeep u (hr hcu)⟩
        · exact ⟨(List.getElem?_eq_some_iff.mp hclaim).1, fun _ => congrArg Slot.ready hself⟩ }

end Producer

/-! ## Steps of the consumer -/

section Consumer

variable {q : MpscQueue τ P}

theorem not_clearing_of_ne (h : ∀ start head out ptr, q.consumer ≠ .clearReady start head out ptr) :
    ¬ q.Clearing := by
  rintro ⟨start, head, out, ptr, hpc⟩
  exact h start head out ptr hpc

/-- A step of the consumer that moves neither its cursor nor a slot; it may record
    a delivery and publish its head. -/
theorem Inv.setConsumer (h : q.Inv) {n : ℕ} {out : List (Option τ)} {bs : List (List (Option τ))}
    {pc : ConsumerPc τ} (hclear : ¬ q.Clearing)
    (hcur : ({ q with head := n, delivered := out, batches := bs }.setConsumer pc).cursor = q.cursor)
    (hhead : q.head ≤ n) (hn : n ≤ q.cursor) (hout : out <+: q.claimed.map fun c => some c.2)
    (hflight : bs.flatten ++
      ({ q with head := n, delivered := out, batches := bs }.setConsumer pc).inFlight = out)
    (hlen : bs.flatten.length = n) (hbs : ∀ b ∈ bs, b.length ≤ q.capacity)
    (hok : { q with head := n, delivered := out, batches := bs }.ConsumerOk pc) :
    ({ q with head := n, delivered := out, batches := bs }.setConsumer pc).Inv :=
  { pow := h.pow
    tail_eq := h.tail_eq
    head_le := hn.trans_eq hcur.symm
    tail_le := h.tail_le.trans (Nat.add_le_add_right hhead _)
    prefix_claimed := hout
    flight := hflight
    batches_length := hlen
    batch_le := hbs
    nodup := h.nodup
    consumer := hok.transfer rfl rfl fun _ hr => hr
    producer := by
      intro p
      refine (h.producer p).transfer (Nat.le_refl _) hhead rfl ?_
      intro item t _ hh
      exact ⟨⟨hcur.trans_le hh.1, hh.2⟩, rfl⟩
    published := by
      intro t hct ht hr
      rw [hcur] at hct ht
      obtain ⟨p, item, hc, hptr⟩ := h.published t hct ht hr
      exact ⟨p, item, hc, .inl (hptr.resolve_right fun hbad => hclear hbad.2)⟩
    held := fun t hct => h.held t (hcur.symm.trans_le hct)
    accepted := by
      intro t ht
      obtain ⟨hlt, hr⟩ := h.accepted t ht
      exact ⟨hlt, fun hct => hr (hcur.symm.trans_le hct)⟩ }

/-- The consumer takes the pointer at its cursor: it is the item of the next
    ticket of the claim order. -/
theorem Inv.loadPtr (h : q.Inv) {start head : ℕ} {out : List (Option τ)}
    (hpc : q.consumer = .loadPtr start head out) :
    ({ q with delivered := q.delivered ++ [(q.slot head).ptr] }.setConsumer
      (.clearPtr start head out (q.slot head).ptr)).Inv := by
  have hok := h.consumer
  have hflight := h.flight
  simp only [hpc, ConsumerOk, inFlight] at hok hflight
  obtain ⟨hstart, hlen, hready⟩ := hok
  have hcur : q.cursor = head := by simp only [cursor, hpc]
  have hclear : ¬ q.Clearing := not_clearing_of_ne (by simp [hpc])
  have hpos := h.capacity_pos
  obtain ⟨p, item, hclaim, hptr⟩ := h.published head hcur.le (by omega) hready
  have hptr : (q.slot head).ptr = some item := hptr.resolve_right fun hbad => hclear hbad.2
  refine h.setConsumer hclear hcur.symm (Nat.le_refl _) h.head_le ?_ ?_ h.batches_length h.batch_le
    ⟨hstart, ?_, hready⟩
  · refine prefix_concat h.prefix_claimed ?_
    rw [hlen, List.getElem?_map, hclaim, hptr]
    rfl
  · simp only [MpscQueue.setConsumer, inFlight]
    rw [← List.append_assoc, hflight]
  · simp only [List.length_append, List.length_singleton, hlen]

/-- The batch ends: the consumer publishes its head and returns what it took. -/
theorem Inv.storeHead (h : q.Inv) {start head : ℕ} {out : List (Option τ)}
    (hpc : q.consumer = .storeHead start head out) :
    ({ q with head := head, batches := q.batches ++ [out] }.setConsumer (.returned out)).Inv := by
  have hok := h.consumer
  have hflight := h.flight
  simp only [hpc, ConsumerOk, inFlight] at hok hflight
  obtain ⟨hstart, hlen⟩ := hok
  have hcur : q.cursor = head := by simp only [cursor, hpc]
  have hclear : ¬ q.Clearing := not_clearing_of_ne (by simp [hpc])
  have hle := h.head_le
  have hsum : q.batches.flatten.length + out.length = q.delivered.length := by
    rw [← hflight, List.length_append]
  have hflatten : (q.batches ++ [out]).flatten = q.delivered := by simpa using hflight
  refine h.setConsumer hclear hcur.symm (by omega) (by omega) h.prefix_claimed ?_ ?_ ?_ hlen
  · simpa [MpscQueue.setConsumer, inFlight] using hflight
  · rw [hflatten, hlen]
  · intro b hb
    simp only [List.mem_append, List.mem_singleton] at hb
    rcases hb with hb | rfl
    · exact h.batch_le b hb
    · have := h.tail_le
      have := h.cursor_le
      have := h.batches_length
      omega

/-- The consumer empties the slot at its cursor. No producer holds that ticket,
    since the slot is ready. -/
theorem Inv.clearPtr (h : q.Inv) {start head : ℕ} {out : List (Option τ)} {ptr : Option τ}
    (hpc : q.consumer = .clearPtr start head out ptr) :
    ((q.setSlot head { q.slot head with ptr := none }).setConsumer
      (.clearReady start head out ptr)).Inv := by
  have hok := h.consumer
  have hflight := h.flight
  simp only [hpc, ConsumerOk, inFlight] at hok hflight
  obtain ⟨hstart, hlen, hready⟩ := hok
  have hcur : q.cursor = head := by simp only [cursor, hpc]
  have hclear : ¬ q.Clearing := not_clearing_of_ne (by simp [hpc])
  have hwin : head < q.cursor + q.capacity := by
    have := h.capacity_pos
    omega
  have hkeep := q.slot_setSlot_ready head none
  exact
    { pow := h.pow
      tail_eq := h.tail_eq
      head_le := h.head_le.trans_eq hcur
      tail_le := h.tail_le
      prefix_claimed := h.prefix_claimed
      flight := hflight
      batches_length := h.batches_length
      batch_le := h.batch_le
      nodup := h.nodup
      consumer := ⟨hstart, hlen, (hkeep head).trans hready⟩
      producer := by
        intro p
        refine (h.producer p).transfer (Nat.le_refl _) (Nat.le_refl _) rfl ?_
        intro item t _ hholds
        obtain ⟨hct, hclaim, hfree⟩ := id hholds
        have hslot := h.slot_setSlot_ne { q.slot head with ptr := none } hcur.le hwin hct
          (h.lt_window hclaim) (hholds.ne_of_ready hready)
        exact ⟨⟨hcur.symm.trans_le hct, hclaim, (hkeep t).trans hfree⟩, congrArg Slot.ptr hslot⟩
      published := by
        intro t hct ht hr
        have hct : q.cursor ≤ t := hcur.trans_le hct
        have ht : t < q.cursor + q.capacity := hcur ▸ ht
        obtain ⟨p, item, hc, hptr⟩ := h.published t hct ht ((hkeep t).symm.trans hr)
        refine ⟨p, item, hc, ?_⟩
        by_cases hne : t = head
        · exact .inr ⟨hne, start, head, out, ptr, rfl⟩
        · have hslot := h.slot_setSlot_ne { q.slot head with ptr := none } hcur.le hwin hct ht hne
          exact .inl ((congrArg Slot.ptr hslot).trans
            (hptr.resolve_right fun hbad => hclear hbad.2))
      held := by
        intro t hct p item hc hr
        exact h.held t (hcur.trans_le hct) p item hc ((hkeep t).symm.trans hr)
      accepted := by
        intro t ht
        obtain ⟨hlt, hr⟩ := h.accepted t ht
        exact ⟨hlt, fun hct => (hkeep t).trans (hr (hcur.trans_le hct))⟩ }

/-- The consumer releases the slot and moves its cursor on. The slot now stands
    for the ticket one lap later, which nobody has claimed. -/
theorem Inv.clearReady (h : q.Inv) {start head : ℕ} {out : List (Option τ)} {ptr : Option τ}
    (hpc : q.consumer = .clearReady start head out ptr) (hcount : q.claimed.length < sizeMod) :
    ((q.setSlot head { q.slot head with ready := false }).setConsumer
      (.loadReady start ((head + 1) % sizeMod) (out ++ [ptr]))).Inv := by
  have hok := h.consumer
  have hflight := h.flight
  simp only [hpc, ConsumerOk, inFlight] at hok hflight
  obtain ⟨hstart, hlen, hready⟩ := hok
  have hcur : q.cursor = head := by simp only [cursor, hpc]
  have hle := h.head_le
  have hdel := h.delivered_le
  have hpos := h.capacity_pos
  have hwin : head < q.cursor + q.capacity := by omega
  rw [Nat.mod_eq_of_lt (show head + 1 < sizeMod by omega)]
  have hslot : ∀ u, head + 1 ≤ u → u < q.cursor + q.capacity →
      (q.setSlot head { q.slot head with ready := false }).slot u = q.slot u := by
    intro u hcu hu
    exact h.slot_setSlot_ne _ hcur.le hwin (by omega) hu (by omega)
  exact
    { pow := h.pow
      tail_eq := h.tail_eq
      head_le := show q.head ≤ head + 1 by omega
      tail_le := h.tail_le
      prefix_claimed := h.prefix_claimed
      flight := hflight
      batches_length := h.batches_length
      batch_le := h.batch_le
      nodup := h.nodup
      consumer := ⟨hstart, hlen⟩
      producer := by
        intro p
        refine (h.producer p).transfer (Nat.le_refl _) (Nat.le_refl _) rfl ?_
        intro item t _ hholds
        obtain ⟨hct, hclaim, hfree⟩ := id hholds
        have hne := hholds.ne_of_ready hready
        have hct : head + 1 ≤ t := by omega
        have heq := hslot t hct (h.lt_window hclaim)
        exact ⟨⟨hct, hclaim, (congrArg Slot.ready heq).trans hfree⟩, congrArg Slot.ptr heq⟩
      published := by
        intro t hct ht hr
        have hct : head + 1 ≤ t := hct
        have ht : t < head + 1 + q.capacity := ht
        by_cases hlap : t = head + q.capacity
        · -- the released slot again, one lap later
          have hidx : q.index t = q.index head := by
            rw [h.index_eq, h.index_eq, hlap, Nat.add_mod_right]
          have hr' := (congrArg Slot.ready (q.slot_setSlot head t _)).symm.trans hr
          rw [if_pos hidx] at hr'
          cases hr'
        · have heq := hslot t hct (by omega)
          obtain ⟨p, item, hc, hptr⟩ :=
            h.published t (by omega) (by omega) ((congrArg Slot.ready heq).symm.trans hr)
          refine ⟨p, item, hc, .inl ((congrArg Slot.ptr heq).trans (hptr.resolve_right ?_))⟩
          rintro ⟨hbad, _⟩
          omega
      held := by
        intro t hct p item hc hr
        have hct : head + 1 ≤ t := hct
        have heq := hslot t hct (h.lt_window hc)
        exact h.held t (by omega) p item hc ((congrArg Slot.ready heq).symm.trans hr)
      accepted := by
        intro t ht
        obtain ⟨hlt, hr⟩ := h.accepted t ht
        refine ⟨hlt, fun hct => ?_⟩
        have hct : head + 1 ≤ t := hct
        have heq := hslot t hct (h.lt_window (List.getElem?_eq_getElem hlt))
        exact (congrArg Slot.ready heq).trans (hr (by omega)) }

/-- Entering `dequeueAll`, and reading the published head, take nothing. -/
theorem Inv.startBatch (h : q.Inv) {pc : ConsumerPc τ}
    (hpc : q.consumer = .idle ∨ q.consumer = .loadHead ∨ ∃ out, q.consumer = .returned out)
    (hcur : (q.setConsumer pc).cursor = q.head) (hflight : (q.setConsumer pc).inFlight = [])
    (hok : q.delivered.length = q.head → q.ConsumerOk pc) : (q.setConsumer pc).Inv := by
  have hstart : q.cursor = q.head ∧ q.inFlight = [] ∧ q.delivered.length = q.head := by
    have hcon := h.consumer
    rcases hpc with hpc | hpc | ⟨out, hpc⟩ <;> simp only [hpc, ConsumerOk] at hcon <;>
      simp only [cursor, inFlight, hpc, hcon, and_self]
  have hclear : ¬ q.Clearing := by
    apply not_clearing_of_ne
    rcases hpc with hpc | hpc | ⟨out, hpc⟩ <;> simp [hpc]
  refine h.setConsumer hclear (hcur.trans hstart.1.symm) (Nat.le_refl _) h.head_le h.prefix_claimed
    ?_ h.batches_length h.batch_le (hok hstart.2.2)
  have hsame := h.flight
  rw [hstart.2.1] at hsame
  exact (congrArg _ hflight).trans hsame

end Consumer

end NfEngine.MpscQueue
