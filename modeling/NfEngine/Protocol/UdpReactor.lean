-- SUMMARY: The UDP reactor, which puts packets back on its own transmit queue, and when none of them is left with nobody woken.
import Mathlib.Data.Fintype.Basic
import NfEngine.Protocol.TxReactor

/-!
# Retries of the UDP reactor

The UDP reactor runs the loop of the other reactors. Its `processTxQueue` sends the
packets that `dequeueAll` returns one by one, and `flushPacket` puts a packet that
could not be sent back on the queue, from the consumer's own thread. After `EAGAIN`
it then wakes itself. After `EINTR` it does not, so the packet stays behind unless
the eventfd has been written, or is about to be, for another reason.
-/

namespace NfEngine

open Lib.Transition

/-- What `sendto` answers. -/
inductive SendtoOutcome where
  | sent
  /-- `EAGAIN` or `EWOULDBLOCK`. -/
  | again
  /-- `EINTR`. -/
  | intr
  | failed
  deriving DecidableEq, Repr

/-- Where `processTxQueue` is after `dequeueAll`: the packets still to be sent, and
    whether the call of `enqueue` in `flushPacket` is followed by a wakeup. -/
inductive UdpReactor.Flush (τ : Type) where
  | none
  | sending (rest : List (Option τ))
  | retrying (wakes : Bool) (rest : List (Option τ))

open UdpReactor in
/-- The reactor over the loop that it shares with the others. Its own thread is the
    producer `none` of its queue. -/
structure UdpReactor (τ P : Type) where
  base : TxReactor τ (Option P) Empty
  flush : Flush τ

namespace UdpReactor

variable {τ P : Type} [DecidableEq P]

def init (τ P : Type) (capacity : ℕ) : UdpReactor τ P :=
  ⟨.init τ (Option P) Empty false capacity 0, .none⟩

inductive Act (τ P : Type) where
  /-- A step of the loop up to the end of `dequeueAll`, or of another thread. -/
  | base (a : TxReactor.Act τ (Option P) Empty)
  /-- `dequeueAll` has returned. -/
  | batch
  /-- `sendto` for the next packet. -/
  | send (outcome : SendtoOutcome)
  /-- An access of the `enqueue` in `flushPacket`. -/
  | retry (spurious : Bool)
  /-- The end of `flushPacket` after its `enqueue`. -/
  | retried
  /-- The end of `processTxQueue`. -/
  | done

/-- The steps of the loop in which `processTxQueue` is not past `dequeueAll`, and the
    steps of the other threads. -/
def shared : TxReactor.Act τ (Option P) Empty → Bool
  | .enqueueTx p _ | .producer p _ | .wakeup p => p.isSome
  | .place => false
  | _ => true

omit [DecidableEq P] in
def batch (s : UdpReactor τ P) : Option (UdpReactor τ P) :=
  match s.base.pc, s.base.txQueue.consumer, s.flush with
  | .transmit, .returned out, .none => some ⟨s.base, .sending out⟩
  | _, _, _ => none

/-- `flushPacket` up to its call of `enqueue`. -/
def send (s : UdpReactor τ P) (outcome : SendtoOutcome) : Option (UdpReactor τ P) :=
  match s.flush with
  | .sending (some item :: rest) =>
    match outcome with
    | .sent | .failed => some ⟨s.base, .sending rest⟩
    | .again => (s.base.enqueueTx none item).map (⟨·, .retrying true rest⟩)
    | .intr => (s.base.enqueueTx none item).map (⟨·, .retrying false rest⟩)
  | _ => none

def retry (s : UdpReactor τ P) (spurious : Bool) : Option (UdpReactor τ P) :=
  match s.flush with
  | .retrying wakes rest =>
    (s.base.txQueue.step (.producer none spurious)).map fun q =>
      ⟨{ s.base with txQueue := q }, .retrying wakes rest⟩
  | _ => none

/-- The result of `enqueue` is not looked at. -/
def retried (s : UdpReactor τ P) : Option (UdpReactor τ P) :=
  match s.flush, s.base.txQueue.producers none with
  | .retrying wakes rest, .returned _ =>
    some ⟨{ s.base with
      txQueue := s.base.txQueue.setProducer none .idle,
      eventFd := if wakes then Epoll.wakeup s.base.eventFd else s.base.eventFd }, .sending rest⟩
  | _, _ => none

omit [DecidableEq P] in
def done (s : UdpReactor τ P) : Option (UdpReactor τ P) :=
  match s.flush with
  | .sending [] => s.base.place.map (⟨·, .none⟩)
  | _ => none

def step (s : UdpReactor τ P) : Act τ P → Option (UdpReactor τ P)
  | .base a => if shared a then (s.base.step a).map (⟨·, s.flush⟩) else none
  | .batch => s.batch
  | .send outcome => s.send outcome
  | .retry spurious => s.retry spurious
  | .retried => s.retried
  | .done => s.done

/-- What a step does. -/
inductive Moves (s : UdpReactor τ P) : Act τ P → UdpReactor τ P → Prop
  | shared {a : TxReactor.Act τ (Option P) Empty} {b' : TxReactor τ (Option P) Empty}
    (hshared : shared a = true) (hb : s.base.step a = some b') : Moves s (.base a) ⟨b', s.flush⟩
  | batch {out : List (Option τ)} (hpc : s.base.pc = .transmit) (hflush : s.flush = .none) :
    Moves s .batch ⟨s.base, .sending out⟩
  | dropped {outcome : SendtoOutcome} {item : τ} {rest : List (Option τ)}
    (hflush : s.flush = .sending (some item :: rest)) : Moves s (.send outcome) ⟨s.base, .sending rest⟩
  | putBack {outcome : SendtoOutcome} {item : τ} {wakes : Bool} {rest : List (Option τ)}
    {b' : TxReactor τ (Option P) Empty} (hflush : s.flush = .sending (some item :: rest))
    (hintr : wakes = false → outcome = .intr) (hb : s.base.step (.enqueueTx none item) = some b') :
    Moves s (.send outcome) ⟨b', .retrying wakes rest⟩
  | retry {spurious wakes : Bool} {rest : List (Option τ)} {b' : TxReactor τ (Option P) Empty}
    (hflush : s.flush = .retrying wakes rest) (hb : s.base.step (.producer none spurious) = some b') :
    Moves s (.retry spurious) ⟨b', .retrying wakes rest⟩
  | retried {wakes ok : Bool} {rest : List (Option τ)} (hflush : s.flush = .retrying wakes rest)
    (hret : s.base.txQueue.producers none = .returned ok) :
    Moves s .retried ⟨{ s.base with
      txQueue := s.base.txQueue.setProducer none .idle,
      eventFd := if wakes then Epoll.wakeup s.base.eventFd else s.base.eventFd }, .sending rest⟩
  | done {b' : TxReactor τ (Option P) Empty} (hflush : s.flush = .sending [])
    (hb : s.base.step .place = some b') : Moves s .done ⟨b', .none⟩

theorem moves_send {s s' : UdpReactor τ P} {outcome : SendtoOutcome}
    (hstep : s.send outcome = some s') : Moves s (.send outcome) s' := by
  unfold send at hstep
  split at hstep
  next item rest hflush =>
    cases outcome with
    | sent | failed =>
      cases hstep
      exact .dropped hflush
    | again =>
      obtain ⟨b', hb, rfl⟩ := Option.map_eq_some_iff.mp hstep
      exact .putBack hflush (fun hwakes => by cases hwakes) hb
    | intr =>
      obtain ⟨b', hb, rfl⟩ := Option.map_eq_some_iff.mp hstep
      exact .putBack hflush (fun _ => rfl) hb
  next => cases hstep

theorem moves_of_step {s s' : UdpReactor τ P} {a : Act τ P} (hstep : s.step a = some s') :
    Moves s a s' := by
  cases a with
  | base a =>
    obtain ⟨hshared, hmap⟩ := Option.ite_none_right_eq_some.mp hstep
    obtain ⟨b', hb, rfl⟩ := Option.map_eq_some_iff.mp hmap
    exact .shared hshared hb
  | batch =>
    simp only [step, batch] at hstep
    split at hstep
    next hpc _ hflush =>
      cases hstep
      exact .batch hpc hflush
    next => cases hstep
  | send outcome => exact moves_send hstep
  | retry spurious =>
    simp only [step, retry] at hstep
    split at hstep
    next wakes rest hflush =>
      obtain ⟨q, hq, rfl⟩ := Option.map_eq_some_iff.mp hstep
      exact .retry hflush (by rw [TxReactor.step, hq, Option.map_some])
    next => cases hstep
  | retried =>
    simp only [step, retried] at hstep
    split at hstep
    next hflush hret =>
      cases hstep
      exact .retried hflush hret
    next => cases hstep
  | done =>
    simp only [step, done] at hstep
    split at hstep
    next hflush =>
      obtain ⟨b', hb, rfl⟩ := Option.map_eq_some_iff.mp hstep
      exact .done hflush hb
    next => cases hstep

/-! ## Announcements -/

omit [DecidableEq P] in
/-- The reactor has been woken, or another thread is about to wake it. -/
def Rung (base : TxReactor τ (Option P) Empty) : Prop :=
  Epoll.signalled base.eventFd = true ∨ ∃ p : P, base.txQueue.producers (some p) = .returned true

omit [DecidableEq P] in
/-- A call of `enqueueTx` starts when the reactor has its eventfd, and `sendto` fails
    with `EINTR` only when the reactor has been or is about to be woken. -/
def Covered (s : UdpReactor τ P) : Act τ P → Prop
  | .base a => s.base.Started a
  | .send .intr => Rung s.base
  | _ => True

instance : DecidablePred fun pc : MpscQueue.ProducerPc τ => pc = .returned true
  | .returned true => isTrue rfl
  | .idle | .loadTail _ | .loadHead _ _ | .casTail _ _ | .storePtr _ _ | .storeReady _ _
  | .returned false => isFalse (by simp)

omit [DecidableEq P] in
instance [Fintype P] (s : UdpReactor τ P) : DecidablePred s.Covered
  | .base a => inferInstanceAs (Decidable (s.base.Started a))
  | .send .intr => inferInstanceAs (Decidable (_ ∨ ∃ _ : P, _))
  | .send .sent | .send .again | .send .failed | .batch | .retry _ | .retried | .done => isTrue trivial

structure Inv (s : UdpReactor τ P) : Prop where
  base : s.base.Inv
  active : s.flush ≠ .none → s.base.pc = .transmit
  own : (∀ wakes rest, s.flush ≠ .retrying wakes rest) → s.base.txQueue.producers none = .idle
  rung : ∀ rest, s.flush = .retrying false rest → Rung s.base

omit [DecidableEq P] in
theorem inv_init {capacity : ℕ} (hpow : ∃ k, capacity = 2 ^ k) : (init τ P capacity).Inv where
  base := TxReactor.inv_init hpow false 0
  active hne := absurd rfl hne
  own _ := rfl
  rung rest heq := by cases heq

section Steps

variable {b b' : TxReactor τ (Option P) Empty} {s s' : UdpReactor τ P}

/-- The shared steps, and the end of `processTxQueue`, are not steps of the reactor as a
    producer. -/
theorem producers_none_of_step {a : TxReactor.Act τ (Option P) Empty} (hown : shared a = true ∨ a = .place)
    (hstep : b.step a = some b') : b'.txQueue.producers none = b.txQueue.producers none := by
  cases TxReactor.moves_of_step hstep with
  | dequeue _ hq =>
    obtain ⟨r, hr, rfl⟩ := Option.map_eq_some_iff.mp hq
    exact congrFun (MpscQueue.dequeueStep_frame hr).1 none
  | @enqueueTx p item q hp hq =>
    obtain ⟨sawFull, rfl⟩ := MpscQueue.eq_of_step_enqueue hq
    cases p with
    | none => simp [shared] at hown
    | some p => simp [MpscQueue.setProducer]
  | @producer p spurious q hq =>
    obtain ⟨r, hr, rfl⟩ := Option.map_eq_some_iff.mp hq
    cases p with
    | none => simp [shared] at hown
    | some p => exact (MpscQueue.enqueueStep_front hr).2.1 none (by simp)
  | @wakeup p hp =>
    cases p with
    | none => simp [shared] at hown
    | some p => simp [MpscQueue.setProducer]
  | start | goto | drain | beginTx | place | handover | handoverWakeup | stop | stopWakeup => rfl

/-- While the reactor sends, nobody takes a wakeup away. -/
theorem rung_of_step {a : TxReactor.Act τ (Option P) Empty} (h : b.Inv) (hpc : b.pc = .transmit)
    (hrung : Rung b) (hstep : b.step a = some b') : Rung b' := by
  have hon : b.eventFd ≠ none := h.idle.not.mp (by simp [hpc])
  have hsig := Epoll.signalled_wakeup hon
  cases TxReactor.moves_of_step hstep with
  | start hidle => simp [hpc] at hidle
  | goto hne => exact absurd hpc hne
  | drain hdrain => simp [hpc] at hdrain
  | beginTx hbefore => simp [hpc, TxReactor.Pc.beforeHandover] at hbefore
  | dequeue _ hq =>
    obtain ⟨r, hr, rfl⟩ := Option.map_eq_some_iff.mp hq
    have hprod := (MpscQueue.dequeueStep_frame hr).1
    refine hrung.imp_right ?_
    rintro ⟨p, hp⟩
    exact ⟨p, (congrFun hprod _).trans hp⟩
  | @enqueueTx p' item q hp' hq =>
    obtain ⟨sawFull, rfl⟩ := MpscQueue.eq_of_step_enqueue hq
    refine hrung.imp_right ?_
    rintro ⟨p, hp⟩
    refine ⟨p, ?_⟩
    have hne : some p ≠ p' := by
      rintro rfl
      rcases hp' with hp' | hp' <;> rw [hp'] at hp <;> cases hp
    simpa [MpscQueue.setProducer, hne] using hp
  | @producer p' spurious q hq =>
    obtain ⟨r, hr, rfl⟩ := Option.map_eq_some_iff.mp hq
    obtain ⟨_, hothers, ⟨_, hret⟩, _⟩ := MpscQueue.enqueueStep_front hr
    refine hrung.imp_right ?_
    rintro ⟨p, hp⟩
    refine ⟨p, (hothers (some p) ?_).trans hp⟩
    rintro rfl
    exact hret hp
  | place | handover | stop => exact hrung
  | handoverWakeup | wakeup | stopWakeup => exact .inl hsig

/-- Only `processTxQueue` itself leaves `processTxQueue`. -/
theorem transmit_of_step {a : TxReactor.Act τ (Option P) Empty} (hplace : a ≠ .place)
    (hpc : b.pc = .transmit) (hstep : b.step a = some b') : b'.pc = .transmit := by
  cases TxReactor.moves_of_step hstep with
  | start hidle => simp [hpc] at hidle
  | goto hne => exact absurd hpc hne
  | place => exact absurd rfl hplace
  | beginTx => rfl
  | drain | dequeue | handover | handoverWakeup | enqueueTx | producer | wakeup | stop | stopWakeup =>
    exact hpc

theorem Inv.shared {a : TxReactor.Act τ (Option P) Empty} (h : s.Inv) (hok : s.base.Started a)
    (hshared : UdpReactor.shared a = true) (hstep : s.base.step a = some b')
    (hcount : b'.txQueue.claimed.length < sizeMod) : Inv ⟨b', s.flush⟩ where
  base := h.base.step hok hstep hcount
  active hne := transmit_of_step (by rintro rfl; cases hshared) (h.active hne) hstep
  own hnot := (producers_none_of_step (.inl hshared) hstep).trans (h.own hnot)
  rung rest heq := by
    have hflush : s.flush = .retrying false rest := heq
    exact rung_of_step h.base (h.active (by simp [hflush])) (h.rung rest hflush) hstep

omit [DecidableEq P] in
/-- `processTxQueue` goes on with other packets. -/
theorem Inv.sending {rest : List (Option τ)} (h : s.Inv) (hpc : s.base.pc = .transmit)
    (hnot : ∀ wakes rest, s.flush ≠ .retrying wakes rest) : Inv ⟨s.base, .sending rest⟩ where
  base := h.base
  active _ := hpc
  own _ := h.own hnot
  rung rest heq := by cases heq

/-- A step of the call of `enqueue` in `flushPacket`. -/
theorem Inv.ownCall {a : TxReactor.Act τ (Option P) Empty} {wakes : Bool} {rest : List (Option τ)}
    (h : s.Inv) (hpc : s.base.pc = .transmit) (hplace : a ≠ .place)
    (hrung : wakes = false → Rung s.base) (hstep : s.base.step a = some b')
    (hcount : b'.txQueue.claimed.length < sizeMod) : Inv ⟨b', .retrying wakes rest⟩ := by
  have hon : s.base.eventFd ≠ none := h.base.idle.not.mp (by simp [hpc])
  have hok : s.base.Started a := by
    unfold TxReactor.Started
    split
    · exact Option.isSome_iff_ne_none.mpr hon
    · exact Option.isSome_iff_ne_none.mpr hon
    · trivial
  refine ⟨h.base.step hok hstep hcount, fun _ => transmit_of_step hplace hpc hstep,
    fun hnot => absurd rfl (hnot wakes rest), fun rest' heq => ?_⟩
  cases heq
  exact rung_of_step h.base hpc (hrung rfl) hstep

/-- A producer whose call has returned leaves, when what it published is announced
    without it. -/
theorem Inv.release {p : Option P} {ok : Bool} (h : b.Inv) (hon : b.eventFd ≠ none)
    (hp : b.txQueue.producers p = .returned ok)
    (hann : Epoll.signalled b.eventFd = true ∨
      ∃ p', p' ≠ p ∧ b.txQueue.producers p' = .returned true) :
    TxReactor.Inv { b with txQueue := b.txQueue.setProducer p .idle } := by
  refine h.setTx hon (h.queue.setProducer (by simp [hp]) trivial) rfl fun _ => ?_
  refine hann.imp_right fun ⟨p', hne, hp'⟩ => .inl ⟨p', ?_⟩
  simpa [MpscQueue.setProducer, hne] using hp'

theorem Inv.retried {wakes ok : Bool} {rest : List (Option τ)} (h : s.Inv)
    (hflush : s.flush = .retrying wakes rest) (hret : s.base.txQueue.producers none = .returned ok) :
    Inv ⟨{ s.base with
      txQueue := s.base.txQueue.setProducer none .idle,
      eventFd := if wakes then Epoll.wakeup s.base.eventFd else s.base.eventFd },
      .sending rest⟩ := by
  have hpc : s.base.pc = .transmit := h.active (by simp [hflush])
  have hon : s.base.eventFd ≠ none := h.base.idle.not.mp (by simp [hpc])
  refine ⟨?_, fun _ => hpc, fun _ => by simp [MpscQueue.setProducer], fun _ heq => (by cases heq)⟩
  cases wakes with
  | true =>
    exact Inv.release h.base.stopWakeup (fun hnone => hon (Epoll.wakeup_eq_none.mp hnone)) hret
      (.inl (Epoll.signalled_wakeup hon))
  | false =>
    refine Inv.release h.base hon hret ((h.rung rest hflush).imp_right ?_)
    rintro ⟨p, hp⟩
    exact ⟨some p, by simp, hp⟩

theorem Inv.step {a : Act τ P} (h : s.Inv) (hok : s.Covered a) (hstep : s.step a = some s')
    (hcount : s'.base.txQueue.claimed.length < sizeMod) : s'.Inv := by
  cases moves_of_step hstep with
  | shared hshared hb => exact h.shared hok hshared hb hcount
  | batch hpc hflush => exact h.sending hpc (by simp [hflush])
  | dropped hflush => exact h.sending (h.active (by simp [hflush])) (by simp [hflush])
  | putBack hflush hintr hb =>
    refine h.ownCall (h.active (by simp [hflush])) (by simp) (fun hwakes => ?_) hb hcount
    cases hintr hwakes
    exact hok
  | @retry spurious wakes rest b' hflush hb =>
    refine h.ownCall (h.active (by simp [hflush])) (by simp) (fun hwakes => ?_) hb hcount
    cases hwakes
    exact h.rung rest hflush
  | retried hflush hret => exact h.retried hflush hret
  | done hflush hb =>
    have hok : s.base.Started .place := trivial
    have hidle := h.own (by simp [hflush])
    exact ⟨h.base.step hok hb hcount, fun hne => absurd rfl hne,
      fun _ => (producers_none_of_step (.inr rfl) hb).trans hidle, fun _ heq => (by cases heq)⟩

/-- The claims of the transmit queue only grow. -/
theorem claimed_le_of_step {a : Act τ P} (hstep : s.step a = some s') :
    s.base.txQueue.claimed.length ≤ s'.base.txQueue.claimed.length := by
  cases moves_of_step hstep with
  | shared _ hb => exact TxReactor.claimed_le_of_step hb
  | putBack _ _ hb => exact TxReactor.claimed_le_of_step hb
  | retry _ hb => exact TxReactor.claimed_le_of_step hb
  | done _ hb => exact TxReactor.claimed_le_of_step hb
  | batch | dropped | retried => exact Nat.le_refl _

/-- The invariant holds after every covered run that claims fewer than `2 ^ 64`
    tickets. -/
theorem inv_of_run {capacity : ℕ} (hpow : ∃ k, capacity = 2 ^ k) {acts : List (Act τ P)}
    (hok : Along step Covered (init τ P capacity) acts)
    (hrun : run step (init τ P capacity) acts = some s)
    (hcount : s.base.txQueue.claimed.length < sizeMod) : s.Inv := by
  refine run_induct (I := fun s => s.base.txQueue.claimed.length < sizeMod → s.Inv) ?_
    (fun _ => inv_init hpow) hok hrun hcount
  intro t a t' ht hcovered hstep hlt
  exact (ht (lt_of_le_of_lt (claimed_le_of_step hstep) hlt)).step hcovered hstep hlt

end Steps

/-! ## Stranded packets -/

omit [DecidableEq P] in
/-- When the reactor sleeps with a zero counter and no thread is inside `enqueueTx`, the
    queue is empty. -/
def NoStranded (s : UdpReactor τ P) : Prop :=
  s.base.pc = .waiting → s.base.eventFd = some 0 →
    (∀ p : P, s.base.txQueue.producers (some p) = .idle ∨
      s.base.txQueue.producers (some p) = .returned false) →
    s.base.txQueue.head = s.base.txQueue.tail ∧
      s.base.txQueue.delivered = s.base.txQueue.claimed.map fun c => some c.2

omit [DecidableEq P] in
theorem Inv.noStranded {s : UdpReactor τ P} (h : s.Inv) : s.NoStranded := by
  intro hpc hzero hout
  refine h.base.noStranded.tx hpc hzero fun p => ?_
  cases p with
  | none =>
    refine .inl (h.own fun wakes rest hflush => ?_)
    have hsending := h.active (by simp [hflush])
    simp [hpc] at hsending
  | some p => exact hout p

/-- In every run in which `enqueueTx` is called only once the reactor has its eventfd,
    in which `sendto` fails with `EINTR` only when the reactor has been or is about to be
    woken, and that claims fewer than `2 ^ 64` tickets, no packet is stranded. -/
theorem noStranded_of_covered {capacity : ℕ} {acts : List (Act τ P)} {s : UdpReactor τ P}
    (hpow : ∃ k, capacity = 2 ^ k) (hok : Along step Covered (init τ P capacity) acts)
    (hrun : run step (init τ P capacity) acts = some s)
    (hcount : s.base.txQueue.claimed.length < sizeMod) : s.NoStranded :=
  (inv_of_run hpow hok hrun hcount).noStranded

/-- A packet is queued and announced. -/
def queuedActs (item : ℕ) : List (Act ℕ Unit) :=
  List.flatten [[.base (.enqueueTx (some ()) item)],
    List.replicate 5 (.base (.producer (some ()) false)), [.base (.wakeup (some ()))]]

/-- A pass over the queue up to the first `sendto`, with `count` packets. -/
def passActs (count : ℕ) : List (Act ℕ Unit) :=
  List.flatten [[.base (.wake true), .base .serve, .base .drain, .base .drain],
    List.replicate (4 * count + 3) (.base .dequeue), [.batch]]

/-- `sendto` fails and the packet is put back. -/
def putBackActs (outcome : SendtoOutcome) : List (Act ℕ Unit) :=
  List.flatten [[.send outcome], List.replicate 5 (.retry false), [.retried]]

/-- The end of a pass, after which the reactor sleeps. -/
def sleepActs : List (Act ℕ Unit) := [.done, .base .next, .base .loop]

/-- The socket is not ready at first. The second attempt is interrupted when the next
    packet has been announced, and the third pass sends both. -/
def retriedActs : List (Act ℕ Unit) :=
  List.flatten [[.base .start, .base .loop], queuedActs 7, passActs 1, putBackActs .again, sleepActs,
    passActs 1, queuedActs 8, putBackActs .intr, sleepActs,
    passActs 2, [.send .sent, .send .sent], sleepActs]

theorem noStranded_retried :
    ∃ s, run step (init ℕ Unit 2) retriedActs = some s ∧ s.base.pc = .waiting ∧
      s.base.txQueue.delivered = [some 7, some 7, some 8, some 7] ∧ s.NoStranded := by
  have hend : (run step (init ℕ Unit 2) retriedActs).map (fun s =>
      (s.base.pc, s.base.txQueue.delivered, s.base.txQueue.claimed.length)) =
      some (.waiting, [some 7, some 7, some 8, some 7], 4) := by decide +kernel
  obtain ⟨s, hrun, heq⟩ := Option.map_eq_some_iff.mp hend
  obtain ⟨hpc, hdelivered, hcount⟩ : _ ∧ _ ∧ _ := by simpa using heq
  refine ⟨s, hrun, hpc, hdelivered, ?_⟩
  exact noStranded_of_covered ⟨1, rfl⟩ (by decide +kernel) hrun (by rw [hcount]; decide)

/-- A signal interrupts the only `sendto`. -/
def interruptedActs : List (Act ℕ Unit) :=
  List.flatten [[.base .start, .base .loop], queuedActs 7, passActs 1, putBackActs .intr, sleepActs]

/-- The reactor sleeps with the packet in its queue. -/
theorem interrupted_stranded :
    ∃ s, run step (init ℕ Unit 2) interruptedActs = some s ∧ s.base.pc = .waiting ∧
      s.base.eventFd = some 0 ∧ s.base.txQueue.producers (some ()) = .idle ∧
      s.base.txQueue.claimed.map Prod.snd = [7, 7] ∧ s.base.txQueue.delivered = [some 7] ∧
      ¬ s.NoStranded := by
  refine ⟨_, rfl, rfl, rfl, rfl, rfl, rfl, fun h => ?_⟩
  exact absurd (h rfl rfl fun _ => .inl rfl).1 (by decide)

end UdpReactor

end NfEngine
