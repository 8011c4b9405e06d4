-- SUMMARY: Every response of the server answers a packet of its own, and a shard answers in the order of dispatch.
import Mathlib.Data.List.Forall2
import Mathlib.Data.List.ReduceOption
import NfEngine.Lib.Provenance
import NfEngine.Server.Exchange

/-!
# Responses

A response has gone two ways. At the workers a packet is accepted under a session and its
event is dispatched: every event that a shard gets comes from an accepted packet of its
own (`Intake`). Along a shard everything keeps its order: it takes an event only when the
action of the one before is finished, so that each event it has handled is answered, lost
or in hand (`Shard.Accounted`). Put together, every response answers a packet of its own,
with what the database said when the shard asked it.
-/

namespace NfEngine

open Lib Lib.Transition Lib.Provenance

/-! ## Order along a shard -/

def ShardPc.Built : ShardPc → Prop
  | .idle => True
  | .update action payload _ | .send action payload _ => ∃ serverTs, payload = action.payload serverTs

/-- The actions of a shard that are not finished, oldest first. -/
def Shard.inHand (shard : Shard) : List Action :=
  (shard.pc.work?.map Prod.fst).toList ++ shard.actionQueue

/-- The event has been answered by the packet, or the response was lost. -/
def Handling.Settled (Lost : Handling → Prop) (handling : Handling) : Option Packet → Prop
  | some reply => handling.Responds reply.payload
  | none => Lost handling

theorem Handling.Settled.mono {Lost Lost' : Handling → Prop} {handling : Handling} {outcome : Option Packet}
    (h : handling.Settled Lost outcome) (hlost : Lost handling → Lost' handling) :
    handling.Settled Lost' outcome := by
  cases outcome with
  | some reply => exact h
  | none => exact hlost h

/-- The responses are to some of the events that are settled, in their order. -/
theorem Handling.exists_answered {Lost : Handling → Prop} {settled : List Handling}
    {outcomes : List (Option Packet)} (h : List.Forall₂ (Settled Lost) settled outcomes) :
    ∃ answered, answered.Sublist settled ∧
      List.Forall₂ (fun handling reply => Responds handling reply.payload) answered
        outcomes.reduceOption := by
  induction h with
  | nil => exact ⟨[], .slnil, .nil⟩
  | @cons handling outcome settled outcomes hfirst _ ih =>
    obtain ⟨answered, hsub, hall⟩ := ih
    cases outcome with
    | none => exact ⟨answered, hsub.cons _, hall⟩
    | some reply => exact ⟨handling :: answered, hsub.cons_cons _, .cons hfirst hall⟩

/-- The events dispatched to a shard have been handled or still wait, and of those that have
    been handled all are settled but the one whose action is in hand. -/
structure Shard.Accounted (Lost : Handling → Prop) (shard : Shard) (dispatched : List Event)
    (handled : List Handling) (sent : List Packet) : Prop where
  built : shard.pc.Built
  taken : dispatched = handled.map Handling.event ++ shard.eventQueue
  order : ∃ (settled : List Handling) (current : Option Handling) (outcomes : List (Option Packet)),
    handled = settled ++ current.toList ∧ List.Forall₂ (Handling.Settled Lost) settled outcomes ∧
      outcomes.reduceOption = sent ∧ List.Forall₂ Handling.Commits current.toList shard.inHand

namespace Shard.Accounted

variable {Lost : Handling → Prop} {shard : Shard} {dispatched : List Event} {handled : List Handling}
  {sent : List Packet} {events : List Event} {actions : List Action} {action : Action}
  {payload : List UInt8} {snap : SessionTxSnapshot}

theorem mono {Lost' : Handling → Prop} (h : shard.Accounted Lost dispatched handled sent)
    (hlost : ∀ handling, Lost handling → Lost' handling) :
    shard.Accounted Lost' dispatched handled sent := by
  obtain ⟨settled, current, outcomes, hsplit, hset, hsent, hcur⟩ := h.order
  exact ⟨h.built, h.taken, settled, current, outcomes, hsplit,
    hset.imp fun handling _ hone => hone.mono (hlost handling), hsent, hcur⟩

/-- The action in hand is that of the last event handled. -/
theorem exists_current (h : shard.Accounted Lost dispatched handled sent)
    (hhand : shard.inHand = action :: actions) :
    ∃ handling, handled.getLast? = some handling ∧ handling.Commits action := by
  obtain ⟨settled, current, outcomes, rfl, -, -, hcur⟩ := h.order
  rw [hhand] at hcur
  cases current with
  | none => cases hcur
  | some handling =>
    cases hcur with
    | cons hcommits _ => exact ⟨handling, by simp, hcommits⟩

theorem dispatch (h : shard.Accounted Lost dispatched handled sent) (event : Event) :
    (shard.enqueueEvent event).Accounted Lost (dispatched ++ [event]) handled sent where
  built := h.built
  taken := by rw [h.taken, enqueueEvent, List.append_assoc]
  order := h.order

/-- The handler runs when nothing is in hand. -/
theorem handleEvent {event : Event} {db : AccountDb}
    (h : (⟨event :: events, [], .idle⟩ : Shard).Accounted Lost dispatched handled sent)
    (hlost : event.handleEvent db = none → Lost ⟨event, db⟩) :
    (⟨events, (event.handleEvent db).toList, .idle⟩ : Shard).Accounted Lost dispatched
      (handled ++ [⟨event, db⟩]) sent := by
  obtain ⟨settled, current, outcomes, hsplit, hset, hsent, hcur⟩ := h.order
  have hnone : current = none := by
    cases current with
    | none => rfl
    | some handling => cases hcur
  subst hnone
  rw [Option.toList_none, List.append_nil] at hsplit
  refine ⟨trivial, by rw [h.taken]; simp, ?_⟩
  cases haction : event.handleEvent db with
  | none =>
    refine ⟨handled ++ [⟨event, db⟩], none, outcomes ++ [none], (List.append_nil _).symm, ?_, ?_, .nil⟩
    · exact List.rel_append (hsplit ▸ hset) (.cons (hlost haction) .nil)
    · rw [List.reduceOption_append, hsent]
      exact List.append_nil _
  | some action =>
    exact ⟨settled, some ⟨event, db⟩, outcomes, by rw [hsplit]; rfl, hset, hsent, .cons haction .nil⟩

/-- The action in hand is finished. -/
theorem finish (h : shard.Accounted Lost dispatched handled sent) (hhand : shard.inHand = action :: actions)
    (hevents : shard.eventQueue = events) (outcome : Option Packet)
    (hsettled : ∀ handling ∈ handled, handling.Commits action → handling.Settled Lost outcome) :
    (⟨events, actions, .idle⟩ : Shard).Accounted Lost dispatched handled (sent ++ outcome.toList) := by
  obtain ⟨settled, current, outcomes, rfl, hset, rfl, hcur⟩ := h.order
  rw [hhand] at hcur
  cases current with
  | none => cases hcur
  | some handling =>
    obtain ⟨hcommits, hrest⟩ := List.forall₂_cons.mp hcur
    obtain rfl := List.forall₂_nil_left_iff.mp hrest
    have hone := hsettled handling (by simp) hcommits
    refine ⟨trivial, hevents ▸ h.taken, settled ++ [handling], none, outcomes ++ [outcome],
      (List.append_nil _).symm, List.rel_append hset (.cons hone .nil), ?_, .nil⟩
    rw [List.reduceOption_append]
    cases outcome <;> rfl

/-- The action in hand is given up, and its event stays unanswered. -/
theorem giveUp (h : shard.Accounted Lost dispatched handled sent) (hhand : shard.inHand = action :: actions)
    (hevents : shard.eventQueue = events)
    (hlost : ∀ handling ∈ handled, handling.Commits action → Lost handling) :
    (⟨events, actions, .idle⟩ : Shard).Accounted Lost dispatched handled sent := by
  have hnone := h.finish hhand hevents none hlost
  rwa [Option.toList_none, List.append_nil] at hnone

theorem snapshot (h : (⟨events, action :: actions, .idle⟩ : Shard).Accounted Lost dispatched handled sent)
    (serverTs : UInt64) (snap : SessionTxSnapshot) :
    (⟨events, actions, .update action (action.payload serverTs) snap⟩ : Shard).Accounted Lost dispatched
      handled sent := ⟨⟨serverTs, rfl⟩, h.taken, h.order⟩

theorem update
    (h : (⟨events, actions, .update action payload snap⟩ : Shard).Accounted Lost dispatched handled sent) :
    (⟨events, actions, .send action payload snap⟩ : Shard).Accounted Lost dispatched handled sent :=
  ⟨h.built, h.taken, h.order⟩

theorem send {packet : Packet}
    (h : (⟨events, actions, .send action payload snap⟩ : Shard).Accounted Lost dispatched handled sent)
    (hpacket : packet.payload = payload) :
    (⟨events, actions, .idle⟩ : Shard).Accounted Lost dispatched handled (sent ++ [packet]) := by
  obtain ⟨serverTs, hpayload⟩ := h.built
  exact h.finish rfl rfl (some packet) fun _ _ hcommits =>
    ⟨action, serverTs, hcommits, hpacket.trans hpayload⟩

end Shard.Accounted

namespace Server

variable {cfg : ServerConfig}

namespace Exchange

variable {e e' : Exchange cfg} {a : Act cfg}

/-- The ways in which a shard loses the response to an event. -/
inductive Loses (e : Exchange cfg) : Act cfg → Handling → Prop where
  /-- The handler commits no action. -/
  | unanswered {k : Fin cfg.shardCount} {event : Event} {events : List Event} {db : AccountDb}
      (hk : e.server.shards k = ⟨event :: events, [], .idle⟩) (hnone : event.handleEvent db = none) :
      Loses e (.handleEvent k db) ⟨event, db⟩
  /-- The session of the action is gone. -/
  | missed {k : Fin cfg.shardCount} {serverTs : UInt64} {handling : Handling} {action : Action}
      (hmem : handling ∈ e.handled k) (hcommits : handling.Commits action)
      (hmiss : e.server.sessions.getTxSnapshot action.sessionId action.opcode = none) :
      Loses e (.snapshot k serverTs) handling
  /-- There is no packet, or the transmit queue is full. -/
  | dropped {k : Fin cfg.shardCount} {enqueued : Bool} {handling : Handling} {events : List Event}
      {actions : List Action} {action : Action} {payload : List UInt8} {snap : SessionTxSnapshot}
      (hk : e.server.shards k = ⟨events, actions, .send action payload snap⟩)
      (hnot : enqueued = false ∨ PacketBuilder.build payload snap = none) :
      Loses e (.send k enqueued) handling

def Settles (Lost : Handling → Prop) (e : Exchange cfg) : Prop :=
  ∀ k, (e.server.shards k).Accounted Lost (e.dispatched k) (e.handled k) (e.sent k)

theorem settles_init (Lost : Handling → Prop) : (init cfg).Settles Lost :=
  fun _ => ⟨trivial, rfl, [], none, [], rfl, .nil, rfl, .nil⟩

/-- One shard moves. -/
theorem Settles.update {Lost : Handling → Prop} {k : Fin cfg.shardCount} {shard : Shard}
    {dispatched : List Event} {handled : List Handling} {sent : List Packet} (h : e.Settles Lost)
    (hk : e'.server.shards = Function.update e.server.shards k shard)
    (hd : e'.dispatched = Function.update e.dispatched k dispatched)
    (hh : e'.handled = Function.update e.handled k handled)
    (hs : e'.sent = Function.update e.sent k sent) (hnew : shard.Accounted Lost dispatched handled sent) :
    e'.Settles Lost := by
  intro k'
  rw [hk, hd, hh, hs]
  by_cases heq : k' = k
  · subst heq
    simpa only [Function.update_self] using hnew
  · simpa only [Function.update_of_ne heq] using h k'

theorem Settles.step {Lost : Handling → Prop} (h : e.Settles Lost)
    (hlost : ∀ handling, Loses e a handling → Lost handling) (hstep : e.step a = some e') :
    e'.Settles Lost := by
  have hd := fun k => (Function.update_eq_self k e.dispatched).symm
  have hh := fun k => (Function.update_eq_self k e.handled).symm
  have hsent := fun k => (Function.update_eq_self k e.sent).symm
  cases moves_of_step hstep with
  | outside hw hk hs => exact fun k => hk ▸ h k
  | receive | drop | misdispatch => exact h
  | route hq hp hparse hcheck hw hk hs => exact fun k => hk ▸ h k
  | @dispatch w k' event hp => exact h.update rfl rfl (hh k') (hsent k') ((h k').dispatch event)
  | @handleEvent k' db event events hk =>
    have hthis := h k'
    rw [hk] at hthis
    exact h.update rfl (hd k') rfl (hsent k')
      (hthis.handleEvent fun hnone => hlost _ (.unanswered hk hnone))
  | @miss k' serverTs events action actions hk hmiss =>
    have hthis := h k'
    rw [hk] at hthis
    exact h.update rfl (hd k') (hh k') (hsent k')
      (hthis.giveUp rfl rfl fun handling hmem hcommits => hlost handling (.missed hmem hcommits hmiss))
  | @snapshot k' serverTs events action actions snap hk hsnap =>
    have hthis := h k'
    rw [hk] at hthis
    exact h.update rfl (hd k') (hh k') (hsent k') (hthis.snapshot serverTs snap)
  | @update k' events actions action payload snap s hk hw hk' hs =>
    have hthis := h k'
    rw [hk] at hthis
    exact h.update hk' (hd k') (hh k') (hsent k') hthis.update
  | @unsent k' enqueued events actions action payload snap s hk hnot hw hk' hs =>
    have hthis := h k'
    rw [hk] at hthis
    exact h.update hk' (hd k') (hh k') (hsent k')
      (hthis.giveUp rfl rfl fun handling _ _ => hlost handling (.dropped hk hnot))
  | @send k' events actions action payload snap packet s hk hbuild hw hk' hs =>
    have hthis := h k'
    rw [hk] at hthis
    exact h.update hk' (hd k') (hh k') rfl (hthis.send (PacketBuilder.payload_of_build hbuild))

/-! ## From the packets to the shards -/

end Exchange

end Server

def Worker.packets (worker : Worker) : Multiset Packet := (worker.rxQueue.map RxItem.packet : List Packet)

def Worker.events (worker : Worker) : Multiset Event := (worker.pending.toList.map Prod.snd : List Event)

theorem Worker.packets_enqueueRx (worker : Worker) (item : RxItem) :
    (worker.enqueueRx item).packets = item.packet ::ₘ worker.packets := by
  rw [packets, enqueueRx, List.map_append]
  exact coe_concat _ _

theorem Worker.packets_of_rxQueue {worker : Worker} {item : RxItem} {rest : List RxItem}
    {pending : Option (ℕ × Event)} (hq : worker.rxQueue = item :: rest) :
    worker.packets = item.packet ::ₘ (⟨rest, pending⟩ : Worker).packets := by
  rw [packets, hq]
  rfl

theorem Worker.events_of_pending {worker : Worker} (hp : worker.pending = none) : worker.events = 0 := by
  rw [events, hp]
  rfl

namespace Server.Exchange

variable {cfg : ServerConfig} {e e' : Exchange cfg} {a : Act cfg}

/-- The packets that wait at the workers. -/
def waiting (e : Exchange cfg) : Multiset Packet := ∑ w, (e.server.workers w).packets

/-- The events that a worker has in hand or has dispatched. -/
def events (e : Exchange cfg) : Multiset Event :=
  ∑ w, (e.server.workers w).events + ∑ k, (e.dispatched k : Multiset Event)

/-- Accepted packets have been received, and every event comes from an accepted packet of its
    own. -/
structure Intake (e : Exchange cfg) : Prop where
  received : (e.accepted.map Acceptance.packet : List Packet) + e.waiting ≤ (e.received : Multiset Packet)
  requested : From Acceptance.Requests (e.accepted : Multiset Acceptance) e.events

theorem intake_init : (init cfg).Intake where
  received := by simp [init, waiting, Server.init, Worker.packets]
  requested := by
    have hnone : (init cfg).events = 0 := by simp [init, events, Server.init, Worker.events]
    exact hnone ▸ from_zero

/-- What one worker holds, and the rest. -/
theorem exists_waiting_eq (e : Exchange cfg) (w : WorkerId cfg) :
    ∃ packets events, e.waiting = (e.server.workers w).packets + packets ∧
      e.events = (e.server.workers w).events + events ∧
      ∀ (e' : Exchange cfg) (worker : Worker),
        e'.server.workers = Function.update e.server.workers w worker →
        e'.waiting = worker.packets + packets ∧
          (e'.dispatched = e.dispatched → e'.events = worker.events + events) := by
  obtain ⟨packets, hpackets, hpackets'⟩ := exists_sum_update_eq Worker.packets e.server.workers w
  obtain ⟨events, hevents, hevents'⟩ := exists_sum_update_eq Worker.events e.server.workers w
  refine ⟨packets, events + ∑ k, (e.dispatched k : Multiset Event), hpackets, ?_,
    fun e' worker hw => ⟨?_, ?_⟩⟩
  · rw [Exchange.events, hevents, add_assoc]
  · rw [waiting, hw]
    exact hpackets' worker
  · intro hd
    rw [Exchange.events, hw, hd, hevents' worker, add_assoc]

/-- A dispatched event goes from the worker to the shard. -/
theorem events_dispatch {w : WorkerId cfg} {k : Fin cfg.shardCount} {event : Event}
    (hp : (e.server.workers w).pending = some (k.val, event))
    (hw : e'.server.workers = Function.update e.server.workers w (e.server.workers w).finish)
    (hd : e'.dispatched = Function.update e.dispatched k (e.dispatched k ++ [event])) :
    e'.events = e.events := by
  obtain ⟨others, hself, hupd⟩ := exists_sum_update_eq Worker.events e.server.workers w
  obtain ⟨others', hself', hupd'⟩ :=
    exists_sum_update_eq (fun l : List Event => (l : Multiset Event)) e.dispatched k
  have hpending : (e.server.workers w).events = {event} := by
    rw [Worker.events, hp]
    rfl
  have hfinish : (e.server.workers w).finish.events = 0 := rfl
  rw [events, events, hw, hd, hself, hupd, hself', hupd', hpending, hfinish, coe_concat, zero_add,
    Multiset.cons_add, Multiset.singleton_add, Multiset.cons_add, Multiset.add_cons]

/-- A worker moves; what the others hold is the same before and after. -/
theorem Intake.setWorker {w : WorkerId cfg} {worker : Worker} (h : e.Intake)
    (hw : e'.server.workers = Function.update e.server.workers w worker)
    (hd : e'.dispatched = e.dispatched)
    (hreceived : ∀ others, (e.accepted.map Acceptance.packet : List Packet) +
        ((e.server.workers w).packets + others) ≤ (e.received : Multiset Packet) →
      (e'.accepted.map Acceptance.packet : List Packet) + (worker.packets + others) ≤
        (e'.received : Multiset Packet))
    (hrequested : ∀ others,
      From Acceptance.Requests (e.accepted : Multiset Acceptance) ((e.server.workers w).events + others) →
      From Acceptance.Requests (e'.accepted : Multiset Acceptance) (worker.events + others)) :
    e'.Intake := by
  obtain ⟨packets, events, hpackets, hevents, hupd⟩ := e.exists_waiting_eq w
  obtain ⟨hpackets', hevents'⟩ := hupd e' worker hw
  refine ⟨?_, ?_⟩
  · rw [hpackets']
    exact hreceived packets (hpackets ▸ h.received)
  · rw [hevents' hd]
    exact hrequested events (hevents ▸ h.requested)

theorem Intake.step (h : e.Intake) (hstep : e.step a = some e') : e'.Intake := by
  -- a step that leaves the workers and what is observed of them
  have hsame : e'.received = e.received → e'.accepted = e.accepted → e'.dispatched = e.dispatched →
      e'.server.workers = e.server.workers → e'.Intake := by
    intro hrec hacc hd hw
    refine ⟨?_, ?_⟩
    · rw [hrec, hacc, waiting, hw]
      exact h.received
    · rw [hacc, events, hd, hw]
      exact h.requested
  cases moves_of_step hstep with
  | outside hw hk hs => exact hsame rfl rfl rfl hw
  | @receive _ w item =>
    refine h.setWorker rfl rfl (fun others hle => ?_) fun _ hrequested => hrequested
    rw [Worker.packets_enqueueRx, Multiset.cons_add, Multiset.add_cons]
    exact (Multiset.cons_le_cons _ hle).trans_eq (coe_concat _ _).symm
  | @drop w drawn item rest hq hp =>
    refine h.setWorker rfl rfl (fun others hle => ?_) fun others hrequested => ?_
    · rw [Worker.packets_of_rxQueue hq, Multiset.cons_add, Multiset.add_cons] at hle
      exact (Multiset.le_cons_self _ _).trans hle
    · rw [Worker.events_of_pending hp] at hrequested
      exact hrequested
  | @route w drawn item rest parsed parsed' sm s hq hp hparse hcheck hw hk hs =>
    refine h.setWorker hw rfl (fun others hle => ?_) fun others hrequested => ?_
    · rw [Worker.packets_of_rxQueue hq, Multiset.cons_add, Multiset.add_cons, ← Multiset.cons_add,
        ← coe_concat] at hle
      rw [List.map_append]
      exact hle
    · rw [Worker.events_of_pending hp, zero_add] at hrequested
      rw [coe_concat]
      cases hevent : EventFactory.create parsed' with
      | none =>
        rw [Worker.events_of_pending rfl, zero_add]
        exact hrequested.mono_left (Multiset.le_cons_self _ _)
      | some event =>
        exact hrequested.arrive (RxRouter.requests_of_checkSession hparse hcheck hevent)
  | @dispatch w k event hp =>
    obtain ⟨packets, events, hpackets, hevents, hupd⟩ := e.exists_waiting_eq w
    refine ⟨(congrArg _ ?_).trans_le h.received, ?_⟩
    · refine Eq.trans (And.left (hupd _ (e.server.workers w).finish ?_)) hpackets.symm
      rfl
    · rw [events_dispatch hp ?_ ?_]
      · exact h.requested
      · rfl
      · rfl
  | @misdispatch w idx event hp hidx =>
    refine h.setWorker rfl rfl (fun _ hle => hle) fun others hrequested => ?_
    exact hrequested.of_le (add_le_add (Multiset.zero_le _) le_rfl)
  | handleEvent | miss | snapshot => exact hsame rfl rfl rfl rfl
  | update hk hw hk' hs => exact hsame rfl rfl rfl hw
  | unsent hk hnot hw hk' hs => exact hsame rfl rfl rfl hw
  | send hk hbuild hw hk' hs => exact hsame rfl rfl rfl hw

/-- The worker has chosen the shard by the session of the event. -/
def Routed (n : ℕ) (idx : ℕ) (event : Event) : Prop :=
  ∃ sid, event.sessionId? = some sid ∧ RxRouter.selectShard n sid = idx

/-- Each event waits for, or has gone to, the shard of its session. -/
structure Sharded (e : Exchange cfg) : Prop where
  pending : ∀ w p, (e.server.workers w).pending = some p → Routed cfg.shardCount p.1 p.2
  dispatched : ∀ k, ∀ event ∈ e.dispatched k, Routed cfg.shardCount k event

theorem sharded_init : (init cfg).Sharded where
  pending _ _ h := by cases h
  dispatched _ _ h := by cases h

/-- A worker moves. -/
theorem Sharded.setWorker {w : WorkerId cfg} {worker : Worker} (h : e.Sharded)
    (hw : e'.server.workers = Function.update e.server.workers w worker)
    (hd : e'.dispatched = e.dispatched)
    (hnew : ∀ p, worker.pending = some p → Routed cfg.shardCount p.1 p.2) : e'.Sharded where
  pending w' p hp := by
    rw [hw] at hp
    by_cases heq : w' = w
    · subst heq
      rw [Function.update_self] at hp
      exact hnew p hp
    · rw [Function.update_of_ne heq] at hp
      exact h.pending w' p hp
  dispatched k event hmem := h.dispatched k event (hd ▸ hmem)

theorem Sharded.of_eq (h : e.Sharded) (hw : e'.server.workers = e.server.workers)
    (hd : e'.dispatched = e.dispatched) : e'.Sharded where
  pending w p hp := h.pending w p (hw ▸ hp)
  dispatched k event hmem := h.dispatched k event (hd ▸ hmem)

theorem Sharded.step (h : e.Sharded) (hstep : e.step a = some e') : e'.Sharded := by
  cases moves_of_step hstep with
  | outside hw hk hs => exact h.of_eq hw rfl
  | @receive _ w item => exact h.setWorker (w := w) rfl rfl fun p hp => h.pending w p hp
  | drop hq hp => exact h.setWorker rfl rfl fun p hp => by cases hp
  | @route w drawn item rest parsed parsed' sm s hq hp hparse hcheck hw hk hs =>
    refine h.setWorker hw rfl fun p hp => ?_
    obtain ⟨event, hevent, rfl⟩ := Option.map_eq_some_iff.mp hp
    exact ⟨parsed'.sessionId, (EventFactory.create_origin hevent).1, rfl⟩
  | @dispatch w k event hp =>
    have hfinish : { e with server := e.server.setWorker w (e.server.workers w).finish }.Sharded :=
      h.setWorker rfl rfl fun p hp => by cases hp
    refine ⟨hfinish.pending, fun k' event' hmem => ?_⟩
    by_cases heq : k' = k
    · subst heq
      simp only [Function.update_self] at hmem
      rcases List.mem_append.mp hmem with hmem | hmem
      · exact h.dispatched k' event' hmem
      · rw [List.mem_singleton.mp hmem]
        exact h.pending w (k'.val, event) hp
    · simp only [Function.update_of_ne heq] at hmem
      exact h.dispatched k' event' hmem
  | misdispatch hp hidx => exact h.setWorker rfl rfl fun p hp => by cases hp
  | handleEvent | miss | snapshot => exact h.of_eq rfl rfl
  | update hk hw hk' hs => exact h.of_eq hw rfl
  | unsent hk hnot hw hk' hs => exact h.of_eq hw rfl
  | send hk hbuild hw hk' hs => exact h.of_eq hw rfl

/-! ## From the packets to the responses -/

/-- Every event and every response can be traced back. -/
structure Traced (e : Exchange cfg) : Prop where
  intake : e.Intake
  sharded : e.Sharded
  settles : e.Settles fun _ => True

theorem traced_init : (init cfg).Traced := ⟨intake_init, sharded_init, settles_init _⟩

theorem Traced.step (h : e.Traced) (hstep : e.step a = some e') : e'.Traced :=
  ⟨h.intake.step hstep, h.sharded.step hstep, h.settles.step (fun _ _ => trivial) hstep⟩

theorem traced_run {acts : List (Act cfg)} (h : e.Traced) (hrun : run step e acts = some e') : e'.Traced :=
  run_induct (fun _ _ _ h _ hstep => h.step hstep) h (along_true _ acts) hrun

/-- An event that has been handled was dispatched to the shard. -/
theorem Traced.mem_dispatched (h : e.Traced) {k : Fin cfg.shardCount} {handling : Handling}
    (hmem : handling ∈ e.handled k) : handling.event ∈ e.dispatched k := by
  rw [(h.settles k).taken]
  exact List.mem_append_left _ (List.mem_map_of_mem hmem)

/-- Behind an event that a shard has handled stands a packet accepted under a session of the
    shard. -/
theorem Traced.exists_acceptance (h : e.Traced) {k : Fin cfg.shardCount} {handling : Handling}
    (hmem : handling ∈ e.handled k) :
    ∃ acceptance ∈ e.accepted, acceptance.packet ∈ e.received ∧ acceptance.Requests handling.event ∧
      RxRouter.selectShard cfg.shardCount acceptance.sid = k := by
  have hevent := h.mem_dispatched hmem
  have hevents : handling.event ∈ e.events := by
    refine Multiset.mem_add.mpr (.inr (Multiset.mem_sum.mpr ⟨k, Finset.mem_univ k, ?_⟩))
    exact Multiset.mem_coe.mpr hevent
  obtain ⟨acceptance, hacc, hrequests⟩ := h.intake.requested.exists_source hevents
  refine ⟨acceptance, Multiset.mem_coe.mp hacc, ?_, hrequests, ?_⟩
  · have hpacket : acceptance.packet ∈ e.accepted.map Acceptance.packet :=
      List.mem_map_of_mem (Multiset.mem_coe.mp hacc)
    exact Multiset.mem_coe.mp (Multiset.mem_of_le h.intake.received
      (Multiset.mem_add.mpr (.inl (Multiset.mem_coe.mpr hpacket))))
  · obtain ⟨sid, hsid, hshard⟩ := h.sharded.dispatched k handling.event hevent
    cases hsid.symm.trans hrequests.sessionId
    exact hshard

/-- The payloads that the shards have put into the transmit queues. -/
def outbox (e : Exchange cfg) : Multiset (List UInt8) :=
  ∑ k, ((e.sent k).map Packet.payload : List (List UInt8))

/-- Each of the responses was given to an event when a shard handled it, and each of these events
    is that of a packet accepted under its session; no event and no packet is taken twice. -/
def Answers (e : Exchange cfg) (responses : Multiset (List UInt8)) : Prop :=
  ∃ used ≤ (e.accepted : Multiset Acceptance), ∃ answered ≤ ∑ k, (e.handled k : Multiset Handling),
    Multiset.Rel (fun acceptance handling => acceptance.Requests handling.event) used answered ∧
      Multiset.Rel Handling.Responds answered responses

theorem Traced.answers (h : e.Traced) {responses : Multiset (List UInt8)} (hle : responses ≤ e.outbox) :
    e.Answers responses := by
  have hhandled : From (fun acceptance handling => Acceptance.Requests acceptance handling.event)
      (e.accepted : Multiset Acceptance) (∑ k, (e.handled k : Multiset Handling)) := by
    refine (h.intake.requested.of_le ?_).of_map
    have hmap : (∑ k, (e.handled k : Multiset Handling)).map Handling.event =
        ∑ k, (e.handled k : Multiset Handling).map Handling.event :=
      map_sum (Multiset.mapAddMonoidHom Handling.event) (fun k => (e.handled k : Multiset Handling))
        Finset.univ
    rw [hmap]
    refine (Finset.sum_le_sum fun k _ => ?_).trans (Multiset.le_add_left _ _)
    rw [(h.settles k).taken]
    exact (List.sublist_append_left _ _).subperm
  have hsent : From Handling.Responds (∑ k, (e.handled k : Multiset Handling)) e.outbox := by
    refine from_sum fun k => ?_
    obtain ⟨settled, current, outcomes, hsplit, hset, hout, -⟩ := (h.settles k).order
    obtain ⟨answered, hsub, hall⟩ := Handling.exists_answered hset
    rw [hout] at hall
    refine from_of_forall₂ (hsub.trans ?_) (List.forall₂_map_right_iff.mpr hall)
    rw [hsplit]
    exact List.sublist_append_left _ _
  obtain ⟨answered, hansw, ⟨used, hused, hreq⟩, hresp⟩ := hhandled.trans (hsent.of_le hle)
  exact ⟨used, hused, answered, hansw, hreq, hresp⟩

/-- In every run each response that a shard has put into a transmit queue answers a packet that
    was received and accepted, for the session it was accepted under and with what the database
    said when the shard handled it; and no packet is answered twice. -/
theorem answers_distinct_packets {acts : List (Act cfg)} (hrun : run step (init cfg) acts = some e) :
    (e.accepted.map Acceptance.packet : List Packet) ≤ (e.received : Multiset Packet) ∧
      e.Answers e.outbox := by
  have h := traced_run traced_init hrun
  exact ⟨(Multiset.le_add_right _ _).trans h.intake.received, h.answers le_rfl⟩

/-- A session is opened over TLS and pings over UDP. -/
def loginAndPingActs : List (Act .single) :=
  openTls 7 ++ tlsRequest 7 (loginRequest 0) ++ [.update 0, .send 0 true] ++
    [.udpReceive peer (pingRequest 5)] ++ Server.handled (ServerConfig.single.udpWorker peer) ++
    [.update 0, .send 0 true]

theorem answers_loginAndPing :
    ∃ e, run step (init .single) loginAndPingActs = some e ∧ e.outbox.card = 2 ∧
      e.accepted.map Acceptance.sid = [5, 5] ∧
      (e.accepted.map Acceptance.packet : List Packet) ≤ (e.received : Multiset Packet) ∧
      e.Answers e.outbox :=
  have hrun : run step (init .single) loginAndPingActs = some _ := rfl
  ⟨_, hrun, rfl, rfl, answers_distinct_packets hrun⟩

/-! ## A shard answers in the order of dispatch -/

end Server.Exchange

end NfEngine
