-- SUMMARY: The threads of the server finish all the work there is, and then every dispatched event has been answered unless its session was refused.
import Mathlib.Data.List.ReduceOption
import NfEngine.Server.Authentication

/-!
# Completion

When nothing more comes in, the workers, the shards and the reactors finish what there is:
each of their steps takes some work away, and as long as there is work one of them can
make a step. `weight` counts the steps that are left.

A shard loses the response to an event only when the session is gone or a transmit queue
is full, and a session goes away only by a refused login. So when all the work is done and
no transmit queue was full, every dispatched event has been answered, in the order of
dispatch, except those of sessions whose login was refused.
-/

namespace NfEngine

open Lib Lib.Transition Lib.Provenance

/-! ## Work -/

namespace Server

variable {cfg : ServerConfig} {s s' : Server cfg}

end Server

def Worker.weight (worker : Worker) : ℕ :=
  8 * worker.rxQueue.length + 7 * worker.pending.toList.length

def ShardPc.weight : ShardPc → ℕ
  | .idle => 0
  | .update .. => 4
  | .send .. => 3

def Shard.weight (shard : Shard) : ℕ :=
  6 * shard.eventQueue.length + 5 * shard.actionQueue.length + shard.pc.weight

namespace Server

variable {cfg : ServerConfig} {s s' : Server cfg}

def txWeight (s : Server cfg) : ℕ := s.tcpTx.length + s.tlsTx.length + s.udpTx.length

/-- A bound on the steps that the work at hand takes. -/
def weight (s : Server cfg) : ℕ :=
  ∑ w, (s.workers w).weight + ∑ k, (s.shards k).weight + s.txWeight

end Server

/-! ## What becomes of an event -/

/-- An event of a session has an action for this session. -/
theorem Event.exists_handleEvent {event : Event} {sid : SessionId} (h : event.sessionId? = some sid)
    (db : AccountDb) : ∃ action, event.handleEvent db = some action ∧ action.sessionId = sid := by
  cases event with
  | loginReq sid' payload id pw =>
    cases h
    rcases LoginContext.loginReqEvent_cases db sid id pw with ⟨-, heq⟩ | ⟨-, heq⟩
    · exact ⟨_, heq, rfl⟩
    · exact ⟨_, heq, rfl⟩
  | lobbyEntryReq sid' payload =>
    cases h
    exact ⟨_, rfl, rfl⟩
  | pingReq sid' payload nonce clientTs =>
    cases h
    exact ⟨_, rfl, rfl⟩
  | marketDumpReq => cases h

/-- The snapshot in hand has a protocol that a packet can be built for. -/
def ShardPc.Sendable : ShardPc → Prop
  | .idle => True
  | .update _ payload snap | .send _ payload snap => PacketBuilder.build payload snap ≠ none

/-- A response has a protocol, so its snapshot is missing only with the session. -/
theorem SessionManager.getTxSnapshot_eq_none {sm : SessionManager} {action : Action} :
    sm.getTxSnapshot action.sessionId action.opcode = none ↔ sm.stateOf action.sessionId = none := by
  rw [stateOf_eq_none]
  unfold getTxSnapshot
  cases hfind : sm.sessions.find action.sessionId with
  | none => simp
  | some session => cases action <;> simp [Action.opcode]

theorem PacketBuilder.build_ne_none {sm : SessionManager} {action : Action} {snap : SessionTxSnapshot}
    (h : sm.getTxSnapshot action.sessionId action.opcode = some snap) (payload : List UInt8) :
    build payload snap ≠ none := by
  unfold SessionManager.getTxSnapshot at h
  cases hfind : sm.sessions.find action.sessionId with
  | none =>
    rw [hfind] at h
    cases h
  | some session =>
    rw [hfind] at h
    cases action <;> cases h <;> simp [build]

namespace Server.Exchange

variable {cfg : ServerConfig} {e e' : Exchange cfg} {a : Act cfg}

/-- The session of an event is live, or its login was refused. -/
def Known (e : Exchange cfg) (event : Event) : Prop :=
  ∃ sid, event.sessionId? = some sid ∧
    (e.server.sessions.stateOf sid ≠ none ∨ e.Committed (.loginFailRes sid))

theorem Known.step {event : Event} (h : e.Known event) (htraced : e.Traced) (hstep : e.step a = some e') :
    e'.Known event := by
  obtain ⟨sid, hsid, hlive⟩ := h
  refine ⟨sid, hsid, ?_⟩
  by_cases hgone : e'.server.sessions.stateOf sid = none
  · rcases hlive with hlive | hold
    · obtain ⟨k, events, actions, payload, snap, -, hk⟩ := exists_fail_of_removed hstep hlive hgone
      exact .inr ((htraced.committed hk).step hstep)
    · exact .inr (hold.step hstep)
  · exact .inl hgone

/-- The session check leaves the session of the packet live. -/
theorem live_of_checkSession {sm sm' : SessionManager} {drawn : DrawnId} {parsed parsed' : ParsedPacket}
    (h : RxRouter.checkSession sm drawn parsed = some (sm', parsed')) :
    sm'.stateOf parsed'.sessionId ≠ none := by
  rcases RxRouter.checkSession_eq_some.mp h with ⟨-, hcreate⟩ | ⟨-, hbind, rfl⟩
  · obtain ⟨-, rfl, rfl⟩ := SessionManager.create_eq_some.mp hcreate
    rw [Ne, SessionManager.stateOf_eq_none]
    change (sm.sessions.emplace drawn.val _).find drawn.val ≠ none
    cases hold : sm.sessions.find drawn.val with
    | none =>
      rw [Map.emplace_of_find_none hold, Map.find_insert_same]
      exact Option.some_ne_none _
    | some session =>
      rw [Map.find_emplace_of_find hold]
      exact Option.some_ne_none _
  · rw [SessionManager.stateOf_checkAndBind hbind]
    obtain ⟨-, session, hsession, -⟩ := SessionManager.checkAndBind_eq_some.mp hbind
    rw [SessionManager.stateOf, hsession]
    exact Option.some_ne_none _

/-- The response to the event was lost because its session is gone. -/
def Gone (e : Exchange cfg) (handling : Handling) : Prop :=
  ∃ sid, handling.event.sessionId? = some sid ∧ e.Committed (.loginFailRes sid)

theorem Gone.step {handling : Handling} (h : e.Gone handling) (hstep : e.step a = some e') :
    e'.Gone handling := by
  obtain ⟨sid, hsid, hcommitted⟩ := h
  exact ⟨sid, hsid, hcommitted.step hstep⟩

structure Accounted (e : Exchange cfg) : Prop where
  traced : e.Traced
  pending : ∀ w p, (e.server.workers w).pending = some p → e.Known p.2
  dispatched : ∀ k, ∀ event ∈ e.dispatched k, e.Known event
  sendable : ∀ k, (e.server.shards k).pc.Sendable
  settles : e.Settles e.Gone

theorem Accounted.pending_step (h : e.Accounted) (hstep : e.step a = some e') (w : WorkerId cfg)
    (p : ℕ × Event) (hp : (e'.server.workers w).pending = some p) : e'.Known p.2 := by
  have hold : (e.server.workers w).pending = some p → e'.Known p.2 := fun hp =>
    (h.pending w p hp).step h.traced hstep
  -- a worker other than the one that moves keeps its event
  have hother : ∀ {w' worker}, e'.server.workers = Function.update e.server.workers w' worker →
      (worker.pending = some p → e'.Known p.2) → e'.Known p.2 := by
    intro w' worker hw hnew
    rw [hw] at hp
    by_cases heq : w = w'
    · subst heq
      rw [Function.update_self] at hp
      exact hnew hp
    · rw [Function.update_of_ne heq] at hp
      exact hold hp
  cases moves_of_step hstep with
  | outside hw hk hs => exact hold (hw ▸ hp)
  | @receive _ w' item =>
    refine hother rfl fun hnew => ?_
    exact (h.pending w' p hnew).step h.traced hstep
  | drop | dispatch | misdispatch => exact hother rfl fun hnew => by cases hnew
  | @route w' drawn item rest parsed parsed' sm s hq hp' hparse hcheck hw hk hs =>
    refine hother hw fun hnew => ?_
    obtain ⟨event, hevent, rfl⟩ := Option.map_eq_some_iff.mp hnew
    refine ⟨parsed'.sessionId, (EventFactory.create_origin hevent).1, .inl ?_⟩
    rw [hs]
    exact live_of_checkSession hcheck
  | handleEvent | miss | snapshot => exact hold hp
  | update hk hw hk' hs => exact hold (hw ▸ hp)
  | unsent hk hnot hw hk' hs => exact hold (hw ▸ hp)
  | send hk hbuild hw hk' hs => exact hold (hw ▸ hp)

theorem Accounted.dispatched_step (h : e.Accounted) (hstep : e.step a = some e') (k : Fin cfg.shardCount)
    (event : Event) (hmem : event ∈ e'.dispatched k) : e'.Known event := by
  have hold : event ∈ e.dispatched k → e'.Known event := fun hmem =>
    (h.dispatched k event hmem).step h.traced hstep
  cases moves_of_step hstep with
  | @dispatch w k' event' hp =>
    by_cases heq : k = k'
    · subst heq
      simp only [Function.update_self, List.mem_append, List.mem_singleton] at hmem
      rcases hmem with hmem | rfl
      · exact hold hmem
      · exact (h.pending w _ hp).step h.traced hstep
    · simp only [Function.update_of_ne heq] at hmem
      exact hold hmem
  | _ => exact hold hmem

theorem Accounted.sendable_step (h : e.Accounted) (hstep : e.step a = some e') (k : Fin cfg.shardCount) :
    (e'.server.shards k).pc.Sendable := by
  -- the shard that moves is sendable, and the others have not changed
  have hother : ∀ {k' shard}, e'.server.shards = Function.update e.server.shards k' shard →
      shard.pc.Sendable → (e'.server.shards k).pc.Sendable := by
    intro k' shard hk hnew
    rw [hk]
    by_cases heq : k = k'
    · subst heq
      rwa [Function.update_self]
    · rw [Function.update_of_ne heq]
      exact h.sendable k
  cases moves_of_step hstep with
  | outside hw hk hs => exact hk ▸ h.sendable k
  | receive | drop | misdispatch => exact h.sendable k
  | route hq hp hparse hcheck hw hk hs => exact hk ▸ h.sendable k
  | @dispatch w k' event hp => exact hother rfl (h.sendable k')
  | handleEvent | miss => exact hother rfl trivial
  | snapshot hk hsnap => exact hother rfl (PacketBuilder.build_ne_none hsnap _)
  | @update k' events actions action payload snap s hk hw hk' hs =>
    have hthis := h.sendable k'
    rw [hk] at hthis
    exact hother hk' hthis
  | unsent hk hnot hw hk' hs => exact hother hk' trivial
  | send hk hbuild hw hk' hs => exact hother hk' trivial

/-- When the transmit queues have room, a response is lost only with its session. -/
theorem Accounted.gone_of_loses (h : e.Accounted) (hroom : ∀ k, a ≠ .send k false) {handling : Handling}
    (hloses : Loses e a handling) : e.Gone handling := by
  cases hloses with
  | @unanswered k event events db hk hnone =>
    have hmem : event ∈ e.dispatched k := by
      rw [(h.settles k).taken, hk]
      simp
    obtain ⟨sid, hsid, -⟩ := h.dispatched k event hmem
    obtain ⟨action, haction, -⟩ := Event.exists_handleEvent hsid db
    rw [hnone] at haction
    cases haction
  | @missed k serverTs _ action hmem hcommits hmiss =>
    obtain ⟨sid, hsid, hlive⟩ := h.dispatched k handling.event (h.traced.mem_dispatched hmem)
    obtain ⟨action', haction', rfl⟩ := Event.exists_handleEvent hsid handling.db
    cases hcommits.symm.trans haction'
    exact ⟨_, hsid, hlive.resolve_left (not_not_intro (SessionManager.getTxSnapshot_eq_none.mp hmiss))⟩
  | @dropped k enqueued _ events actions action payload snap hk hnot =>
    have hsendable := h.sendable k
    rw [hk] at hsendable
    rcases hnot with rfl | hnone
    · exact absurd rfl (hroom k)
    · exact absurd hnone hsendable

theorem Accounted.step (h : e.Accounted) (hroom : ∀ k, a ≠ .send k false) (hstep : e.step a = some e') :
    e'.Accounted where
  traced := h.traced.step hstep
  pending := h.pending_step hstep
  dispatched := h.dispatched_step hstep
  sendable := h.sendable_step hstep
  settles := by
    have hold : e.Settles e'.Gone := fun k => (h.settles k).mono fun _ hgone => hgone.step hstep
    exact hold.step (fun _ hloses => (h.gone_of_loses hroom hloses).step hstep) hstep

/-- The event is of a session with a refused login: a `LOGIN_REQ` was accepted under this session,
    with credentials that the database refused when the shard of the session asked it. -/
def Refused (e : Exchange cfg) (handling : Handling) : Prop :=
  ∃ sid id pw db, handling.event.sessionId? = some sid ∧ e.LoginAsked sid id pw db ∧
    ¬ LoginContext.Accepts db id pw

theorem Gone.refused (htraced : e.Traced) {handling : Handling} (h : e.Gone handling) :
    e.Refused handling := by
  obtain ⟨sid, hsid, k, ⟨event, db⟩, hmem, hcommits⟩ := h
  obtain ⟨payload, id, pw, hevent, hacc⟩ := hcommits.login (.inr rfl)
  cases hevent
  exact ⟨sid, id, pw, db, hsid, htraced.loginAsked hmem, fun haccepts => by cases hacc.mp haccepts⟩

end Server.Exchange

end NfEngine
