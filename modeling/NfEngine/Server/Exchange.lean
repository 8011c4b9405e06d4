-- SUMMARY: The server with the packets it has received and accepted, the events it has dispatched and handled and the responses it has sent, and what each step does to them.
import NfEngine.Server.Effects

/-!
# The exchange of requests and responses

A packet that a reactor queues at a worker is accepted under a session and becomes an
event of a shard, the event an action, and the action a packet in a transmit queue.
`Exchange` is the server together with what has come in, what has been accepted under
which session, what has been dispatched to each shard, what each shard has handled and
with which database, and what it has sent; these are observations, and no step reads them.

`Moves` says for each step what it does to the workers, the shards and the sessions, and
what is observed.
-/

namespace NfEngine

open Lib Lib.Transition

/-! ## From a packet to its response -/

/-- A packet that has passed the session check, and the session that it was accepted under. -/
structure Acceptance where
  packet : Packet
  sid : SessionId

/-- An event that a shard has handled, and the database that it has asked. -/
structure Handling where
  event : Event
  db : AccountDb

/-- The packet is a request with this event for the session it was accepted under. Unless it
    opens a session, this is the one that its header names. -/
def Acceptance.Requests (acceptance : Acceptance) (event : Event) : Prop :=
  ∃ parsed, PacketParser.parse acceptance.packet = some parsed ∧
    (RxRouter.opensSession parsed = false → parsed.sessionId = acceptance.sid) ∧
    EventFactory.create (parsed.setSessionId acceptance.sid) = some event

theorem Acceptance.Requests.sessionId {acceptance : Acceptance} {event : Event}
    (h : acceptance.Requests event) : event.sessionId? = some acceptance.sid := by
  obtain ⟨parsed, -, -, hcreate⟩ := h
  exact (EventFactory.create_origin hcreate).1

/-- The handler of the event commits the action. -/
def Handling.Commits (handling : Handling) (action : Action) : Prop :=
  handling.event.handleEvent handling.db = some action

/-- The bytes are the response to the event. -/
def Handling.Responds (handling : Handling) (bytes : List UInt8) : Prop :=
  ∃ action serverTs, handling.Commits action ∧ bytes = action.payload serverTs

theorem RxRouter.requests_of_checkSession {sm sm' : SessionManager} {drawn : DrawnId} {packet : Packet}
    {parsed parsed' : ParsedPacket} {event : Event} (hparse : PacketParser.parse packet = some parsed)
    (hcheck : checkSession sm drawn parsed = some (sm', parsed'))
    (hevent : EventFactory.create parsed' = some event) :
    (⟨packet, parsed'.sessionId⟩ : Acceptance).Requests event := by
  rcases checkSession_eq_some.mp hcheck with ⟨hopen, hcreate⟩ | ⟨-, -, rfl⟩
  · obtain ⟨-, -, rfl⟩ := SessionManager.create_eq_some.mp hcreate
    refine ⟨parsed, hparse, fun hnot => ?_, hevent⟩
    rw [hopen] at hnot
    cases hnot
  · exact ⟨parsed', hparse, fun _ => rfl, hevent⟩

theorem PacketBuilder.payload_of_build {payload : List UInt8} {snap : SessionTxSnapshot}
    {packet : Packet} (h : build payload snap = some packet) : packet.payload = payload := by
  unfold build at h
  cases hproto : snap.protocol <;> simp only [hproto] at h <;> cases h <;> rfl

namespace Server

variable {cfg : ServerConfig}

/-! ## The exchange -/

/-- The server with the packets that its reactors have queued at the workers, those that the
    workers have accepted, the events that have been dispatched to each shard and those that
    it has handled, and the packets that it has put into a transmit queue. -/
structure Exchange (cfg : ServerConfig) where
  server : Server cfg
  received : List Packet
  accepted : List Acceptance
  dispatched : Fin cfg.shardCount → List Event
  handled : Fin cfg.shardCount → List Handling
  sent : Fin cfg.shardCount → List Packet

namespace Exchange

def init (cfg : ServerConfig) : Exchange cfg := ⟨.init cfg, [], [], fun _ => [], fun _ => [], fun _ => []⟩

def receive (e : Exchange cfg) (s : Server cfg) (packet : Packet) : Exchange cfg :=
  { e with server := s, received := e.received ++ [packet] }

/-- What a step of the server adds to the observations. -/
def observe (e : Exchange cfg) (a : Act cfg) (s : Server cfg) : Exchange cfg :=
  match a with
  | .tcpReceive fd src payload => e.receive s (.make fd .tcp payload src cfg.tcpAddr)
  | .tlsReceive fd src payload => e.receive s (.make fd .tls payload src cfg.tcpAddr)
  | .udpReceive src payload => e.receive s (.make cfg.udpFd .udp payload src cfg.udpAddr)
  | .route w drawn =>
    match (e.server.workers w).rxQueue with
    | item :: _ =>
      match (PacketParser.parse item.packet).bind (RxRouter.checkSession e.server.sessions drawn) with
      | some (_, parsed) =>
        { e with server := s, accepted := e.accepted ++ [⟨item.packet, parsed.sessionId⟩] }
      | none => { e with server := s }
    | [] => { e with server := s }
  | .dispatch w =>
    match (e.server.workers w).pending with
    | some (idx, event) =>
      if h : idx < cfg.shardCount then
        { e with
          server := s
          dispatched := Function.update e.dispatched ⟨idx, h⟩ (e.dispatched ⟨idx, h⟩ ++ [event]) }
      else
        { e with server := s }
    | none => { e with server := s }
  | .handleEvent k db =>
    match (e.server.shards k).eventQueue with
    | event :: _ =>
      { e with server := s, handled := Function.update e.handled k (e.handled k ++ [⟨event, db⟩]) }
    | [] => { e with server := s }
  | .send k true =>
    match (e.server.shards k).pc with
    | .send _ payload snap =>
      match PacketBuilder.build payload snap with
      | some packet => { e with server := s, sent := Function.update e.sent k (e.sent k ++ [packet]) }
      | none => { e with server := s }
    | _ => { e with server := s }
  | _ => { e with server := s }

def step (e : Exchange cfg) (a : Act cfg) : Option (Exchange cfg) := (e.server.step a).map (e.observe a)

variable {e e' : Exchange cfg} {a : Act cfg}

theorem server_observe (e : Exchange cfg) (a : Act cfg) (s : Server cfg) : (e.observe a s).server = s := by
  unfold observe
  repeat' split
  all_goals rfl

/-- What a step does to the workers, the shards and the sessions, and what is observed. -/
inductive Moves (e : Exchange cfg) : Act cfg → Exchange cfg → Prop where
  /-- Connections and transmit queues. -/
  | outside {a : Act cfg} {s : Server cfg} (hw : s.workers = e.server.workers)
      (hk : s.shards = e.server.shards) (hs : s.sessions = e.server.sessions) :
      Moves e a { e with server := s }
  | receive {a : Act cfg} {w : WorkerId cfg} {item : RxItem} :
      Moves e a (e.receive (e.server.enqueueRx w item) item.packet)
  /-- The packet is dropped. -/
  | drop {w : WorkerId cfg} {drawn : DrawnId} {item : RxItem} {rest : List RxItem}
      (hq : (e.server.workers w).rxQueue = item :: rest) (hp : (e.server.workers w).pending = none) :
      Moves e (.route w drawn) { e with server := e.server.setWorker w ⟨rest, none⟩ }
  | route {w : WorkerId cfg} {drawn : DrawnId} {item : RxItem} {rest : List RxItem}
      {parsed parsed' : ParsedPacket} {sm : SessionManager} {s : Server cfg}
      (hq : (e.server.workers w).rxQueue = item :: rest) (hp : (e.server.workers w).pending = none)
      (hparse : PacketParser.parse item.packet = some parsed)
      (hcheck : RxRouter.checkSession e.server.sessions drawn parsed = some (sm, parsed'))
      (hw : s.workers = Function.update e.server.workers w
        ⟨rest, (EventFactory.create parsed').map fun event =>
          (RxRouter.selectShard cfg.shardCount parsed'.sessionId, event)⟩)
      (hk : s.shards = e.server.shards) (hs : s.sessions = sm) :
      Moves e (.route w drawn)
        { e with server := s, accepted := e.accepted ++ [⟨item.packet, parsed'.sessionId⟩] }
  | dispatch {w : WorkerId cfg} {k : Fin cfg.shardCount} {event : Event}
      (hp : (e.server.workers w).pending = some (k.val, event)) :
      Moves e (.dispatch w)
        { e with
          server := (e.server.setWorker w (e.server.workers w).finish).setShard k
            ((e.server.shards k).enqueueEvent event)
          dispatched := Function.update e.dispatched k (e.dispatched k ++ [event]) }
  /-- No shard has the index. -/
  | misdispatch {w : WorkerId cfg} {idx : ℕ} {event : Event}
      (hp : (e.server.workers w).pending = some (idx, event)) (hidx : ¬ idx < cfg.shardCount) :
      Moves e (.dispatch w) { e with server := e.server.setWorker w (e.server.workers w).finish }
  | handleEvent {k : Fin cfg.shardCount} {db : AccountDb} {event : Event} {events : List Event}
      (hk : e.server.shards k = ⟨event :: events, [], .idle⟩) :
      Moves e (.handleEvent k db)
        { e with
          server := e.server.setShard k ⟨events, (event.handleEvent db).toList, .idle⟩
          handled := Function.update e.handled k (e.handled k ++ [⟨event, db⟩]) }
  /-- The session of the action is gone. -/
  | miss {k : Fin cfg.shardCount} {serverTs : UInt64} {events : List Event} {action : Action}
      {actions : List Action} (hk : e.server.shards k = ⟨events, action :: actions, .idle⟩)
      (hmiss : e.server.sessions.getTxSnapshot action.sessionId action.opcode = none) :
      Moves e (.snapshot k serverTs) { e with server := e.server.setShard k ⟨events, actions, .idle⟩ }
  | snapshot {k : Fin cfg.shardCount} {serverTs : UInt64} {events : List Event} {action : Action}
      {actions : List Action} {snap : SessionTxSnapshot}
      (hk : e.server.shards k = ⟨events, action :: actions, .idle⟩)
      (hsnap : e.server.sessions.getTxSnapshot action.sessionId action.opcode = some snap) :
      Moves e (.snapshot k serverTs)
        { e with
          server := e.server.setShard k
            ⟨events, actions, .update action (action.payload serverTs) snap⟩ }
  | update {k : Fin cfg.shardCount} {events : List Event} {actions : List Action} {action : Action}
      {payload : List UInt8} {snap : SessionTxSnapshot} {s : Server cfg}
      (hk : e.server.shards k = ⟨events, actions, .update action payload snap⟩)
      (hw : s.workers = e.server.workers)
      (hk' : s.shards = Function.update e.server.shards k ⟨events, actions, .send action payload snap⟩)
      (hs : s.sessions =
        TxRouter.updateState e.server.sessions action.sessionId action.opcode) :
      Moves e (.update k) { e with server := s }
  /-- There is no packet, or the transmit queue is full. -/
  | unsent {k : Fin cfg.shardCount} {enqueued : Bool} {events : List Event} {actions : List Action}
      {action : Action} {payload : List UInt8} {snap : SessionTxSnapshot} {s : Server cfg}
      (hk : e.server.shards k = ⟨events, actions, .send action payload snap⟩)
      (hnot : enqueued = false ∨ PacketBuilder.build payload snap = none)
      (hw : s.workers = e.server.workers)
      (hk' : s.shards = Function.update e.server.shards k ⟨events, actions, .idle⟩)
      (hs : s.sessions = e.server.sessions) :
      Moves e (.send k enqueued) { e with server := s }
  | send {k : Fin cfg.shardCount} {events : List Event} {actions : List Action} {action : Action}
      {payload : List UInt8} {snap : SessionTxSnapshot} {packet : Packet} {s : Server cfg}
      (hk : e.server.shards k = ⟨events, actions, .send action payload snap⟩)
      (hbuild : PacketBuilder.build payload snap = some packet)
      (hw : s.workers = e.server.workers)
      (hk' : s.shards = Function.update e.server.shards k ⟨events, actions, .idle⟩)
      (hs : s.sessions = e.server.sessions) :
      Moves e (.send k true)
        { e with server := s, sent := Function.update e.sent k (e.sent k ++ [packet]) }

theorem moves_route {w : WorkerId cfg} {drawn : DrawnId} {s : Server cfg}
    (hstep : e.server.route w drawn = some s) :
    Moves e (.route w drawn) (e.observe (.route w drawn) s) := by
  obtain ⟨item, rest, hq, hp, ⟨hnone, rfl⟩ | ⟨parsed, sm, parsed', hparse, hcheck, rfl⟩⟩ :=
    route_eq_some hstep
  · simp only [observe, hq, hnone]
    exact .drop hq hp
  · simp only [observe, hq, hparse, Option.bind_some, hcheck]
    exact .route hq hp hparse hcheck rfl rfl rfl

theorem moves_dispatch {w : WorkerId cfg} {s : Server cfg} (hstep : e.server.dispatch w = some s) :
    Moves e (.dispatch w) (e.observe (.dispatch w) s) := by
  unfold Server.dispatch at hstep
  split at hstep
  next => cases hstep
  next idx event hp =>
    simp only [observe, hp]
    split at hstep <;> cases hstep
    next hidx =>
      rw [dif_pos hidx]
      exact .dispatch hp
    next hidx =>
      rw [dif_neg hidx]
      exact .misdispatch hp hidx

theorem moves_snapshot {k : Fin cfg.shardCount} {serverTs : UInt64} {s : Server cfg}
    (hstep : e.server.snapshot k serverTs = some s) :
    Moves e (.snapshot k serverTs) { e with server := s } := by
  unfold Server.snapshot at hstep
  split at hstep
  next events action actions hk =>
    split at hstep <;> cases hstep
    next hmiss => exact .miss hk hmiss
    next snap hsnap => exact .snapshot hk hsnap
  next => cases hstep

theorem moves_send {k : Fin cfg.shardCount} {enqueued : Bool} {s : Server cfg}
    (hstep : e.server.send k enqueued = some s) :
    Moves e (.send k enqueued) (e.observe (.send k enqueued) s) := by
  unfold Server.send at hstep
  split at hstep
  next events actions action payload snap hk =>
    have hpc : (e.server.shards k).pc = .send action payload snap := by rw [hk]
    cases hbuild : PacketBuilder.build payload snap with
    | none =>
      simp only [hbuild, Option.some.injEq] at hstep
      subst hstep
      cases enqueued with
      | false => exact .unsent hk (.inl rfl) rfl rfl rfl
      | true =>
        simp only [observe, hpc, hbuild]
        exact .unsent hk (.inr hbuild) rfl rfl rfl
    | some packet =>
      simp only [hbuild, Option.some.injEq] at hstep
      obtain ⟨-, hsess, hw, hk'⟩ :=
        (e.server.setShard k ⟨events, actions, .idle⟩).enqueueTx_same ⟨packet, action.sessionId⟩ enqueued
      subst hstep
      cases enqueued with
      | false => exact .unsent hk (.inl rfl) hw hk' hsess
      | true =>
        simp only [observe, hpc, hbuild]
        exact .send hk hbuild hw hk' hsess
  next => cases hstep

/-- Placing packets on connections and flushing datagrams. -/
theorem transmit_same {s s' : Server cfg}
    (hstep : (∃ fits, s.tcpPlace fits = some s') ∨ s.tlsPlace = some s' ∨
      ∃ sent, s.udpFlush sent = some s') :
    s'.workers = s.workers ∧ s'.shards = s.shards ∧ s'.sessions = s.sessions := by
  rcases hstep with ⟨fits, hstep⟩ | hstep | ⟨sent, hstep⟩
  · unfold tcpPlace at hstep
    repeat' split at hstep
    all_goals cases hstep
    all_goals exact ⟨rfl, rfl, rfl⟩
  · unfold tlsPlace at hstep
    repeat' split at hstep
    all_goals cases hstep
    all_goals exact ⟨rfl, rfl, rfl⟩
  · unfold udpFlush at hstep
    split at hstep <;> cases hstep
    exact ⟨rfl, rfl, rfl⟩

theorem moves_of_step (hstep : e.step a = some e') : Moves e a e' := by
  obtain ⟨s, hs, rfl⟩ := Option.map_eq_some_iff.mp hstep
  cases a with
  | accept fd =>
    obtain ⟨net, -, rfl⟩ := Option.map_eq_some_iff.mp hs
    exact .outside rfl rfl rfl
  | tcpClose fd | tlsClose fd | handover fd enqueued =>
    cases hs
    exact .outside rfl rfl rfl
  | processHandover sslNew =>
    obtain ⟨net, -, rfl⟩ := Option.map_eq_some_iff.mp hs
    exact .outside rfl rfl rfl
  | tcpReceive fd src payload | tlsReceive fd src payload =>
    obtain ⟨inc, -, rfl⟩ := Option.map_eq_some_iff.mp hs
    exact .receive
  | udpReceive src payload =>
    cases hs
    exact .receive
  | route w drawn => exact moves_route hs
  | dispatch w => exact moves_dispatch hs
  | handleEvent k db =>
    obtain ⟨event, events, hk, rfl⟩ := handleEvent_eq_some hs
    simp only [observe, hk]
    exact .handleEvent hk
  | snapshot k serverTs =>
    exact moves_snapshot hs
  | update k =>
    obtain ⟨events, actions, action, payload, snap, hk, rfl⟩ := update_eq_some hs
    exact .update hk rfl rfl rfl
  | send k enqueued => exact moves_send hs
  | tcpPlace fits =>
    obtain ⟨hw, hk, hsess⟩ := transmit_same (.inl ⟨fits, hs⟩)
    exact .outside hw hk hsess
  | tlsPlace =>
    obtain ⟨hw, hk, hsess⟩ := transmit_same (.inr (.inl hs))
    exact .outside hw hk hsess
  | udpFlush sent =>
    obtain ⟨hw, hk, hsess⟩ := transmit_same (.inr (.inr ⟨sent, hs⟩))
    exact .outside hw hk hsess

end Exchange

end Server

end NfEngine
