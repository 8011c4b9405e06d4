-- SUMMARY: The server as one system: reactors, protocol workers, the session table, shards and transmit queues, step by step.
import NfEngine.Egress.TxRouter
import NfEngine.Ingress.RxRouter
import NfEngine.Lib.Transition
import NfEngine.Protocol.Descriptors

/-!
# The server

The threads of the server and what they share. A reactor accepts, closes and
hands over connections and queues the frames it receives at a worker of its
protocol. A worker routes one packet at a time: the session table changes under
its lock, and the event is dispatched to a shard afterwards. A shard takes an
event when it has no action left, and handles an action in three steps: a
snapshot of the session, the change of the session's state, and the packet, which
is built from the snapshot. A reactor places a packet on the connection that it
finds under the packet's descriptor number.

Every step is one critical section or one queue operation, so that the runs of
`step` are all the interleavings of these. A packet that a full queue drops is a
packet that was not received, or a flag of the step that drops it.

The incarnation in a received item, the session of a transmitted one and the
whole `History` are observations: no step reads them.
-/

namespace NfEngine

open Lib Lib.Bytes Lib.Transition

/-- What `Core` fixes at the start: each server has at least one worker, and there
    is at least one shard. -/
structure ServerConfig where
  tcpWorkers : ℕ
  tlsWorkers : ℕ
  udpWorkers : ℕ
  shardCount : ℕ
  tcpAddr : SockAddr
  udpFd : Int
  udpAddr : SockAddr
  tcp_pos : 0 < tcpWorkers
  tls_pos : 0 < tlsWorkers
  udp_pos : 0 < udpWorkers
  shard_pos : 0 < shardCount

/-- The protocol workers: of the TCP, the TLS and the UDP server. -/
abbrev WorkerId (cfg : ServerConfig) : Type :=
  Fin cfg.tcpWorkers ⊕ Fin cfg.tlsWorkers ⊕ Fin cfg.udpWorkers

namespace ServerConfig

/-- `fd % m_tcpWorkers.size()`. -/
def tcpWorker (cfg : ServerConfig) (fd : Int) : WorkerId cfg :=
  .inl ⟨(fd % 2 ^ 64).toNat % cfg.tcpWorkers, Nat.mod_lt _ cfg.tcp_pos⟩

/-- `fd % m_tlsWorkers.size()`. -/
def tlsWorker (cfg : ServerConfig) (fd : Int) : WorkerId cfg :=
  .inr (.inl ⟨(fd % 2 ^ 64).toNat % cfg.tlsWorkers, Nat.mod_lt _ cfg.tls_pos⟩)

/-- `(ip ^ port) % m_udpWorkers.size()`. -/
def udpWorker (cfg : ServerConfig) (src : SockAddr) : WorkerId cfg :=
  .inr (.inr ⟨(src.ip ^^^ src.port.toUInt32).toNat % cfg.udpWorkers, Nat.mod_lt _ cfg.udp_pos⟩)

instance (cfg : ServerConfig) : NeZero cfg.shardCount := ⟨cfg.shard_pos.ne'⟩

end ServerConfig

/-- A packet in a receive queue, with the connection it came from; a datagram came
    from none. -/
structure RxItem where
  packet : Packet
  inc : Option ℕ

/-- A protocol worker: its receive queue, and the event of the packet in hand once
    the session check has passed. -/
structure Worker where
  rxQueue : List RxItem
  pending : Option (ℕ × Event)

/-- `enqueueRx` of a worker. -/
def Worker.enqueueRx (worker : Worker) (item : RxItem) : Worker :=
  ⟨worker.rxQueue ++ [item], worker.pending⟩

/-- The packet in hand has been handled. -/
def Worker.finish (worker : Worker) : Worker := ⟨worker.rxQueue, none⟩

/-- Where a shard stands inside `TxRouter::handlePacket`. -/
inductive ShardPc where
  | idle
  | update (action : Action) (payload : List UInt8) (snap : SessionTxSnapshot)
  | send (action : Action) (payload : List UInt8) (snap : SessionTxSnapshot)

structure Shard where
  eventQueue : List Event
  actionQueue : List Action
  pc : ShardPc

/-- `ShardWorker::enqueueEvent`. -/
def Shard.enqueueEvent (shard : Shard) (event : Event) : Shard :=
  ⟨shard.eventQueue ++ [event], shard.actionQueue, shard.pc⟩

/-- A packet in a transmit queue, with the session it is sent for. -/
structure TxItem where
  packet : Packet
  sid : SessionId

structure History where
  /-- The connections that packets of a session came from. -/
  received : List (SessionId × ℕ)
  /-- The connection info of the packets that named a session. -/
  carried : List (SessionId × ConnInfo)
  /-- Descriptor number and connection of the packet that opened a session. -/
  opener : Map SessionId (Int × Option ℕ)
  /-- The connections that responses for a session were placed on. -/
  placed : List (SessionId × ℕ)
  /-- The destinations of the ping responses handed to the UDP server. -/
  pinged : List (SessionId × SockAddr)

structure Server (cfg : ServerConfig) where
  net : Net
  workers : WorkerId cfg → Worker
  sessions : SessionManager
  shards : Fin cfg.shardCount → Shard
  tcpTx : List TxItem
  tlsTx : List TxItem
  udpTx : List TxItem
  history : History

namespace Server

variable {cfg : ServerConfig}

def init (cfg : ServerConfig) : Server cfg :=
  { net := .init
    workers := fun _ => ⟨[], none⟩
    sessions := .empty
    shards := fun _ => ⟨[], [], .idle⟩
    tcpTx := []
    tlsTx := []
    udpTx := []
    history := ⟨[], [], .empty, [], []⟩ }

def setWorker (s : Server cfg) (w : WorkerId cfg) (worker : Worker) : Server cfg :=
  { s with workers := Function.update s.workers w worker }

def setShard (s : Server cfg) (k : Fin cfg.shardCount) (shard : Shard) : Server cfg :=
  { s with shards := Function.update s.shards k shard }

/-! ## Receiving -/

/-- A reactor queues a packet at a worker. -/
def enqueueRx (s : Server cfg) (w : WorkerId cfg) (item : RxItem) : Server cfg :=
  s.setWorker w ((s.workers w).enqueueRx item)

/-- What an accepted packet adds to the history. -/
def History.accept (h : History) (drawn : DrawnId) (item : RxItem) (parsed parsed' : ParsedPacket) :
    History :=
  { h with
    received := h.received ++ (item.inc.map fun inc => (parsed'.sessionId, inc)).toList
    carried :=
      if RxRouter.opensSession parsed then h.carried
      else h.carried ++ [(parsed'.sessionId, parsed'.connInfo)]
    opener :=
      if RxRouter.opensSession parsed then h.opener.insert drawn.val (parsed.fd, item.inc)
      else h.opener }

/-- A worker takes the next packet and runs `RxRouter::handlePacket` up to the
    dispatch. -/
def route (s : Server cfg) (w : WorkerId cfg) (drawn : DrawnId) : Option (Server cfg) :=
  match (s.workers w).rxQueue, (s.workers w).pending with
  | item :: rest, none =>
    let result := RxRouter.handlePacket cfg.shardCount s.sessions drawn item.packet
    let accepted := (PacketParser.parse item.packet).bind fun parsed =>
      (RxRouter.checkSession s.sessions drawn parsed).map fun r => (parsed, r.2)
    some { s.setWorker w ⟨rest, result.2⟩ with
      sessions := result.1
      history :=
        match accepted with
        | none => s.history
        | some (parsed, parsed') => History.accept s.history drawn item parsed parsed' }
  | _, _ => none

/-- `ShardManager::dispatch`, the end of `RxRouter::handlePacket`. -/
def dispatch (s : Server cfg) (w : WorkerId cfg) : Option (Server cfg) :=
  match (s.workers w).pending with
  | none => none
  | some (idx, event) =>
    if h : idx < cfg.shardCount then
      some ((s.setWorker w (s.workers w).finish).setShard ⟨idx, h⟩
        ((s.shards ⟨idx, h⟩).enqueueEvent event))
    else
      some (s.setWorker w (s.workers w).finish)

/-! ## Shards -/

/-- The shard takes an event and commits what its handler answers. -/
def handleEvent (s : Server cfg) (k : Fin cfg.shardCount) (db : AccountDb) : Option (Server cfg) :=
  match s.shards k with
  | ⟨event :: events, [], .idle⟩ =>
    some (s.setShard k ⟨events, (event.handleEvent db).toList, .idle⟩)
  | _ => none

/-- The shard takes an action, builds its payload and reads the session. -/
def snapshot (s : Server cfg) (k : Fin cfg.shardCount) (serverTs : UInt64) : Option (Server cfg) :=
  match s.shards k with
  | ⟨events, action :: actions, .idle⟩ =>
    match s.sessions.getTxSnapshot action.sessionId action.opcode with
    | none => some (s.setShard k ⟨events, actions, .idle⟩)
    | some snap =>
      some (s.setShard k ⟨events, actions, .update action (action.payload serverTs) snap⟩)
  | _ => none

/-- The shard changes the state of the session. -/
def update (s : Server cfg) (k : Fin cfg.shardCount) : Option (Server cfg) :=
  match s.shards k with
  | ⟨events, actions, .update action payload snap⟩ =>
    some { s.setShard k ⟨events, actions, .send action payload snap⟩ with
      sessions := TxRouter.updateState s.sessions action.sessionId action.opcode }
  | _ => none

/-- The packet goes to the server of its protocol; a full queue drops it. -/
def enqueueTx (s : Server cfg) (item : TxItem) (enqueued : Bool) : Server cfg :=
  if enqueued then
    match item.packet.connInfo.protocol with
    | .tls => { s with tlsTx := s.tlsTx ++ [item] }
    | .tcp => { s with tcpTx := s.tcpTx ++ [item] }
    | .udp => { s with udpTx := s.udpTx ++ [item] }
    | .unknown => s
  else
    s

/-- What handing a packet over adds to the history: the destination of a ping
    response. -/
def History.send (h : History) (action : Action) (packet : Packet) : History :=
  match action, packet.connInfo.protocol with
  | .pingRes sid _ _, .udp => { h with pinged := h.pinged ++ [(sid, packet.connInfo.dst)] }
  | _, _ => h

/-- The shard builds the packet from the snapshot and hands it over. -/
def send (s : Server cfg) (k : Fin cfg.shardCount) (enqueued : Bool) : Option (Server cfg) :=
  match s.shards k with
  | ⟨events, actions, .send action payload snap⟩ =>
    let next := s.setShard k ⟨events, actions, .idle⟩
    match PacketBuilder.build payload snap with
    | none => some next
    | some packet =>
      some { next.enqueueTx ⟨packet, action.sessionId⟩ enqueued with
        history := History.send s.history action packet }
  | _ => none

/-! ## Transmitting -/

/-- `TcpReactor::processTxQueue` for one packet; `fits` says whether the ring of the
    connection has room for it. -/
def tcpPlace (s : Server cfg) (fits : Bool) : Option (Server cfg) :=
  match s.tcpTx with
  | [] => none
  | item :: items =>
    match s.net.tcpConns.find item.packet.fd with
    | some inc =>
      if fits then
        some { s with
          tcpTx := items
          history := { s.history with placed := s.history.placed ++ [(item.sid, inc)] } }
      else
        some { s with tcpTx := items }
    | none => some { s with tcpTx := items }

/-- `TlsReactor::processTxQueue` for one packet. -/
def tlsPlace (s : Server cfg) : Option (Server cfg) :=
  match s.tlsTx with
  | [] => none
  | item :: items =>
    match s.net.tlsConns.find item.packet.fd with
    | some inc =>
      some { s with
        tlsTx := items
        history := { s.history with placed := s.history.placed ++ [(item.sid, inc)] } }
    | none => some { s with tlsTx := items }

/-- `UdpReactor::flushPacket`, which puts the packet back when the socket is busy. -/
def udpFlush (s : Server cfg) (sent : Bool) : Option (Server cfg) :=
  match s.udpTx with
  | [] => none
  | item :: items => some { s with udpTx := if sent then items else items ++ [item] }

inductive Act (cfg : ServerConfig) where
  | accept (fd : Int)
  | tcpClose (fd : Int)
  | tlsClose (fd : Int)
  | handover (fd : Int) (enqueued : Bool)
  | processHandover (sslNew : Bool)
  | tcpReceive (fd : Int) (src : SockAddr) (payload : List UInt8)
  | tlsReceive (fd : Int) (src : SockAddr) (payload : List UInt8)
  | udpReceive (src : SockAddr) (payload : List UInt8)
  | route (w : WorkerId cfg) (drawn : DrawnId)
  | dispatch (w : WorkerId cfg)
  | handleEvent (k : Fin cfg.shardCount) (db : AccountDb)
  | snapshot (k : Fin cfg.shardCount) (serverTs : UInt64)
  | update (k : Fin cfg.shardCount)
  | send (k : Fin cfg.shardCount) (enqueued : Bool)
  | tcpPlace (fits : Bool)
  | tlsPlace
  | udpFlush (sent : Bool)

def step (s : Server cfg) : Act cfg → Option (Server cfg)
  | .accept fd => (s.net.acceptConnection fd).map fun net => { s with net := net }
  | .tcpClose fd => some { s with net := s.net.tcpCloseConnection fd }
  | .tlsClose fd => some { s with net := s.net.tlsCloseConnection fd }
  | .handover fd enqueued => some { s with net := s.net.handoverToTls fd enqueued }
  | .processHandover sslNew => (s.net.processHandover sslNew).map fun net => { s with net := net }
  | .tcpReceive fd src payload =>
    (s.net.tcpConns.find fd).map fun inc =>
      s.enqueueRx (cfg.tcpWorker fd) ⟨.make fd .tcp payload src cfg.tcpAddr, some inc⟩
  | .tlsReceive fd src payload =>
    (s.net.tlsConns.find fd).map fun inc =>
      s.enqueueRx (cfg.tlsWorker fd) ⟨.make fd .tls payload src cfg.tcpAddr, some inc⟩
  | .udpReceive src payload =>
    some (s.enqueueRx (cfg.udpWorker src) ⟨.make cfg.udpFd .udp payload src cfg.udpAddr, none⟩)
  | .route w drawn => s.route w drawn
  | .dispatch w => s.dispatch w
  | .handleEvent k db => s.handleEvent k db
  | .snapshot k serverTs => s.snapshot k serverTs
  | .update k => s.update k
  | .send k enqueued => s.send k enqueued
  | .tcpPlace fits => s.tcpPlace fits
  | .tlsPlace => s.tlsPlace
  | .udpFlush sent => s.udpFlush sent

/-! ## What each step does -/

section Inversion

variable {s s' : Server cfg} {w : WorkerId cfg} {k : Fin cfg.shardCount}

/-- Routing drops the packet, or the session check accepts it and leaves its event,
    if the body has one, to be dispatched. -/
theorem route_eq_some {drawn : DrawnId} (h : s.route w drawn = some s') :
    ∃ item rest, (s.workers w).rxQueue = item :: rest ∧ (s.workers w).pending = none ∧
      (((PacketParser.parse item.packet).bind (RxRouter.checkSession s.sessions drawn) = none ∧
          s' = s.setWorker w ⟨rest, none⟩) ∨
        ∃ parsed sm parsed', PacketParser.parse item.packet = some parsed ∧
          RxRouter.checkSession s.sessions drawn parsed = some (sm, parsed') ∧
          s' = { s.setWorker w ⟨rest, (EventFactory.create parsed').map fun event =>
                  (RxRouter.selectShard cfg.shardCount parsed'.sessionId, event)⟩ with
              sessions := sm
              history := History.accept s.history drawn item parsed parsed' }) := by
  unfold route at h
  split at h
  next item rest hq hp =>
    refine ⟨item, rest, hq, hp, ?_⟩
    cases hparse : PacketParser.parse item.packet with
    | none =>
      simp only [RxRouter.handlePacket_of_unparsed hparse, hparse, Option.bind_none,
        Option.some.injEq] at h
      exact .inl ⟨rfl, h.symm⟩
    | some parsed =>
      cases hcheck : RxRouter.checkSession s.sessions drawn parsed with
      | none =>
        simp only [RxRouter.handlePacket_of_refused hparse hcheck, hparse, hcheck,
          Option.bind_some, Option.map_none, Option.some.injEq] at h
        exact .inl ⟨hcheck, h.symm⟩
      | some r =>
        simp only [RxRouter.handlePacket_of_checkSession cfg.shard_pos hparse hcheck, hparse,
          hcheck, Option.bind_some, Option.map_some, Option.some.injEq] at h
        exact .inr ⟨parsed, r.1, r.2, rfl, hcheck, h.symm⟩
  next => cases h

theorem dispatch_eq_some (h : s.dispatch w = some s') :
    ∃ idx event, (s.workers w).pending = some (idx, event) ∧
      ((∃ hidx : idx < cfg.shardCount,
          s' = (s.setWorker w (s.workers w).finish).setShard ⟨idx, hidx⟩
            ((s.shards ⟨idx, hidx⟩).enqueueEvent event)) ∨
        s' = s.setWorker w (s.workers w).finish) := by
  unfold dispatch at h
  split at h
  next => cases h
  next idx event hp =>
    refine ⟨idx, event, hp, ?_⟩
    split at h
    next hidx => exact .inl ⟨hidx, (Option.some.inj h).symm⟩
    next => exact .inr (Option.some.inj h).symm

theorem handleEvent_eq_some {db : AccountDb} (h : s.handleEvent k db = some s') :
    ∃ event events, s.shards k = ⟨event :: events, [], .idle⟩ ∧
      s' = s.setShard k ⟨events, (event.handleEvent db).toList, .idle⟩ := by
  unfold handleEvent at h
  split at h
  next event events hk => exact ⟨event, events, hk, (Option.some.inj h).symm⟩
  next => cases h

theorem snapshot_eq_some {serverTs : UInt64} (h : s.snapshot k serverTs = some s') :
    ∃ events action actions, s.shards k = ⟨events, action :: actions, .idle⟩ ∧
      (s' = s.setShard k ⟨events, actions, .idle⟩ ∨
        ∃ snap, s.sessions.getTxSnapshot action.sessionId action.opcode = some snap ∧
          s' = s.setShard k ⟨events, actions, .update action (action.payload serverTs) snap⟩) := by
  unfold snapshot at h
  split at h
  next events action actions hk =>
    refine ⟨events, action, actions, hk, ?_⟩
    split at h
    next => exact .inl (Option.some.inj h).symm
    next snap hsnap => exact .inr ⟨snap, hsnap, (Option.some.inj h).symm⟩
  next => cases h

theorem update_eq_some (h : s.update k = some s') :
    ∃ events actions action payload snap, s.shards k = ⟨events, actions, .update action payload snap⟩ ∧
      s' = { s.setShard k ⟨events, actions, .send action payload snap⟩ with
        sessions := TxRouter.updateState s.sessions action.sessionId action.opcode } := by
  unfold update at h
  split at h
  next events actions action payload snap hk =>
    exact ⟨events, actions, action, payload, snap, hk, (Option.some.inj h).symm⟩
  next => cases h

theorem send_eq_some {enqueued : Bool} (h : s.send k enqueued = some s') :
    ∃ events actions action payload snap, s.shards k = ⟨events, actions, .send action payload snap⟩ ∧
      (s' = s.setShard k ⟨events, actions, .idle⟩ ∨
        ∃ packet, PacketBuilder.build payload snap = some packet ∧
          s' = { (s.setShard k ⟨events, actions, .idle⟩).enqueueTx ⟨packet, action.sessionId⟩
              enqueued with
            history := History.send s.history action packet }) := by
  unfold send at h
  split at h
  next events actions action payload snap hk =>
    refine ⟨events, actions, action, payload, snap, hk, ?_⟩
    split at h
    next => exact .inl (Option.some.inj h).symm
    next packet hbuild => exact .inr ⟨packet, hbuild, (Option.some.inj h).symm⟩
  next => cases h

theorem enqueueTx_same (s : Server cfg) (item : TxItem) (enqueued : Bool) :
    (s.enqueueTx item enqueued).net = s.net ∧
      (s.enqueueTx item enqueued).sessions = s.sessions ∧
      (s.enqueueTx item enqueued).workers = s.workers ∧
      (s.enqueueTx item enqueued).shards = s.shards := by
  unfold enqueueTx
  split
  · split <;> exact ⟨rfl, rfl, rfl, rfl⟩
  · exact ⟨rfl, rfl, rfl, rfl⟩

/-- Which queue a packet goes to does not depend on the shards or the sessions. -/
theorem enqueueTx_queues (t t' : Server cfg) (hudp : t'.udpTx = t.udpTx)
    (htcp : t'.tcpTx = t.tcpTx) (htls : t'.tlsTx = t.tlsTx) (item : TxItem) (enqueued : Bool) :
    (t'.enqueueTx item enqueued).udpTx = (t.enqueueTx item enqueued).udpTx ∧
      (t'.enqueueTx item enqueued).tcpTx = (t.enqueueTx item enqueued).tcpTx ∧
      (t'.enqueueTx item enqueued).tlsTx = (t.enqueueTx item enqueued).tlsTx := by
  unfold enqueueTx
  split
  · split <;> simp only [hudp, htcp, htls, and_self]
  · exact ⟨hudp, htcp, htls⟩

/-- When nothing runs in between, the three steps of an action with a live session
    do what `TxRouter::handlePacket` does. -/
theorem run_transmit {events : List Event} {action : Action} {actions : List Action}
    {snap : SessionTxSnapshot} {serverTs : UInt64}
    (hk : s.shards k = ⟨events, action :: actions, .idle⟩)
    (hsnap : s.sessions.getTxSnapshot action.sessionId action.opcode = some snap)
    (enqueued : Bool) {sm : SessionManager} {packet : Packet}
    (hhandle : TxRouter.handlePacket s.sessions action.sessionId action.opcode
      (action.payload serverTs) = (sm, some packet)) :
    ∃ s', run step s [.snapshot k serverTs, .update k, .send k enqueued] = some s' ∧
      s'.sessions = sm ∧ s'.shards k = ⟨events, actions, .idle⟩ ∧
      s'.udpTx = (s.enqueueTx ⟨packet, action.sessionId⟩ enqueued).udpTx ∧
      s'.tcpTx = (s.enqueueTx ⟨packet, action.sessionId⟩ enqueued).tcpTx ∧
      s'.tlsTx = (s.enqueueTx ⟨packet, action.sessionId⟩ enqueued).tlsTx := by
  simp only [TxRouter.handlePacket, hsnap, Prod.mk.injEq] at hhandle
  obtain ⟨rfl, hbuild⟩ := hhandle
  have hself : ∀ (t : Server cfg) shard, (t.setShard k shard).shards k = shard := fun t shard => by
    simp only [setShard, Function.update_self]
  let payload := action.payload serverTs
  let s₁ := s.setShard k ⟨events, actions, .update action payload snap⟩
  let s₂ := { s₁.setShard k ⟨events, actions, .send action payload snap⟩ with
    sessions := TxRouter.updateState s.sessions action.sessionId action.opcode }
  have h₁ : s.step (.snapshot k serverTs) = some s₁ := by simp only [step, snapshot, hk, hsnap]; rfl
  have hk₁ : s₁.shards k = ⟨events, actions, .update action payload snap⟩ := hself _ _
  have h₂ : s₁.step (.update k) = some s₂ := by simp only [step, update, hk₁]; rfl
  have hk₂ : s₂.shards k = ⟨events, actions, .send action payload snap⟩ := hself _ _
  have h₃ : s₂.step (.send k enqueued) = some
      { (s₂.setShard k ⟨events, actions, .idle⟩).enqueueTx ⟨packet, action.sessionId⟩ enqueued with
        history := History.send s.history action packet } := by
    simp only [step, send, hk₂, hbuild, payload]
    rfl
  obtain ⟨-, hsess, -, hshards⟩ :=
    (s₂.setShard k ⟨events, actions, .idle⟩).enqueueTx_same ⟨packet, action.sessionId⟩ enqueued
  refine ⟨_, run_cons_eq_some.mpr ⟨_, h₁, run_cons_eq_some.mpr ⟨_, h₂, run_cons_eq_some.mpr
    ⟨_, h₃, run_nil _⟩⟩⟩, hsess, (congrFun hshards k).trans (hself _ _), ?_⟩
  exact enqueueTx_queues s (s₂.setShard k ⟨events, actions, .idle⟩) rfl rfl rfl
    ⟨packet, action.sessionId⟩ enqueued

end Inversion

end Server

/-! ## The smallest server -/

/-- One worker for each protocol and one shard. -/
def ServerConfig.single : ServerConfig :=
  { tcpWorkers := 1
    tlsWorkers := 1
    udpWorkers := 1
    shardCount := 1
    tcpAddr := ⟨0x7F000001, 9000⟩
    udpFd := 4
    udpAddr := ⟨0x7F000001, 9001⟩
    tcp_pos := Nat.one_pos
    tls_pos := Nat.one_pos
    udp_pos := Nat.one_pos
    shard_pos := Nat.one_pos }

namespace Server

/-- The bytes of a request. -/
def request (opcode : Opcode) (sid : SessionId) (body : List UInt8) : List UInt8 :=
  buildHeader opcode body.length sid ++ body

/-- A login of the account that needs no database. -/
def loginRequest (sid : SessionId) : List UInt8 :=
  request .loginReq sid
    (beBytes 2 4 ++ LoginContext.testName ++ beBytes 2 4 ++ LoginContext.testName)

def lobbyRequest (sid : SessionId) : List UInt8 := request .lobbyEntryReq sid []

def pingRequest (sid : SessionId) : List UInt8 := request .pingReq sid (beBytes 8 1 ++ beBytes 8 2)

/-- The peer of every connection in the runs below. -/
def peer : SockAddr := ⟨0x0A000001, 5000⟩

/-- A connection is accepted and handed over to TLS. -/
def openTls (fd : Int) : List (Act .single) :=
  [.accept fd, .handover fd true, .processHandover true]

/-- The id that every session opened in the runs below gets. -/
def drawnId : DrawnId := ⟨5, by decide⟩

/-- What happens to the next packet of a worker, up to the state change. -/
def handled (w : WorkerId .single) : List (Act .single) :=
  [.route w drawnId, .dispatch w, .handleEvent 0 none, .snapshot 0 0]

/-- A request on a TLS connection, up to the state change. -/
def tlsRequest (fd : Int) (bytes : List UInt8) : List (Act .single) :=
  .tlsReceive fd peer bytes :: handled (ServerConfig.single.tlsWorker fd)

end Server

end NfEngine
