-- SUMMARY: What a step of the server can do, stated once for all invariants.
import NfEngine.Server.Jobs

/-!
# Effects

The invariants of the server look at the same few things: which connections are
around, what the sessions hold, which packets wait in the queues, which snapshots
the shards work on, and the history. `Effect` says for each kind of step what can
happen to them, and `step_effect` that nothing else does; the invariants are then
proved effect by effect.
-/

namespace NfEngine

open Lib

/-! ## Connections that are around -/

namespace Net

variable {n n' : Net} {fd fd' : Int} {inc : ℕ}

/-- A reactor has the connection in its table, or it is being handed over. -/
def Around (n : Net) (fd : Int) (inc : ℕ) : Prop := ∃ h, n.Holds h fd inc

theorem around_close {owner : Option ℕ} (h : (n.close fd' owner).Around fd inc) :
    n.Around fd inc := by
  obtain ⟨holder, hold⟩ := h
  cases holder with
  | tcp => exact ⟨.tcp, hold⟩
  | handover => exact ⟨.handover, hold⟩
  | tls => exact ⟨.tls, hold⟩

theorem around_eraseTcp (h : { n with tcpConns := n.tcpConns.erase fd' }.Around fd inc) :
    n.Around fd inc := by
  obtain ⟨holder, hold⟩ := h
  cases holder with
  | tcp => exact ⟨.tcp, (Map.find_erase_eq_some.mp hold).2⟩
  | handover => exact ⟨.handover, hold⟩
  | tls => exact ⟨.tls, hold⟩

theorem around_eraseTls (h : { n with tlsConns := n.tlsConns.erase fd' }.Around fd inc) :
    n.Around fd inc := by
  obtain ⟨holder, hold⟩ := h
  cases holder with
  | tcp => exact ⟨.tcp, hold⟩
  | handover => exact ⟨.handover, hold⟩
  | tls => exact ⟨.tls, (Map.find_erase_eq_some.mp hold).2⟩

theorem around_tcpCloseConnection (h : (n.tcpCloseConnection fd').Around fd inc) :
    n.Around fd inc := around_close (around_eraseTcp h)

theorem around_tlsCloseConnection (h : (n.tlsCloseConnection fd').Around fd inc) :
    n.Around fd inc := around_close (around_eraseTls h)

theorem around_handover {inc' : ℕ} {enqueued : Bool}
    (h : (n.handover fd' inc' enqueued).Around fd inc) :
    n.Around fd inc ∨ (fd = fd' ∧ inc = inc') := by
  unfold handover at h
  split at h
  next =>
    obtain ⟨holder, hold⟩ := h
    cases holder with
    | tcp => exact .inl ⟨.tcp, hold⟩
    | handover =>
      rcases List.mem_append.mp hold with hold | hold
      · exact .inl ⟨.handover, hold⟩
      · cases List.mem_singleton.mp hold
        exact .inr ⟨rfl, rfl⟩
    | tls => exact .inl ⟨.tls, hold⟩
  next => exact .inl (around_close h)

theorem around_handoverToTls {enqueued : Bool} (h : (n.handoverToTls fd' enqueued).Around fd inc) :
    n.Around fd inc := by
  unfold handoverToTls at h
  split at h
  next => exact around_tcpCloseConnection h
  next inc' hfind =>
    rcases around_handover h with h | ⟨rfl, rfl⟩
    · exact around_eraseTcp h
    · exact ⟨.tcp, hfind⟩

theorem around_processHandover {sslNew : Bool} (hstep : n.processHandover sslNew = some n')
    (h : n'.Around fd inc) : n.Around fd inc := by
  unfold processHandover at hstep
  split at hstep
  next => cases hstep
  next fd' inc' items hq =>
    have hrest : ∀ {fd inc}, { n with handoverQueue := items }.Around fd inc → n.Around fd inc := by
      rintro fd inc ⟨holder, hold⟩
      cases holder with
      | tcp => exact ⟨.tcp, hold⟩
      | handover =>
        refine ⟨.handover, ?_⟩
        simp only [Holds, hq]
        exact List.mem_cons_of_mem _ hold
      | tls => exact ⟨.tls, hold⟩
    split at hstep
    next =>
      cases hstep
      obtain ⟨holder, hold⟩ := h
      cases holder with
      | tcp => exact ⟨.tcp, hold⟩
      | handover => exact hrest ⟨.handover, hold⟩
      | tls =>
        rcases Map.find_emplace_eq_some hold with hold | ⟨rfl, rfl⟩
        · exact ⟨.tls, hold⟩
        · refine ⟨.handover, ?_⟩
          simp only [Holds, hq]
          exact List.mem_cons_self
    next =>
      cases hstep
      exact hrest (around_close h)

/-- Accepting adds one connection, under the number that the kernel returned. -/
theorem around_acceptConnection (hstep : n.acceptConnection fd' = some n')
    (h : n'.Around fd inc) : n.Around fd inc ∨ (fd = fd' ∧ inc = n.accepted) := by
  unfold acceptConnection at hstep
  split at hstep
  next => cases hstep
  next =>
    cases hstep
    obtain ⟨holder, hold⟩ := h
    cases holder with
    | tcp =>
      rcases Map.find_emplace_eq_some hold with hold | ⟨rfl, rfl⟩
      · exact .inl ⟨.tcp, hold⟩
      · exact .inr ⟨rfl, rfl⟩
    | handover => exact .inl ⟨.handover, hold⟩
    | tls => exact .inl ⟨.tls, hold⟩

theorem nonneg_of_acceptConnection (h : n.acceptConnection fd = some n') : 0 ≤ fd := by
  unfold acceptConnection at h
  split at h
  next => cases h
  next hfd => exact not_lt.mp fun hneg => hfd (.inl hneg)

end Net

/-- The action and the snapshot in hand. -/
def ShardPc.work? : ShardPc → Option (Action × SessionTxSnapshot)
  | .idle => none
  | .update action _ snap => some (action, snap)
  | .send action _ snap => some (action, snap)

namespace Server

variable {cfg : ServerConfig} {s s' : Server cfg}

/-! ## The effects -/

/-- The packets that wait to be placed on a connection. -/
def tx (s : Server cfg) : List TxItem := s.tcpTx ++ s.tlsTx

/-- A packet in hand comes from a connection that is around, or is a datagram. -/
def Arrives (s : Server cfg) (item : RxItem) : Prop :=
  (∃ inc, item.inc = some inc ∧ s.net.Around item.packet.fd inc) ∨
    (item.inc = none ∧ item.packet.fd = cfg.udpFd ∧ item.packet.connInfo.protocol = .udp)

/-- Connections and sessions stay as they are, and no packet is received and no job
    is added. -/
structure Frame (s s' : Server cfg) : Prop where
  net : s'.net = s.net
  sessions : s'.sessions = s.sessions
  rxQueue : ∀ w, (s'.workers w).rxQueue ⊆ (s.workers w).rxQueue
  jobs : ∀ job, s'.jobCount job ≤ s.jobCount job

/-- What a shard works on. -/
def work? (s : Server cfg) (k : Fin cfg.shardCount) : Option (Action × SessionTxSnapshot) :=
  (s.shards k).pc.work?

theorem work?_setShard (s : Server cfg) (k k' : Fin cfg.shardCount) (shard : Shard) :
    (s.setShard k shard).work? k' = if k' = k then shard.pc.work? else s.work? k' := by
  by_cases hk : k' = k
  · subst hk
    simp [work?, setShard]
  · simp [work?, setShard, hk]

/-- The state change does not touch the snapshot. -/
theorem work?_update {k : Fin cfg.shardCount} {events : List Event} {actions : List Action}
    {action : Action} {payload : List UInt8} {snap : SessionTxSnapshot}
    (hk : s.shards k = ⟨events, actions, .update action payload snap⟩) (k' : Fin cfg.shardCount) :
    (s.setShard k ⟨events, actions, .send action payload snap⟩).work? k' = s.work? k' := by
  rw [work?_setShard]
  split
  next heq => simp only [heq, work?, hk, ShardPc.work?]
  next => rfl

/-- No shard starts on an action. -/
def PcFrame (s s' : Server cfg) : Prop :=
  ∀ k, (s'.shards k).pc = (s.shards k).pc ∨ (s'.shards k).pc = .idle

inductive Effect (s : Server cfg) : Act cfg → Server cfg → Prop where
  | accept {fd : Int} {net : Net} (haccept : s.net.acceptConnection fd = some net) :
      Effect s (.accept fd) { s with net := net }
  /-- Connections are closed or handed over. -/
  | conns {a : Act cfg} {net : Net}
      (haround : ∀ {fd inc}, net.Around fd inc → s.net.Around fd inc) :
      Effect s a { s with net := net }
  | receive {a : Act cfg} {w : WorkerId cfg} {item : RxItem} (hitem : s.Arrives item) :
      Effect s a (s.enqueueRx w item)
  | route {w : WorkerId cfg} {drawn : DrawnId} {item : RxItem} {rest : List RxItem}
      {parsed parsed' : ParsedPacket} {sm : SessionManager}
      (hq : (s.workers w).rxQueue = item :: rest) (hp : (s.workers w).pending = none)
      (hparse : PacketParser.parse item.packet = some parsed)
      (hcheck : RxRouter.checkSession s.sessions drawn parsed = some (sm, parsed')) :
      Effect s (.route w drawn)
        { s.setWorker w ⟨rest, (EventFactory.create parsed').map fun event =>
              (RxRouter.selectShard cfg.shardCount parsed'.sessionId, event)⟩ with
          sessions := sm
          history := History.accept s.history drawn item parsed parsed' }
  /-- A step inside the workers and the shards, or a packet that is lost. -/
  | inside {a : Act cfg} {s' : Server cfg} (hframe : Frame s s') (hpc : PcFrame s s')
      (htx : s'.tx ⊆ s.tx) (hhist : s'.history = s.history) : Effect s a s'
  | snapshot {k : Fin cfg.shardCount} {serverTs : UInt64} {events : List Event} {action : Action}
      {actions : List Action} {snap : SessionTxSnapshot}
      (hk : s.shards k = ⟨events, action :: actions, .idle⟩)
      (hsnap : s.sessions.getTxSnapshot action.sessionId action.opcode = some snap) :
      Effect s (.snapshot k serverTs)
        (s.setShard k ⟨events, actions, .update action (action.payload serverTs) snap⟩)
  | update {k : Fin cfg.shardCount} {events : List Event} {actions : List Action} {action : Action}
      {payload : List UInt8} {snap : SessionTxSnapshot}
      (hk : s.shards k = ⟨events, actions, .update action payload snap⟩) :
      Effect s (.update k)
        { s.setShard k ⟨events, actions, .send action payload snap⟩ with
          sessions := TxRouter.updateState s.sessions action.sessionId action.opcode }
  | send {a : Act cfg} {s' : Server cfg} {k : Fin cfg.shardCount} {action : Action}
      {payload : List UInt8} {snap : SessionTxSnapshot} {packet : Packet}
      (hpc : (s.shards k).pc = .send action payload snap)
      (hbuild : PacketBuilder.build payload snap = some packet)
      (hframe : Frame s s') (hpcs : PcFrame s s')
      (htx : ∀ item ∈ s'.tx, item ∈ s.tx ∨
        (item = ⟨packet, action.sessionId⟩ ∧ packet.connInfo.protocol ≠ .udp))
      (hhist : s'.history = History.send s.history action packet) : Effect s a s'
  /-- A packet is placed on the connection found under its descriptor number. -/
  | place {a : Act cfg} {s' : Server cfg} {item : TxItem} {inc : ℕ} (hitem : item ∈ s.tx)
      (haround : s.net.Around item.packet.fd inc) (hframe : Frame s s') (hpcs : PcFrame s s')
      (htx : s'.tx ⊆ s.tx)
      (hhist : s'.history =
        { s.history with placed := s.history.placed ++ [(item.sid, inc)] }) : Effect s a s'

theorem PcFrame.work {k : Fin cfg.shardCount} {x : Action × SessionTxSnapshot} (h : PcFrame s s')
    (hwork : s'.work? k = some x) : s.work? k = some x := by
  unfold work? at hwork ⊢
  rcases h k with hpc | hpc
  · rwa [hpc] at hwork
  · rw [hpc] at hwork
    cases hwork

/-! ## Every step has one of them -/

/-- Only the transmit queues and the history differ. -/
theorem Frame.of_eq (hnet : s'.net = s.net) (hsess : s'.sessions = s.sessions)
    (hw : s'.workers = s.workers) (hk : s'.shards = s.shards) : Frame s s' where
  net := hnet
  sessions := hsess
  rxQueue _ := hw ▸ List.Subset.refl _
  jobs job := (jobCount_congr hw hk job).le

theorem PcFrame.of_eq (hk : s'.shards = s.shards) : PcFrame s s' := fun _ => .inl (hk ▸ rfl)

/-- A worker loses the head of its queue or the packet in hand. -/
theorem Frame.setWorker {w : WorkerId cfg} {worker : Worker}
    (hrx : worker.rxQueue ⊆ (s.workers w).rxQueue)
    (hjobs : ∀ job, (s.setWorker w worker).jobCount job ≤ s.jobCount job) :
    Frame s (s.setWorker w worker) where
  net := rfl
  sessions := rfl
  rxQueue w' := by
    by_cases hw : w' = w
    · subst hw
      simpa [Server.setWorker] using hrx
    · simp [Server.setWorker, hw]
  jobs := hjobs

theorem Frame.setShard {k : Fin cfg.shardCount} {shard : Shard}
    (hjobs : ∀ job, (s.setShard k shard).jobCount job ≤ s.jobCount job) :
    Frame s (s.setShard k shard) where
  net := rfl
  sessions := rfl
  rxQueue _ := List.Subset.refl _
  jobs := hjobs

theorem PcFrame.setShard {k : Fin cfg.shardCount} {shard : Shard}
    (hpc : shard.pc = (s.shards k).pc ∨ shard.pc = .idle) : PcFrame s (s.setShard k shard) := by
  intro k'
  by_cases hk : k' = k
  · subst hk
    simpa [Server.setShard] using hpc
  · simp [Server.setShard, hk]

/-- A datagram does not wait for a connection. -/
theorem mem_tx_enqueueTx {item item' : TxItem} {enqueued : Bool}
    (h : item' ∈ (s.enqueueTx item enqueued).tx) :
    item' ∈ s.tx ∨ (item' = item ∧ item.packet.connInfo.protocol ≠ .udp) := by
  unfold enqueueTx at h
  split at h
  · split at h
    next hproto =>
      simp only [tx, List.mem_append, List.mem_singleton] at h ⊢
      simp only [hproto, ne_eq, reduceCtorEq, not_false_eq_true, and_true]
      tauto
    next hproto =>
      simp only [tx, List.mem_append, List.mem_singleton] at h ⊢
      simp only [hproto, ne_eq, reduceCtorEq, not_false_eq_true, and_true]
      tauto
    next => exact .inl h
    next => exact .inl h
  · exact .inl h

theorem dispatch_effect {w : WorkerId cfg} (hstep : s.dispatch w = some s') :
    Effect s (.dispatch w) s' := by
  have hframe : Frame s (s.setWorker w (s.workers w).finish) :=
    .setWorker (List.Subset.refl _) jobCount_finish
  obtain ⟨idx, event, hp, ⟨hidx, rfl⟩ | rfl⟩ := dispatch_eq_some hstep
  · refine .inside ⟨rfl, rfl, hframe.rxQueue, fun job => (jobCount_dispatch hp job).le⟩ ?_
      (List.Subset.refl _) rfl
    exact PcFrame.setShard (s := s.setWorker w (s.workers w).finish) (.inl rfl)
  · exact .inside hframe (.of_eq rfl) (List.Subset.refl _) rfl

theorem send_effect {k : Fin cfg.shardCount} {enqueued : Bool}
    (hstep : s.send k enqueued = some s') : Effect s (.send k enqueued) s' := by
  obtain ⟨events, actions, action, payload, snap, hk, hs⟩ := send_eq_some hstep
  have hframe : Frame s (s.setShard k ⟨events, actions, .idle⟩) :=
    .setShard fun job => (jobCount_send hk job).le
  have hpcs : PcFrame s (s.setShard k ⟨events, actions, .idle⟩) := .setShard (.inr rfl)
  have hpc : (s.shards k).pc = .send action payload snap := by rw [hk]
  rcases hs with rfl | ⟨packet, hbuild, rfl⟩
  · exact .inside hframe hpcs (List.Subset.refl _) rfl
  · obtain ⟨hnet, hsess, hw, hk'⟩ :=
      (s.setShard k ⟨events, actions, .idle⟩).enqueueTx_same ⟨packet, action.sessionId⟩ enqueued
    refine .send hpc hbuild ⟨hnet, hsess, fun w => ?_, fun job => ?_⟩ (fun k' => ?_)
      (fun item hitem => mem_tx_enqueueTx (s := s.setShard k ⟨events, actions, .idle⟩) hitem) rfl
    · exact hw ▸ List.Subset.refl _
    · exact (jobCount_congr hw hk' job).trans_le (hframe.jobs job)
    · exact hk' ▸ hpcs k'

theorem tcpPlace_effect {fits : Bool} (hstep : s.tcpPlace fits = some s') :
    Effect s (.tcpPlace fits) s' := by
  unfold tcpPlace at hstep
  split at hstep
  next => cases hstep
  next item items hq =>
    have hmem : item ∈ s.tx := by simp [tx, hq]
    have htx : items ++ s.tlsTx ⊆ s.tx := by simp [tx, hq]
    split at hstep
    next inc hfind =>
      split at hstep <;> cases hstep
      · exact .place hmem ⟨.tcp, hfind⟩ (.of_eq rfl rfl rfl rfl) (.of_eq rfl) htx rfl
      · exact .inside (.of_eq rfl rfl rfl rfl) (.of_eq rfl) htx rfl
    next =>
      cases hstep
      exact .inside (.of_eq rfl rfl rfl rfl) (.of_eq rfl) htx rfl

theorem tlsPlace_effect (hstep : s.tlsPlace = some s') : Effect s .tlsPlace s' := by
  unfold tlsPlace at hstep
  split at hstep
  next => cases hstep
  next item items hq =>
    have hmem : item ∈ s.tx := by simp [tx, hq]
    have htx : s.tcpTx ++ items ⊆ s.tx := by simp [tx, hq]
    split at hstep
    next inc hfind =>
      cases hstep
      exact .place hmem ⟨.tls, hfind⟩ (.of_eq rfl rfl rfl rfl) (.of_eq rfl) htx rfl
    next =>
      cases hstep
      exact .inside (.of_eq rfl rfl rfl rfl) (.of_eq rfl) htx rfl

theorem udpFlush_effect {sent : Bool} (hstep : s.udpFlush sent = some s') :
    Effect s (.udpFlush sent) s' := by
  unfold udpFlush at hstep
  split at hstep
  next => cases hstep
  next =>
    cases hstep
    exact .inside (.of_eq rfl rfl rfl rfl) (.of_eq rfl) (List.Subset.refl _) rfl

theorem step_effect {a : Act cfg} (hstep : s.step a = some s') : Effect s a s' := by
  cases a with
  | accept fd =>
    obtain ⟨net, hnet, rfl⟩ := Option.map_eq_some_iff.mp hstep
    exact .accept hnet
  | tcpClose fd =>
    cases hstep
    exact .conns Net.around_tcpCloseConnection
  | tlsClose fd =>
    cases hstep
    exact .conns Net.around_tlsCloseConnection
  | handover fd enqueued =>
    cases hstep
    exact .conns Net.around_handoverToTls
  | processHandover sslNew =>
    obtain ⟨net, hnet, rfl⟩ := Option.map_eq_some_iff.mp hstep
    exact .conns (Net.around_processHandover hnet)
  | tcpReceive fd src payload =>
    obtain ⟨inc, hinc, rfl⟩ := Option.map_eq_some_iff.mp hstep
    exact .receive (.inl ⟨inc, rfl, .tcp, hinc⟩)
  | tlsReceive fd src payload =>
    obtain ⟨inc, hinc, rfl⟩ := Option.map_eq_some_iff.mp hstep
    exact .receive (.inl ⟨inc, rfl, .tls, hinc⟩)
  | udpReceive src payload =>
    cases hstep
    exact .receive (.inr ⟨rfl, rfl, rfl⟩)
  | route w drawn =>
    obtain ⟨item, rest, hq, hp, ⟨-, rfl⟩ | ⟨parsed, sm, parsed', hparse, hcheck, rfl⟩⟩ :=
      route_eq_some hstep
    · have hrx : rest ⊆ (s.workers w).rxQueue := hq ▸ List.subset_cons_self item rest
      exact .inside (.setWorker hrx fun job => (jobCount_route_drop hp job).le)
        (.of_eq rfl) (List.Subset.refl _) rfl
    · exact .route hq hp hparse hcheck
  | dispatch w => exact dispatch_effect hstep
  | handleEvent k db =>
    obtain ⟨event, events, hk, rfl⟩ := handleEvent_eq_some hstep
    exact .inside (.setShard fun job => (jobCount_handleEvent hk db job).le) (.setShard (.inr rfl))
      (List.Subset.refl _) rfl
  | snapshot k serverTs =>
    obtain ⟨events, action, actions, hk, rfl | ⟨snap, hsnap, rfl⟩⟩ := snapshot_eq_some hstep
    · exact .inside (.setShard (jobCount_snapshot_miss hk)) (.setShard (.inr rfl))
        (List.Subset.refl _) rfl
    · exact .snapshot hk hsnap
  | update k =>
    obtain ⟨events, actions, action, payload, snap, hk, rfl⟩ := update_eq_some hstep
    exact .update hk
  | send k enqueued => exact send_effect hstep
  | tcpPlace fits => exact tcpPlace_effect hstep
  | tlsPlace => exact tlsPlace_effect hstep
  | udpFlush sent => exact udpFlush_effect hstep

end Server

end NfEngine
