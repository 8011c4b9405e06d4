-- SUMMARY: Where ping responses go, and when they reach an endpoint that sent a datagram of the session.
import NfEngine.Server.Effects

/-!
# The address of a ping response

A session remembers one endpoint, that of its last packet over any protocol, and
a ping response goes to the endpoint that the session remembers when the response
is made. It is the right one in every run in which the session was last heard of
over UDP whenever a ping response is made, and no session is opened under an id
that a ping still waits for.
-/

namespace NfEngine

open Lib Lib.Transition

namespace Server

variable {cfg : ServerConfig} {s s' : Server cfg}

/-- Every ping response handed to the UDP server is addressed to an endpoint from
    which a datagram of that session was received. -/
def Addressed (s : Server cfg) : Prop :=
  ∀ p ∈ s.history.pinged, ∃ ci, (p.1, ci) ∈ s.history.carried ∧ ci.protocol = .udp ∧ ci.src = p.2

/-- The snapshot for a ping response is taken while the session was last heard of
    over UDP, and an id that a ping waits for is not drawn. -/
def pingsOverUdp (s : Server cfg) : Act cfg → Bool
  | .snapshot k _ =>
    match (s.shards k).actionQueue with
    | .pingRes sid _ _ :: _ =>
      match s.sessions.sessions.find sid with
      | some session => session.connInfo.protocol = .udp
      | none => true
    | _ => true
  | .route w drawn =>
    match (s.workers w).rxQueue with
    | [] => true
    | item :: _ =>
      match PacketParser.parse item.packet with
      | none => true
      | some parsed => !RxRouter.opensSession parsed || s.jobCount ⟨drawn.val, .ping⟩ = 0
  | _ => true

structure PingInv (s : Server cfg) : Prop where
  /-- While a ping waits, the session remembers a packet that named it. -/
  pending : ∀ {sid session}, 0 < s.jobCount ⟨sid, .ping⟩ →
    s.sessions.sessions.find sid = some session → (sid, session.connInfo) ∈ s.history.carried
  snaps : ∀ {k action snap}, s.work? k = some (action, snap) → action.opcode = .pingRes →
    (action.sessionId, snap.connInfo) ∈ s.history.carried ∧ snap.connInfo.protocol = .udp
  addressed : s.Addressed

theorem pingInv_init : (init cfg).PingInv where
  pending h := by simp [jobCount_init] at h
  snaps h := by cases h
  addressed _ h := by simp [init] at h

namespace PingInv

/-- Steps that leave the session table and the pings alone. -/
theorem frame (h : s.PingInv) (hsess : s'.sessions = s.sessions)
    (hjobs : ∀ job, s'.jobCount job ≤ s.jobCount job)
    (hwork : ∀ {k x}, s'.work? k = some x → s.work? k = some x)
    (hcarried : s'.history.carried = s.history.carried)
    (hpinged : s'.history.pinged = s.history.pinged) : s'.PingInv where
  pending hpos hs := by
    rw [hcarried]
    exact h.pending (hpos.trans_le (hjobs _)) (hsess ▸ hs)
  snaps hw hop := by
    rw [hcarried]
    exact h.snaps (hwork hw) hop
  addressed p hp := by
    rw [hcarried]
    exact h.addressed p (hpinged ▸ hp)

/-- A login adds no ping, and by the condition none waits for the new session. -/
theorem pending_create (h : s.PingInv) {drawn : DrawnId} {parsed parsed' : ParsedPacket}
    (hfree : s.jobCount ⟨drawn.val, .ping⟩ = 0) (hop : parsed.opcode = .loginReq)
    (hcreate : s.sessions.create drawn parsed = some (s'.sessions, parsed')) {new : List Job}
    (hnew : new = [] ∨
      ∃ kind, parsed'.opcode.jobKind? = some kind ∧ new = [⟨parsed'.sessionId, kind⟩])
    {sid : SessionId} {session : Session} (hpos : 0 < s.jobCount ⟨sid, .ping⟩ + new.count ⟨sid, .ping⟩)
    (hs : s'.sessions.sessions.find sid = some session) :
    (sid, session.connInfo) ∈ s.history.carried := by
  obtain ⟨_, hsm, rfl⟩ := SessionManager.create_eq_some.mp hcreate
  have hping : 0 < s.jobCount ⟨sid, .ping⟩ := by
    rcases hnew with rfl | ⟨kind, hkind, rfl⟩
    · exact hpos
    · simp only [ParsedPacket.setSessionId, hop, Opcode.jobKind?, Option.some.injEq] at hkind
      subst hkind
      simpa using hpos
  rw [hsm] at hs
  rcases Map.find_emplace_eq_some hs with hs | ⟨rfl, -⟩
  · exact h.pending hping hs
  · omega

/-- A packet that names its session is what the session then remembers. -/
theorem pending_bind (h : s.PingInv) {parsed : ParsedPacket}
    (hbind : s.sessions.checkAndBind parsed = some s'.sessions) {new : List Job}
    (hnew : new = [] ∨
      ∃ kind, parsed.opcode.jobKind? = some kind ∧ new = [⟨parsed.sessionId, kind⟩])
    {sid : SessionId} {session : Session} (hpos : 0 < s.jobCount ⟨sid, .ping⟩ + new.count ⟨sid, .ping⟩)
    (hs : s'.sessions.sessions.find sid = some session) :
    (sid, session.connInfo) ∈ s.history.carried ++ [(parsed.sessionId, parsed.connInfo)] := by
  obtain ⟨_, old, hold, hsm⟩ := SessionManager.checkAndBind_eq_some.mp hbind
  rw [hsm] at hs
  by_cases hsid : sid = parsed.sessionId
  · subst hsid
    simp only [Map.find_insert_same, Option.some.injEq] at hs
    subst hs
    rw [Session.bind_connInfo]
    exact List.mem_append_right _ List.mem_cons_self
  · simp only [ne_eq, hsid, not_false_eq_true, Map.find_insert_ne] at hs
    refine List.mem_append_left _ (h.pending ?_ hs)
    rcases hnew with rfl | ⟨kind, _, rfl⟩
    · exact hpos
    · simpa [Ne.symm hsid] using hpos

theorem route (h : s.PingInv) {w : WorkerId cfg} {drawn : DrawnId} {item : RxItem}
    {rest : List RxItem} {parsed parsed' : ParsedPacket}
    (hok : s.pingsOverUdp (.route w drawn) = true) (hq : (s.workers w).rxQueue = item :: rest)
    (hparse : PacketParser.parse item.packet = some parsed)
    (hcheck : RxRouter.checkSession s.sessions drawn parsed = some (s'.sessions, parsed'))
    (hhist : s'.history = History.accept s.history drawn item parsed parsed')
    (hwork : ∀ k, s'.work? k = s.work? k) {new : List Job}
    (hnew : new = [] ∨
      ∃ kind, parsed'.opcode.jobKind? = some kind ∧ new = [⟨parsed'.sessionId, kind⟩])
    (hcount : ∀ job, s'.jobCount job = s.jobCount job + new.count job) : s'.PingInv := by
  have hcarried : s'.history.carried = if RxRouter.opensSession parsed then s.history.carried
      else s.history.carried ++ [(parsed'.sessionId, parsed'.connInfo)] := by rw [hhist]; rfl
  have hmono : s.history.carried ⊆ s'.history.carried := by
    rw [hcarried]
    split
    · exact List.Subset.refl _
    · exact List.subset_append_left _ _
  refine ⟨fun hpos hs => ?_, fun hw hop => ?_, fun p hp => ?_⟩
  · rw [hcount] at hpos
    rcases RxRouter.checkSession_eq_some.mp hcheck with ⟨hopen, hcreate⟩ | ⟨hopen, hbind, rfl⟩
    · have hfree : s.jobCount ⟨drawn.val, .ping⟩ = 0 := by
        simpa [pingsOverUdp, hq, hparse, hopen] using hok
      exact hmono (h.pending_create hfree (of_decide_eq_true hopen).1 hcreate hnew hpos hs)
    · rw [hcarried, hopen]
      exact h.pending_bind hbind hnew hpos hs
  · obtain ⟨hmem, hproto⟩ := h.snaps ((hwork _).symm.trans hw) hop
    exact ⟨hmono hmem, hproto⟩
  · have hpinged : s'.history.pinged = s.history.pinged := by rw [hhist]; rfl
    obtain ⟨ci, hmem, hci⟩ := h.addressed p (hpinged ▸ hp)
    exact ⟨ci, hmono hmem, hci⟩

/-- The snapshot is taken while a ping waits, so the session remembers a packet that
    named it, and by the condition a datagram. -/
theorem snapshot (h : s.PingInv) {k : Fin cfg.shardCount} {serverTs : UInt64} {events : List Event}
    {action : Action} {actions : List Action} {snap : SessionTxSnapshot}
    (hok : s.pingsOverUdp (.snapshot k serverTs) = true)
    (hk : s.shards k = ⟨events, action :: actions, .idle⟩)
    (hsnap : s.sessions.getTxSnapshot action.sessionId action.opcode = some snap)
    (hop : action.opcode = .pingRes) :
    (action.sessionId, snap.connInfo) ∈ s.history.carried ∧ snap.connInfo.protocol = .udp := by
  obtain ⟨session, hs, -, -, hci⟩ := SessionManager.getTxSnapshot_eq_some hsnap
  have hpos : 0 < s.jobCount action.job := by
    apply jobCount_pos (k := k)
    simp [Shard.jobs, hk]
  cases action with
  | pingRes sid nonce clientTs =>
    simp only [Action.sessionId] at hs
    simp only [pingsOverUdp, hk, hs, decide_eq_true_eq] at hok
    rw [hci]
    exact ⟨h.pending hpos hs, hok⟩
  | _ => cases hop

/-- The response goes where the snapshot points. -/
theorem send (h : s.PingInv) {k : Fin cfg.shardCount} {action : Action} {payload : List UInt8}
    {snap : SessionTxSnapshot} {packet : Packet} (hpc : (s.shards k).pc = .send action payload snap)
    (hbuild : PacketBuilder.build payload snap = some packet) (hframe : Frame s s')
    (hpcs : PcFrame s s') (hhist : s'.history = History.send s.history action packet) :
    s'.PingInv := by
  have hcarried : s'.history.carried = s.history.carried := by
    rw [hhist]
    unfold History.send
    split <;> rfl
  have hpinged : ∀ p ∈ s'.history.pinged, p ∈ s.history.pinged ∨
      (action.opcode = .pingRes ∧ p = (action.sessionId, packet.connInfo.dst)) := by
    intro p hp
    rw [hhist] at hp
    unfold History.send at hp
    split at hp
    · rcases List.mem_append.mp hp with hp | hp
      · exact .inl hp
      · exact .inr ⟨rfl, List.mem_singleton.mp hp⟩
    · exact .inl hp
  refine ⟨fun hpos hs => ?_, fun hw hop => ?_, fun p hp => ?_⟩
  · rw [hcarried]
    exact h.pending (hpos.trans_le (hframe.jobs _)) (hframe.sessions ▸ hs)
  · rw [hcarried]
    exact h.snaps (hpcs.work hw) hop
  · rw [hcarried]
    rcases hpinged p hp with hp | ⟨hop, rfl⟩
    · exact h.addressed p hp
    · have hwork : s.work? k = some (action, snap) := by simp only [work?, hpc, ShardPc.work?]
      obtain ⟨hmem, hproto⟩ := h.snaps hwork hop
      exact ⟨snap.connInfo, hmem, hproto, (PacketBuilder.build_eq_some hbuild).1.symm⟩

theorem step (h : s.PingInv) {a : Act cfg} (hok : s.pingsOverUdp a = true)
    (hstep : s.step a = some s') : s'.PingInv := by
  cases step_effect hstep with
  | accept _ => exact h.frame rfl (fun _ => Nat.le_refl _) id rfl rfl
  | conns _ => exact h.frame rfl (fun _ => Nat.le_refl _) id rfl rfl
  | receive _ => exact h.frame rfl (fun job => (jobCount_enqueueRx _ _ _ job).le) id rfl rfl
  | route hq hp hparse hcheck =>
    obtain ⟨new, hnew, hcount⟩ := jobCount_route _ _ _ _ hp
    exact h.route hok hq hparse hcheck rfl (fun _ => rfl) hnew hcount
  | inside hframe hpc _ hhist =>
    exact h.frame hframe.sessions hframe.jobs hpc.work (hhist ▸ rfl) (hhist ▸ rfl)
  | snapshot hk hsnap =>
    refine ⟨fun hpos hs => ?_, fun hw hop => ?_, h.addressed⟩
    · exact h.pending (hpos.trans_le (jobCount_snapshot hk _ _ _).le) hs
    · rw [work?_setShard] at hw
      split at hw
      next =>
        cases hw
        exact h.snapshot hok hk hsnap hop
      next => exact h.snaps hw hop
  | @update k _ _ action _ _ hk =>
    refine ⟨fun {sid session'} hpos hs => ?_, fun hw hop => ?_, h.addressed⟩
    · obtain ⟨session, hold, -, -, hci⟩ := TxRouter.find_updateState hs
      have hmove := jobCount_update
        (TxRouter.updateState s.sessions action.sessionId action.opcode) hk ⟨sid, .ping⟩
      rw [hci]
      exact h.pending (by omega) hold
    · exact h.snaps ((work?_update hk _).symm.trans hw) hop
  | send hpc hbuild hframe hpcs _ hhist => exact h.send hpc hbuild hframe hpcs hhist
  | place _ _ hframe hpcs _ hhist =>
    exact h.frame hframe.sessions hframe.jobs hpcs.work (hhist ▸ rfl) (hhist ▸ rfl)

end PingInv

/-! ## Every run -/

/-- In every run that meets the condition, ping responses go to endpoints that sent
    a datagram of the session. -/
theorem addressed_of_pingsOverUdp {acts : List (Act cfg)}
    (hok : Along step (fun s a => s.pingsOverUdp a = true) (init cfg) acts)
    (hrun : run step (init cfg) acts = some s) : s.Addressed := by
  have hinv : s.PingInv :=
    run_induct (fun _ _ _ h hcond hstep => h.step hcond hstep) pingInv_init hok hrun
  exact hinv.addressed

/-- A session is opened over TLS and pings over UDP. -/
def pingActs : List (Act .single) :=
  openTls 7 ++ tlsRequest 7 (loginRequest 0) ++ [.update 0, .send 0 true] ++
    [.udpReceive ⟨0x0A000001, 6000⟩ (pingRequest 5)] ++
    handled (ServerConfig.single.udpWorker ⟨0x0A000001, 6000⟩) ++ [.update 0, .send 0 true]

theorem addressed_ping :
    ∃ s, run step (init .single) pingActs = some s ∧
      s.history.pinged = [(5, ⟨0x0A000001, 6000⟩)] ∧ s.Addressed :=
  have hrun : run step (init .single) pingActs = some _ := rfl
  ⟨_, hrun, rfl, addressed_of_pingsOverUdp (by decide +kernel) hrun⟩

/-- The ping waits at the shard while a request arrives over TLS, from another port. -/
def overtakenPingActs : List (Act .single) :=
  openTls 7 ++ tlsRequest 7 (loginRequest 0) ++ [.update 0, .send 0 true] ++
    [.udpReceive ⟨0x0A000001, 6000⟩ (pingRequest 5),
      .route (ServerConfig.single.udpWorker ⟨0x0A000001, 6000⟩) drawnId,
      .dispatch (ServerConfig.single.udpWorker ⟨0x0A000001, 6000⟩),
      .tlsReceive 7 peer (lobbyRequest 5),
      .route (ServerConfig.single.tlsWorker 7) drawnId,
      .handleEvent 0 none, .snapshot 0 0, .update 0, .send 0 true]

theorem not_addressed_overtakenPing :
    ∃ s, run step (init .single) overtakenPingActs = some s ∧
      s.history.pinged = [(5, peer)] ∧ ¬ s.Addressed := by
  refine ⟨_, rfl, rfl, fun h => ?_⟩
  obtain ⟨ci, hmem, hproto, hsrc⟩ := h (5, peer) List.mem_cons_self
  -- no datagram came from there
  exact (by decide +kernel : ∀ c ∈ _, c.2.protocol = .udp → c.2.src ≠ peer) _ hmem hproto hsrc

end Server

end NfEngine
