-- SUMMARY: The transmit router: snapshot of the session, state change, and the packet it sends.
import NfEngine.Execution.Action
import NfEngine.Session.SessionManager

/-!
# The transmit router

`TxRouter::handlePacket` takes a snapshot of the session, changes its state, and
builds the packet from the snapshot. Each of the two calls into the session
manager takes the lock on its own, so other threads may run between them; the
parts are therefore separate definitions, and `handlePacket` is what they amount
to when nothing runs in between.
-/

namespace NfEngine

/-- `PacketBuilder::build`: the logical source is our side of the connection
    info, the destination the peer's. -/
def PacketBuilder.build (payload : List UInt8) (snap : SessionTxSnapshot) : Option Packet :=
  let ci := snap.connInfo
  let srcAddr : SockAddr := ⟨ci.dstIp, ci.dstPort⟩
  let dstAddr : SockAddr := ⟨ci.srcIp, ci.srcPort⟩
  match snap.protocol with
  | .tcp => some (.make snap.tcpFd snap.protocol payload srcAddr dstAddr)
  | .tls => some (.make snap.tlsFd snap.protocol payload srcAddr dstAddr)
  | .udp => some (.make snap.udpFd snap.protocol payload srcAddr dstAddr)
  | .unknown => none

namespace TxRouter

/-- The state change of `handlePacket`. -/
def updateState (sm : SessionManager) (sid : SessionId) (opcode : Opcode) : SessionManager :=
  match opcode with
  | .loginSuccessRes => sm.setState sid .auth
  | .loginFailRes => sm.erase sid
  | .lobbyEntryRes => sm.setState sid .inWorld
  | _ => sm

/-- `TxRouter::handlePacket`, run without interruption. -/
def handlePacket (sm : SessionManager) (sid : SessionId) (opcode : Opcode) (payload : List UInt8) :
    SessionManager × Option Packet :=
  match sm.getTxSnapshot sid opcode with
  | none => (sm, none)
  | some snap => (updateState sm sid opcode, PacketBuilder.build payload snap)

end TxRouter

/-- A packet is addressed to the endpoint of the snapshot, and a packet for a
    connection takes its descriptor from there. -/
theorem PacketBuilder.build_eq_some {payload : List UInt8} {snap : SessionTxSnapshot}
    {packet : Packet} (h : build payload snap = some packet) :
    packet.connInfo.dst = snap.connInfo.src ∧
      (packet.connInfo.protocol = .udp ∨ packet.fd = snap.tcpFd ∨ packet.fd = snap.tlsFd) := by
  unfold build at h
  cases hproto : snap.protocol <;> simp only [hproto] at h <;> cases h
  case tcp => exact ⟨rfl, .inr (.inl rfl)⟩
  case udp => exact ⟨rfl, .inl rfl⟩
  case tls => exact ⟨rfl, .inr (.inr rfl)⟩

/-- The state change adds no session and leaves the descriptors and the connection
    info of the others alone. -/
theorem TxRouter.find_updateState {sm : SessionManager} {sid sid' : SessionId} {opcode : Opcode}
    {session' : Session} (h : (updateState sm sid opcode).sessions.find sid' = some session') :
    ∃ session, sm.sessions.find sid' = some session ∧ session'.tlsFd = session.tlsFd ∧
      session'.tcpFd = session.tcpFd ∧ session'.connInfo = session.connInfo := by
  have hset : ∀ state, (sm.setState sid state).sessions.find sid' = some session' →
      ∃ session, sm.sessions.find sid' = some session ∧ session'.tlsFd = session.tlsFd ∧
        session'.tcpFd = session.tcpFd ∧ session'.connInfo = session.connInfo := by
    intro state h
    rw [SessionManager.find_setState] at h
    split at h
    next hsid =>
      obtain ⟨session, hs, rfl⟩ := Option.map_eq_some_iff.mp h
      exact ⟨session, hsid ▸ hs, rfl, rfl, rfl⟩
    next => exact ⟨session', h, rfl, rfl, rfl⟩
  unfold updateState at h
  split at h
  next => exact hset .auth h
  next =>
    rw [SessionManager.find_erase] at h
    split at h
    next => cases h
    next => exact ⟨session', h, rfl, rfl, rfl⟩
  next => exact hset .inWorld h
  next => exact ⟨session', h, rfl, rfl, rfl⟩

/-- A snapshot copies the session and picks the protocol by opcode. -/
theorem SessionManager.getTxSnapshot_eq_some {sm : SessionManager} {sid : SessionId}
    {opcode : Opcode} {snap : SessionTxSnapshot} (h : sm.getTxSnapshot sid opcode = some snap) :
    ∃ s, sm.sessions.find sid = some s ∧ snap.tlsFd = s.tlsFd ∧ snap.tcpFd = s.tcpFd ∧
      snap.connInfo = s.connInfo := by
  unfold getTxSnapshot at h
  cases hs : sm.sessions.find sid with
  | none => simp only [hs] at h; cases h
  | some s =>
    refine ⟨s, rfl, ?_⟩
    simp only [hs] at h
    split at h <;> cases h <;> exact ⟨rfl, rfl, rfl⟩

end NfEngine
