-- SUMMARY: Sessions, the session table and its operations.
import NfEngine.Lib.Map
import NfEngine.Packet.Packet

/-!
# The session table

`Session` and `SessionManager`. Every public operation of the manager holds
`m_lock` for its whole body, so each is one atomic function of the table. The
log lines are left out, and so are `dump` and `snapshot`, which only read.
-/

namespace NfEngine

open Lib

inductive SessionState where
  | preAuth
  | auth
  | inWorld
  | closed
  | unknown
  deriving DecidableEq, Repr

structure Session where
  sessionId : SessionId
  state : SessionState
  tlsFd : Int
  tcpFd : Int
  udpFd : Int
  connInfo : ConnInfo
  deriving DecidableEq, Repr

/-- The constructor `Session(sid)` with the default member initialisers. -/
def Session.new (sid : SessionId) : Session :=
  { sessionId := sid
    state := .unknown
    tlsFd := -1
    tcpFd := -1
    udpFd := -1
    connInfo := .zero }

/-- `Session::bind`: the connection info is replaced by every packet, the
    descriptor only in the slot of the packet's protocol. -/
def Session.bind (s : Session) (parsed : ParsedPacket) : Session :=
  let s := { s with connInfo := parsed.connInfo }
  match s.connInfo.protocol with
  | .tcp => { s with tcpFd := parsed.fd }
  | .tls => { s with tlsFd := parsed.fd }
  | .udp => { s with udpFd := parsed.fd }
  | .unknown => s

/-- `Session::setState`. -/
def Session.setState (s : Session) (state : SessionState) : Session := { s with state := state }

structure SessionTxSnapshot where
  protocol : Protocol
  tlsFd : Int
  tcpFd : Int
  udpFd : Int
  connInfo : ConnInfo
  deriving DecidableEq, Repr

structure SessionManager where
  tlsFdToSessionId : Map Int SessionId
  sessions : Map SessionId Session

/-- What `generateSecureSessionId` returns: it draws again while the bytes are
    zero and aborts when the generator fails, so a returned id is not zero and
    otherwise arbitrary. -/
def DrawnId : Type := { sid : SessionId // sid ≠ 0 }

namespace SessionManager

def empty : SessionManager := { tlsFdToSessionId := .empty, sessions := .empty }

/-- `SessionManager::checkAndBind`; `none` is the answer `false`. -/
def checkAndBind (sm : SessionManager) (parsed : ParsedPacket) : Option SessionManager :=
  if parsed.sessionId = 0 then
    none
  else
    match sm.sessions.find parsed.sessionId with
    | none => none
    | some s => some { sm with sessions := sm.sessions.insert parsed.sessionId (s.bind parsed) }

/-- `SessionManager::create`; `none` is the answer `false`. Both maps are written
    with `emplace`, and the index is keyed by the packet's descriptor whatever
    its protocol. -/
def create (sm : SessionManager) (drawn : DrawnId) (parsed : ParsedPacket) :
    Option (SessionManager × ParsedPacket) :=
  if sm.tlsFdToSessionId.contains parsed.fd then
    none
  else
    let session := ((Session.new drawn.val).bind parsed).setState .preAuth
    some
      ({ tlsFdToSessionId := sm.tlsFdToSessionId.emplace parsed.fd drawn.val
         sessions := sm.sessions.emplace drawn.val session },
       parsed.setSessionId drawn.val)

/-- `SessionManager::erase`: the index entry removed is the one of the session's
    current TLS descriptor. -/
def erase (sm : SessionManager) (sid : SessionId) : SessionManager :=
  match sm.sessions.find sid with
  | none => sm
  | some s =>
    { tlsFdToSessionId := sm.tlsFdToSessionId.erase s.tlsFd
      sessions := sm.sessions.erase sid }

/-- `SessionManager::getTxSnapshot`. -/
def getTxSnapshot (sm : SessionManager) (sid : SessionId) (opcode : Opcode) :
    Option SessionTxSnapshot :=
  match sm.sessions.find sid with
  | none => none
  | some s =>
    let out (protocol : Protocol) : SessionTxSnapshot :=
      { protocol := protocol
        tlsFd := s.tlsFd
        tcpFd := s.tcpFd
        udpFd := s.udpFd
        connInfo := s.connInfo }
    match opcode with
    | .loginSuccessRes => some (out .tls)
    | .loginFailRes => some (out .tls)
    | .lobbyEntryRes => some (out .tcp)
    | .pingRes => some (out .udp)
    | _ => none

/-- `SessionManager::setState`. -/
def setState (sm : SessionManager) (sid : SessionId) (state : SessionState) : SessionManager :=
  match sm.sessions.find sid with
  | none => sm
  | some s => { sm with sessions := sm.sessions.insert sid (s.setState state) }

end SessionManager

/-! ## What binding changes -/

namespace Session

@[simp] theorem bind_connInfo (s : Session) (parsed : ParsedPacket) :
    (s.bind parsed).connInfo = parsed.connInfo := by
  simp only [bind]
  split <;> rfl

@[simp] theorem bind_state (s : Session) (parsed : ParsedPacket) :
    (s.bind parsed).state = s.state := by
  simp only [bind]
  split <;> rfl

theorem bind_tlsFd (s : Session) (parsed : ParsedPacket) :
    (s.bind parsed).tlsFd = if parsed.connInfo.protocol = .tls then parsed.fd else s.tlsFd := by
  simp only [bind]
  cases h : parsed.connInfo.protocol <;> simp

theorem bind_tcpFd (s : Session) (parsed : ParsedPacket) :
    (s.bind parsed).tcpFd = if parsed.connInfo.protocol = .tcp then parsed.fd else s.tcpFd := by
  simp only [bind]
  cases h : parsed.connInfo.protocol <;> simp

end Session

/-! ## The effect of each operation -/

namespace SessionManager

/-- The session that `create` stores. -/
def opened (drawn : DrawnId) (parsed : ParsedPacket) : Session :=
  ((Session.new drawn.val).bind parsed).setState .preAuth

theorem checkAndBind_eq_some {sm sm' : SessionManager} {parsed : ParsedPacket} :
    sm.checkAndBind parsed = some sm' ↔
      parsed.sessionId ≠ 0 ∧ ∃ s, sm.sessions.find parsed.sessionId = some s ∧
        sm' = { sm with sessions := sm.sessions.insert parsed.sessionId (s.bind parsed) } := by
  unfold checkAndBind
  by_cases hsid : parsed.sessionId = 0
  · simp [hsid]
  · cases hs : sm.sessions.find parsed.sessionId with
    | none => simp [hsid]
    | some s => simp [hsid, eq_comm]

theorem create_eq_some {sm sm' : SessionManager} {drawn : DrawnId} {parsed parsed' : ParsedPacket} :
    sm.create drawn parsed = some (sm', parsed') ↔
      sm.tlsFdToSessionId.find parsed.fd = none ∧
        sm' = { tlsFdToSessionId := sm.tlsFdToSessionId.insert parsed.fd drawn.val
                sessions := sm.sessions.emplace drawn.val (opened drawn parsed) } ∧
        parsed' = parsed.setSessionId drawn.val := by
  unfold create
  cases hfd : sm.tlsFdToSessionId.find parsed.fd with
  | none =>
    have hc : sm.tlsFdToSessionId.contains parsed.fd = false := Map.contains_eq_false.mpr hfd
    simp only [hc, Bool.false_eq_true, if_false, Option.some.injEq, Prod.mk.injEq,
      Map.emplace_of_find_none hfd, true_and]
    exact ⟨fun h => ⟨h.1.symm, h.2.symm⟩, fun h => ⟨h.1.symm, h.2.symm⟩⟩
  | some sid =>
    have hc : sm.tlsFdToSessionId.contains parsed.fd = true := Map.contains_eq_true.mpr ⟨sid, hfd⟩
    simp [hc]

/-- The index is not looked at. -/
theorem tlsFdToSessionId_setState (sm : SessionManager) (sid : SessionId) (state : SessionState) :
    (sm.setState sid state).tlsFdToSessionId = sm.tlsFdToSessionId := by
  unfold setState
  split <;> rfl

theorem find_setState (sm : SessionManager) (sid sid' : SessionId) (state : SessionState) :
    (sm.setState sid state).sessions.find sid' =
      if sid' = sid then (sm.sessions.find sid).map fun s => s.setState state
      else sm.sessions.find sid' := by
  unfold setState
  cases hs : sm.sessions.find sid with
  | none =>
    by_cases h : sid' = sid
    · simp [h, hs]
    · simp [h]
  | some s => rfl

theorem find_erase (sm : SessionManager) (sid sid' : SessionId) :
    (sm.erase sid).sessions.find sid' = if sid' = sid then none else sm.sessions.find sid' := by
  unfold erase
  cases hs : sm.sessions.find sid with
  | none =>
    by_cases h : sid' = sid
    · simp [h, hs]
    · simp [h]
  | some s => rfl

end SessionManager

end NfEngine
