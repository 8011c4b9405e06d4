-- SUMMARY: The accesses of the session manager under its lock, and that its threads see the atomic operations of the session table.
import NfEngine.Lib.Lock
import NfEngine.Session.SessionManager

/-!
# The lock of the session manager

The protocol workers and the shards call the session manager from their own threads, and
each operation makes several accesses to the two maps and to the session it has found:
`create` writes the sessions before the index, `erase` the index before the sessions,
`bind` the connection info before the descriptor, and `getTxSnapshot` copies a session
field by field. All of them are made under `m_lock`, so that the threads together see the
atomic operations of `SessionManager`, which the other models use.
-/

namespace NfEngine

open Lib Lib.Lock Lib.Transition

/-- The first statement of `Session::bind`. -/
def Session.bindConnInfo (s : Session) (parsed : ParsedPacket) : Session :=
  { s with connInfo := parsed.connInfo }

/-- The switch of `Session::bind`. -/
def Session.bindFd (s : Session) (parsed : ParsedPacket) : Session :=
  match s.connInfo.protocol with
  | .tcp => { s with tcpFd := parsed.fd }
  | .tls => { s with tlsFd := parsed.fd }
  | .udp => { s with udpFd := parsed.fd }
  | .unknown => s

namespace SessionManager

/-- A write to the session behind an iterator. -/
def modify (sm : SessionManager) (sid : SessionId) (f : Session → Session) : SessionManager :=
  match sm.sessions.find sid with
  | none => sm
  | some s => { sm with sessions := sm.sessions.insert sid (f s) }

/-- A read from the session behind an iterator. -/
def copy (sm : SessionManager) (sid : SessionId) (out : SessionTxSnapshot)
    (f : Session → SessionTxSnapshot → SessionTxSnapshot) : SessionTxSnapshot :=
  match sm.sessions.find sid with
  | none => out
  | some s => f s out

theorem modify_modify (sm : SessionManager) (sid : SessionId) (f g : Session → Session) :
    (sm.modify sid f).modify sid g = sm.modify sid (g ∘ f) := by
  unfold modify
  cases hs : sm.sessions.find sid with
  | none => simp [hs]
  | some s => simp only [Map.find_insert_same, Map.insert_insert, Function.comp]

theorem copy_copy (sm : SessionManager) (sid : SessionId) (out : SessionTxSnapshot)
    (f g : Session → SessionTxSnapshot → SessionTxSnapshot) :
    sm.copy sid (sm.copy sid out f) g = sm.copy sid out fun s out => g s (f s out) := by
  unfold copy
  cases sm.sessions.find sid <;> rfl

theorem setState_eq_modify (sm : SessionManager) (sid : SessionId) (state : SessionState) :
    sm.setState sid state = sm.modify sid fun s => s.setState state := rfl

namespace Locked

inductive Op where
  | checkAndBind (parsed : ParsedPacket)
  /-- With the id that is drawn if the call gets that far. -/
  | create (drawn : DrawnId) (parsed : ParsedPacket)
  | erase (sid : SessionId)
  | getTxSnapshot (sid : SessionId) (opcode : Opcode)
  | setState (sid : SessionId) (state : SessionState)

inductive Answer where
  | bound (found : Bool)
  /-- The packet with its session id, or none for a duplicate. -/
  | created (parsed : Option ParsedPacket)
  | erased
  | snapshot (out : Option SessionTxSnapshot)
  | stateSet

/-- Where an operation is inside its critical section. -/
inductive Pc where
  | findBind (parsed : ParsedPacket)
  | bindConnInfo (parsed : ParsedPacket)
  | bindFd (parsed : ParsedPacket)
  | count (drawn : DrawnId) (parsed : ParsedPacket)
  | emplaceSession (drawn : DrawnId) (parsed : ParsedPacket)
  | emplaceIndex (drawn : DrawnId) (parsed : ParsedPacket)
  | findErase (sid : SessionId)
  | eraseIndex (sid : SessionId) (fd : Int)
  | eraseSession (sid : SessionId)
  | findSnapshot (sid : SessionId) (opcode : Opcode)
  | copyTlsFd (sid : SessionId) (out : SessionTxSnapshot)
  | copyTcpFd (sid : SessionId) (out : SessionTxSnapshot)
  | copyUdpFd (sid : SessionId) (out : SessionTxSnapshot)
  | copyConnInfo (sid : SessionId) (out : SessionTxSnapshot)
  | findState (sid : SessionId) (state : SessionState)
  | storeState (sid : SessionId) (state : SessionState)

/-- The protocol that `getTxSnapshot` chooses for a response. -/
def txProtocol : Opcode → Option Protocol
  | .loginSuccessRes | .loginFailRes => some .tls
  | .lobbyEntryRes => some .tcp
  | .pingRes => some .udp
  | _ => none

/-- `SessionTxSnapshot{}` with a protocol. -/
def blank (protocol : Protocol) : SessionTxSnapshot := ⟨protocol, -1, -1, -1, .zero⟩

/-- One access to the maps or to a session. -/
def access (sm : SessionManager) : Pc → SessionManager × (Pc ⊕ Answer)
  | .findBind parsed =>
    if sm.sessions.contains parsed.sessionId then (sm, .inl (.bindConnInfo parsed))
    else (sm, .inr (.bound false))
  | .bindConnInfo parsed =>
    (sm.modify parsed.sessionId fun s => s.bindConnInfo parsed, .inl (.bindFd parsed))
  | .bindFd parsed => (sm.modify parsed.sessionId fun s => s.bindFd parsed, .inr (.bound true))
  | .count drawn parsed =>
    if sm.tlsFdToSessionId.contains parsed.fd then (sm, .inr (.created none))
    else (sm, .inl (.emplaceSession drawn parsed))
  | .emplaceSession drawn parsed =>
    let session := ((Session.new drawn.val).bind parsed).setState .preAuth
    ({ sm with sessions := sm.sessions.emplace drawn.val session }, .inl (.emplaceIndex drawn parsed))
  | .emplaceIndex drawn parsed =>
    ({ sm with tlsFdToSessionId := sm.tlsFdToSessionId.emplace parsed.fd drawn.val },
      .inr (.created (some (parsed.setSessionId drawn.val))))
  | .findErase sid =>
    match sm.sessions.find sid with
    | none => (sm, .inr .erased)
    | some s => (sm, .inl (.eraseIndex sid s.tlsFd))
  | .eraseIndex sid fd =>
    ({ sm with tlsFdToSessionId := sm.tlsFdToSessionId.erase fd }, .inl (.eraseSession sid))
  | .eraseSession sid => ({ sm with sessions := sm.sessions.erase sid }, .inr .erased)
  | .findSnapshot sid opcode =>
    if sm.sessions.contains sid then
      match txProtocol opcode with
      | some protocol => (sm, .inl (.copyTlsFd sid (blank protocol)))
      | none => (sm, .inr (.snapshot none))
    else
      (sm, .inr (.snapshot none))
  | .copyTlsFd sid out =>
    (sm, .inl (.copyTcpFd sid (sm.copy sid out fun s out => { out with tlsFd := s.tlsFd })))
  | .copyTcpFd sid out =>
    (sm, .inl (.copyUdpFd sid (sm.copy sid out fun s out => { out with tcpFd := s.tcpFd })))
  | .copyUdpFd sid out =>
    (sm, .inl (.copyConnInfo sid (sm.copy sid out fun s out => { out with udpFd := s.udpFd })))
  | .copyConnInfo sid out =>
    (sm, .inr (.snapshot (some (sm.copy sid out fun s out => { out with connInfo := s.connInfo }))))
  | .findState sid state =>
    if sm.sessions.contains sid then (sm, .inl (.storeState sid state)) else (sm, .inr .stateSet)
  | .storeState sid state => (sm.modify sid fun s => s.setState state, .inr .stateSet)

def enter : Op → Pc
  | .checkAndBind parsed => .findBind parsed
  | .create drawn parsed => .count drawn parsed
  | .erase sid => .findErase sid
  | .getTxSnapshot sid opcode => .findSnapshot sid opcode
  | .setState sid state => .findState sid state

/-- The session manager; `checkAndBind` refuses the id zero before it takes the lock. -/
def code : Code SessionManager Op Pc Answer where
  early
    | .checkAndBind parsed => if parsed.sessionId = 0 then some (.bound false) else none
    | _ => none
  enter := enter
  access := access

/-- The atomic operations. -/
def spec (sm : SessionManager) : Op → Answer × SessionManager
  | .checkAndBind parsed =>
    match sm.checkAndBind parsed with
    | none => (.bound false, sm)
    | some sm' => (.bound true, sm')
  | .create drawn parsed =>
    match sm.create drawn parsed with
    | none => (.created none, sm)
    | some (sm', parsed') => (.created (some parsed'), sm')
  | .erase sid => (.erased, sm.erase sid)
  | .getTxSnapshot sid opcode => (.snapshot (sm.getTxSnapshot sid opcode), sm)
  | .setState sid state => (.stateSet, sm.setState sid state)

/-! ## The operations without interruption -/

/-- What the rest of a critical section leads to, from each place in it. -/
def rest (sm : SessionManager) : Pc → Answer × SessionManager
  | .findBind parsed =>
    (.bound (sm.sessions.contains parsed.sessionId), sm.modify parsed.sessionId fun s => s.bind parsed)
  | .bindConnInfo parsed => (.bound true, sm.modify parsed.sessionId fun s => s.bind parsed)
  | .bindFd parsed => (.bound true, sm.modify parsed.sessionId fun s => s.bindFd parsed)
  | .count drawn parsed => spec sm (.create drawn parsed)
  | .emplaceSession drawn parsed =>
    (.created (some (parsed.setSessionId drawn.val)),
      ⟨sm.tlsFdToSessionId.emplace parsed.fd drawn.val, sm.sessions.emplace drawn.val (opened drawn parsed)⟩)
  | .emplaceIndex drawn parsed =>
    (.created (some (parsed.setSessionId drawn.val)),
      { sm with tlsFdToSessionId := sm.tlsFdToSessionId.emplace parsed.fd drawn.val })
  | .findErase sid => (.erased, sm.erase sid)
  | .eraseIndex sid fd => (.erased, ⟨sm.tlsFdToSessionId.erase fd, sm.sessions.erase sid⟩)
  | .eraseSession sid => (.erased, { sm with sessions := sm.sessions.erase sid })
  | .findSnapshot sid opcode => (.snapshot (sm.getTxSnapshot sid opcode), sm)
  | .copyTlsFd sid out =>
    (.snapshot (some (sm.copy sid out fun s out =>
      ⟨out.protocol, s.tlsFd, s.tcpFd, s.udpFd, s.connInfo⟩)), sm)
  | .copyTcpFd sid out =>
    (.snapshot (some (sm.copy sid out fun s out =>
      ⟨out.protocol, out.tlsFd, s.tcpFd, s.udpFd, s.connInfo⟩)), sm)
  | .copyUdpFd sid out =>
    (.snapshot (some (sm.copy sid out fun s out =>
      ⟨out.protocol, out.tlsFd, out.tcpFd, s.udpFd, s.connInfo⟩)), sm)
  | .copyConnInfo sid out =>
    (.snapshot (some (sm.copy sid out fun s out => { out with connInfo := s.connInfo })), sm)
  | .findState sid state => (.stateSet, sm.setState sid state)
  | .storeState sid state => (.stateSet, sm.modify sid fun s => s.setState state)

theorem modify_of_not_contains {sm : SessionManager} {sid : SessionId}
    (h : sm.sessions.contains sid = false) (f : Session → Session) : sm.modify sid f = sm := by
  rw [modify, Map.contains_eq_false.mp h]

theorem getTxSnapshot_eq (sm : SessionManager) (sid : SessionId) (opcode : Opcode) :
    sm.getTxSnapshot sid opcode = (sm.sessions.find sid).bind fun s =>
      (txProtocol opcode).map fun protocol => ⟨protocol, s.tlsFd, s.tcpFd, s.udpFd, s.connInfo⟩ := by
  unfold getTxSnapshot
  cases sm.sessions.find sid with
  | none => rfl
  | some s => cases opcode <;> rfl

/-- One access leaves the rest to be done. -/
theorem rest_access (sm : SessionManager) (pc : Pc) : rest sm pc = after rest (access sm pc) := by
  cases pc with
  | findBind parsed =>
    cases hfound : sm.sessions.contains parsed.sessionId with
    | true => simp [access, rest, after, hfound]
    | false => simp [access, rest, after, hfound, modify_of_not_contains hfound]
  | bindConnInfo parsed =>
    simp only [access, rest, after, modify_modify]
    rfl
  | count drawn parsed =>
    cases hdup : sm.tlsFdToSessionId.contains parsed.fd with
    | true => simp [access, rest, spec, create, after, hdup]
    | false => simp [access, rest, spec, create, opened, after, hdup]
  | findErase sid =>
    cases hfind : sm.sessions.find sid with
    | none => simp [access, rest, erase, after, hfind]
    | some s => simp [access, rest, erase, after, hfind]
  | findSnapshot sid opcode =>
    cases hfind : sm.sessions.find sid with
    | none => simp [access, rest, getTxSnapshot_eq, after, hfind, Map.contains]
    | some s =>
      cases hproto : txProtocol opcode with
      | none => simp [access, rest, getTxSnapshot_eq, after, hfind, hproto, Map.contains]
      | some protocol =>
        simp [access, rest, getTxSnapshot_eq, after, hfind, hproto, Map.contains, copy, blank]
  | copyTlsFd sid out | copyTcpFd sid out | copyUdpFd sid out =>
    simp only [access, rest, after, copy_copy]
  | findState sid state =>
    cases hfound : sm.sessions.contains sid with
    | true => simp [access, rest, after, hfound, setState_eq_modify]
    | false => simp [access, rest, after, hfound, setState_eq_modify, modify_of_not_contains hfound]
  | bindFd | emplaceSession | emplaceIndex | eraseIndex | eraseSession | copyConnInfo | storeState => rfl

theorem implements_spec : Implements code spec := by
  refine .of_rest rest (fun {op r} hearly sm => ?_) (fun {op} hearly sm => ?_) rest_access
  · cases op with
    | checkAndBind parsed =>
      simp only [code] at hearly
      split at hearly <;> cases hearly
      next hzero => simp [spec, checkAndBind, hzero]
    | _ => cases hearly
  · cases op with
    | checkAndBind parsed =>
      have hsid : parsed.sessionId ≠ 0 := by
        intro hzero
        simp [code, hzero] at hearly
      cases hfind : sm.sessions.find parsed.sessionId with
      | none => simp [spec, checkAndBind, rest, code, enter, modify, hsid, hfind, Map.contains]
      | some s => simp [spec, checkAndBind, rest, code, enter, modify, hsid, hfind, Map.contains]
    | _ => rfl

/-- However many threads call the session manager, and in whatever order they make their accesses,
    the answers and the table are those of the atomic operations, each of which takes place between
    its call and its return. -/
theorem threads_see_atomic_sessions {ι : Type} [DecidableEq ι] {acts : List (Act ι Op)}
    {s : System ι SessionManager Op Pc Answer} (hrun : run (step code) (init .empty) acts = some s) :
    ∃ sm, Refinement.exec (fun sm op => some (spec sm op)) .empty (s.log.map Prod.fst) =
        some (s.log.map Prod.snd, sm) ∧ (s.holder = none → s.shared = sm) ∧
      (∀ c ∈ s.returned, c.Ok s.log) ∧ (s.returned.map Call.pos).Nodup := by
  obtain ⟨⟨sm, hexec, hshared⟩, hcalls, hnodup⟩ := linearizable implements_spec hrun
  exact ⟨sm, hexec, hshared, hcalls, hnodup⟩

/-- A worker opens a session while a shard asks for it. -/
def contendedActs : List (Act Bool Op) :=
  let parsed : ParsedPacket :=
    { fd := 7
      connInfo := ⟨.tls, 0x0A000001, 40000, 0, 8000⟩
      version := .v1
      opcode := .loginReq
      flags := 0
      sessionId := 0
      payload := []
      bodyOffset := headerSize
      bodyLen := 0 }
  [.call false (.create ⟨9, by decide⟩ parsed), .call true (.getTxSnapshot 9 .loginSuccessRes),
    .lock false, .access false, .access false, .access false, .unlock false, .lock true,
    .access true, .access true, .access true, .ret false, .access true, .access true, .unlock true,
    .ret true]

theorem atomic_sessions_contended :
    ∃ s, run (step code) (init .empty) contendedActs = some s ∧ s.returned.length = 2 ∧
      ∃ sm, (s.holder = none → s.shared = sm) ∧ ∀ c ∈ s.returned, c.Ok s.log := by
  have hrun : run (step code) (init .empty) contendedActs = some _ := rfl
  obtain ⟨sm, -, hshared, hcalls, -⟩ := threads_see_atomic_sessions hrun
  exact ⟨_, hrun, rfl, sm, hshared, hcalls⟩

end Locked

end SessionManager

end NfEngine
