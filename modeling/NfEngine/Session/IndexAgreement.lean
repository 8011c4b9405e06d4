-- SUMMARY: When the duplicate-login index and the session table agree, over whole runs.
import NfEngine.Egress.TxRouter
import NfEngine.Ingress.RxRouter
import NfEngine.Lib.Transition

/-!
# The duplicate-login index

`m_tlsFdToSessionId` should list the TLS descriptors of the live sessions. The
three operations that maintain the two maps do not look at the same descriptor:
`create` indexes the descriptor of the packet whatever its protocol, `bind`
moves the session's TLS descriptor without touching the index, and `erase` drops
the entry of the descriptor the session has by then. The main result finds the
runs along which the maps agree nevertheless.
-/

namespace NfEngine

open Lib Lib.Transition

namespace SessionManager

/-- The index and the table agree, no two sessions share a TLS descriptor, and
    erasing a session leaves no entry that points at it. -/
structure Agrees (sm : SessionManager) : Prop where
  index : ∀ fd sid, sm.tlsFdToSessionId.find fd = some sid ↔
    ∃ s, sm.sessions.find sid = some s ∧ s.tlsFd = fd ∧ fd ≠ -1
  unique : ∀ sid sid' s s', sm.sessions.find sid = some s → sm.sessions.find sid' = some s' →
    s.tlsFd = s'.tlsFd → s.tlsFd ≠ -1 → sid = sid'
  erased : ∀ sid fd, (sm.erase sid).tlsFdToSessionId.find fd ≠ some sid

/-- The other two facts follow from the agreement of the maps. -/
theorem Agrees.of_index {sm : SessionManager}
    (h : ∀ fd sid, sm.tlsFdToSessionId.find fd = some sid ↔
      ∃ s, sm.sessions.find sid = some s ∧ s.tlsFd = fd ∧ fd ≠ -1) : sm.Agrees := by
  refine ⟨h, ?_, ?_⟩
  · intro sid sid' s s' hs hs' hfd hne
    have h₁ := (h s.tlsFd sid).mpr ⟨s, hs, rfl, hne⟩
    have h₂ := (h s.tlsFd sid').mpr ⟨s', hs', hfd.symm, hne⟩
    rw [h₁] at h₂
    exact Option.some.inj h₂
  · intro sid fd hfd
    unfold erase at hfd
    cases hs : sm.sessions.find sid with
    | none =>
      simp only [hs] at hfd
      obtain ⟨s, hs', _⟩ := (h fd sid).mp hfd
      rw [hs] at hs'
      cases hs'
    | some s =>
      simp only [hs] at hfd
      obtain ⟨hne, hfd'⟩ := Map.find_erase_eq_some.mp hfd
      obtain ⟨s', hs', htls, _⟩ := (h fd sid).mp hfd'
      rw [hs] at hs'
      cases hs'
      exact hne htls.symm

theorem agrees_empty : empty.Agrees := .of_index (by simp [empty])

/-! ## Runs of the session table -/

/-- One use of the table by the routers. -/
inductive Op where
  /-- `RxRouter::handlePacket` on a parsed packet, with the id that would be drawn. -/
  | rx (drawn : DrawnId) (parsed : ParsedPacket)
  /-- The state change of `TxRouter::handlePacket`. -/
  | tx (sid : SessionId) (opcode : Opcode)

/-- One step; drawing the id of a live session is left out. -/
def stepOp (sm : SessionManager) : Op → Option SessionManager
  | .rx drawn parsed =>
    if RxRouter.opensSession parsed ∧ sm.sessions.contains drawn.val then
      none
    else
      some (((RxRouter.checkSession sm drawn parsed).map Prod.fst).getD sm)
  | .tx sid opcode => some (TxRouter.updateState sm sid opcode)

/-- The step does not take the index and the table apart: a session is opened by
    a TLS packet on a real descriptor, and a TLS packet that names a session
    comes in on the descriptor the session already has. -/
def KeepsIndex (sm : SessionManager) : Op → Prop
  | .rx _ parsed =>
    if RxRouter.opensSession parsed then
      sm.tlsFdToSessionId.contains parsed.fd = true ∨
        (parsed.connInfo.protocol = .tls ∧ parsed.fd ≠ -1)
    else
      parsed.sessionId = 0 ∨ parsed.connInfo.protocol ≠ .tls ∨
        ∀ s, sm.sessions.find parsed.sessionId = some s → parsed.fd = s.tlsFd
  | .tx _ _ => True

/-! ## What each step does to the agreement -/

/-- The agreement only looks at the index and at the TLS descriptors. -/
theorem Agrees.congr {sm sm' : SessionManager} (h : sm.Agrees)
    (hidx : sm'.tlsFdToSessionId = sm.tlsFdToSessionId)
    (htls : ∀ sid, (sm'.sessions.find sid).map Session.tlsFd =
      (sm.sessions.find sid).map Session.tlsFd) : sm'.Agrees := by
  have hexists : ∀ (t : SessionManager) fd sid,
      (∃ s, t.sessions.find sid = some s ∧ s.tlsFd = fd ∧ fd ≠ -1) ↔
        (t.sessions.find sid).map Session.tlsFd = some fd ∧ fd ≠ -1 := by
    intro t fd sid
    simp only [Option.map_eq_some_iff]
    constructor
    · rintro ⟨s, hs, htls, hne⟩
      exact ⟨⟨s, hs, htls⟩, hne⟩
    · rintro ⟨⟨s, hs, htls⟩, hne⟩
      exact ⟨s, hs, htls, hne⟩
  refine .of_index fun fd sid => ?_
  rw [hidx, h.index fd sid, hexists, hexists, htls]

theorem Agrees.setState {sm : SessionManager} (h : sm.Agrees) (sid : SessionId)
    (state : SessionState) : (sm.setState sid state).Agrees := by
  refine h.congr (tlsFdToSessionId_setState sm sid state) fun sid' => ?_
  rw [find_setState]
  split
  next hsid =>
    subst hsid
    cases sm.sessions.find sid' <;> rfl
  next => rfl

theorem Agrees.erase {sm : SessionManager} (h : sm.Agrees) (sid : SessionId) :
    (sm.erase sid).Agrees := by
  unfold SessionManager.erase
  cases hs : sm.sessions.find sid with
  | none => exact h
  | some s =>
    refine .of_index fun fd sid' => ?_
    simp only [Map.find_erase]
    by_cases hsid : sid' = sid
    · -- the erased session itself: its entry, if any, was under its own descriptor
      subst hsid
      simp only [if_true, reduceCtorEq, false_and, exists_false, iff_false]
      split
      · simp
      · rename_i hfd
        rw [h.index fd sid']
        rintro ⟨s', hs', htls, _⟩
        rw [hs] at hs'
        cases hs'
        exact hfd htls.symm
    · simp only [hsid, if_false]
      split
      · -- the removed entry belonged to no other session
        rename_i hfd
        subst hfd
        simp only [reduceCtorEq, false_iff, not_exists, not_and]
        intro s' hs' htls
        by_contra hne
        exact hsid (h.unique sid' sid s' s hs' hs htls (htls ▸ hne))
      · exact h.index fd sid'

theorem Agrees.updateState {sm : SessionManager} (h : sm.Agrees) (sid : SessionId)
    (opcode : Opcode) : (TxRouter.updateState sm sid opcode).Agrees := by
  unfold TxRouter.updateState
  split
  · exact h.setState sid .auth
  · exact h.erase sid
  · exact h.setState sid .inWorld
  · exact h

/-- Opening a session keeps the maps together exactly over TLS. -/
theorem Agrees.create_iff {sm : SessionManager} (h : sm.Agrees) {drawn : DrawnId}
    {parsed : ParsedPacket} (hfd : sm.tlsFdToSessionId.find parsed.fd = none)
    (hfresh : sm.sessions.find drawn.val = none) :
    (SessionManager.mk (sm.tlsFdToSessionId.insert parsed.fd drawn.val)
        (sm.sessions.insert drawn.val (opened drawn parsed))).Agrees ↔
      parsed.connInfo.protocol = .tls ∧ parsed.fd ≠ -1 := by
  have htls : (opened drawn parsed).tlsFd =
      if parsed.connInfo.protocol = .tls then parsed.fd else -1 := by
    simp [opened, Session.setState, Session.bind_tlsFd, Session.new]
  constructor
  · intro h'
    obtain ⟨s, hs, hsfd, hne⟩ := (h'.index parsed.fd drawn.val).mp (by simp)
    simp only [Map.find_insert_same, Option.some.injEq] at hs
    subst hs
    rw [htls] at hsfd
    split at hsfd
    · exact ⟨‹_›, hne⟩
    · exact absurd hsfd.symm hne
  · rintro ⟨hproto, hne⟩
    rw [if_pos hproto] at htls
    refine .of_index fun fd sid => ?_
    simp only [Map.find_insert]
    by_cases hsid : sid = drawn.val
    · subst hsid
      by_cases hf : fd = parsed.fd
      · subst hf
        simp [htls, hne]
      · simp only [hf, if_false, if_true, Option.some.injEq, exists_eq_left', htls]
        constructor
        · intro hold
          obtain ⟨s, hs, _⟩ := (h.index fd _).mp hold
          rw [hfresh] at hs
          cases hs
        · rintro ⟨heq, _⟩
          exact absurd heq.symm hf
    · by_cases hf : fd = parsed.fd
      · subst hf
        simp only [if_true, Option.some.injEq, hsid, if_false, Ne.symm hsid, false_iff]
        intro hold
        rw [(h.index parsed.fd sid).mpr hold] at hfd
        cases hfd
      · simp only [hf, hsid, if_false]
        exact h.index fd sid

/-- Rebinding a session keeps the maps together exactly when it does not move
    the session's TLS descriptor. -/
theorem Agrees.bind_iff {sm : SessionManager} (h : sm.Agrees) {parsed : ParsedPacket} {s : Session}
    (hs : sm.sessions.find parsed.sessionId = some s) :
    (SessionManager.mk sm.tlsFdToSessionId
        (sm.sessions.insert parsed.sessionId (s.bind parsed))).Agrees ↔
      parsed.connInfo.protocol ≠ .tls ∨ parsed.fd = s.tlsFd := by
  constructor
  · intro h'
    by_contra hmoved
    push Not at hmoved
    obtain ⟨hproto, hfd⟩ := hmoved
    have htls : (s.bind parsed).tlsFd = parsed.fd := by rw [Session.bind_tlsFd, if_pos hproto]
    by_cases hne : parsed.fd = -1
    · -- the old descriptor is still indexed for the session
      have hold := (h.index s.tlsFd parsed.sessionId).mpr ⟨s, hs, rfl, fun h => hfd (hne.trans h.symm)⟩
      obtain ⟨s', hs', hs'fd, _⟩ := (h'.index s.tlsFd parsed.sessionId).mp hold
      simp only [Map.find_insert_same, Option.some.injEq] at hs'
      subst hs'
      exact hfd (htls.symm.trans hs'fd)
    · -- the new descriptor is not indexed for the session
      have hnew := (h'.index parsed.fd parsed.sessionId).mpr ⟨s.bind parsed, by simp, htls, hne⟩
      obtain ⟨s', hs', hs'fd, _⟩ := (h.index parsed.fd parsed.sessionId).mp hnew
      rw [hs] at hs'
      cases hs'
      exact hfd hs'fd.symm
  · intro hkeep
    refine h.congr rfl fun sid => ?_
    by_cases hsid : sid = parsed.sessionId
    · subst hsid
      simp only [Map.find_insert_same, hs, Option.map_some, Option.some.injEq, Session.bind_tlsFd]
      split
      · exact hkeep.resolve_left (not_not_intro ‹_›)
      · rfl
    · simp [hsid]

/-- The received packets of a step: refused, or one of the two cases above. -/
private theorem rx_agrees_iff {sm sm' : SessionManager} (h : sm.Agrees) {drawn : DrawnId}
    {parsed : ParsedPacket} (hstep : stepOp sm (.rx drawn parsed) = some sm') :
    sm'.Agrees ↔ sm.KeepsIndex (.rx drawn parsed) := by
  simp only [stepOp] at hstep
  split at hstep
  · cases hstep
  · rename_i hlive
    simp only [Option.some.injEq] at hstep
    subst hstep
    simp only [KeepsIndex, RxRouter.checkSession]
    cases hopen : RxRouter.opensSession parsed with
    | true =>
      simp only [hopen, true_and, Bool.not_eq_true, Map.contains_eq_false] at hlive
      cases hfd : sm.tlsFdToSessionId.find parsed.fd with
      | some sid =>
        have hc := Map.contains_eq_true.mpr ⟨sid, hfd⟩
        simp [SessionManager.create, hc, h]
      | none =>
        have hc := Map.contains_eq_false.mpr hfd
        simp only [if_true, SessionManager.create, hc, Bool.false_eq_true, if_false, Option.map_some,
          Option.getD_some, Map.emplace_of_find_none hfd, Map.emplace_of_find_none hlive, false_or]
        exact h.create_iff hfd hlive
    | false =>
      simp only [Bool.false_eq_true, if_false, checkAndBind]
      by_cases hsid : parsed.sessionId = 0
      · simp [hsid, h]
      · cases hs : sm.sessions.find parsed.sessionId with
        | none => simp [hsid, h]
        | some s => simpa [hsid] using h.bind_iff hs

theorem stepOp_agrees_iff (sm : SessionManager) (op : Op) (sm' : SessionManager) (h : sm.Agrees)
    (hstep : stepOp sm op = some sm') : sm'.Agrees ↔ sm.KeepsIndex op := by
  cases op with
  | rx drawn parsed => exact rx_agrees_iff h hstep
  | tx sid opcode =>
    cases hstep
    exact iff_of_true (h.updateState sid opcode) trivial

/-- The runs along which the index and the table agree in every state are the
    runs whose every step keeps the index. -/
theorem always_agrees_iff_keepsIndex {ops : List Op} {sm : SessionManager}
    (hrun : run stepOp empty ops = some sm) :
    Always stepOp Agrees empty ops ↔ Along stepOp KeepsIndex empty ops :=
  always_iff_along stepOp_agrees_iff agrees_empty hrun

/-- A parsed request that carries no body. -/
def request (proto : Protocol) (fd : Int) (opcode : Opcode) (sid : SessionId) : ParsedPacket :=
  { fd := fd
    connInfo := ⟨proto, 0x0A000001, 40000, 0, 8000⟩
    version := .v1
    opcode := opcode
    flags := 0
    sessionId := sid
    payload := [0x01, opcode.toByte] ++ List.replicate 14 0
    bodyOffset := headerSize
    bodyLen := 0 }

/-- Login over TLS, rebinding over TCP, success, and the failure of a second
    login of the same session. -/
theorem always_agrees_tls_login :
    Always stepOp Agrees empty
      [.rx ⟨1, by decide⟩ (request .tls 7 .loginReq 0), .rx ⟨2, by decide⟩ (request .tcp 8 .pingReq 1),
        .tx 1 .loginSuccessRes, .tx 1 .loginFailRes] := by
  refine (always_agrees_iff_keepsIndex rfl).mpr ⟨?_, fun _ h₁ => ?_⟩
  · exact .inr ⟨rfl, by decide⟩
  · cases h₁
    refine ⟨.inr (.inl (by decide)), fun _ h₂ => ?_⟩
    cases h₂
    exact ⟨trivial, fun _ _ => ⟨trivial, fun _ _ => trivial⟩⟩

/-- A login that arrives over UDP on the server's socket is indexed under that
    socket although its session has no TLS descriptor, and the entry outlives the
    session. -/
theorem not_agrees_udp_login :
    (∃ sm, run stepOp empty [.rx ⟨1, by decide⟩ (request .udp 4 .loginReq 0)] = some sm ∧
        ¬ sm.Agrees) ∧
      ∃ sm, run stepOp empty [.rx ⟨1, by decide⟩ (request .udp 4 .loginReq 0),
          .tx 1 .loginFailRes] = some sm ∧
        sm.sessions.find 1 = none ∧ sm.tlsFdToSessionId.find 4 = some 1 := by
  refine ⟨⟨_, rfl, fun h => ?_⟩, _, rfl, rfl, rfl⟩
  obtain ⟨s, hs, htls, _⟩ := (h.index 4 1).mp rfl
  cases hs
  exact absurd htls (by decide)

end SessionManager

end NfEngine
