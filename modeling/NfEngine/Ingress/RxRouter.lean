-- SUMMARY: The receive router, and exactly when handling a packet is all-or-nothing.
import NfEngine.Execution.Event
import NfEngine.Session.SessionManager

/-!
# The receive router

`RxRouter::handlePacket` parses the header, creates or rebinds the session, and
only then parses the body. Its effect is a change of the session table followed
by at most one dispatch to a shard. The session table is changed before the body
has been looked at, so a packet with a bad body can leave a trace behind; the
last section says exactly which packets do not.
-/

namespace NfEngine

open Lib

/-- `ShardManager::dispatch`: the queue that receives the event, if any. -/
def ShardManager.dispatch (workerCount shardIdx : ℕ) (event : Event) : Option (ℕ × Event) :=
  if workerCount ≤ shardIdx then none else some (shardIdx, event)

namespace RxRouter

/-- `RxRouter::selectShard`. -/
def selectShard (workerCount : ℕ) (sid : SessionId) : ℕ := (sid >>> 32).toNat % workerCount

/-- The packet opens a session rather than naming one. -/
def opensSession (parsed : ParsedPacket) : Bool :=
  parsed.opcode = .loginReq ∧ parsed.sessionId = 0

/-- The session check of `handlePacket`: `create` or `checkAndBind`. -/
def checkSession (sm : SessionManager) (drawn : DrawnId) (parsed : ParsedPacket) :
    Option (SessionManager × ParsedPacket) :=
  if opensSession parsed then
    sm.create drawn parsed
  else
    (sm.checkAndBind parsed).map fun sm' => (sm', parsed)

/-- `RxRouter::handlePacket`: the session table after the call and the event
    dispatched, with its shard. -/
def handlePacket (workerCount : ℕ) (sm : SessionManager) (drawn : DrawnId) (packet : Packet) :
    SessionManager × Option (ℕ × Event) :=
  match PacketParser.parse packet with
  | none => (sm, none)
  | some parsed =>
    match checkSession sm drawn parsed with
    | none => (sm, none)
    | some (sm', parsed') =>
      if parsed'.sessionId = 0 then
        (sm', none)
      else
        let shardIdx := selectShard workerCount parsed'.sessionId
        match EventFactory.create parsed' with
        | none => (sm', none)
        | some event => (sm', ShardManager.dispatch workerCount shardIdx event)

/-! ## The cases of a call -/

theorem checkSession_eq_some {sm sm' : SessionManager} {drawn : DrawnId} {parsed parsed' : ParsedPacket} :
    checkSession sm drawn parsed = some (sm', parsed') ↔
      (opensSession parsed = true ∧ sm.create drawn parsed = some (sm', parsed')) ∨
        (opensSession parsed = false ∧ sm.checkAndBind parsed = some sm' ∧ parsed' = parsed) := by
  unfold checkSession
  cases hopen : opensSession parsed with
  | true => simp
  | false => simp [eq_comm]

/-- The test for a zero session id after the session check never fires. -/
theorem sessionId_ne_zero_of_checkSession {sm sm' : SessionManager} {drawn : DrawnId}
    {parsed parsed' : ParsedPacket} (h : checkSession sm drawn parsed = some (sm', parsed')) :
    parsed'.sessionId ≠ 0 := by
  rcases checkSession_eq_some.mp h with ⟨_, hcreate⟩ | ⟨_, hbind, rfl⟩
  · obtain ⟨_, _, rfl⟩ := SessionManager.create_eq_some.mp hcreate
    exact drawn.property
  · exact (SessionManager.checkAndBind_eq_some.mp hbind).1

theorem selectShard_lt {workerCount : ℕ} (hw : 0 < workerCount) (sid : SessionId) :
    selectShard workerCount sid < workerCount := Nat.mod_lt _ hw

theorem dispatch_selectShard {workerCount : ℕ} (hw : 0 < workerCount) (sid : SessionId)
    (event : Event) :
    ShardManager.dispatch workerCount (selectShard workerCount sid) event =
      some (selectShard workerCount sid, event) := by
  have hlt := selectShard_lt hw sid
  simp [ShardManager.dispatch, Nat.not_le.mpr hlt]

theorem handlePacket_of_unparsed {workerCount : ℕ} {sm : SessionManager} {drawn : DrawnId}
    {packet : Packet} (hp : PacketParser.parse packet = none) :
    handlePacket workerCount sm drawn packet = (sm, none) := by
  simp [handlePacket, hp]

theorem handlePacket_of_refused {workerCount : ℕ} {sm : SessionManager} {drawn : DrawnId}
    {packet : Packet} {parsed : ParsedPacket} (hp : PacketParser.parse packet = some parsed)
    (ha : checkSession sm drawn parsed = none) :
    handlePacket workerCount sm drawn packet = (sm, none) := by
  simp [handlePacket, hp, ha]

theorem handlePacket_of_checkSession {workerCount : ℕ} (hw : 0 < workerCount) {sm sm' : SessionManager}
    {drawn : DrawnId} {packet : Packet} {parsed parsed' : ParsedPacket}
    (hp : PacketParser.parse packet = some parsed)
    (ha : checkSession sm drawn parsed = some (sm', parsed')) :
    handlePacket workerCount sm drawn packet =
      (sm', (EventFactory.create parsed').map fun event =>
        (selectShard workerCount parsed'.sessionId, event)) := by
  have hsid := sessionId_ne_zero_of_checkSession ha
  cases hev : EventFactory.create parsed' with
  | none => simp [handlePacket, hp, ha, hsid, hev]
  | some event => simp [handlePacket, hp, ha, hsid, hev, dispatch_selectShard hw]

/-! ## All or nothing -/

/-- The call dispatches its event to the shard of the event's session, or leaves
    the session table as it was. -/
def AllOrNothing (workerCount : ℕ) (sm : SessionManager) (drawn : DrawnId) (packet : Packet) :
    Prop :=
  (∃ sid event, event.sessionId? = some sid ∧ (handlePacket workerCount sm drawn packet).2 =
      some (selectShard workerCount sid, event)) ∨
    (handlePacket workerCount sm drawn packet).1 = sm

/-- A packet that cannot leave a trace: its header is rejected, or its body is
    accepted, or the session check refuses it, or rebinding the session it names
    writes what is already there. -/
def Clean (sm : SessionManager) (packet : Packet) : Prop :=
  ∀ parsed, PacketParser.parse packet = some parsed →
    (EventFactory.create parsed).isSome = true ∨
      if opensSession parsed then
        sm.tlsFdToSessionId.contains parsed.fd = true
      else
        parsed.sessionId = 0 ∨
          ∀ s, sm.sessions.find parsed.sessionId = some s → s.bind parsed = s

/-- Whether a body is accepted does not depend on the session id, so a body can
    be judged before `create` has drawn one. -/
theorem create_isSome_setSessionId (parsed : ParsedPacket) (sid : SessionId) :
    (EventFactory.create (parsed.setSessionId sid)).isSome = (EventFactory.create parsed).isSome := by
  unfold EventFactory.create
  cases hop : parsed.opcode <;> simp only [ParsedPacket.setSessionId, hop]
  case loginReq =>
    simp only [LoginParser.deserialize, LoginParser.parseLoginReq, hop]
    repeat' split
    all_goals rfl
  case lobbyEntryReq =>
    simp only [LobbyParser.deserialize, LobbyParser.parseLobbyEntryReq, hop]
    repeat' split
    all_goals rfl
  case pingReq =>
    simp only [PingParser.deserialize, PingParser.parsePingReq, hop]
    repeat' split
    all_goals rfl

/-- A refused packet is clean. -/
private theorem clean_of_refused {sm : SessionManager} {drawn : DrawnId} {parsed : ParsedPacket}
    (ha : checkSession sm drawn parsed = none) :
    if opensSession parsed then
      sm.tlsFdToSessionId.contains parsed.fd = true
    else
      parsed.sessionId = 0 ∨
        ∀ s, sm.sessions.find parsed.sessionId = some s → s.bind parsed = s := by
  cases hopen : opensSession parsed with
  | true =>
    simp only [checkSession, hopen, if_true, SessionManager.create] at ha
    split at ha
    · assumption
    · cases ha
  | false =>
    simp only [checkSession, hopen, Bool.false_eq_true, if_false, Option.map_eq_none_iff,
      SessionManager.checkAndBind] at ha
    split at ha
    · exact .inl ‹_›
    · split at ha
      · refine .inr fun s hs => ?_
        simp_all
      · cases ha

/-- When the body is rejected after the session check, the table is the old one
    exactly for a packet whose rebinding writes what is already there: creating a
    session always shows in the index. -/
private theorem unchanged_iff_of_checkSession {sm sm' : SessionManager} {drawn : DrawnId}
    {parsed parsed' : ParsedPacket} (ha : checkSession sm drawn parsed = some (sm', parsed')) :
    sm' = sm ↔
      if opensSession parsed then
        sm.tlsFdToSessionId.contains parsed.fd = true
      else
        parsed.sessionId = 0 ∨
          ∀ s, sm.sessions.find parsed.sessionId = some s → s.bind parsed = s := by
  rcases checkSession_eq_some.mp ha with ⟨hopen, hcreate⟩ | ⟨hopen, hbind, rfl⟩
  · obtain ⟨hfd, rfl, rfl⟩ := SessionManager.create_eq_some.mp hcreate
    have hidx : sm.tlsFdToSessionId.contains parsed.fd = false := Map.contains_eq_false.mpr hfd
    simp only [hopen, if_true, hidx, Bool.false_eq_true, iff_false]
    intro heq
    have hsame := congrArg (fun t => t.tlsFdToSessionId.find parsed.fd) heq
    simp [hfd] at hsame
  · obtain ⟨hsid, s, hs, rfl⟩ := SessionManager.checkAndBind_eq_some.mp hbind
    simp only [hopen, Bool.false_eq_true, if_false, hsid, false_or, hs, Option.some.injEq,
      forall_eq']
    constructor
    · intro heq
      have hins := congrArg SessionManager.sessions heq
      have hfind := Map.insert_eq_self.mp hins
      rw [hs] at hfind
      exact (Option.some.inj hfind).symm
    · intro hb
      rw [hb, Map.insert_eq_self.mpr hs]

/-- Handling a packet is all-or-nothing exactly for the clean packets. -/
theorem allOrNothing_iff_clean {workerCount : ℕ} (hw : 0 < workerCount) (sm : SessionManager)
    (drawn : DrawnId) (packet : Packet) :
    AllOrNothing workerCount sm drawn packet ↔ Clean sm packet := by
  cases hp : PacketParser.parse packet with
  | none =>
    simp [AllOrNothing, Clean, hp, handlePacket_of_unparsed hp]
  | some parsed =>
    cases ha : checkSession sm drawn parsed with
    | none =>
      have hclean : Clean sm packet := by
        intro parsed₁ h₁
        rw [hp] at h₁
        cases h₁
        exact .inr (clean_of_refused ha)
      simp [AllOrNothing, hclean, handlePacket_of_refused hp ha]
    | some out =>
      obtain ⟨sm', parsed'⟩ := out
      have hbody : (EventFactory.create parsed').isSome = (EventFactory.create parsed).isSome := by
        rcases checkSession_eq_some.mp ha with ⟨_, hcreate⟩ | ⟨_, _, rfl⟩
        · obtain ⟨_, _, rfl⟩ := SessionManager.create_eq_some.mp hcreate
          exact create_isSome_setSessionId parsed _
        · rfl
      cases hev : EventFactory.create parsed' with
      | some event =>
        have hsome : (EventFactory.create parsed).isSome = true := by rw [← hbody, hev]; rfl
        have hclean : Clean sm packet := by
          intro parsed₁ h₁
          rw [hp] at h₁
          cases h₁
          exact .inl hsome
        refine iff_of_true (.inl ⟨parsed'.sessionId, event, ?_, ?_⟩) hclean
        · exact (EventFactory.create_origin hev).1
        · simp [handlePacket_of_checkSession hw hp ha, hev]
      | none =>
        have hnone : (EventFactory.create parsed).isSome = false := by rw [← hbody, hev]; rfl
        simp only [AllOrNothing, Clean, hp, handlePacket_of_checkSession hw hp ha, hev, Option.map_none,
          reduceCtorEq, and_false, exists_false, false_or, Option.some.injEq, forall_eq', hnone,
          Bool.false_eq_true]
        exact unchanged_iff_of_checkSession ha

/-- A `LOGIN_REQ` over TLS that announces an empty body. -/
def loginWithoutBody : Packet :=
  .make 7 .tls ([0x01, 0x10, 0x00, 0x00] ++ List.replicate 12 0) ⟨0x0A000001, 40000⟩ ⟨0, 8000⟩

/-- The `LOGIN_REQ` of the simulator's client, on the same connection. -/
def loginTest : Packet :=
  .make 7 .tls
    ([0x01, 0x10, 0x00, 0x0C] ++ List.replicate 12 0 ++
      [0x00, 0x04, 0x74, 0x65, 0x73, 0x74, 0x00, 0x04, 0x74, 0x65, 0x73, 0x74])
    ⟨0x0A000001, 40000⟩ ⟨0, 8000⟩

theorem allOrNothing_loginTest :
    AllOrNothing 4 .empty ⟨1, by decide⟩ loginTest ∧ Clean .empty loginTest := by
  have hclean : Clean .empty loginTest := by
    intro parsed hp
    have hparsed : parsed = (PacketParser.parse loginTest).get (by decide) := by simp [hp]
    subst hparsed
    exact .inl (by decide)
  exact ⟨(allOrNothing_iff_clean (by decide) _ _ _).mpr hclean, hclean⟩

/-- A login without a body leaves its session behind, and the correct login that
    follows on the same connection is refused. -/
theorem loginWithoutBody_not_allOrNothing :
    ¬ AllOrNothing 4 .empty ⟨1, by decide⟩ loginWithoutBody ∧
      (handlePacket 4 .empty ⟨1, by decide⟩ loginWithoutBody).1.sessions.contains 1 = true ∧
      (handlePacket 4 .empty ⟨2, by decide⟩ loginTest).2.isSome = true ∧
      (handlePacket 4 (handlePacket 4 .empty ⟨1, by decide⟩ loginWithoutBody).1 ⟨2, by decide⟩
        loginTest).2 = none := by
  refine ⟨?_, by decide, by decide, by decide⟩
  rintro (⟨sid, event, _, hdisp⟩ | hsame)
  · have hnone : (handlePacket 4 .empty ⟨1, by decide⟩ loginWithoutBody).2 = none := by decide
    rw [hnone] at hdisp
    cases hdisp
  · have hleft : (handlePacket 4 .empty ⟨1, by decide⟩ loginWithoutBody).1.sessions.contains 1 =
        true := by decide
    rw [hsame] at hleft
    exact absurd hleft (by decide)

end RxRouter

end NfEngine
