-- SUMMARY: What stands behind the state of a session: accepted credentials behind an authenticated one, refused ones behind one that is gone.
import NfEngine.Db.DbManager
import NfEngine.Server.Answers
import NfEngine.Server.Lifecycle

/-!
# Authentication

A session changes its state when a shard carries out the action of an event that it has
handled. Each of these events is that of a packet accepted under the session, so every
state of a session is backed by a packet of its own: an authenticated session by a
`LOGIN_REQ` with credentials that the database accepted when the shard asked it, one in
the world by a `LOBBY_ENTRY_REQ`. A session goes away only by a `LOGIN_REQ` of its own with
refused credentials; closing its connections does not remove it.

`main` reads the option that turns the database on or off and does not pass it on, so that
the server always runs without a database and knows one account.
-/

namespace NfEngine

open Lib Lib.Transition Lib.Provenance

/-! ## Credentials -/

/-- The credentials that `LoginContext::loginReqEvent` accepts. -/
def LoginContext.Accepts (db : AccountDb) (id pw : List UInt8) : Prop :=
  match db with
  | some getAccountPassword => getAccountPassword id = some pw
  | none => id = testName ∧ pw = testName

/-- A login is answered by success if the credentials are accepted, and by failure if not. -/
theorem LoginContext.loginReqEvent_cases (db : AccountDb) (sid : SessionId) (id pw : List UInt8) :
    (Accepts db id pw ∧ loginReqEvent db sid id pw = some (.loginSuccessRes sid)) ∨
      (¬ Accepts db id pw ∧ loginReqEvent db sid id pw = some (.loginFailRes sid)) := by
  cases db with
  | none =>
    by_cases htest : id = testName ∧ pw = testName
    · exact .inl ⟨htest, by simp [loginReqEvent, htest, ActionFactory.create]⟩
    · exact .inr ⟨htest, by simp [loginReqEvent, htest, ActionFactory.create]⟩
  | some getAccountPassword =>
    by_cases hverify : verify getAccountPassword id pw = true
    · exact .inl ⟨verify_eq_true.mp hverify, by simp [loginReqEvent, hverify, ActionFactory.create]⟩
    · refine .inr ⟨fun haccepts => hverify (verify_eq_true.mpr haccepts), ?_⟩
      simp [loginReqEvent, hverify, ActionFactory.create]

/-- The packet is a `LOGIN_REQ` with these credentials, and opens the session that it was
    accepted under or names it. -/
def Acceptance.LogsIn (acceptance : Acceptance) (id pw : List UInt8) : Prop :=
  ∃ parsed payload, PacketParser.parse acceptance.packet = some parsed ∧ parsed.opcode = .loginReq ∧
    (parsed.sessionId = 0 ∨ parsed.sessionId = acceptance.sid) ∧
    EventFactory.create (parsed.setSessionId acceptance.sid) =
      some (.loginReq acceptance.sid payload id pw)

/-- The packet is a `LOBBY_ENTRY_REQ` that names the session. -/
def Packet.EntersLobby (packet : Packet) (sid : SessionId) : Prop :=
  ∃ parsed, PacketParser.parse packet = some parsed ∧ parsed.opcode = .lobbyEntryReq ∧
    parsed.sessionId = sid

namespace Acceptance.Requests

variable {acceptance : Acceptance} {sid : SessionId} {payload : List UInt8}

theorem logsIn {id pw : List UInt8} (h : acceptance.Requests (.loginReq sid payload id pw)) :
    acceptance.LogsIn id pw := by
  have hsid := h.sessionId
  obtain ⟨parsed, hparse, hnamed, hcreate⟩ := h
  cases hsid
  refine ⟨parsed, payload, hparse, ?_, ?_, hcreate⟩
  · exact (Option.some.inj (EventFactory.create_origin hcreate).2).symm
  · by_cases hzero : parsed.sessionId = 0
    · exact .inl hzero
    · exact .inr (hnamed (by simp [RxRouter.opensSession, hzero]))

theorem entersLobby (h : acceptance.Requests (.lobbyEntryReq sid payload)) :
    acceptance.packet.EntersLobby sid := by
  have hsid := h.sessionId
  obtain ⟨parsed, hparse, hnamed, hcreate⟩ := h
  cases hsid
  have hlobby : parsed.opcode = .lobbyEntryReq :=
    (Option.some.inj (EventFactory.create_origin hcreate).2).symm
  exact ⟨parsed, hparse, hlobby, hnamed (by simp [RxRouter.opensSession, hlobby])⟩

end Acceptance.Requests

namespace Handling.Commits

variable {handling : Handling} {sid : SessionId}

/-- What a login action says about its event and the database. -/
theorem login {action : Action} (h : handling.Commits action)
    (haction : action = .loginSuccessRes sid ∨ action = .loginFailRes sid) :
    ∃ payload id pw, handling.event = .loginReq sid payload id pw ∧
      (LoginContext.Accepts handling.db id pw ↔ action = .loginSuccessRes sid) := by
  obtain ⟨event, db⟩ := handling
  cases event with
  | loginReq sid' payload id pw =>
    simp only [Handling.Commits, Event.handleEvent] at h
    rcases LoginContext.loginReqEvent_cases db sid' id pw with ⟨hacc, heq⟩ | ⟨hacc, heq⟩
    · rw [heq] at h
      cases h
      obtain rfl : sid' = sid := by simpa using haction
      exact ⟨payload, id, pw, rfl, iff_of_true hacc rfl⟩
    · rw [heq] at h
      cases h
      obtain rfl : sid' = sid := by simpa using haction
      exact ⟨payload, id, pw, rfl, iff_of_false hacc (by simp)⟩
  | lobbyEntryReq sid' payload =>
    cases h
    simp at haction
  | pingReq sid' payload nonce clientTs =>
    cases h
    simp at haction
  | marketDumpReq => cases h

theorem lobby (h : handling.Commits (.lobbyEntryRes sid)) :
    ∃ payload, handling.event = .lobbyEntryReq sid payload := by
  obtain ⟨event, db⟩ := handling
  cases event with
  | loginReq sid' payload id pw =>
    rcases LoginContext.loginReqEvent_cases db sid' id pw with ⟨-, heq⟩ | ⟨-, heq⟩
    all_goals
      simp only [Handling.Commits, Event.handleEvent, heq] at h
      cases h
  | lobbyEntryReq sid' payload =>
    cases h
    exact ⟨payload, rfl⟩
  | pingReq sid' payload nonce clientTs => cases h
  | marketDumpReq => cases h

end Handling.Commits

namespace Server.Exchange

variable {cfg : ServerConfig} {e e' : Exchange cfg} {a : Act cfg}

/-! ## What stands behind a state -/

/-- A shard has handled an event whose handler committed the action. -/
def Committed (e : Exchange cfg) (action : Action) : Prop :=
  ∃ k, ∃ handling ∈ e.handled k, handling.Commits action

/-- What a session owes its state to. -/
def Backed (e : Exchange cfg) (sid : SessionId) : SessionState → Prop
  | .preAuth => ∃ acceptance ∈ e.accepted, acceptance.sid = sid ∧
      ∃ parsed, PacketParser.parse acceptance.packet = some parsed ∧ RxRouter.opensSession parsed = true
  | .auth => e.Committed (.loginSuccessRes sid)
  | .inWorld => e.Committed (.lobbyEntryRes sid)
  | .closed | .unknown => False

theorem Committed.step {action : Action} (h : e.Committed action) (hstep : e.step a = some e') :
    e'.Committed action := by
  obtain ⟨k, handling, hmem, hcommits⟩ := h
  refine ⟨k, handling, ?_, hcommits⟩
  cases moves_of_step hstep with
  | @handleEvent k' db event events hk =>
    by_cases heq : k = k'
    · subst heq
      simp only [Function.update_self]
      exact List.mem_append_left _ hmem
    · simpa only [Function.update_of_ne heq] using hmem
  | _ => exact hmem

theorem Backed.step {sid : SessionId} {state : SessionState} (h : e.Backed sid state)
    (hstep : e.step a = some e') : e'.Backed sid state := by
  cases state with
  | preAuth =>
    obtain ⟨acceptance, hmem, hrest⟩ := h
    refine ⟨acceptance, ?_, hrest⟩
    cases moves_of_step hstep with
    | route => exact List.mem_append_left _ hmem
    | _ => exact hmem
  | auth => exact Committed.step h hstep
  | inWorld => exact Committed.step h hstep
  | closed | unknown => exact h

structure AuthInv (e : Exchange cfg) : Prop where
  traced : e.Traced
  backed : ∀ sid state, e.server.sessions.stateOf sid = some state → e.Backed sid state

theorem authInv_init : (init cfg).AuthInv where
  traced := traced_init
  backed _ _ h := by cases h

/-- The action in hand is that of the last event that the shard has handled. -/
theorem Traced.exists_last (h : e.Traced) {k : Fin cfg.shardCount} {events : List Event}
    {actions : List Action} {action : Action} {payload : List UInt8} {snap : SessionTxSnapshot}
    (hk : e.server.shards k = ⟨events, actions, .update action payload snap⟩) :
    ∃ handling, (e.handled k).getLast? = some handling ∧ handling.Commits action :=
  (h.settles k).exists_current (by rw [hk]; rfl)

theorem Traced.committed (h : e.Traced) {k : Fin cfg.shardCount} {events : List Event}
    {actions : List Action} {action : Action} {payload : List UInt8} {snap : SessionTxSnapshot}
    (hk : e.server.shards k = ⟨events, actions, .update action payload snap⟩) : e.Committed action := by
  obtain ⟨handling, hlast, hcommits⟩ := h.exists_last hk
  exact ⟨k, handling, List.mem_of_getLast? hlast, hcommits⟩

/-- Opening or rebinding a session. -/
theorem backed_checkSession {packet : Packet} {sm sm' : SessionManager} {drawn : DrawnId}
    {parsed parsed' : ParsedPacket} (h : ∀ sid state, sm.stateOf sid = some state → e.Backed sid state)
    (hmem : ⟨packet, parsed'.sessionId⟩ ∈ e.accepted) (hparse : PacketParser.parse packet = some parsed)
    (hcheck : RxRouter.checkSession sm drawn parsed = some (sm', parsed')) (sid : SessionId)
    (state : SessionState) (hstate : sm'.stateOf sid = some state) : e.Backed sid state := by
  rcases RxRouter.checkSession_eq_some.mp hcheck with ⟨hopen, hcreate⟩ | ⟨-, hbind, -⟩
  · obtain ⟨-, rfl, rfl⟩ := SessionManager.create_eq_some.mp hcreate
    obtain ⟨session, hsession, rfl⟩ := Option.map_eq_some_iff.mp hstate
    rcases Map.find_emplace_eq_some hsession with hold | ⟨rfl, rfl⟩
    · exact h sid session.state (by rw [SessionManager.stateOf, hold, Option.map_some])
    · exact ⟨_, hmem, rfl, parsed, hparse, hopen⟩
  · rw [SessionManager.stateOf_checkAndBind hbind] at hstate
    exact h sid state hstate

/-- The state change of an action. -/
theorem backed_updateState {sm : SessionManager} {action : Action}
    (h : ∀ sid state, sm.stateOf sid = some state → e.Backed sid state) (hcommitted : e.Committed action)
    (sid : SessionId) (state : SessionState)
    (hstate : (TxRouter.updateState sm action.sessionId action.opcode).stateOf sid = some state) :
    e.Backed sid state := by
  -- only the session of the action moves, to the state that the action stands for
  have hset : ∀ new, (sm.setState action.sessionId new).stateOf sid = some state →
      (sid = action.sessionId ∧ state = new) ∨ sm.stateOf sid = some state := by
    intro new hnew
    rw [SessionManager.stateOf_setState] at hnew
    split at hnew
    next heq =>
      obtain ⟨_, -, rfl⟩ := Option.map_eq_some_iff.mp hnew
      exact .inl ⟨heq, rfl⟩
    next => exact .inr hnew
  cases action with
  | loginSuccessRes sid' =>
    rcases hset .auth hstate with ⟨rfl, rfl⟩ | hold
    · exact hcommitted
    · exact h sid state hold
  | loginFailRes sid' =>
    have herase : (sm.erase sid').stateOf sid = some state := hstate
    rw [SessionManager.stateOf_erase] at herase
    split at herase
    next => cases herase
    next => exact h sid state herase
  | lobbyEntryRes sid' =>
    rcases hset .inWorld hstate with ⟨rfl, rfl⟩ | hold
    · exact hcommitted
    · exact h sid state hold
  | pingRes sid' nonce clientTs => exact h sid state hstate

theorem AuthInv.step (h : e.AuthInv) (hstep : e.step a = some e') : e'.AuthInv where
  traced := h.traced.step hstep
  backed := by
    have hold : ∀ sid state, e.server.sessions.stateOf sid = some state → e'.Backed sid state :=
      fun sid state hstate => (h.backed sid state hstate).step hstep
    cases moves_of_step hstep with
    | outside hw hk hs => exact hs ▸ hold
    | receive | drop | dispatch | misdispatch | handleEvent | miss | snapshot => exact hold
    | route hq hp hparse hcheck hw hk hs =>
      refine hs ▸ backed_checkSession hold ?_ hparse hcheck
      exact List.mem_append_right _ (List.mem_singleton_self _)
    | update hk hw hk' hs => exact hs ▸ backed_updateState hold ((h.traced.committed hk).step hstep)
    | unsent hk hnot hw hk' hs => exact hs ▸ hold
    | send hk hbuild hw hk' hs => exact hs ▸ hold

theorem authInv_run {acts : List (Act cfg)} (hrun : run step (init cfg) acts = some e) : e.AuthInv :=
  run_induct (fun _ _ _ h _ hstep => h.step hstep) authInv_init (along_true _ acts) hrun

/-- A `LOGIN_REQ` with these credentials was accepted under the session, and the shard of the
    session has asked the database about them. -/
def LoginAsked (e : Exchange cfg) (sid : SessionId) (id pw : List UInt8) (db : AccountDb) : Prop :=
  ∃ acceptance ∈ e.accepted, acceptance.packet ∈ e.received ∧ acceptance.sid = sid ∧
    ∃ k payload, acceptance.Requests (.loginReq sid payload id pw) ∧
      RxRouter.selectShard cfg.shardCount sid = (k : Fin cfg.shardCount) ∧
      ⟨.loginReq sid payload id pw, db⟩ ∈ e.handled k

/-- What stands behind an event of a session that has been handled. -/
theorem Traced.loginAsked (h : e.Traced) {k : Fin cfg.shardCount} {sid : SessionId}
    {payload id pw : List UInt8} {db : AccountDb}
    (hmem : ⟨.loginReq sid payload id pw, db⟩ ∈ e.handled k) : e.LoginAsked sid id pw db := by
  obtain ⟨acceptance, hacc, hreceived, hrequests, hshard⟩ := h.exists_acceptance hmem
  have hsid : acceptance.sid = sid := (Option.some.inj hrequests.sessionId).symm
  exact ⟨acceptance, hacc, hreceived, hsid, k, payload, hrequests, hsid ▸ hshard, hmem⟩

/-- The credentials behind an authenticated session. -/
theorem AuthInv.exists_loginAsked (h : e.AuthInv) {sid : SessionId}
    (hstate : e.server.sessions.stateOf sid = some .auth) :
    ∃ id pw db, e.LoginAsked sid id pw db ∧ LoginContext.Accepts db id pw := by
  obtain ⟨k, handling, hmem, hcommits⟩ := h.backed sid .auth hstate
  obtain ⟨payload, id, pw, hevent, hacc⟩ := hcommits.login (.inl rfl)
  obtain ⟨event, db⟩ := handling
  cases hevent
  exact ⟨id, pw, db, h.traced.loginAsked hmem, hacc.mpr rfl⟩

/-- In every run an authenticated session owes its state to a `LOGIN_REQ` that was accepted under
    it, with credentials that the database accepted when the shard of the session asked it, and a
    session in the world to an accepted `LOBBY_ENTRY_REQ` that names it. -/
theorem session_state_backed {acts : List (Act cfg)} (hrun : run step (init cfg) acts = some e)
    (sid : SessionId) :
    (e.server.sessions.stateOf sid = some .auth →
        ∃ id pw db, e.LoginAsked sid id pw db ∧ LoginContext.Accepts db id pw) ∧
      (e.server.sessions.stateOf sid = some .inWorld → ∃ acceptance ∈ e.accepted,
        acceptance.packet ∈ e.received ∧ acceptance.sid = sid ∧ acceptance.packet.EntersLobby sid) := by
  have hinv := authInv_run hrun
  refine ⟨hinv.exists_loginAsked, fun hstate => ?_⟩
  obtain ⟨k, handling, hmem, hcommits⟩ := hinv.backed sid .inWorld hstate
  obtain ⟨payload, hevent⟩ := hcommits.lobby
  obtain ⟨acceptance, hacc, hreceived, hrequests, -⟩ := hinv.traced.exists_acceptance hmem
  rw [hevent] at hrequests
  exact ⟨acceptance, hacc, hreceived, (Option.some.inj hrequests.sessionId).symm, hrequests.entersLobby⟩

theorem session_state_loginAndPing :
    ∃ e, run step (init .single) loginAndPingActs = some e ∧ e.server.sessions.stateOf 5 = some .auth ∧
      ∃ id pw db, e.LoginAsked 5 id pw db ∧ LoginContext.Accepts db id pw :=
  have hrun : run step (init .single) loginAndPingActs = some _ := rfl
  ⟨_, hrun, rfl, (session_state_backed hrun 5).1 rfl⟩

/-! ## How a session goes away -/

/-- Only the state change of a failed login removes a session. -/
theorem exists_fail_of_removed (hstep : e.step a = some e') {sid : SessionId}
    (hlive : e.server.sessions.stateOf sid ≠ none) (hgone : e'.server.sessions.stateOf sid = none) :
    ∃ k events actions payload snap, a = .update k ∧
      e.server.shards k = ⟨events, actions, .update (.loginFailRes sid) payload snap⟩ := by
  cases moves_of_step hstep with
  | outside hw hk hs =>
    rw [hs] at hgone
    exact absurd hgone hlive
  | receive | drop | dispatch | misdispatch | handleEvent | miss | snapshot => exact absurd hgone hlive
  | @route w drawn item rest parsed parsed' sm s hq hp hparse hcheck hw hk hs =>
    rw [hs] at hgone
    rcases RxRouter.checkSession_eq_some.mp hcheck with ⟨-, hcreate⟩ | ⟨-, hbind, -⟩
    · obtain ⟨-, rfl, -⟩ := SessionManager.create_eq_some.mp hcreate
      obtain ⟨session, hsession⟩ :=
        Option.ne_none_iff_exists'.mp (mt SessionManager.stateOf_eq_none.mpr hlive)
      rw [SessionManager.stateOf_eq_none, Map.find_emplace_of_find hsession] at hgone
      cases hgone
    · rw [SessionManager.stateOf_checkAndBind hbind] at hgone
      exact absurd hgone hlive
  | @update k events actions action payload snap s hk hw hk' hs =>
    rw [hs] at hgone
    have hset : ∀ state, (e.server.sessions.setState action.sessionId state).stateOf sid ≠ none := by
      intro state hnone
      rw [SessionManager.stateOf_setState] at hnone
      split at hnone
      next heq => exact hlive (heq ▸ Option.map_eq_none_iff.mp hnone)
      next => exact hlive hnone
    cases action with
    | loginSuccessRes sid' => exact absurd hgone (hset .auth)
    | loginFailRes sid' =>
      have herase : (e.server.sessions.erase sid').stateOf sid = none := hgone
      rw [SessionManager.stateOf_erase] at herase
      split at herase
      next heq => exact ⟨k, events, actions, payload, snap, rfl, heq ▸ hk⟩
      next => exact absurd herase hlive
    | lobbyEntryRes sid' => exact absurd hgone (hset .inWorld)
    | pingRes sid' nonce clientTs => exact absurd hgone hlive
  | unsent hk hnot hw hk' hs =>
    rw [hs] at hgone
    exact absurd hgone hlive
  | send hk hbuild hw hk' hs =>
    rw [hs] at hgone
    exact absurd hgone hlive

/-- In every run a session goes away only when its shard carries out the refusal of the login that
    it has handled last: a `LOGIN_REQ` accepted under this session, with credentials that the
    database refused when the shard asked it. -/
theorem session_removed_by_refused_login {acts : List (Act cfg)}
    (hrun : run step (init cfg) acts = some e) (hstep : e.step a = some e') {sid : SessionId}
    (hlive : e.server.sessions.stateOf sid ≠ none) (hgone : e'.server.sessions.stateOf sid = none) :
    ∃ k payload id pw db, a = .update k ∧
      (e.handled k).getLast? = some ⟨.loginReq sid payload id pw, db⟩ ∧
      e.LoginAsked sid id pw db ∧ ¬ LoginContext.Accepts db id pw := by
  have htraced := (authInv_run hrun).traced
  obtain ⟨k, events, actions, payload, snap, rfl, hk⟩ := exists_fail_of_removed hstep hlive hgone
  obtain ⟨⟨event, db⟩, hlast, hcommits⟩ := htraced.exists_last hk
  obtain ⟨payload, id, pw, hevent, hacc⟩ := hcommits.login (.inr rfl)
  cases hevent
  exact ⟨k, payload, id, pw, db, rfl, hlast, htraced.loginAsked (List.mem_of_getLast? hlast),
    fun haccepts => by cases hacc.mp haccepts⟩

/-- A login with a wrong password. -/
def refusedLoginRequest : List UInt8 :=
  request .loginReq 0 (Lib.Bytes.beBytes 2 4 ++ LoginContext.testName ++ Lib.Bytes.beBytes 2 0)

/-- A login with a wrong password, up to the state change. -/
def refusedLoginActs : List (Act .single) := openTls 7 ++ tlsRequest 7 refusedLoginRequest

theorem removed_refusedLogin :
    ∃ e e', run step (init .single) refusedLoginActs = some e ∧ e.step (.update 0) = some e' ∧
      e.server.sessions.stateOf 5 ≠ none ∧ e'.server.sessions.stateOf 5 = none ∧
      ∃ k payload id pw db, (.update 0 : Act .single) = .update k ∧
        (e.handled k).getLast? = some ⟨.loginReq 5 payload id pw, db⟩ ∧
        e.LoginAsked 5 id pw db ∧ ¬ LoginContext.Accepts db id pw := by
  have hremoved : ∀ e e', run step (init .single) refusedLoginActs = some e →
      e.step (.update 0) = some e' → e.server.sessions.stateOf 5 ≠ none →
      e'.server.sessions.stateOf 5 = none → ∃ k payload id pw db, (.update 0 : Act .single) = .update k ∧
        (e.handled k).getLast? = some ⟨.loginReq 5 payload id pw, db⟩ ∧
        e.LoginAsked 5 id pw db ∧ ¬ LoginContext.Accepts db id pw :=
    fun _ _ hrun hstep hlive hgone => session_removed_by_refused_login hrun hstep hlive hgone
  refine ⟨_, _, rfl, rfl, ?_, rfl, hremoved _ _ rfl rfl ?_ rfl⟩
  all_goals
    intro hnone
    cases hnone

end Server.Exchange

/-! ## The database option -/

namespace Serverd

open Server.Exchange

/-- `parseDatabaseFlag`, on the arguments with the name of the program. -/
def parseDatabaseFlag (argv : List String) : Bool :=
  (argv.drop 1).foldl
    (fun enable arg =>
      if arg = "--database=true" then true else if arg = "--database=false" then false else enable)
    true

/-- What `Core` keeps about the database: the flag, and whether there is a `DbManager`. -/
structure Core where
  enableDb : Bool
  dbManager : Bool
  deriving DecidableEq

/-- The constructor with the default member initialisers. -/
def Core.new : Core := ⟨false, false⟩

/-- `Core::initializeRuntime`, on the database; `initDatabase` is the answer of the call if it is
    made, and `none` says that the start is given up. -/
def Core.initializeRuntime (core : Core) (initDatabase : Bool) : Option Core :=
  if core.enableDb then
    if initDatabase then some { core with dbManager := true } else none
  else
    some core

/-- `main`, up to the start of the threads: the flag is computed and not used. -/
def main (argv : List String) (initDatabase : Bool) : Option Core :=
  let _enableDb := parseDatabaseFlag argv
  Core.new.initializeRuntime initDatabase

/-- The shards ask a database exactly if there is a `DbManager`. -/
def Core.Serves {cfg : ServerConfig} (core : Core) (acts : List (Server.Act cfg)) : Prop :=
  ∀ k db, .handleEvent k db ∈ acts → db.isSome = core.dbManager

/-- Only the databases of the shards' own steps are asked. -/
theorem exists_handleEvent_of_handled {cfg : ServerConfig} {acts : List (Server.Act cfg)}
    {e : Server.Exchange cfg} (hrun : run step (init cfg) acts = some e) {k : Fin cfg.shardCount}
    {handling : Handling} (hmem : handling ∈ e.handled k) : .handleEvent k handling.db ∈ acts := by
  revert k handling
  refine run_induct_trace (I := fun acts e => ∀ {k handling}, handling ∈ e.handled k →
    .handleEvent k handling.db ∈ acts) (fun {k _} hmem => by cases hmem) ?_ hrun
  intro acts e a e' ih hstep k handling hmem
  cases moves_of_step hstep with
  | @handleEvent k' db event events hk =>
    by_cases heq : k = k'
    · subst heq
      simp only [Function.update_self, List.mem_append, List.mem_singleton] at hmem
      rcases hmem with hold | rfl
      · exact List.mem_append_left _ (ih hold)
      · exact List.mem_append_right _ (List.mem_singleton_self _)
    · simp only [Function.update_of_ne heq] at hmem
      exact List.mem_append_left _ (ih hmem)
  | _ => exact List.mem_append_left _ (ih hmem)

/-- Whatever options the server is started with, a session gets authenticated only by a login of
    the built-in account that was accepted under it. -/
theorem only_test_account_logs_in {cfg : ServerConfig} {argv : List String} {initDatabase : Bool}
    {core : Core} (hmain : main argv initDatabase = some core) {acts : List (Server.Act cfg)}
    (hserves : core.Serves acts) {e : Server.Exchange cfg} (hrun : run step (init cfg) acts = some e)
    {sid : SessionId} (hauth : e.server.sessions.stateOf sid = some .auth) :
    ∃ acceptance ∈ e.accepted, acceptance.packet ∈ e.received ∧ acceptance.sid = sid ∧
      acceptance.LogsIn LoginContext.testName LoginContext.testName := by
  cases hmain
  obtain ⟨id, pw, db, ⟨acceptance, hacc, hreceived, hsid, k, payload, hrequests, -, hmem⟩, haccepts⟩ :=
    (authInv_run hrun).exists_loginAsked hauth
  have hnone : db.isSome = false := hserves k db (exists_handleEvent_of_handled hrun hmem)
  cases db with
  | none =>
    obtain ⟨rfl, rfl⟩ := haccepts
    exact ⟨acceptance, hacc, hreceived, hsid, hrequests.logsIn⟩
  | some getAccountPassword => cases hnone

theorem test_account_logs_in :
    ∃ e, run step (init .single) loginAndPingActs = some e ∧
      e.server.sessions.stateOf 5 = some .auth ∧
      ∃ acceptance ∈ e.accepted, acceptance.packet ∈ e.received ∧ acceptance.sid = 5 ∧
        acceptance.LogsIn LoginContext.testName LoginContext.testName := by
  have hmain : main ["nf-server", "--database=true"] true = some ⟨false, false⟩ := rfl
  have hserves : (⟨false, false⟩ : Core).Serves loginAndPingActs := by
    intro k db hmem
    simp [loginAndPingActs, Server.openTls, Server.tlsRequest, Server.handled] at hmem
    simp [hmem]
  have hrun : run step (init .single) loginAndPingActs = some _ := rfl
  exact ⟨_, hrun, rfl, only_test_account_logs_in hmain hserves hrun rfl⟩

end Serverd

end NfEngine
