-- SUMMARY: The life of a session, and when every step keeps to it.
import NfEngine.Server.Effects

/-!
# The life of a session

A session is opened before authentication, authenticated by a successful login,
and enters the world from there; it is erased only before authentication. The
state changes when a response leaves, and nothing looks at the state when a
request comes in, so the order of the requests decides. The life is kept in every
run in which a `LOGIN_REQ` always opens a session of its own and a
`LOBBY_ENTRY_REQ` is not handled before the login has succeeded: there is then at
most one login under way for a session, and it is the one that opened it.
-/

namespace NfEngine

open Lib Lib.Transition

/-! ## States of the table -/

namespace SessionManager

/-- The state of a session, if it is live. -/
def stateOf (sm : SessionManager) (sid : SessionId) : Option SessionState :=
  (sm.sessions.find sid).map Session.state

variable {sm sm' : SessionManager} {sid sid' : SessionId}

theorem stateOf_eq_none : sm.stateOf sid = none ↔ sm.sessions.find sid = none := by
  simp [stateOf]

theorem stateOf_setState (sm : SessionManager) (sid sid' : SessionId) (state : SessionState) :
    (sm.setState sid state).stateOf sid' =
      if sid' = sid then (sm.stateOf sid).map fun _ => state else sm.stateOf sid' := by
  unfold stateOf
  rw [find_setState]
  split
  next => cases sm.sessions.find sid <;> rfl
  next => rfl

theorem stateOf_erase (sm : SessionManager) (sid sid' : SessionId) :
    (sm.erase sid).stateOf sid' = if sid' = sid then none else sm.stateOf sid' := by
  unfold stateOf
  rw [find_erase]
  split <;> rfl

/-- Rebinding a session does not change its state. -/
theorem stateOf_checkAndBind {parsed : ParsedPacket} (h : sm.checkAndBind parsed = some sm')
    (sid : SessionId) : sm'.stateOf sid = sm.stateOf sid := by
  obtain ⟨_, s, hs, rfl⟩ := checkAndBind_eq_some.mp h
  by_cases hsid : sid = parsed.sessionId
  · subst hsid
    simp [stateOf, hs]
  · simp [stateOf, hsid]

/-- A session that is opened under a free id starts before authentication. -/
theorem stateOf_create {drawn : DrawnId} {parsed parsed' : ParsedPacket}
    (h : sm.create drawn parsed = some (sm', parsed')) (hfree : sm.sessions.find drawn.val = none)
    (sid : SessionId) :
    sm'.stateOf sid = if sid = drawn.val then some .preAuth else sm.stateOf sid := by
  obtain ⟨_, rfl, _⟩ := create_eq_some.mp h
  rw [Map.emplace_of_find_none hfree]
  by_cases hsid : sid = drawn.val
  · subst hsid
    simp [stateOf, opened, Session.setState]
  · simp [stateOf, hsid]

end SessionManager

namespace Server

variable {cfg : ServerConfig} {s s' : Server cfg}

/-! ## Legal steps -/

/-- How the state of a session may change in one step, given the response whose
    state change the step makes. -/
def Legal (cause : Option Opcode) (old new : Option SessionState) : Prop :=
  new = old ∨
  (old = none ∧ new = some .preAuth) ∨
  (old = some .preAuth ∧ new = some .auth ∧ cause = some .loginSuccessRes) ∨
  (old = some .auth ∧ new = some .inWorld) ∨
  (old = some .preAuth ∧ new = none)

/-- A step that moves one session. -/
theorem legal_of_moved {cause : Option Opcode} {sid : SessionId} {new : Option SessionState}
    (hstate : ∀ sid', s'.sessions.stateOf sid' =
      if sid' = sid then new else s.sessions.stateOf sid')
    (hlegal : Legal cause (s.sessions.stateOf sid) new) (sid' : SessionId) :
    Legal cause (s.sessions.stateOf sid') (s'.sessions.stateOf sid') := by
  rw [hstate sid']
  split
  next heq => exact heq ▸ hlegal
  next => exact .inl rfl

/-- The response whose state change a step makes. -/
def cause (s : Server cfg) : Act cfg → Option Opcode
  | .update k =>
    match (s.shards k).pc with
    | .update action _ _ => some action.opcode
    | .idle | .send _ _ _ => none
  | _ => none

/-- A worker routes a `LOGIN_REQ` only without a session id, with a drawn id that is
    not live, and a `LOBBY_ENTRY_REQ` only for a session past authentication. -/
def inOrder (s : Server cfg) : Act cfg → Bool
  | .route w drawn =>
    match (s.workers w).rxQueue with
    | [] => true
    | item :: _ =>
      match PacketParser.parse item.packet with
      | none => true
      | some parsed =>
        decide (parsed.opcode = .loginReq →
          parsed.sessionId = 0 ∧ s.sessions.sessions.contains drawn.val = false) &&
        decide (parsed.opcode = .lobbyEntryReq →
          s.sessions.stateOf parsed.sessionId ≠ some .preAuth)
  | _ => true

/-- What the jobs under way say about their sessions. -/
structure LifeInv (s : Server cfg) : Prop where
  login : ∀ sid, 0 < s.jobCount ⟨sid, .login⟩ → s.sessions.stateOf sid = some .preAuth
  once : ∀ sid, s.jobCount ⟨sid, .login⟩ ≤ 1
  lobby : ∀ sid, 0 < s.jobCount ⟨sid, .lobby⟩ →
    s.sessions.stateOf sid = some .auth ∨ s.sessions.stateOf sid = some .inWorld
  known : ∀ sid st, s.sessions.stateOf sid = some st → st = .preAuth ∨ st = .auth ∨ st = .inWorld

theorem lifeInv_init : (init cfg).LifeInv where
  login sid h := by simp [jobCount_init] at h
  once sid := by simp [jobCount_init]
  lobby sid h := by simp [jobCount_init] at h
  known sid st h := by simp [SessionManager.stateOf, init, SessionManager.empty] at h

namespace LifeInv

/-- A session that is not live has no login and no lobby entry under way. -/
theorem jobCount_eq_zero (h : s.LifeInv) {sid : SessionId} (hnone : s.sessions.stateOf sid = none) :
    s.jobCount ⟨sid, .login⟩ = 0 ∧ s.jobCount ⟨sid, .lobby⟩ = 0 := by
  refine ⟨Nat.eq_zero_of_not_pos fun hpos => ?_, Nat.eq_zero_of_not_pos fun hpos => ?_⟩
  · have := h.login sid hpos
    simp [hnone] at this
  · have := h.lobby sid hpos
    simp [hnone] at this

/-- Steps that leave the table alone and add no job. -/
theorem quiet (h : s.LifeInv) (hsess : s'.sessions = s.sessions)
    (hcount : ∀ job, s'.jobCount job ≤ s.jobCount job) : s'.LifeInv where
  login sid hpos := hsess ▸ h.login sid (hpos.trans_le (hcount _))
  once sid := (hcount _).trans (h.once sid)
  lobby sid hpos := hsess ▸ h.lobby sid (hpos.trans_le (hcount _))
  known sid st hst := h.known sid st (hsess ▸ hst)

/-- A login opens its session. -/
theorem opened (h : s.LifeInv) {sid : SessionId} {new : List Job}
    (hfree : s.sessions.stateOf sid = none)
    (hstate : ∀ sid', s'.sessions.stateOf sid' =
      if sid' = sid then some .preAuth else s.sessions.stateOf sid')
    (hnew : new = [] ∨ new = [⟨sid, .login⟩])
    (hcount : ∀ job, s'.jobCount job = s.jobCount job + new.count job) : s'.LifeInv := by
  obtain ⟨hlogin, hlobby⟩ := h.jobCount_eq_zero hfree
  -- the new job is of the new session only
  have hother : ∀ job : Job, job ≠ ⟨sid, .login⟩ → s'.jobCount job = s.jobCount job := by
    intro job hne
    rw [hcount job]
    rcases hnew with rfl | rfl
    · simp
    · simp [Ne.symm hne]
  refine ⟨fun sid' hpos => ?_, fun sid' => ?_, fun sid' hpos => ?_, fun sid' st hst => ?_⟩
  · rw [hstate sid']
    split
    next => rfl
    next hne =>
      rw [hother ⟨sid', .login⟩ (by simp [hne])] at hpos
      exact h.login sid' hpos
  · by_cases hne : sid' = sid
    · subst hne
      rw [hcount, hlogin]
      rcases hnew with rfl | rfl <;> simp
    · rw [hother ⟨sid', .login⟩ (by simp [hne])]
      exact h.once sid'
  · rw [hother ⟨sid', .lobby⟩ (by simp)] at hpos
    by_cases hne : sid' = sid
    · subst hne
      omega
    · rw [hstate sid', if_neg hne]
      exact h.lobby sid' hpos
  · rw [hstate sid'] at hst
    split at hst
    · cases hst
      exact .inl rfl
    · exact h.known sid' st hst

/-- A request of a live session that is not a login. -/
theorem requested (h : s.LifeInv) (sid : SessionId) {new : List Job}
    (hstate : ∀ sid', s'.sessions.stateOf sid' = s.sessions.stateOf sid')
    (hnew : new = [] ∨ new = [⟨sid, .ping⟩] ∨
      (new = [⟨sid, .lobby⟩] ∧
        (s.sessions.stateOf sid = some .auth ∨ s.sessions.stateOf sid = some .inWorld)))
    (hcount : ∀ job, s'.jobCount job = s.jobCount job + new.count job) : s'.LifeInv := by
  have hlogin : ∀ sid', s'.jobCount ⟨sid', .login⟩ = s.jobCount ⟨sid', .login⟩ := by
    intro sid'
    rw [hcount]
    rcases hnew with rfl | rfl | ⟨rfl, _⟩ <;> simp
  refine ⟨fun sid' hpos => ?_, fun sid' => ?_, fun sid' hpos => ?_, fun sid' st hst => ?_⟩
  · rw [hstate]
    exact h.login sid' (hlogin sid' ▸ hpos)
  · rw [hlogin]
    exact h.once sid'
  · rw [hstate]
    by_cases hold : 0 < s.jobCount ⟨sid', .lobby⟩
    · exact h.lobby sid' hold
    · rw [hcount] at hpos
      rcases hnew with rfl | rfl | ⟨rfl, hlive⟩
      · simp only [List.count_nil] at hpos
        omega
      · simp at hpos
        omega
      · by_cases hsid : sid' = sid
        · exact hsid ▸ hlive
        · have hzero : [(⟨sid, .lobby⟩ : Job)].count ⟨sid', .lobby⟩ = 0 := by
            simp [Ne.symm hsid]
          omega
  · exact h.known sid' st (hstate sid' ▸ hst)

/-- A response that moves its session to a state in which no login is under way. -/
theorem answered (h : s.LifeInv) {job : Job} {new : Option SessionState}
    (hpending : 0 < s.jobCount job)
    (hstate : ∀ sid', s'.sessions.stateOf sid' =
      if sid' = job.sid then new else s.sessions.stateOf sid')
    (hcount : ∀ job', s'.jobCount job' + (if job' = job then 1 else 0) = s.jobCount job')
    (hkind : (job.kind = .login ∧ (new = none ∨ new = some .auth)) ∨
      (job.kind = .lobby ∧ new = some .inWorld)) : s'.LifeInv := by
  have hle : ∀ job', s'.jobCount job' ≤ s.jobCount job' := fun job' => by
    have := hcount job'
    omega
  obtain ⟨sid, kind⟩ := job
  -- the session was before authentication, or past it, according to the job
  have hlogin : s'.jobCount ⟨sid, .login⟩ = 0 := by
    rcases hkind with ⟨rfl, -⟩ | ⟨rfl, -⟩
    · have hone := h.once sid
      have hmove := hcount ⟨sid, .login⟩
      rw [if_pos rfl] at hmove
      omega
    · apply Nat.eq_zero_of_not_pos
      intro hpos
      have hpre := h.login sid (hpos.trans_le (hle _))
      rcases h.lobby sid hpending with hst | hst <;> simp [hpre] at hst
  refine ⟨fun sid' hpos => ?_, fun sid' => (hle _).trans (h.once sid'), fun sid' hpos => ?_,
    fun sid' st hst => ?_⟩
  · have hne : sid' ≠ sid := by
      rintro rfl
      omega
    rw [hstate sid', if_neg hne]
    exact h.login sid' (hpos.trans_le (hle _))
  · have hpos' := hpos.trans_le (hle _)
    rw [hstate sid']
    split
    next heq =>
      rcases hkind with ⟨rfl, -⟩ | ⟨rfl, rfl⟩
      · have hpre := h.login sid hpending
        rcases h.lobby sid' hpos' with hst | hst <;> simp [heq, hpre] at hst
      · exact .inr rfl
    next => exact h.lobby sid' hpos'
  · rw [hstate sid'] at hst
    split at hst
    · rcases hkind with ⟨-, rfl | rfl⟩ | ⟨-, rfl⟩ <;> cases hst
      · exact .inr (.inl rfl)
      · exact .inr (.inr rfl)
    · exact h.known sid' st hst

end LifeInv

/-! ## One step -/

/-- What the condition says about the packet in hand. -/
theorem inOrder_route {w : WorkerId cfg} {drawn : DrawnId} {item : RxItem} {rest : List RxItem}
    {parsed : ParsedPacket} (hok : s.inOrder (.route w drawn) = true)
    (hq : (s.workers w).rxQueue = item :: rest) (hp : PacketParser.parse item.packet = some parsed) :
    (parsed.opcode = .loginReq →
        parsed.sessionId = 0 ∧ s.sessions.stateOf drawn.val = none) ∧
      (parsed.opcode = .lobbyEntryReq →
        s.sessions.stateOf parsed.sessionId ≠ some .preAuth) := by
  simp only [inOrder, hq, hp, Bool.and_eq_true, decide_eq_true_eq, Map.contains_eq_false] at hok
  simp only [SessionManager.stateOf_eq_none]
  exact hok

theorem LifeInv.route (h : s.LifeInv) {w : WorkerId cfg} {drawn : DrawnId} {item : RxItem}
    {rest : List RxItem} {parsed parsed' : ParsedPacket} {sm : SessionManager}
    (hok : s.inOrder (.route w drawn) = true) (hq : (s.workers w).rxQueue = item :: rest)
    (hparse : PacketParser.parse item.packet = some parsed)
    (hcheck : RxRouter.checkSession s.sessions drawn parsed = some (sm, parsed'))
    (hsess : s'.sessions = sm) {new : List Job}
    (hnew : new = [] ∨
      ∃ kind, parsed'.opcode.jobKind? = some kind ∧ new = [⟨parsed'.sessionId, kind⟩])
    (hcount : ∀ job, s'.jobCount job = s.jobCount job + new.count job) :
    s'.LifeInv ∧ ∀ sid, Legal none (s.sessions.stateOf sid) (s'.sessions.stateOf sid) := by
  subst hsess
  obtain ⟨hlogin, hlobby⟩ := inOrder_route hok hq hparse
  rcases RxRouter.checkSession_eq_some.mp hcheck with ⟨hopen, hcreate⟩ | ⟨hopen, hbind, rfl⟩
  · obtain ⟨hop, _⟩ := of_decide_eq_true hopen
    obtain ⟨_, hfree⟩ := hlogin hop
    have hstate := SessionManager.stateOf_create hcreate (SessionManager.stateOf_eq_none.mp hfree)
    obtain ⟨_, _, rfl⟩ := SessionManager.create_eq_some.mp hcreate
    refine ⟨h.opened hfree hstate ?_ hcount, legal_of_moved hstate (.inr (.inl ⟨hfree, rfl⟩))⟩
    rcases hnew with rfl | ⟨kind, hkind, rfl⟩
    · exact .inl rfl
    · simp only [ParsedPacket.setSessionId, hop, Opcode.jobKind?, Option.some.injEq] at hkind
      subst hkind
      exact .inr rfl
  · have hstate := SessionManager.stateOf_checkAndBind hbind
    refine ⟨h.requested parsed'.sessionId hstate ?_ hcount, fun sid => .inl (hstate sid)⟩
    rcases hnew with rfl | ⟨kind, hkind, rfl⟩
    · exact .inl rfl
    · cases hop : parsed'.opcode <;> simp only [hop, Opcode.jobKind?, reduceCtorEq,
        Option.some.injEq] at hkind <;> subst hkind
      case loginReq =>
        -- a login without a session id would have opened a session
        simp [RxRouter.opensSession, hop, (hlogin hop).1] at hopen
      case lobbyEntryReq =>
        obtain ⟨_, session, hs, _⟩ := SessionManager.checkAndBind_eq_some.mp hbind
        have hlive : s.sessions.stateOf parsed'.sessionId = some session.state := by
          simp [SessionManager.stateOf, hs]
        refine .inr (.inr ⟨rfl, ?_⟩)
        rcases h.known _ _ hlive with hst | hst | hst
        · exact absurd (hst ▸ hlive) (hlobby hop)
        · exact .inl (hst ▸ hlive)
        · exact .inr (hst ▸ hlive)
      case pingReq => exact .inr (.inl rfl)

theorem LifeInv.update (h : s.LifeInv) {k : Fin cfg.shardCount} {events : List Event}
    {actions : List Action} {action : Action} {payload : List UInt8} {snap : SessionTxSnapshot}
    (hk : s.shards k = ⟨events, actions, .update action payload snap⟩)
    (hsess : s'.sessions = TxRouter.updateState s.sessions action.sessionId action.opcode)
    (hcount : ∀ job, s'.jobCount job + (if job = action.job then 1 else 0) = s.jobCount job) :
    s'.LifeInv ∧
      ∀ sid, Legal (s.cause (.update k)) (s.sessions.stateOf sid) (s'.sessions.stateOf sid) := by
  have hcause : s.cause (.update k) = some action.opcode := by simp only [cause, hk]
  have hpending : 0 < s.jobCount action.job := by
    have hmove := hcount action.job
    rw [if_pos rfl] at hmove
    omega
  rw [hcause]
  cases action with
  | loginSuccessRes sid =>
    have hpre := h.login sid hpending
    have hstate : ∀ sid', s'.sessions.stateOf sid' =
        if sid' = sid then some .auth else s.sessions.stateOf sid' := fun sid' => by
      rw [hsess]
      exact (SessionManager.stateOf_setState s.sessions sid sid' .auth).trans (by rw [hpre]; rfl)
    exact ⟨h.answered hpending hstate hcount (.inl ⟨rfl, .inr rfl⟩),
      legal_of_moved hstate (.inr (.inr (.inl ⟨hpre, rfl, rfl⟩)))⟩
  | loginFailRes sid =>
    have hpre := h.login sid hpending
    have hstate : ∀ sid', s'.sessions.stateOf sid' =
        if sid' = sid then none else s.sessions.stateOf sid' := fun sid' => by
      rw [hsess]
      exact SessionManager.stateOf_erase s.sessions sid sid'
    exact ⟨h.answered hpending hstate hcount (.inl ⟨rfl, .inl rfl⟩),
      legal_of_moved hstate (.inr (.inr (.inr (.inr ⟨hpre, rfl⟩))))⟩
  | lobbyEntryRes sid =>
    have hpast := h.lobby sid hpending
    have hnew : ((s.sessions.stateOf sid).map fun _ => SessionState.inWorld) = some .inWorld := by
      rcases hpast with hst | hst <;> rw [hst] <;> rfl
    have hstate : ∀ sid', s'.sessions.stateOf sid' =
        if sid' = sid then some .inWorld else s.sessions.stateOf sid' := fun sid' => by
      rw [hsess]
      exact (SessionManager.stateOf_setState s.sessions sid sid' .inWorld).trans (by rw [hnew])
    refine ⟨h.answered hpending hstate hcount (.inr ⟨rfl, rfl⟩), legal_of_moved hstate ?_⟩
    rcases hpast with hst | hst
    · exact .inr (.inr (.inr (.inl ⟨hst, rfl⟩)))
    · exact .inl hst.symm
  | pingRes sid nonce clientTs =>
    have hsame : s'.sessions = s.sessions := hsess
    refine ⟨h.quiet hsame fun job => ?_, fun sid' => .inl (by rw [hsame])⟩
    have hmove := hcount job
    omega

theorem LifeInv.step (h : s.LifeInv) {a : Act cfg} (hok : s.inOrder a = true)
    (hstep : s.step a = some s') :
    s'.LifeInv ∧ ∀ sid, Legal (s.cause a) (s.sessions.stateOf sid) (s'.sessions.stateOf sid) := by
  -- most steps leave the table and the states in it alone
  have hquiet : s'.sessions = s.sessions → (∀ job, s'.jobCount job ≤ s.jobCount job) →
      s'.LifeInv ∧ ∀ sid, Legal (s.cause a) (s.sessions.stateOf sid) (s'.sessions.stateOf sid) :=
    fun hsess hcount => ⟨h.quiet hsess hcount, fun sid => .inl (by rw [hsess])⟩
  cases step_effect hstep with
  | accept _ => exact hquiet rfl fun _ => Nat.le_refl _
  | conns _ => exact hquiet rfl fun _ => Nat.le_refl _
  | receive _ => exact hquiet rfl fun job => (jobCount_enqueueRx _ _ _ job).le
  | route hq hp hparse hcheck =>
    obtain ⟨new, hnew, hcount⟩ := jobCount_route _ _ _ _ hp
    exact h.route hok hq hparse hcheck rfl hnew hcount
  | inside hframe _ _ _ => exact hquiet hframe.sessions hframe.jobs
  | snapshot hk _ => exact hquiet rfl fun job => (jobCount_snapshot hk _ _ job).le
  | update hk => exact h.update hk rfl (jobCount_update _ hk)
  | send _ _ hframe _ _ _ => exact hquiet hframe.sessions hframe.jobs
  | place _ _ hframe _ _ _ => exact hquiet hframe.sessions hframe.jobs

/-! ## Every run -/

/-- In every run whose requests come in order, every step of every session is
    legal. -/
theorem legal_of_inOrder {acts : List (Act cfg)} {a : Act cfg}
    (hok : Along step (fun s a => s.inOrder a = true) (init cfg) (acts ++ [a]))
    (hrun : run step (init cfg) acts = some s) (hstep : s.step a = some s') (sid : SessionId) :
    Legal (s.cause a) (s.sessions.stateOf sid) (s'.sessions.stateOf sid) := by
  obtain ⟨hinv, hlast⟩ := run_last_step (fun _ _ _ h hcond hst => (LifeInv.step h hcond hst).1)
    lifeInv_init hok hrun
  exact (hinv.step hlast hstep).2 sid

instance (cause : Option Opcode) (old new : Option SessionState) :
    Decidable (Legal cause old new) := by
  unfold Legal
  infer_instance

/-- A login, up to the state change. -/
def loginActs : List (Act .single) := openTls 7 ++ tlsRequest 7 (loginRequest 0)

theorem legal_login :
    ∃ s s', run step (init .single) loginActs = some s ∧ s.step (.update 0) = some s' ∧
      s'.sessions.stateOf 5 = some .auth ∧
      Legal (s.cause (.update 0)) (s.sessions.stateOf 5) (s'.sessions.stateOf 5) :=
  have hrun : run step (init .single) loginActs = some _ := rfl
  have hstep : step _ (.update 0) = some _ := rfl
  ⟨_, _, hrun, hstep, rfl, legal_of_inOrder (by decide +kernel) hrun hstep 5⟩

/-- A player that has logged in and entered the world logs in again, with the
    session id they have. -/
def secondLoginActs : List (Act .single) :=
  loginActs ++ [.update 0, .send 0 true] ++
    tlsRequest 7 (lobbyRequest 5) ++ [.update 0, .send 0 true] ++
    tlsRequest 7 (loginRequest 5)

theorem not_legal_secondLogin :
    ∃ s s', run step (init .single) secondLoginActs = some s ∧ s.step (.update 0) = some s' ∧
      s.sessions.stateOf 5 = some .inWorld ∧ s'.sessions.stateOf 5 = some .auth ∧
      ¬ Legal (s.cause (.update 0)) (s.sessions.stateOf 5) (s'.sessions.stateOf 5) :=
  have hrun : run step (init .single) secondLoginActs = some _ := rfl
  have hstep : step _ (.update 0) = some _ := rfl
  ⟨_, _, hrun, hstep, rfl, rfl, by decide +kernel⟩

end Server

end NfEngine
