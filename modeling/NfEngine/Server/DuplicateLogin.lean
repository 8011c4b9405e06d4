-- SUMMARY: When a login is refused as a duplicate, and when the refusal is right.
import NfEngine.Server.Presence

/-!
# Duplicate logins

`SessionManager::create` refuses a login when its index has an entry for the
packet's descriptor number. An entry is made by `create` and removed by `erase`,
under the number that the session has as its TLS descriptor by then; closing a
connection does not touch the index. So an entry can outlive its connection, and
also its session. The refusals are right in every run in which the kernel returns
only numbers that are neither in use nor in the index, the id of a new session is
not live, and a failed login finds its session under the number it was opened on.
-/

namespace NfEngine

open Lib Lib.Transition

namespace Server

variable {cfg : ServerConfig} {s s' : Server cfg} {a : Act cfg} {sid : SessionId} {fd : Int}

/-- The connection has opened a session that is live. -/
def Owns (s : Server cfg) (inc : ℕ) : Prop :=
  ∃ sid session fd, s.sessions.sessions.find sid = some session ∧
    s.history.opener.find sid = some (fd, some inc)

/-- A worker that would refuse the next login over TLS has one from a connection
    that owns a live session. -/
def RefusesOnlyOwners (s : Server cfg) : Prop :=
  ∀ w item rest parsed drawn inc, (s.workers w).rxQueue = item :: rest →
    PacketParser.parse item.packet = some parsed → RxRouter.opensSession parsed = true →
    item.packet.connInfo.protocol = .tls → item.inc = some inc →
    s.sessions.create drawn parsed = none → s.Owns inc

/-- The number of the kernel is new to the server; the id of a new session is not
    live; a session whose login failed has the TLS descriptor it was opened on. -/
def cleanIndex (s : Server cfg) : Act cfg → Bool
  | .accept fd => !s.inUse fd && !s.sessions.tlsFdToSessionId.contains fd && fd ≠ cfg.udpFd
  | .route w drawn =>
    match (s.workers w).rxQueue with
    | [] => true
    | item :: _ =>
      match PacketParser.parse item.packet with
      | none => true
      | some parsed =>
        !RxRouter.opensSession parsed || !s.sessions.sessions.contains drawn.val
  | .update k =>
    match (s.shards k).pc with
    | .update (.loginFailRes sid) _ _ =>
      match s.sessions.sessions.find sid, s.history.opener.find sid with
      | some session, some (fd, _) => fd = cfg.udpFd ∨ session.tlsFd = fd
      | _, _ => true
    | _ => true
  | _ => true

/-- The entry of a number other than that of the UDP socket leads to a live session,
    opened by the connection that is present under the number, if one is. -/
def Entry (s : Server cfg) (fd : Int) (sid : SessionId) : Prop :=
  s.sessions.sessions.find sid ≠ none ∧
    ∃ inc?, s.history.opener.find sid = some (fd, inc?) ∧ ∀ inc, s.Present fd inc → inc? = some inc

structure OwnerInv (s : Server cfg) : Prop where
  distinct : s.Distinct
  ne_udpFd : ∀ {fd inc}, s.Present fd inc → fd ≠ cfg.udpFd
  entry : ∀ {fd sid}, s.sessions.tlsFdToSessionId.find fd = some sid → fd ≠ cfg.udpFd →
    s.Entry fd sid

theorem ownerInv_init : (init cfg).OwnerInv where
  distinct := distinct_init
  ne_udpFd h := (not_present_init h).elim
  entry h := by cases h

/-- An entry stays good while its session stays and the number is not given to a new
    connection. -/
theorem Entry.step (h : s.Entry fd sid) (heff : Effect s a s') (hne : a ≠ .accept fd)
    (hlive : s'.sessions.sessions.find sid ≠ none)
    (hopener : s'.history.opener.find sid = s.history.opener.find sid) : s'.Entry fd sid := by
  obtain ⟨_, inc?, hop, hpres⟩ := h
  refine ⟨hlive, inc?, hopener.trans hop, fun inc hp => ?_⟩
  rcases heff.present hp with hp | ⟨ha, -⟩
  · exact hpres inc hp
  · exact absurd ha hne

/-- A login makes the entry of its own connection. -/
theorem OwnerInv.create (h : s.OwnerInv) {w : WorkerId cfg} {drawn : DrawnId} {item : RxItem}
    {parsed parsed' : ParsedPacket} (heff : Effect s (.route w drawn) s') (hw : s.Waits item)
    (hparse : PacketParser.parse item.packet = some parsed)
    (hfree : s.sessions.sessions.find drawn.val = none)
    (hcreate : s.sessions.create drawn parsed = some (s'.sessions, parsed'))
    (hopener : s'.history.opener = s.history.opener.insert drawn.val (parsed.fd, item.inc))
    (hfind : s'.sessions.tlsFdToSessionId.find fd = some sid) (hfd : fd ≠ cfg.udpFd) :
    s'.Entry fd sid := by
  obtain ⟨_, hsm, _⟩ := SessionManager.create_eq_some.mp hcreate
  rw [Map.emplace_of_find_none hfree] at hsm
  rw [hsm] at hfind
  by_cases hnew : fd = parsed.fd
  · subst hnew
    simp only [Map.find_insert_same, Option.some.injEq] at hfind
    subst hfind
    refine ⟨by simp [hsm], item.inc, by simp [hopener], fun inc hp => ?_⟩
    rcases heff.present hp with hp | ⟨ha, -⟩
    · rw [(PacketParser.parse_origin hparse).1] at hp hfd
      exact h.distinct.inc_eq hw hp (.inl hfd)
    · cases ha
  · simp only [ne_eq, hnew, not_false_eq_true, Map.find_insert_ne] at hfind
    have hold := h.entry hfind hfd
    have hsid : sid ≠ drawn.val := by
      rintro rfl
      exact hold.1 hfree
    refine hold.step heff (by simp) ?_ ?_
    · simpa [hsm, hsid] using hold.1
    · simp [hopener, hsid]

/-- The entries after a packet has been accepted. -/
theorem OwnerInv.route (h : s.OwnerInv) {w : WorkerId cfg} {drawn : DrawnId} {item : RxItem}
    {rest : List RxItem} {parsed parsed' : ParsedPacket}
    (hok : s.cleanIndex (.route w drawn) = true) (heff : Effect s (.route w drawn) s')
    (hq : (s.workers w).rxQueue = item :: rest)
    (hparse : PacketParser.parse item.packet = some parsed)
    (hcheck : RxRouter.checkSession s.sessions drawn parsed = some (s'.sessions, parsed'))
    (hhist : s'.history = History.accept s.history drawn item parsed parsed')
    (hfind : s'.sessions.tlsFdToSessionId.find fd = some sid) (hfd : fd ≠ cfg.udpFd) :
    s'.Entry fd sid := by
  rcases RxRouter.checkSession_eq_some.mp hcheck with ⟨hopen, hcreate⟩ | ⟨hopen, hbind, rfl⟩
  · have hfree : s.sessions.sessions.find drawn.val = none := by
      simpa [cleanIndex, hq, hparse, hopen, Map.contains_eq_false] using hok
    have hopener : s'.history.opener = s.history.opener.insert drawn.val (parsed.fd, item.inc) := by
      simp [hhist, History.accept, hopen]
    exact h.create heff ⟨w, hq ▸ List.mem_cons_self⟩ hparse hfree hcreate hopener hfind hfd
  · obtain ⟨_, old, hs, hsm⟩ := SessionManager.checkAndBind_eq_some.mp hbind
    have hopener : s'.history.opener = s.history.opener := by simp [hhist, History.accept, hopen]
    rw [hsm] at hfind
    have hold := h.entry hfind hfd
    refine hold.step heff (by simp) ?_ (by rw [hopener])
    rw [hsm]
    by_cases hsid : sid = parsed'.sessionId
    · simp [hsid]
    · simpa [hsid] using hold.1

/-- A failed login removes its session, and its entry goes along. -/
theorem OwnerInv.erase (h : s.OwnerInv) (heff : Effect s a s') (hne : a ≠ .accept fd)
    {sid' : SessionId} (herase : s'.sessions = s.sessions.erase sid')
    (hclean : ∀ session fd inc?, s.sessions.sessions.find sid' = some session →
      s.history.opener.find sid' = some (fd, inc?) → fd = cfg.udpFd ∨ session.tlsFd = fd)
    (hopener : s'.history.opener.find sid = s.history.opener.find sid)
    (hfind : s'.sessions.tlsFdToSessionId.find fd = some sid) (hfd : fd ≠ cfg.udpFd) :
    s'.Entry fd sid := by
  have hkeep : sid ≠ sid' → s.sessions.tlsFdToSessionId.find fd = some sid → s'.Entry fd sid := by
    intro hsid hfind
    have hold := h.entry hfind hfd
    refine hold.step heff hne ?_ hopener
    rw [herase, SessionManager.find_erase, if_neg hsid]
    exact hold.1
  cases hs : s.sessions.sessions.find sid' with
  | none =>
    have hsame : s'.sessions = s.sessions := by rw [herase, SessionManager.erase, hs]
    rw [hsame] at hfind
    refine hkeep ?_ hfind
    rintro rfl
    exact (h.entry hfind hfd).1 hs
  | some session =>
    rw [herase] at hfind
    simp only [SessionManager.erase, hs] at hfind
    obtain ⟨hother, hfind⟩ := Map.find_erase_eq_some.mp hfind
    refine hkeep ?_ hfind
    rintro rfl
    -- the entry of the erased session is the one that was removed
    obtain ⟨_, inc?, hop, _⟩ := h.entry hfind hfd
    rcases hclean session fd inc? hs hop with hudp | htls
    · exact hfd hudp
    · exact hother htls.symm

/-- The entries after a state change. -/
theorem OwnerInv.update (h : s.OwnerInv) {k : Fin cfg.shardCount} {events : List Event}
    {actions : List Action} {action : Action} {payload : List UInt8} {snap : SessionTxSnapshot}
    (hok : s.cleanIndex (.update k) = true) (heff : Effect s (.update k) s')
    (hk : s.shards k = ⟨events, actions, .update action payload snap⟩)
    (hsess : s'.sessions = TxRouter.updateState s.sessions action.sessionId action.opcode)
    (hhist : s'.history = s.history)
    (hfind : s'.sessions.tlsFdToSessionId.find fd = some sid) (hfd : fd ≠ cfg.udpFd) :
    s'.Entry fd sid := by
  have hopener : s'.history.opener.find sid = s.history.opener.find sid := by rw [hhist]
  have hset : ∀ sid' state, s'.sessions = s.sessions.setState sid' state → s'.Entry fd sid := by
    intro sid' state heq
    rw [heq, SessionManager.tlsFdToSessionId_setState] at hfind
    have hold := h.entry hfind hfd
    refine hold.step heff (by simp) ?_ hopener
    rw [heq, SessionManager.find_setState]
    split
    next hsid => simpa [hsid] using hold.1
    next => exact hold.1
  cases action with
  | loginSuccessRes sid' => exact hset sid' .auth hsess
  | lobbyEntryRes sid' => exact hset sid' .inWorld hsess
  | pingRes sid' nonce clientTs =>
    have hsame : s'.sessions = s.sessions := hsess
    rw [hsame] at hfind
    have hold := h.entry hfind hfd
    exact hold.step heff (by simp) (hsame ▸ hold.1) hopener
  | loginFailRes sid' =>
    have herase : s'.sessions = s.sessions.erase sid' := hsess
    refine h.erase heff (by simp) herase (fun session fd inc? hs hop => ?_) hopener hfind hfd
    simpa only [cleanIndex, hk, hs, hop, decide_eq_true_eq] using hok

theorem OwnerInv.step (h : s.OwnerInv) (hok : s.cleanIndex a = true)
    (hstep : s.step a = some s') : s'.OwnerInv := by
  have heff := step_effect hstep
  have haccept : ∀ fd, a = .accept fd → s.inUse fd = false ∧
      s.sessions.tlsFdToSessionId.find fd = none ∧ fd ≠ cfg.udpFd := by
    rintro fd rfl
    simpa [cleanIndex, Map.contains_eq_false, and_assoc] using hok
  refine ⟨h.distinct.step heff fun fd ha => (haccept fd ha).1, fun hp => ?_, fun {fd sid} hfind hfd => ?_⟩
  · rcases heff.present hp with hp | ⟨ha, -⟩
    · exact h.ne_udpFd hp
    · exact (haccept _ ha).2.2
  · -- most steps leave the index, the sessions and their openers alone
    have hsame : s'.sessions = s.sessions →
        s'.history.opener = s.history.opener → s'.Entry fd sid := by
      intro hsess hopener
      rw [hsess] at hfind
      have hold := h.entry hfind hfd
      refine hold.step heff ?_ (hsess ▸ hold.1) (by rw [hopener])
      rintro rfl
      rw [(haccept _ rfl).2.1] at hfind
      cases hfind
    cases heff with
    | route hq hp hparse hcheck =>
      exact h.route hok (.route hq hp hparse hcheck) hq hparse hcheck rfl hfind hfd
    | update hk => exact h.update hok (.update hk) hk rfl rfl hfind hfd
    | inside hframe _ _ hhist => exact hsame hframe.sessions (by rw [hhist])
    | send _ _ hframe _ _ hhist =>
      refine hsame hframe.sessions ?_
      rw [hhist]
      unfold History.send
      split <;> rfl
    | place _ _ hframe _ _ hhist => exact hsame hframe.sessions (by rw [hhist])
    | _ => exact hsame rfl rfl

/-! ## Every run -/

/-- In every run that keeps the index clean, a login over TLS is refused only when
    its own connection owns a live session. -/
theorem refusesOnlyOwners_of_cleanIndex {acts : List (Act cfg)}
    (hok : Along step (fun s a => s.cleanIndex a = true) (init cfg) acts)
    (hrun : run step (init cfg) acts = some s) : s.RefusesOnlyOwners := by
  have hinv : s.OwnerInv :=
    run_induct (fun _ _ _ h hcond hstep => h.step hcond hstep) ownerInv_init hok hrun
  intro w item rest parsed drawn inc hq hparse _ _ hinc hrefused
  have hpres : s.Present parsed.fd inc := by
    rw [(PacketParser.parse_origin hparse).1]
    exact .inr ⟨item, ⟨w, hq ▸ List.mem_cons_self⟩, rfl, hinc⟩
  -- the refusal comes from an entry of the index
  have hentry : ∃ sid, s.sessions.tlsFdToSessionId.find parsed.fd = some sid := by
    apply Map.contains_eq_true.mp
    unfold SessionManager.create at hrefused
    split at hrefused
    next hcontains => exact hcontains
    next => cases hrefused
  obtain ⟨sid, hsid⟩ := hentry
  obtain ⟨hlive, inc?, hop, honly⟩ := hinv.entry hsid (hinv.ne_udpFd hpres)
  obtain ⟨session, hs⟩ := Option.ne_none_iff_exists'.mp hlive
  exact ⟨sid, session, parsed.fd, hs, honly inc hpres ▸ hop⟩

/-- A second login on a connection that has a session. -/
def secondLoginOnConnectionActs : List (Act .single) :=
  openTls 7 ++ tlsRequest 7 (loginRequest 0) ++ [.update 0, .send 0 true] ++
    [.tlsReceive 7 peer (loginRequest 0)]

theorem refusesOnlyOwners_secondLogin :
    ∃ s, run step (init .single) secondLoginOnConnectionActs = some s ∧ s.RefusesOnlyOwners ∧
      s.Owns 0 := by
  have hrun : run step (init .single) secondLoginOnConnectionActs = some _ := rfl
  have honly := refusesOnlyOwners_of_cleanIndex (by decide +kernel) hrun
  -- the second login is next at its worker, and would be refused
  have howns := honly (ServerConfig.single.tlsWorker 7) _ [] _ ⟨6, by decide⟩ 0 rfl rfl rfl rfl rfl rfl
  exact ⟨_, hrun, honly, howns⟩

/-- The first login of a new connection, under the number of a closed one that had a
    session. -/
def loginAfterReuseActs : List (Act .single) :=
  openTls 7 ++ tlsRequest 7 (loginRequest 0) ++ [.update 0, .send 0 true, .tlsClose 7] ++
    openTls 7 ++ [.tlsReceive 7 peer (loginRequest 0)]

theorem not_refusesOnlyOwners_loginAfterReuse :
    ∃ s, run step (init .single) loginAfterReuseActs = some s ∧ ¬ s.RefusesOnlyOwners := by
  have hrun : run step (init .single) loginAfterReuseActs = some _ := rfl
  refine ⟨_, hrun, fun h => ?_⟩
  obtain ⟨sid, session, fd, hs, hop⟩ :=
    h (ServerConfig.single.tlsWorker 7) _ [] _ ⟨6, by decide⟩ 1 rfl rfl rfl rfl rfl rfl
  -- the only opener is the closed connection
  change ((Map.empty : Map SessionId (Int × Option ℕ)).insert 5 (7, some 0)).find sid = _ at hop
  rw [Map.find_insert] at hop
  split at hop <;> cases hop

end Server

end NfEngine
