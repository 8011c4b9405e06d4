-- SUMMARY: The session table of mgmtd's AuthService, and exactly when the sessions of different logins are independent.
import Mathlib.Data.Nat.Digits.Defs
import NfEngine.Lib.Map
import NfEngine.Lib.Transition

/-!
# Sessions of the management server

`AuthService` keeps the sessions of the web clients in a table under their session
id, each with the second it expires in. An id is the second of the login in
decimal, followed by `_sess`. `now()` is a count of nanoseconds in 64 bits cut to
seconds, so that adding the lifetime of a session does not wrap.

Two logins in one second therefore share an id and an entry, and the logout of one
ends the session of the other. The sessions of a run are independent exactly when
no two logins of it succeed in the same second.
-/

namespace NfEngine

open Lib Lib.Transition

/-- `std::string`. -/
abbrev Text := List Char

/-- `SESSION_TTL_SEC`. -/
def sessionTtlSec : ℕ := 1800

structure AuthService.Session where
  expiresAt : ℕ
  deriving DecidableEq, Repr

open AuthService in
/-- The table and the account of the startup configuration. `sha256` is the digest
    of OpenSSL in hexadecimal. -/
structure AuthService where
  sessions : Map Text Session
  username : Text
  passwordHash : Text
  salt : Text
  sha256 : Text → Text

namespace AuthService

structure LoginResult where
  success : Bool
  sessionId : Text
  deriving DecidableEq, Repr

def setSessions (auth : AuthService) (sessions : Map Text Session) : AuthService :=
  ⟨sessions, auth.username, auth.passwordHash, auth.salt, auth.sha256⟩

@[simp] theorem sessions_setSessions (auth : AuthService) (m : Map Text Session) :
    (auth.setSessions m).sessions = m := rfl

def hash (auth : AuthService) (pw salt : Text) : Text := auth.sha256 (pw ++ salt)

/-- `std::to_string(now()) + "_sess"`. -/
def sessionIdAt (now : ℕ) : Text := Nat.toDigits 10 now ++ "_sess".toList

/-- `login`, with its two readings of the clock: for the id and for the expiry. -/
def login (auth : AuthService) (idTime expiryTime : ℕ) (id password : Text) :
    LoginResult × AuthService :=
  if id ≠ auth.username then
    (⟨false, []⟩, auth)
  else if auth.hash password auth.salt ≠ auth.passwordHash then
    (⟨false, []⟩, auth)
  else
    let sessionId := sessionIdAt idTime
    (⟨true, sessionId⟩,
      auth.setSessions (auth.sessions.insert sessionId ⟨expiryTime + sessionTtlSec⟩))

def validateSession (auth : AuthService) (now : ℕ) (sessionId : Text) : Bool × AuthService :=
  match auth.sessions.find sessionId with
  | none => (false, auth)
  | some session =>
    if session.expiresAt < now then
      (false, auth.setSessions (auth.sessions.erase sessionId))
    else
      (true, auth)

def logout (auth : AuthService) (sessionId : Text) : AuthService :=
  auth.setSessions (auth.sessions.erase sessionId)

/-! ## What the calls do -/

/-- The checks of `login`. -/
def accepts (auth : AuthService) (id password : Text) : Bool :=
  id == auth.username && auth.hash password auth.salt == auth.passwordHash

theorem login_of_accepts {auth : AuthService} {id password : Text}
    (h : auth.accepts id password = true) (idTime expiryTime : ℕ) :
    auth.login idTime expiryTime id password =
      (⟨true, sessionIdAt idTime⟩,
        auth.setSessions (auth.sessions.insert (sessionIdAt idTime) ⟨expiryTime + sessionTtlSec⟩)) := by
  simp only [accepts, Bool.and_eq_true, beq_iff_eq] at h
  simp [login, h.1, h.2]

theorem login_of_not_accepts {auth : AuthService} {id password : Text}
    (h : auth.accepts id password = false) (idTime expiryTime : ℕ) :
    auth.login idTime expiryTime id password = (⟨false, []⟩, auth) := by
  simp only [accepts, Bool.and_eq_false_iff, beq_eq_false_iff_ne] at h
  unfold login
  split
  · rfl
  next hid =>
    rw [if_pos (h.resolve_left (by simpa using hid))]

/-- A session is valid exactly while its entry has not expired. -/
theorem validateSession_eq_true {auth : AuthService} {now : ℕ} {sessionId : Text} :
    (auth.validateSession now sessionId).1 = true ↔
      ∃ session, auth.sessions.find sessionId = some session ∧ now ≤ session.expiresAt := by
  unfold validateSession
  cases hfind : auth.sessions.find sessionId with
  | none => simp
  | some session =>
    dsimp only
    split
    next hlt => simpa using hlt
    next hle => simpa using hle

/-- The sessions have no part in the checks of `login`. -/
theorem accepts_validateSession (auth : AuthService) (now : ℕ) (sessionId : Text) :
    (auth.validateSession now sessionId).2.accepts = auth.accepts := by
  unfold validateSession
  cases auth.sessions.find sessionId with
  | none => rfl
  | some session =>
    dsimp only
    split <;> rfl

/-- The table is as before, or an expired entry has been removed from it. -/
def ExpiredRemoved (now : ℕ) (before after : Map Text Session) : Prop :=
  after = before ∨ ∃ sessionId session, before.find sessionId = some session ∧
    session.expiresAt < now ∧ after = before.erase sessionId

theorem expiredRemoved_validateSession (auth : AuthService) (now : ℕ) (sessionId : Text) :
    ExpiredRemoved now auth.sessions (auth.validateSession now sessionId).2.sessions := by
  unfold validateSession
  cases hfind : auth.sessions.find sessionId with
  | none => exact .inl rfl
  | some session =>
    dsimp only
    split
    next hexpired => exact .inr ⟨sessionId, session, hfind, hexpired, rfl⟩
    next => exact .inl rfl

/-- Every entry but an expired one is left alone. -/
theorem ExpiredRemoved.find {now : ℕ} {before after : Map Text Session}
    (h : ExpiredRemoved now before after) (key : Text) :
    after.find key = before.find key ∨ (after.find key = none ∧
      ∃ session, before.find key = some session ∧ session.expiresAt < now) := by
  rcases h with rfl | ⟨sessionId, session, hfind, hexpired, rfl⟩
  · exact .inl rfl
  · by_cases hkey : key = sessionId
    · subst hkey
      exact .inr ⟨Map.find_erase_same .., session, hfind, hexpired⟩
    · exact .inl (Map.find_erase_ne _ hkey)

theorem sessionIdAt_injective : Function.Injective sessionIdAt := by
  intro t t' h
  have hdigits : Nat.toDigits 10 t = Nat.toDigits 10 t' := List.append_cancel_right h
  calc
    t = Nat.ofDigitChars 10 (Nat.toDigits 10 t) 0 := Nat.ofDigitChars_ten_toDigits.symm
    _ = Nat.ofDigitChars 10 (Nat.toDigits 10 t') 0 := by rw [hdigits]
    _ = t' := Nat.ofDigitChars_ten_toDigits

end AuthService

/-! ## Runs -/

/-- A login that succeeded: the readings of the clock, and whether a logout was
    called on its behalf. -/
structure Login where
  idTime : ℕ
  time : ℕ
  loggedOut : Bool
  deriving DecidableEq, Repr

def Login.sessionId (l : Login) : Text := AuthService.sessionIdAt l.idTime

/-- The service, the time, and the logins that have succeeded so far. -/
structure AuthRun where
  auth : AuthService
  clock : ℕ
  logins : List Login

inductive AuthCall where
  | login (id password : Text) (idTime time : ℕ)
  | validateSession (sessionId : Text) (now : ℕ)
  /-- On behalf of a login, whose id it passes, or with an id that no login has
      returned. -/
  | logout (owner : Option ℕ) (sessionId : Text) (now : ℕ)

namespace AuthRun

/-- A service that has just been built. -/
def start (auth : AuthService) : AuthRun := ⟨auth.setSessions .empty, 0, []⟩

/-- The calls come at non-decreasing times. -/
def step (s : AuthRun) : AuthCall → Option AuthRun
  | .login id password idTime time =>
    if s.clock ≤ idTime ∧ idTime ≤ time then
      let (result, auth) := s.auth.login idTime time id password
      some ⟨auth, time, if result.success then s.logins ++ [⟨idTime, time, false⟩] else s.logins⟩
    else
      none
  | .validateSession sessionId now =>
    if s.clock ≤ now then some ⟨(s.auth.validateSession now sessionId).2, now, s.logins⟩ else none
  | .logout (some k) sessionId now =>
    match s.logins[k]? with
    | some l =>
      if s.clock ≤ now ∧ l.sessionId = sessionId then
        some ⟨s.auth.logout sessionId, now, s.logins.set k ⟨l.idTime, l.time, true⟩⟩
      else
        none
    | none => none
  | .logout none sessionId now =>
    if s.clock ≤ now ∧ ∀ l ∈ s.logins, l.sessionId ≠ sessionId then
      some ⟨s.auth.logout sessionId, now, s.logins⟩
    else
      none

/-- From now until `last` the service answers that the session is valid. -/
def ValidUntil (s : AuthRun) (last : ℕ) (sessionId : Text) : Prop :=
  ∀ now, s.clock ≤ now → now ≤ last → (s.auth.validateSession now sessionId).1 = true

/-- Different logins have different ids, and the session of a login is valid for its
    whole lifetime unless its own client has logged out. -/
structure Independent (s : AuthRun) : Prop where
  distinct : (s.logins.map Login.sessionId).Nodup
  valid : ∀ l ∈ s.logins, l.loggedOut = false → s.ValidUntil (l.time + sessionTtlSec) l.sessionId

/-- No login has succeeded in the second in which this one succeeds. -/
def FreshSecond (s : AuthRun) : AuthCall → Prop
  | .login id password idTime _ =>
    s.auth.accepts id password = true → ∀ l ∈ s.logins, l.idTime ≠ idTime
  | _ => True

instance (s : AuthRun) : DecidablePred s.FreshSecond
  | .login id password idTime _ =>
    inferInstanceAs (Decidable (s.auth.accepts id password = true → ∀ l ∈ s.logins, l.idTime ≠ idTime))
  | .validateSession _ _ | .logout _ _ _ => isTrue trivial

theorem validUntil_iff {s : AuthRun} {last : ℕ} {sessionId : Text} :
    s.ValidUntil last sessionId ↔
      (s.clock ≤ last → ∃ session, s.auth.sessions.find sessionId = some session ∧
        last ≤ session.expiresAt) := by
  constructor
  · intro h hle
    exact AuthService.validateSession_eq_true.mp (h last hle (Nat.le_refl _))
  · intro h now hclock hlast
    obtain ⟨session, hfind, hexp⟩ := h (hclock.trans hlast)
    exact AuthService.validateSession_eq_true.mpr ⟨session, hfind, hlast.trans hexp⟩

/-- A session stays valid when time passes and its entry stays. -/
theorem ValidUntil.mono {s s' : AuthRun} {last : ℕ} {sessionId : Text}
    (h : s.ValidUntil last sessionId) (hclock : s.clock ≤ s'.clock)
    (hfind : s'.auth.sessions.find sessionId = s.auth.sessions.find sessionId) :
    s'.ValidUntil last sessionId := by
  rw [validUntil_iff] at h ⊢
  rw [hfind]
  exact fun hle => h (hclock.trans hle)

section Steps

variable {s s' : AuthRun}

/-- A login that succeeds keeps the sessions independent exactly when its second is
    fresh. -/
theorem independent_login_iff (h : s.Independent) {id password : Text} {idTime time : ℕ}
    (hstep : s.step (.login id password idTime time) = some s') :
    s'.Independent ↔ s.FreshSecond (.login id password idTime time) := by
  simp only [step] at hstep
  split at hstep
  next htime =>
    cases hacc : s.auth.accepts id password with
    | false =>
      rw [AuthService.login_of_not_accepts hacc] at hstep
      cases hstep
      refine iff_of_true ⟨h.distinct, fun l hl hout => ?_⟩ (fun hyes => ?_)
      · exact (h.valid l hl hout).mono (htime.1.trans htime.2) rfl
      · rw [hacc] at hyes
        cases hyes
    | true =>
      rw [AuthService.login_of_accepts hacc] at hstep
      cases hstep
      simp only [FreshSecond, hacc, true_imp_iff, if_true]
      have hids : List.map Login.sessionId (s.logins ++ [⟨idTime, time, false⟩]) =
          s.logins.map Login.sessionId ++ [AuthService.sessionIdAt idTime] := by
        rw [List.map_append]
        rfl
      constructor
      · rintro ⟨hnodup, _⟩ l hl rfl
        rw [hids, List.nodup_append] at hnodup
        exact hnodup.2.2 _ (List.mem_map_of_mem hl) _ List.mem_cons_self rfl
      · intro hfresh
        have hother : ∀ l ∈ s.logins, l.sessionId ≠ AuthService.sessionIdAt idTime :=
          fun l hl heq => hfresh l hl (AuthService.sessionIdAt_injective heq)
        refine ⟨?_, fun l hl hout => ?_⟩
        · simp only [hids]
          refine List.Nodup.append h.distinct (List.nodup_singleton _) ?_
          intro sid hsid hnew
          obtain ⟨l, hl, rfl⟩ := List.mem_map.mp hsid
          exact hother l hl (List.mem_singleton.mp hnew)
        · rcases List.mem_append.mp hl with hl | hl
          · refine (h.valid l hl hout).mono (htime.1.trans htime.2) ?_
            exact Map.find_insert_ne _ _ (hother l hl)
          · cases List.mem_singleton.mp hl
            exact validUntil_iff.mpr fun _ => ⟨_, Map.find_insert_same .., Nat.le_refl _⟩
  next => cases hstep

theorem independent_validateSession (h : s.Independent) {sessionId : Text} {now : ℕ}
    (hstep : s.step (.validateSession sessionId now) = some s') : s'.Independent := by
  simp only [step] at hstep
  split at hstep
  next htime =>
    cases hstep
    refine ⟨h.distinct, fun l hl hout => ?_⟩
    have hvalid := h.valid l hl hout
    rcases (s.auth.expiredRemoved_validateSession now sessionId).find l.sessionId with
      hsame | ⟨_, session, hfind, hexpired⟩
    · exact hvalid.mono htime hsame
    · -- the entry that goes has outlived the session
      rw [validUntil_iff] at hvalid ⊢
      intro hle
      obtain ⟨session', hfind', hexp⟩ := hvalid (htime.trans hle)
      rw [hfind] at hfind'
      cases hfind'
      exact absurd (hle.trans hexp) (Nat.not_le.mpr hexpired)
  next => cases hstep

theorem map_sessionId_set {logins : List Login} {k : ℕ} {l : Login} (hl : logins[k]? = some l) :
    (logins.set k ⟨l.idTime, l.time, true⟩).map Login.sessionId = logins.map Login.sessionId := by
  rw [List.map_set]
  apply List.ext_getElem?
  intro i
  rw [List.getElem?_set]
  split
  next hik =>
    subst hik
    obtain ⟨hk, rfl⟩ := List.getElem?_eq_some_iff.mp hl
    simp [hk, Login.sessionId]
  next => rfl

/-- A login that is not logged out stands at another place than the one that now is,
    so its id differs. -/
theorem sessionId_ne_of_mem_set {logins : List Login} (hnodup : (logins.map Login.sessionId).Nodup)
    {k : ℕ} {l l' : Login} (hl : logins[k]? = some l)
    (hl' : l' ∈ logins.set k ⟨l.idTime, l.time, true⟩) (hout : l'.loggedOut = false) :
    l' ∈ logins ∧ l'.sessionId ≠ l.sessionId := by
  obtain ⟨hk, rfl⟩ := List.getElem?_eq_some_iff.mp hl
  obtain ⟨j, hj⟩ := List.mem_iff_getElem?.mp hl'
  rw [List.getElem?_set] at hj
  split at hj
  next =>
    cases hj
    cases hout
  next hkj =>
    obtain ⟨hjlt, rfl⟩ := List.getElem?_eq_some_iff.mp hj
    refine ⟨List.getElem_mem hjlt, fun heq => hkj ?_⟩
    have hsame : logins[j] = logins[k] :=
      List.inj_on_of_nodup_map hnodup (List.getElem_mem hjlt) (List.getElem_mem hk) heq
    exact ((hnodup.of_map _).getElem_inj_iff.mp hsame).symm

theorem independent_logout (h : s.Independent) {owner : Option ℕ} {sessionId : Text} {now : ℕ}
    (hstep : s.step (.logout owner sessionId now) = some s') : s'.Independent := by
  cases owner with
  | none =>
    simp only [step] at hstep
    split at hstep
    next hguard =>
      cases hstep
      refine ⟨h.distinct, fun l hl hout => (h.valid l hl hout).mono hguard.1 ?_⟩
      exact Map.find_erase_ne _ (hguard.2 l hl)
    next => cases hstep
  | some k =>
    simp only [step] at hstep
    split at hstep
    next l hl =>
      split at hstep
      next hguard =>
        obtain ⟨hclock, rfl⟩ := hguard
        cases hstep
        refine ⟨?_, fun l' hl' hout => ?_⟩
        · simp only [map_sessionId_set hl]
          exact h.distinct
        · obtain ⟨hmem, hne⟩ := sessionId_ne_of_mem_set h.distinct hl hl' hout
          exact (h.valid l' hmem hout).mono hclock (Map.find_erase_ne _ hne)
      next => cases hstep
    next => cases hstep

theorem independent_step_iff (h : s.Independent) {a : AuthCall} (hstep : s.step a = some s') :
    s'.Independent ↔ s.FreshSecond a := by
  cases a with
  | login id password idTime time => exact independent_login_iff h hstep
  | validateSession sessionId now =>
    exact iff_of_true (independent_validateSession h hstep) trivial
  | logout owner sessionId now => exact iff_of_true (independent_logout h hstep) trivial

end Steps

theorem independent_start (auth : AuthService) : (start auth).Independent where
  distinct := List.nodup_nil
  valid l hl := by cases hl

/-- The sessions of a run are independent exactly when no two logins succeed in the
    same second. -/
theorem always_independent_iff_freshSecond {auth : AuthService} {s : AuthRun}
    {calls : List AuthCall} (hrun : run step (start auth) calls = some s) :
    Always step Independent (start auth) calls ↔ Along step FreshSecond (start auth) calls :=
  always_iff_along (fun _ _ _ h hstep => independent_step_iff h hstep) (independent_start auth) hrun

/-- SHA-256 of `adminmysalt`; every other text is given the digest of the empty one. -/
def sampleSha256 (input : Text) : Text :=
  if input = "adminmysalt".toList then
    "c88abcb316f451bca4908fabd0d4baa6f2a032eecca64188d6142e3a44e6a445".toList
  else
    "e3b0c44298fc1c149afbf4c8996fb92427ae41e4649b934ca495991b7852b855".toList

/-- The account of the startup configuration in the repository, with the password `admin`. -/
def adminAccount : AuthService :=
  ⟨.empty, "admin".toList,
    "c88abcb316f451bca4908fabd0d4baa6f2a032eecca64188d6142e3a44e6a445".toList, "mysalt".toList,
    sampleSha256⟩

/-- A login of the administrator at a time. -/
def adminLogin (now : ℕ) : AuthCall := .login "admin".toList "admin".toList now now

/-- Two logins in different seconds, the first of which logs out. -/
def apartCalls : List AuthCall :=
  [adminLogin 100, adminLogin 101, .logout (some 0) (AuthService.sessionIdAt 100) 102,
    .validateSession (AuthService.sessionIdAt 101) 103]

theorem always_independent_apart : Always step Independent (start adminAccount) apartCalls := by
  have hrun : run step (start adminAccount) apartCalls = some _ := rfl
  exact (always_independent_iff_freshSecond hrun).mpr (by decide +kernel)

/-- Two logins in one second, the first of which logs out. -/
def sameSecondCalls : List AuthCall :=
  [adminLogin 100, adminLogin 100, .logout (some 0) (AuthService.sessionIdAt 100) 101]

/-- The second login gets the id of the first, and the logout of the first client
    ends its session. -/
theorem not_independent_sameSecond :
    ∃ s, run step (start adminAccount) sameSecondCalls = some s ∧
      s.logins = [⟨100, 100, true⟩, ⟨100, 100, false⟩] ∧
      (s.auth.validateSession 101 (AuthService.sessionIdAt 100)).1 = false ∧
      ¬ s.Independent := by
  refine ⟨_, rfl, rfl, by decide +kernel, fun h => ?_⟩
  exact absurd h.distinct (by decide +kernel)

end AuthRun

end NfEngine
