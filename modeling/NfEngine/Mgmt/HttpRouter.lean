-- SUMMARY: The routes of mgmtd's HttpRouter, and that the statistics are served to logged-in clients only.
import NfEngine.Ipc.IpcMessage
import NfEngine.Mgmt.AuthService

/-!
# Routing of HTTP requests

`HttpRouter::handle` tries its routes in order: static files, login, logout, the
protected targets below `/api/v1/`, and not found. A protected target is served
when `AuthService` finds the session that the cookie names.

A run handles requests one after the other, each with one reading of the clock. Which
sessions are good is said of the requests alone: a request opens a session when it is a
login with the account's credentials, and closes the one its cookie names when it is a
logout. A session is good when its last login is at most `SESSION_TTL_SEC` ago and no
logout of it came since, and the table of the service answers just so.
-/

namespace NfEngine

open Lib Lib.Transition

/-! ## Requests and responses -/

/-- `http::verb`, of which the router asks only whether it is `post`. -/
inductive Verb where
  | post
  | other
  deriving DecidableEq, Repr

/-- `http::status`. -/
inductive Status where
  | ok
  | badRequest
  | unauthorized
  | notFound
  deriving DecidableEq, Repr

/-- The fields of a request that the router reads. `cookie` is the value of its first
    cookie field. -/
structure Request where
  target : Text
  method : Verb
  version : ℕ
  keepAlive : Bool
  cookie : Option Text
  body : Text

structure Response where
  status : Status
  version : ℕ
  server : Text
  contentType : Text
  keepAlive : Bool
  setCookie : Option Text
  body : Text
  deriving DecidableEq, Repr

def Response.withCookie (res : Response) (value : Text) : Response :=
  ⟨res.status, res.version, res.server, res.contentType, res.keepAlive, some value, res.body⟩

/-- The functions of `StatsService`. -/
inductive StatsQuery where
  | fetchSession
  | fetchEngine
  | fetchShard
  | fetchMarket
  deriving DecidableEq, Repr

structure HttpCache.Entry where
  contentType : Text
  body : Text

/-- `HttpCache` over the files that `loadFile` can open. -/
structure HttpCache where
  baseDir : Text
  loadFile : Text → Option Text

namespace HttpCache

def hasExtension (path ext : Text) : Bool := ext.isSuffixOf path

def get (cache : HttpCache) (path : Text) : Option Entry :=
  if path = "/".toList then
    (cache.loadFile (cache.baseDir ++ "/index.html".toList)).map (⟨"text/html".toList, ·⟩)
  else
    let contentType :=
      if hasExtension path ".html".toList then "text/html".toList
      else if hasExtension path ".js".toList then "application/javascript".toList
      else if hasExtension path ".css".toList then "text/css".toList
      else "text/plain".toList
    (cache.loadFile (cache.baseDir ++ path)).map (⟨contentType, ·⟩)

end HttpCache

/-- The router with its services. `credentials` are the user name and the password in
    the body of a login, unless reading them throws. -/
structure HttpRouter where
  cache : HttpCache
  authService : AuthService
  credentials : Text → Option (Text × Text)

/-- A call into a service that a run is judged by. -/
inductive ServiceCall where
  | login (result : AuthService.LoginResult)
  | logout (sessionId : Text)
  | stats (query : StatsQuery)
  deriving DecidableEq, Repr

/-- What `handle` does: its response, unless the statistics throw, the calls into the
    services in order, and the sessions it leaves. -/
structure Handled where
  response : Except IpcClientError Response
  calls : List ServiceCall
  authService : AuthService

namespace HttpRouter

/-- `std::string::find`: the first position at which the text contains the key. -/
def findText (key : Text) : Text → Option ℕ
  | [] => if key = [] then some 0 else none
  | c :: text => if key.isPrefixOf (c :: text) then some 0 else (findText key text).map (· + 1)

def makeResponse (status : Status) (body contentType : Text) (version : ℕ) (keepAlive : Bool) :
    Response :=
  ⟨status, version, "nf-mgmtd".toList, contentType, keepAlive, none, body⟩

def applicationJson : Text := "application/json".toList

def isStatic (target : Text) : Bool :=
  target == "/".toList || "/js/".toList.isPrefixOf target || "/css/".toList.isPrefixOf target ||
    "/img/".toList.isPrefixOf target

def extractSession (req : Request) : Text :=
  match req.cookie with
  | none => []
  | some cookies =>
    let key := "session=".toList
    match findText key cookies with
    | none => []
    | some pos =>
      let last :=
        match findText ";".toList (cookies.drop pos) with
        | none => cookies.length
        | some i => pos + i
      (cookies.drop (pos + key.length)).take (last - (pos + key.length))

def handleStatic (router : HttpRouter) (req : Request) : Response :=
  match router.cache.get req.target with
  | none => makeResponse .notFound "not found".toList "text/plain".toList req.version req.keepAlive
  | some file => makeResponse .ok file.body file.contentType req.version req.keepAlive

def handleLogin (router : HttpRouter) (now : ℕ) (req : Request) : Handled :=
  match router.credentials req.body with
  | none =>
    ⟨.ok (makeResponse .badRequest "\x7b\"error\":\"bad request\"\x7d".toList applicationJson
      req.version req.keepAlive), [], router.authService⟩
  | some (username, password) =>
    let (result, auth) := router.authService.login now now username password
    if !result.success then
      ⟨.ok (makeResponse .unauthorized "\x7b\"error\":\"invalid credentials\"\x7d".toList
        applicationJson req.version req.keepAlive), [.login result], auth⟩
    else
      let res := makeResponse .ok "\x7b\"status\":\"ok\"\x7d".toList applicationJson req.version
        req.keepAlive
      ⟨.ok (res.withCookie ("session=".toList ++ result.sessionId ++
        "; HttpOnly; Path=/; SameSite=Strict".toList)), [.login result], auth⟩

def handleLogout (router : HttpRouter) (req : Request) : Handled :=
  let sessionId := extractSession req
  let res := makeResponse .ok "\x7b\"status\":\"logged_out\"\x7d".toList applicationJson req.version
    req.keepAlive
  ⟨.ok (res.withCookie "session=; Path=/; Max-Age=0".toList), [.logout sessionId],
    router.authService.logout sessionId⟩

/-- The statistics behind a protected target. -/
def statsQuery (target : Text) : Option StatsQuery :=
  if target = "/api/v1/stats/session".toList then some .fetchSession
  else if target = "/api/v1/stats/engine".toList then some .fetchEngine
  else if target = "/api/v1/stats/shard".toList then some .fetchShard
  else if target = "/api/v1/stats/market".toList then some .fetchMarket
  else none

def notFound (req : Request) : Response :=
  makeResponse .notFound "\x7b\"error\":\"not found\"\x7d".toList applicationJson req.version
    req.keepAlive

/-- `dispatchProtected`, with the answers of `StatsService`. -/
def dispatchProtected (stats : StatsQuery → Except IpcClientError Text) (req : Request) :
    Except IpcClientError Response × List ServiceCall :=
  match statsQuery req.target with
  | some query =>
    ((stats query).map (makeResponse .ok · applicationJson req.version req.keepAlive),
      [.stats query])
  | none => (.ok (notFound req), [])

def handleProtected (router : HttpRouter) (now : ℕ)
    (stats : StatsQuery → Except IpcClientError Text) (req : Request) : Handled :=
  let (valid, auth) := router.authService.validateSession now (extractSession req)
  if !valid then
    ⟨.ok (makeResponse .unauthorized "\x7b\"error\":\"unauthorized\"\x7d".toList applicationJson
      req.version req.keepAlive), [], auth⟩
  else
    let (response, calls) := dispatchProtected stats req
    ⟨response, calls, auth⟩

def handle (router : HttpRouter) (now : ℕ) (stats : StatsQuery → Except IpcClientError Text)
    (req : Request) : Handled :=
  if isStatic req.target then
    ⟨.ok (router.handleStatic req), [], router.authService⟩
  else if req.target = "/api/login".toList ∧ req.method = .post then
    router.handleLogin now req
  else if req.target = "/api/logout".toList ∧ req.method = .post then
    router.handleLogout req
  else if "/api/v1/".toList.isPrefixOf req.target then
    router.handleProtected now stats req
  else
    ⟨.ok (notFound req), [], router.authService⟩

/-! ## Logins and logouts among the requests -/

/-- The id of the session that a request opens: it is a login, its body has credentials, and
    they are those of the account. -/
def openedBy (router : HttpRouter) (now : ℕ) (req : Request) : Option Text :=
  if req.target = "/api/login".toList ∧ req.method = .post then
    match router.credentials req.body with
    | some (username, password) =>
      if router.authService.accepts username password then some (AuthService.sessionIdAt now) else none
    | none => none
  else
    none

/-- The id of the session that a request closes: the one of its cookie, if it is a logout. -/
def closedBy (req : Request) : Option Text :=
  if req.target = "/api/logout".toList ∧ req.method = .post then some (extractSession req) else none

/-- Which sessions requests open depends on the account and not on the sessions. -/
theorem openedBy_congr {router router' : HttpRouter} (hbody : router'.credentials = router.credentials)
    (haccepts : router'.authService.accepts = router.authService.accepts) :
    router'.openedBy = router.openedBy := by
  funext now req
  simp only [openedBy, hbody, haccepts]

theorem openedBy_of_target {router : HttpRouter} {now : ℕ} {req : Request}
    (h : ¬ (req.target = "/api/login".toList ∧ req.method = .post)) : router.openedBy now req = none :=
  if_neg h

theorem closedBy_of_target {req : Request}
    (h : ¬ (req.target = "/api/logout".toList ∧ req.method = .post)) : closedBy req = none :=
  if_neg h

theorem closedBy_of_login {req : Request} (h : req.target = "/api/login".toList) :
    closedBy req = none := by
  refine closedBy_of_target fun hlogout => ?_
  rw [h] at hlogout
  exact absurd hlogout.1 (by decide)

/-! ## What a request can do -/

/-- What a request can do to the sessions, and the calls it makes on the way. -/
inductive Effect (router : HttpRouter) (now : ℕ) (req : Request) : List ServiceCall → AuthService → Prop
  | quiet (hopened : router.openedBy now req = none) (hclosed : closedBy req = none) :
    Effect router now req [] router.authService
  | refused (hopened : router.openedBy now req = none) (hclosed : closedBy req = none) :
    Effect router now req [.login ⟨false, []⟩] router.authService
  | login (sessionId : Text) (hopened : router.openedBy now req = some sessionId) :
    Effect router now req [.login ⟨true, sessionId⟩] (router.authService.setSessions
      (router.authService.sessions.insert sessionId ⟨now + sessionTtlSec⟩))
  | logout (sessionId : Text) (hopened : router.openedBy now req = none)
    (hclosed : closedBy req = some sessionId) :
    Effect router now req [.logout sessionId] (router.authService.logout sessionId)
  /-- Validation, and then a call of the statistics only for a valid session. -/
  | validate (query : Option StatsQuery) (hopened : router.openedBy now req = none)
    (hclosed : closedBy req = none)
    (hvalid : query.isSome → (router.authService.validateSession now (extractSession req)).1 = true) :
    Effect router now req (query.toList.map .stats)
      (router.authService.validateSession now (extractSession req)).2

section Effects

variable (router : HttpRouter) (now : ℕ) (stats : StatsQuery → Except IpcClientError Text)
  (req : Request)

theorem effect_handleLogin (hroute : req.target = "/api/login".toList ∧ req.method = .post) :
    Effect router now req (router.handleLogin now req).calls
      (router.handleLogin now req).authService := by
  have hclosed := closedBy_of_login hroute.1
  unfold handleLogin
  cases hbody : router.credentials req.body with
  | none =>
    have hopened : router.openedBy now req = none := by rw [openedBy, if_pos hroute, hbody]
    exact .quiet hopened hclosed
  | some pair =>
    obtain ⟨username, password⟩ := pair
    dsimp only
    cases hacc : router.authService.accepts username password with
    | false =>
      have hopened : router.openedBy now req = none := by
        rw [openedBy, if_pos hroute, hbody]
        exact if_neg (Bool.eq_false_iff.mp hacc)
      rw [AuthService.login_of_not_accepts hacc]
      exact .refused hopened hclosed
    | true =>
      have hopened : router.openedBy now req = some (AuthService.sessionIdAt now) := by
        rw [openedBy, if_pos hroute, hbody]
        exact if_pos hacc
      rw [AuthService.login_of_accepts hacc]
      exact .login _ hopened

theorem effect_handleProtected (hopened : router.openedBy now req = none)
    (hclosed : closedBy req = none) :
    Effect router now req (router.handleProtected now stats req).calls
      (router.handleProtected now stats req).authService := by
  have hinvalid : Effect router now req []
      (router.authService.validateSession now (extractSession req)).2 :=
    .validate none hopened hclosed (by simp)
  unfold handleProtected
  cases hvalid : (router.authService.validateSession now (extractSession req)).1 with
  | false => simpa [hvalid] using hinvalid
  | true =>
    have hquery := Effect.validate (statsQuery req.target) hopened hclosed (fun _ => hvalid)
    unfold dispatchProtected
    cases hq : statsQuery req.target with
    | none => simpa [hvalid] using hinvalid
    | some query => simpa [hvalid, hq] using hquery

theorem effect_handle :
    Effect router now req (router.handle now stats req).calls
      (router.handle now stats req).authService := by
  unfold handle
  split
  next hstatic =>
    -- neither of the two routes is a static target
    refine .quiet (openedBy_of_target fun hroute => ?_) (closedBy_of_target fun hroute => ?_) <;>
      rw [hroute.1] at hstatic <;> exact absurd hstatic (by decide)
  split
  next hroute => exact effect_handleLogin router now req hroute
  next hlogin =>
    have hopened : router.openedBy now req = none := openedBy_of_target hlogin
    split
    next hroute => exact .logout _ hopened (if_pos hroute)
    next hlogout =>
      have hclosed : closedBy req = none := closedBy_of_target hlogout
      split
      · exact effect_handleProtected router now stats req hopened hclosed
      · exact .quiet hopened hclosed

theorem accepts_handle :
    (router.handle now stats req).authService.accepts = router.authService.accepts := by
  have heffect := router.effect_handle now stats req
  generalize (router.handle now stats req).calls = calls at heffect
  generalize (router.handle now stats req).authService = auth at heffect
  cases heffect with
  | quiet | refused | login | logout => rfl
  | validate => exact router.authService.accepts_validateSession now _

/-- A target has at most one of two incomparable beginnings. -/
theorem isPrefixOf_eq_false {key key' target : Text} (h : key.isPrefixOf target = true)
    (hlen : key'.length ≤ key.length) (hkey : key'.isPrefixOf key = false) :
    key'.isPrefixOf target = false := by
  rw [Bool.eq_false_iff]
  intro h'
  have hpre : key' <+: key := List.prefix_of_prefix_length_le
    (List.isPrefixOf_iff_prefix.mp h') (List.isPrefixOf_iff_prefix.mp h) hlen
  rw [List.isPrefixOf_iff_prefix.mpr hpre] at hkey
  cases hkey

/-- No earlier route takes a target below `/api/v1/`. -/
theorem handle_of_protected {req : Request} (h : "/api/v1/".toList.isPrefixOf req.target = true) :
    router.handle now stats req = router.handleProtected now stats req := by
  have hne : ∀ target, "/api/v1/".toList.isPrefixOf target = false → req.target ≠ target := by
    rintro target hnot rfl
    rw [h] at hnot
    cases hnot
  have hroot : (req.target == "/".toList) = false := beq_false_of_ne (hne _ (by decide))
  have hjs : "/js/".toList.isPrefixOf req.target = false :=
    isPrefixOf_eq_false h (by decide) (by decide)
  have hcss : "/css/".toList.isPrefixOf req.target = false :=
    isPrefixOf_eq_false h (by decide) (by decide)
  have himg : "/img/".toList.isPrefixOf req.target = false :=
    isPrefixOf_eq_false h (by decide) (by decide)
  have hstatic : isStatic req.target = false := by
    rw [isStatic, hroot, hjs, hcss, himg]
    rfl
  rw [handle, if_neg (by rw [hstatic]; exact Bool.false_ne_true),
    if_neg (fun hlogin => hne _ (by decide) hlogin.1),
    if_neg (fun hlogout => hne _ (by decide) hlogout.1), if_pos h]

end Effects

end HttpRouter

/-! ## Runs -/

/-- The router and the time. -/
structure HttpRun where
  router : HttpRouter
  clock : ℕ

/-- A request, the time it is handled at, and what `StatsService` would answer. -/
structure Arrival where
  now : ℕ
  req : Request
  stats : StatsQuery → Except IpcClientError Text

namespace HttpRun

open HttpRouter

/-- A router over a service that has just been built. -/
def start (router : HttpRouter) : HttpRun :=
  ⟨⟨router.cache, router.authService.setSessions .empty, router.credentials⟩, 0⟩

def step (s : HttpRun) (a : Arrival) : Option HttpRun :=
  if s.clock ≤ a.now then
    some ⟨⟨s.router.cache, (s.router.handle a.now a.stats a.req).authService, s.router.credentials⟩, a.now⟩
  else
    none

/-- The last of these requests that opened the session was at `t`, and none since has closed
    it. -/
def LoggedInAt (router : HttpRouter) (arrivals : List Arrival) (sessionId : Text) (t : ℕ) : Prop :=
  ∃ earlier login later, arrivals = earlier ++ login :: later ∧ login.now = t ∧
    router.openedBy login.now login.req = some sessionId ∧
    ∀ a ∈ later, router.openedBy a.now a.req ≠ some sessionId ∧ closedBy a.req ≠ some sessionId

/-- The three conditions under which a session is good. -/
def Authorized (router : HttpRouter) (arrivals : List Arrival) (sessionId : Text) (now : ℕ) : Prop :=
  ∃ t, LoggedInAt router arrivals sessionId t ∧ now ≤ t + sessionTtlSec

/-- The time of the login that `LoggedInAt` speaks of, request by request. -/
def grant (router : HttpRouter) (sessionId : Text) (granted : Option ℕ) (a : Arrival) : Option ℕ :=
  if router.openedBy a.now a.req = some sessionId then some a.now
  else if closedBy a.req = some sessionId then none
  else granted

def grantedAt (router : HttpRouter) (sessionId : Text) (arrivals : List Arrival) : Option ℕ :=
  arrivals.foldl (grant router sessionId) none

section Grants

variable {router : HttpRouter} {arrivals : List Arrival} {a : Arrival} {sessionId : Text} {t : ℕ}

theorem grantedAt_concat :
    grantedAt router sessionId (arrivals ++ [a]) =
      grant router sessionId (grantedAt router sessionId arrivals) a := by
  rw [grantedAt, List.foldl_append]
  rfl

theorem loggedInAt_concat :
    LoggedInAt router (arrivals ++ [a]) sessionId t ↔
      (router.openedBy a.now a.req = some sessionId ∧ a.now = t) ∨
        ((router.openedBy a.now a.req ≠ some sessionId ∧ closedBy a.req ≠ some sessionId) ∧
          LoggedInAt router arrivals sessionId t) := by
  constructor
  · rintro ⟨earlier, login, later, heq, hnow, hopened, hlater⟩
    rcases List.eq_nil_or_concat later with rfl | ⟨later, b, rfl⟩
    · obtain ⟨rfl, hlast⟩ := List.append_inj' heq rfl
      cases hlast
      exact .inl ⟨hopened, hnow⟩
    · rw [List.concat_eq_append, ← List.cons_append, ← List.append_assoc] at heq
      obtain ⟨rfl, hlast⟩ := List.append_inj' heq rfl
      cases hlast
      refine .inr ⟨hlater a (by simp), earlier, login, later, rfl, hnow, hopened, fun c hc => ?_⟩
      exact hlater c (by simp [hc])
  · rintro (⟨hopened, hnow⟩ | ⟨hnone, earlier, login, later, rfl, hnow, hopened, hlater⟩)
    · exact ⟨arrivals, a, [], rfl, hnow, hopened, by simp⟩
    · refine ⟨earlier, login, later ++ [a], by simp, hnow, hopened, fun c hc => ?_⟩
      rcases List.mem_append.mp hc with hc | hc
      · exact hlater c hc
      · rw [List.mem_singleton.mp hc]
        exact hnone

theorem grantedAt_eq_some :
    grantedAt router sessionId arrivals = some t ↔ LoggedInAt router arrivals sessionId t := by
  induction arrivals using List.reverseRecOn with
  | nil =>
    refine iff_of_false (fun h => by cases h) ?_
    rintro ⟨earlier, login, later, heq, _⟩
    simp at heq
  | append_singleton arrivals a ih =>
    rw [grantedAt_concat, loggedInAt_concat, ← ih, grant]
    split
    next hopened => simp [hopened]
    next hopened =>
      split
      next hclosed => simp [hopened, hclosed]
      next hclosed => simp [hopened, hclosed]

end Grants

/-! ## The table follows the requests -/

/-- How the entry of an id stands to its last login: it is there with the expiry of
    that login, or validation has found it expired and removed it. -/
inductive Agrees (clock : ℕ) : Option ℕ → Option AuthService.Session → Prop
  | absent : Agrees clock none none
  | live (t : ℕ) : Agrees clock (some t) (some ⟨t + sessionTtlSec⟩)
  | removed (t : ℕ) (hexpired : t + sessionTtlSec < clock) : Agrees clock (some t) none

/-- The account is the one of the start, and the table agrees with the requests. -/
structure Tracks (router : HttpRouter) (arrivals : List Arrival) (s : HttpRun) : Prop where
  credentials : s.router.credentials = router.credentials
  accepts : s.router.authService.accepts = router.authService.accepts
  entries : ∀ sessionId, Agrees s.clock (grantedAt router sessionId arrivals)
    (s.router.authService.sessions.find sessionId)

theorem Agrees.mono {clock clock' : ℕ} {granted : Option ℕ} {entry : Option AuthService.Session}
    (h : Agrees clock granted entry) (hle : clock ≤ clock') : Agrees clock' granted entry := by
  cases h with
  | absent => exact .absent
  | live t => exact .live t
  | removed t hexpired => exact .removed t (hexpired.trans_le hle)

/-- Validation of any id keeps the agreement. -/
theorem Agrees.validate {auth : AuthService} {clock now : ℕ} {granted : Option ℕ} {key : Text}
    (h : Agrees clock granted (auth.sessions.find key)) (hle : clock ≤ now) (sessionId : Text) :
    Agrees now granted ((auth.validateSession now sessionId).2.sessions.find key) := by
  rcases (auth.expiredRemoved_validateSession now sessionId).find key with
    hsame | ⟨hnone, session, hfind, hexpired⟩
  · rw [hsame]
    exact h.mono hle
  · rw [hfind] at h
    rw [hnone]
    cases h with
    | live t => exact .removed t hexpired

/-- One request, against the entry of any id. -/
theorem Agrees.handle {router : HttpRouter} {clock : ℕ} {a : Arrival} {granted : Option ℕ} {key : Text}
    (h : Agrees clock granted (router.authService.sessions.find key)) (hclock : clock ≤ a.now) :
    Agrees a.now (grant router key granted a)
      ((router.handle a.now a.stats a.req).authService.sessions.find key) := by
  have heffect := router.effect_handle a.now a.stats a.req
  generalize (router.handle a.now a.stats a.req).calls = calls at heffect
  generalize (router.handle a.now a.stats a.req).authService = auth at heffect
  cases heffect with
  | quiet hopened hclosed => simpa [grant, hopened, hclosed] using h.mono hclock
  | refused hopened hclosed => simpa [grant, hopened, hclosed] using h.mono hclock
  | login sessionId hopened =>
    by_cases heq : key = sessionId
    · subst heq
      simpa [grant, hopened] using Agrees.live a.now
    · have hclosed : closedBy a.req ≠ some key := by
        intro hclosed
        have hroute : a.req.target = "/api/login".toList := by
          by_contra hne
          rw [openedBy_of_target fun hroute => hne hroute.1] at hopened
          cases hopened
        rw [closedBy_of_login hroute] at hclosed
        cases hclosed
      simpa [grant, hopened, hclosed, heq, Ne.symm heq] using h.mono hclock
  | logout sessionId hopened hclosed =>
    by_cases heq : key = sessionId
    · subst heq
      simpa [grant, hopened, hclosed, AuthService.logout] using Agrees.absent
    · simpa [grant, hopened, hclosed, AuthService.logout, heq, Ne.symm heq] using h.mono hclock
  | validate query hopened hclosed hvalid =>
    simpa [grant, hopened, hclosed] using h.validate hclock _

theorem tracks_step {router : HttpRouter} {arrivals : List Arrival} {s s' : HttpRun} {a : Arrival}
    (h : s.Tracks router arrivals) (hstep : s.step a = some s') : s'.Tracks router (arrivals ++ [a]) := by
  unfold step at hstep
  split at hstep
  next hclock =>
    cases hstep
    refine ⟨h.credentials, (s.router.accepts_handle _ _ _).trans h.accepts, fun key => ?_⟩
    have hsame : grant s.router key = grant router key := by
      funext granted b
      rw [grant, openedBy_congr h.credentials h.accepts]
      rfl
    rw [grantedAt_concat, ← hsame]
    exact (h.entries key).handle hclock
  next => cases hstep

theorem tracks_of_run {router : HttpRouter} {arrivals : List Arrival} {s : HttpRun}
    (hrun : run step (start router) arrivals = some s) : s.Tracks router arrivals := by
  have hstart : (start router).Tracks router [] := ⟨rfl, rfl, fun _ => .absent⟩
  exact run_induct_trace hstart (fun _ _ _ _ h hstep => tracks_step h hstep) hrun

/-- The table validates exactly the sessions that the requests authorise. -/
theorem Tracks.validateSession_iff {router : HttpRouter} {arrivals : List Arrival} {s : HttpRun}
    (h : s.Tracks router arrivals) {now : ℕ} (hclock : s.clock ≤ now) (sessionId : Text) :
    (s.router.authService.validateSession now sessionId).1 = true ↔
      Authorized router arrivals sessionId now := by
  have hkey := h.entries sessionId
  rw [AuthService.validateSession_eq_true]
  simp only [Authorized, ← grantedAt_eq_some]
  generalize grantedAt router sessionId arrivals = granted at hkey ⊢
  generalize s.router.authService.sessions.find sessionId = entry at hkey ⊢
  cases hkey with
  | absent => simp
  | live t => simp
  | removed t hexpired =>
    refine iff_of_false (by simp) ?_
    rintro ⟨t', heq, hle⟩
    cases heq
    exact absurd (hexpired.trans_le hclock) (Nat.not_lt.mpr hle)

/-- A call of the statistics needs a valid session. -/
theorem validateSession_of_stats {router : HttpRouter} {now : ℕ}
    {stats : StatsQuery → Except IpcClientError Text} {req : Request} {query : StatsQuery}
    (h : .stats query ∈ (router.handle now stats req).calls) :
    (router.authService.validateSession now (extractSession req)).1 = true := by
  have heffect := router.effect_handle now stats req
  generalize (router.handle now stats req).calls = calls at heffect h
  generalize (router.handle now stats req).authService = auth at heffect
  cases heffect with
  | quiet => cases h
  | refused => simp at h
  | login sessionId => simp at h
  | logout sessionId => simp at h
  | validate asked hopened hclosed hvalid =>
    cases asked with
    | none => cases h
    | some _ => exact hvalid rfl

/-- A request that reaches the statistics is authorised by the requests before it. -/
theorem authorized_of_stats {router : HttpRouter} {arrivals : List Arrival} {s : HttpRun}
    (hrun : run step (start router) arrivals = some s) {a : Arrival} (hclock : s.clock ≤ a.now)
    {query : StatsQuery} (hstats : .stats query ∈ (s.router.handle a.now a.stats a.req).calls) :
    Authorized router arrivals (extractSession a.req) a.now :=
  ((tracks_of_run hrun).validateSession_iff hclock _).mp (validateSession_of_stats hstats)

/-- In every run, a request reaches the statistics only with a session whose last login among
    the requests before is at most `SESSION_TTL_SEC` ago, with no logout of it since. A request
    to a protected target without one is answered with 401, and removes at most an expired
    session. -/
theorem stats_only_authorized {router : HttpRouter} {arrivals : List Arrival} {s : HttpRun}
    (hrun : run step (start router) arrivals = some s) (a : Arrival) (hclock : s.clock ≤ a.now) :
    let handled := s.router.handle a.now a.stats a.req
    (∀ query, .stats query ∈ handled.calls →
      Authorized router arrivals (extractSession a.req) a.now) ∧
    ("/api/v1/".toList.isPrefixOf a.req.target = true →
      ¬ Authorized router arrivals (extractSession a.req) a.now →
        (∃ res, handled.response = .ok res ∧ res.status = .unauthorized) ∧
        AuthService.ExpiredRemoved a.now s.router.authService.sessions
          handled.authService.sessions) := by
  refine ⟨fun query hquery => authorized_of_stats hrun hclock hquery, fun htarget hnot => ?_⟩
  rw [← (tracks_of_run hrun).validateSession_iff hclock, Bool.not_eq_true] at hnot
  rw [handle_of_protected _ _ _ htarget, handleProtected]
  simp only [hnot]
  exact ⟨⟨_, rfl, rfl⟩, AuthService.expiredRemoved_validateSession ..⟩

/-- A router over the account `admin`, for logins with an empty body. -/
def adminRouter : HttpRouter :=
  ⟨⟨[], fun _ => none⟩, AuthRun.adminAccount, fun _ => some ("admin".toList, "admin".toList)⟩

/-- The login of the administrator. -/
def adminPost (now : ℕ) : Arrival :=
  ⟨now, ⟨"/api/login".toList, .post, 11, true, none, []⟩, fun _ => .ok []⟩

/-- A request with the cookie of the login at second 100. -/
def withCookie (now : ℕ) (target : String) (method : Verb) : Arrival :=
  ⟨now, ⟨target.toList, method, 11, true, some "a=b; session=100_sess; c".toList, []⟩, fun _ => .ok []⟩

/-- A query for the sessions. -/
def sessionsGet (now : ℕ) : Arrival := withCookie now "/api/v1/stats/session" .other

def logoutPost (now : ℕ) : Arrival := withCookie now "/api/logout" .post

/-- What a query of the sessions is answered after these requests. -/
def answerAt (now : ℕ) (arrivals : List Arrival) : Option (List ServiceCall) :=
  (run step (start adminRouter) arrivals).map fun s =>
    (s.router.handle now (sessionsGet now).stats (sessionsGet now).req).calls

theorem not_authorized_of_grantedAt {router : HttpRouter} {arrivals : List Arrival} {sessionId : Text}
    {now : ℕ} (h : ∀ t ∈ grantedAt router sessionId arrivals, t + sessionTtlSec < now) :
    ¬ Authorized router arrivals sessionId now := by
  rintro ⟨t, ht, hle⟩
  rw [← grantedAt_eq_some] at ht
  exact absurd (h t ht) (Nat.not_lt.mpr hle)

/-- The query is served in the last second of the session, refused in the next, and refused
    once a logout with its cookie has been handled. -/
theorem stats_only_authorized_admin :
    ∃ loggedIn loggedOut, run step (start adminRouter) [adminPost 100] = some loggedIn ∧
      run step (start adminRouter) [adminPost 100, logoutPost 200] = some loggedOut ∧
      .stats .fetchSession ∈
        (loggedIn.router.handle 1900 (sessionsGet 1900).stats (sessionsGet 1900).req).calls ∧
      Authorized adminRouter [adminPost 100] (extractSession (sessionsGet 1900).req) 1900 ∧
      (∃ res, (loggedIn.router.handle 1901 (sessionsGet 1901).stats
          (sessionsGet 1901).req).response = .ok res ∧ res.status = .unauthorized) ∧
      ∃ res, (loggedOut.router.handle 300 (sessionsGet 300).stats
          (sessionsGet 300).req).response = .ok res ∧ res.status = .unauthorized := by
  obtain ⟨loggedIn, hin⟩ : ∃ s, run step (start adminRouter) [adminPost 100] = some s := ⟨_, rfl⟩
  obtain ⟨loggedOut, hout⟩ :
      ∃ s, run step (start adminRouter) [adminPost 100, logoutPost 200] = some s := ⟨_, rfl⟩
  have hserved : answerAt 1900 [adminPost 100] = some [.stats .fetchSession] := by decide +kernel
  rw [answerAt, hin, Option.map_some, Option.some.injEq] at hserved
  have hclock : (run step (start adminRouter) [adminPost 100]).map clock = some 100 := by
    decide +kernel
  have hclock' : (run step (start adminRouter) [adminPost 100, logoutPost 200]).map clock =
      some 200 := by
    decide +kernel
  rw [hin, Option.map_some, Option.some.injEq] at hclock
  rw [hout, Option.map_some, Option.some.injEq] at hclock'
  have hstats : ServiceCall.stats .fetchSession ∈
      (loggedIn.router.handle 1900 (sessionsGet 1900).stats (sessionsGet 1900).req).calls := by
    rw [hserved]
    exact List.mem_singleton_self _
  have hlast := stats_only_authorized hin (sessionsGet 1900) (hclock.trans_le (by decide))
  have hexpired := stats_only_authorized hin (sessionsGet 1901) (hclock.trans_le (by decide))
  have hended := stats_only_authorized hout (sessionsGet 300) (hclock'.trans_le (by decide))
  refine ⟨loggedIn, loggedOut, hin, hout, hstats, hlast.1 _ hstats, ?_, ?_⟩
  · exact (hexpired.2 (by decide) (not_authorized_of_grantedAt (by decide +kernel))).1
  · exact (hended.2 (by decide) (not_authorized_of_grantedAt (by decide +kernel))).1

end HttpRun

end NfEngine
