-- SUMMARY: The account that mgmtd reads at its start, and that without a readable one no statistics are ever served.
import NfEngine.Lib.Json
import NfEngine.Mgmt.HttpRouter

/-!
# The account of the startup configuration

The constructor of `AuthService` reads the name, the hash and the salt of the one
account from a file, one after the other. It does not report that it has failed: a file
that is missing, or a field that is missing or no string, leaves that field and those
after it as they were initialised, and the server starts all the same.

It fails closed. The hash is initialised to the empty string, which no digest in
hexadecimal is, so that a login needs a name and a hash from the file. Only the salt can
be missing: then the password is hashed alone. This is so with the accessors of any JSON
library, whatever they throw on.
-/

namespace NfEngine

open Lib Lib.JsonLibrary Lib.Transition

/-- What the constructor finds under the path of `mgmtd-startup-config.json`. -/
inductive StartupConfig (J : Type) where
  | missing
  /-- The parser throws, which is caught. -/
  | malformed
  | document (j : J)

namespace AuthService

/-- `SHA256_DIGEST_LENGTH`. -/
def sha256DigestLength : ℕ := 32

/-- `SHA256` of OpenSSL. -/
abbrev Digest := Text → Vector UInt8 sha256DigestLength

/-- A byte in two digits, as `std::hex` with a width of two prints it. -/
def hexByte (b : UInt8) : Text := [Nat.digitChar (b.toNat / 16), Nat.digitChar (b.toNat % 16)]

/-- The stream of `hash`, over the bytes of the digest. -/
def hexDigest (digest : Digest) (input : Text) : Text := (digest input).toList.flatMap hexByte

section Account

variable {J E : Type} (lib : JsonLibrary J E)

/-- `j["admin"][key]`, converted to a string. `operator[]` may insert what is missing into the
    document; when it does, the conversion throws, and nothing is read after that. -/
def adminField (j : J) (key : String) : Except E String := do
  let admin ← lib.index j "admin"
  let field ← lib.index admin key
  lib.getString field

/-- The members before the constructor has read anything. -/
def initial (digest : Digest) : AuthService := ⟨.empty, "admin".toList, [], [], hexDigest digest⟩

/-- The assignments of the constructor, up to the first that throws. -/
def readAccount (auth : AuthService) (j : J) : AuthService :=
  match adminField lib j "username" with
  | .error _ => auth
  | .ok username =>
    match adminField lib j "password_hash" with
    | .error _ => ⟨auth.sessions, username.toList, auth.passwordHash, auth.salt, auth.sha256⟩
    | .ok passwordHash =>
      match adminField lib j "salt" with
      | .error _ => ⟨auth.sessions, username.toList, passwordHash.toList, auth.salt, auth.sha256⟩
      | .ok salt => ⟨auth.sessions, username.toList, passwordHash.toList, salt.toList, auth.sha256⟩

/-- The constructor. -/
def make (digest : Digest) : StartupConfig J → AuthService
  | .missing | .malformed => initial digest
  | .document j => readAccount lib (initial digest) j

/-! ## The credentials that a configuration accepts -/

/-- The salt of the file, or none. -/
def saltOf (j : J) : Text :=
  match adminField lib j "salt" with
  | .ok salt => salt.toList
  | .error _ => []

/-- The file holds an account under this name, and the password has its hash. -/
def Opens (digest : Digest) (file : StartupConfig J) (username password : Text) : Prop :=
  ∃ j name passwordHash, file = .document j ∧ adminField lib j "username" = .ok name ∧
    adminField lib j "password_hash" = .ok passwordHash ∧ username = name.toList ∧
    hexDigest digest (password ++ saltOf lib j) = passwordHash.toList

end Account

theorem length_hexDigest (digest : Digest) (input : Text) :
    (hexDigest digest input).length = 2 * sha256DigestLength := by
  simp [hexDigest, hexByte, List.length_flatMap, Nat.mul_comm]

theorem hexDigest_ne_nil (digest : Digest) (input : Text) : hexDigest digest input ≠ [] := by
  intro hnil
  have hlength := length_hexDigest digest input
  rw [hnil] at hlength
  cases hlength

/-- An account without a hash accepts nobody. -/
theorem accepts_of_passwordHash_nil (auth : AuthService) {digest : Digest}
    (hsha : auth.sha256 = hexDigest digest) (hnil : auth.passwordHash = []) (username password : Text) :
    auth.accepts username password = false := by
  have hne : auth.hash password auth.salt ≠ auth.passwordHash := by
    rw [hnil, hash, hsha]
    exact hexDigest_ne_nil digest _
  simp [accepts, hne]

section Account

variable {J E : Type} (lib : JsonLibrary J E)

theorem accepts_readAccount_iff (digest : Digest) (j : J) (username password : Text) :
    (readAccount lib (initial digest) j).accepts username password = true ↔
      Opens lib digest (.document j) username password := by
  cases hname : adminField lib j "username" with
  | error e =>
    have hclosed := accepts_of_passwordHash_nil (initial digest) rfl rfl username password
    simp [readAccount, Opens, hname, hclosed]
  | ok name =>
    cases hhash : adminField lib j "password_hash" with
    | error e =>
      have hclosed := accepts_of_passwordHash_nil
        ⟨.empty, name.toList, [], [], hexDigest digest⟩ rfl rfl username password
      simp [readAccount, initial, Opens, hname, hhash, hclosed]
    | ok passwordHash =>
      cases hsalt : adminField lib j "salt" with
      | error e => simp [readAccount, initial, Opens, accepts, hash, saltOf, hname, hhash, hsalt]
      | ok salt => simp [readAccount, initial, Opens, accepts, hash, saltOf, hname, hhash, hsalt]

/-- The service accepts exactly the credentials that the file opens to. -/
theorem accepts_make_iff (digest : Digest) (file : StartupConfig J) (username password : Text) :
    (make lib digest file).accepts username password = true ↔
      Opens lib digest file username password := by
  have hclosed := accepts_of_passwordHash_nil (initial digest) rfl rfl username password
  cases file with
  | missing => simp [make, Opens, hclosed]
  | malformed => simp [make, Opens, hclosed]
  | document j => exact accepts_readAccount_iff lib digest j username password

end Account

end AuthService

namespace HttpRouter

variable {router : HttpRouter} {now : ℕ} {stats : StatsQuery → Except IpcClientError Text}
  {req : Request}

/-- A request that opens a session is a login with accepted credentials. -/
theorem openedBy_eq_some {sessionId : Text} :
    router.openedBy now req = some sessionId ↔
      (req.target = "/api/login".toList ∧ req.method = .post) ∧
        sessionId = AuthService.sessionIdAt now ∧ ∃ username password,
          router.credentials req.body = some (username, password) ∧
          router.authService.accepts username password = true := by
  by_cases hroute : req.target = "/api/login".toList ∧ req.method = .post
  · rw [openedBy, if_pos hroute]
    cases router.credentials req.body with
    | none => simp
    | some pair =>
      obtain ⟨username, password⟩ := pair
      dsimp only
      split
      next haccepts =>
        refine ⟨fun h => ?_, fun h => congrArg some h.2.1.symm⟩
        cases h
        exact ⟨hroute, rfl, username, password, rfl, haccepts⟩
      next haccepts =>
        refine iff_of_false (fun h => by cases h) ?_
        rintro ⟨_, _, _, _, hpair, haccepts'⟩
        cases hpair
        exact haccepts haccepts'
  · rw [openedBy_of_target hroute]
    exact iff_of_false (fun h => by cases h) fun h => hroute h.1

/-- The session of a login is in the table that it leaves. -/
theorem find_of_openedBy {sessionId : Text} (h : router.openedBy now req = some sessionId) :
    (router.handle now stats req).authService.sessions.find sessionId =
      some ⟨now + sessionTtlSec⟩ := by
  have heffect := router.effect_handle now stats req
  generalize (router.handle now stats req).calls = calls at heffect
  generalize (router.handle now stats req).authService = auth at heffect
  cases heffect with
  | login sessionId' hopened =>
    cases h.symm.trans hopened
    rw [AuthService.sessions_setSessions, Map.find_insert_same]
  | quiet hopened | refused hopened | logout _ hopened | validate _ hopened =>
    cases h.symm.trans hopened

theorem stats_mem_handle {query : StatsQuery} (htarget : "/api/v1/".toList.isPrefixOf req.target = true)
    (hquery : statsQuery req.target = some query)
    (hvalid : (router.authService.validateSession now (extractSession req)).1 = true) :
    .stats query ∈ (router.handle now stats req).calls := by
  rw [handle_of_protected _ _ _ htarget, handleProtected, dispatchProtected, hquery]
  simp only [hvalid]
  exact List.mem_singleton_self _

end HttpRouter

namespace HttpRun

open HttpRouter

variable {J E : Type} {lib : JsonLibrary J E}

/-- The server that has started with a file. -/
def serverOf (lib : JsonLibrary J E) (digest : AuthService.Digest) (file : StartupConfig J)
    (cache : HttpCache) (credentials : Text → Option (Text × Text)) : HttpRouter :=
  ⟨cache, AuthService.make lib digest file, credentials⟩

/-- A login to the account of the file. -/
structure LoginTo (lib : JsonLibrary J E) (digest : AuthService.Digest) (file : StartupConfig J)
    (credentials : Text → Option (Text × Text)) (req : Request) (username password : Text) : Prop where
  target : req.target = "/api/login".toList
  method : req.method = .post
  body : credentials req.body = some (username, password)
  opens : AuthService.Opens lib digest file username password

theorem openedBy_serverOf {digest : AuthService.Digest} {file : StartupConfig J} {cache : HttpCache}
    {credentials : Text → Option (Text × Text)} {now : ℕ} {req : Request} {sessionId : Text} :
    (serverOf lib digest file cache credentials).openedBy now req = some sessionId ↔
      sessionId = AuthService.sessionIdAt now ∧
        ∃ username password, LoginTo lib digest file credentials req username password := by
  rw [openedBy_eq_some]
  constructor
  · rintro ⟨⟨htarget, hmethod⟩, hid, username, password, hbody, haccepts⟩
    have hopens := (AuthService.accepts_make_iff lib digest file username password).mp haccepts
    exact ⟨hid, username, password, htarget, hmethod, hbody, hopens⟩
  · rintro ⟨hid, username, password, htarget, hmethod, hbody, hopens⟩
    have haccepts := (AuthService.accepts_make_iff lib digest file username password).mpr hopens
    exact ⟨⟨htarget, hmethod⟩, hid, username, password, hbody, haccepts⟩

/-- In every run of a server that has started with any file, a request reaches the statistics
    only if one of the requests before was a login to the account that the file holds. The
    request carries the id of that login, which is at most `SESSION_TTL_SEC` ago, and no request
    since was a logout with that id. -/
theorem stats_only_configured {digest : AuthService.Digest} {file : StartupConfig J} {cache : HttpCache}
    {credentials : Text → Option (Text × Text)} {arrivals : List Arrival} {s : HttpRun}
    (hrun : run step (start (serverOf lib digest file cache credentials)) arrivals = some s)
    (a : Arrival) (hclock : s.clock ≤ a.now) {query : StatsQuery}
    (hstats : .stats query ∈ (s.router.handle a.now a.stats a.req).calls) :
    ∃ earlier login later username password, arrivals = earlier ++ login :: later ∧
      LoginTo lib digest file credentials login.req username password ∧
      extractSession a.req = AuthService.sessionIdAt login.now ∧
      a.now ≤ login.now + sessionTtlSec ∧
      ∀ b ∈ later, b.req.target = "/api/logout".toList → b.req.method = .post →
        extractSession b.req ≠ extractSession a.req := by
  obtain ⟨_, ⟨earlier, login, later, heq, rfl, hopened, hlater⟩, hlive⟩ :=
    authorized_of_stats hrun hclock hstats
  obtain ⟨hid, username, password, hlogin⟩ := openedBy_serverOf.mp hopened
  refine ⟨earlier, login, later, username, password, heq, hlogin, hid, hlive, ?_⟩
  intro b hb htarget hmethod hsame
  have hclosed : closedBy b.req = some (extractSession b.req) := if_pos ⟨htarget, hmethod⟩
  exact (hlater b hb).2 (hsame ▸ hclosed)

/-- The startup configuration in the repository. -/
def adminConfig : StartupConfig Sample :=
  .document (.object [("admin", .object [("username", .text "admin"),
    ("password_hash", .text "c88abcb316f451bca4908fabd0d4baa6f2a032eecca64188d6142e3a44e6a445"),
    ("salt", .text "mysalt")])])

/-- SHA-256 of `adminmysalt`; every other text is given the digest of the empty one. -/
def sampleDigest : AuthService.Digest := fun input =>
  if input = "adminmysalt".toList then
    ⟨#[200, 138, 188, 179, 22, 244, 81, 188, 164, 144, 143, 171, 208, 212, 186, 166,
      242, 160, 50, 238, 204, 166, 65, 136, 214, 20, 46, 58, 68, 230, 164, 69], rfl⟩
  else
    ⟨#[227, 176, 196, 66, 152, 252, 28, 20, 154, 251, 244, 200, 153, 111, 185, 36,
      39, 174, 65, 228, 100, 155, 147, 76, 164, 149, 153, 27, 120, 82, 184, 85], rfl⟩

def adminServer : HttpRouter :=
  serverOf Sample.library sampleDigest adminConfig ⟨[], fun _ => none⟩
    fun _ => some ("admin".toList, "admin".toList)

/-- A query in the last second of the session, which the login to the account of the file has
    opened. -/
theorem stats_only_configured_admin :
    ∃ s, run step (start adminServer) [adminPost 100] = some s ∧
      .stats .fetchSession ∈
        (s.router.handle 1900 (sessionsGet 1900).stats (sessionsGet 1900).req).calls ∧
      ∃ earlier login later username password, [adminPost 100] = earlier ++ login :: later ∧
        AuthService.Opens Sample.library sampleDigest adminConfig username password ∧
        extractSession (sessionsGet 1900).req = AuthService.sessionIdAt login.now := by
  obtain ⟨s, hrun⟩ : ∃ s, run step (start adminServer) [adminPost 100] = some s := ⟨_, rfl⟩
  have hclock : (run step (start adminServer) [adminPost 100]).map clock = some 100 := by
    decide +kernel
  have hstats : (run step (start adminServer) [adminPost 100]).map (fun s =>
      (s.router.handle 1900 (sessionsGet 1900).stats (sessionsGet 1900).req).calls) =
        some [.stats .fetchSession] := by
    decide +kernel
  rw [hrun, Option.map_some, Option.some.injEq] at hclock hstats
  have hmem : .stats .fetchSession ∈
      (s.router.handle 1900 (sessionsGet 1900).stats (sessionsGet 1900).req).calls := by
    rw [hstats]
    exact List.mem_singleton_self _
  obtain ⟨earlier, login, later, username, password, heq, hlogin, hid, _⟩ :=
    stats_only_configured hrun (sessionsGet 1900) (hclock.trans_le (by decide)) hmem
  exact ⟨s, hrun, hmem, earlier, login, later, username, password, heq, hlogin.opens, hid⟩

/-! ## The files with which the server is open -/

/-- Statistics can be served at all exactly when some login body carries credentials that the
    file opens to. -/
theorem servable_iff (lib : JsonLibrary J E) (digest : AuthService.Digest) (file : StartupConfig J)
    (cache : HttpCache) (credentials : Text → Option (Text × Text)) :
    (∃ (arrivals : List Arrival) (s : HttpRun) (a : Arrival) (query : StatsQuery),
        run step (start (serverOf lib digest file cache credentials)) arrivals = some s ∧
        s.clock ≤ a.now ∧ .stats query ∈ (s.router.handle a.now a.stats a.req).calls) ↔
      ∃ body username password, credentials body = some (username, password) ∧
        AuthService.Opens lib digest file username password := by
  constructor
  · rintro ⟨arrivals, s, a, query, hrun, hclock, hstats⟩
    obtain ⟨_, ⟨_, login, _, _, _, hopened, _⟩, _⟩ := authorized_of_stats hrun hclock hstats
    obtain ⟨_, username, password, hlogin⟩ := openedBy_serverOf.mp hopened
    exact ⟨login.req.body, username, password, hlogin.body, hlogin.opens⟩
  · rintro ⟨body, username, password, hbody, hopens⟩
    let server := serverOf lib digest file cache credentials
    -- One login in the first second, and a query with the cookie that it has set.
    let login : Arrival := ⟨0, ⟨"/api/login".toList, .post, 11, true, none, body⟩, fun _ => .ok []⟩
    let asked : Arrival := ⟨0, ⟨"/api/v1/stats/session".toList, .other, 11, true,
      some "session=0_sess".toList, []⟩, fun _ => .ok []⟩
    have hopened : server.openedBy 0 login.req = some (AuthService.sessionIdAt 0) :=
      openedBy_serverOf.mpr ⟨rfl, username, password, rfl, rfl, hbody, hopens⟩
    have hstart : (start server).router.openedBy = server.openedBy := openedBy_congr rfl rfl
    have hfind : ((start server).router.handle 0 login.stats login.req).authService.sessions.find
        (AuthService.sessionIdAt 0) = some ⟨0 + sessionTtlSec⟩ :=
      find_of_openedBy (hstart ▸ hopened)
    have hid : extractSession asked.req = AuthService.sessionIdAt 0 := by decide +kernel
    refine ⟨[login], _, asked, .fetchSession, rfl, le_rfl, ?_⟩
    refine stats_mem_handle (by decide) (by decide) ?_
    rw [AuthService.validateSession_eq_true, hid]
    exact ⟨_, hfind, Nat.zero_le _⟩

end HttpRun

end NfEngine
