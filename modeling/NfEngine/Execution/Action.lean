-- SUMMARY: Shard actions, the response builders and the event handlers of the shard contexts.
import NfEngine.Execution.Event

/-!
# Actions

An event handler commits actions to its own shard, and an action builds a
response and passes it to the transmit router. The handlers are pure functions
of the event and of what the database answers; the builders are pure functions
of the action and, for a ping, of the clock.
-/

namespace NfEngine

open Lib.Bytes

/-- `MarketMeta`. -/
structure MarketMeta where
  id : UInt8
  aliasName : List UInt8
  deriving DecidableEq, Repr

/-- `ShardManager::initMarkets`. -/
def ShardManager.markets : List MarketMeta :=
  [⟨1, [0x4D, 0x31]⟩, ⟨2, [0x4D, 0x32]⟩, ⟨3, [0x4D, 0x33]⟩, ⟨4, [0x4D, 0x34]⟩]

inductive Action where
  | loginSuccessRes (sessionId : SessionId)
  | loginFailRes (sessionId : SessionId)
  | lobbyEntryRes (sessionId : SessionId)
  | pingRes (sessionId : SessionId) (nonce clientTs : UInt64)
  deriving DecidableEq, Repr

namespace Action

/-- `Action::sessionId`. -/
def sessionId : Action → SessionId
  | .loginSuccessRes sid => sid
  | .loginFailRes sid => sid
  | .lobbyEntryRes sid => sid
  | .pingRes sid _ _ => sid

/-- `Action::opcode`. -/
def opcode : Action → Opcode
  | .loginSuccessRes _ => .loginSuccessRes
  | .loginFailRes _ => .loginFailRes
  | .lobbyEntryRes _ => .lobbyEntryRes
  | .pingRes .. => .pingRes

end Action

/-- `ActionFactory::create`. Ping responses are not made here. -/
def ActionFactory.create (opcode : Opcode) (sid : SessionId) : Option Action :=
  match opcode with
  | .loginSuccessRes => some (.loginSuccessRes sid)
  | .loginFailRes => some (.loginFailRes sid)
  | .lobbyEntryRes => some (.lobbyEntryRes sid)
  | _ => none

/-! ## Response builders -/

/-- The sixteen header bytes every builder writes: version 1, opcode, body
    length, session id, no flags. -/
def buildHeader (opcode : Opcode) (bodyLen : ℕ) (sid : SessionId) : List UInt8 :=
  [0x01, opcode.toByte] ++ beBytes 2 bodyLen ++ beBytes 8 sid.toNat ++ beBytes 4 0

/-- `LoginBuilder::buildLoginResSuccess`. -/
def LoginBuilder.buildLoginResSuccess (opcode : Opcode) (sid : SessionId) : List UInt8 :=
  buildHeader opcode 1 sid ++ [0x01]

/-- `LoginBuilder::buildLoginResFail`: the session id of the header is zero. -/
def LoginBuilder.buildLoginResFail (opcode : Opcode) (_sid : SessionId) : List UInt8 :=
  buildHeader opcode 1 0 ++ [0x00]

/-- `LoginBuilder::serialize`. -/
def LoginBuilder.serialize (opcode : Opcode) (sid : SessionId) : List UInt8 :=
  match opcode with
  | .loginSuccessRes => buildLoginResSuccess opcode sid
  | .loginFailRes => buildLoginResFail opcode sid
  | _ => []

/-- The sixteen alias bytes of a market entry: `strncpy` of at most fifteen bytes
    up to a NUL into a zeroed buffer. -/
def LobbyBuilder.aliasField (name : List UInt8) : List UInt8 :=
  let text := (name.takeWhile (· ≠ 0)).take 15
  text ++ List.replicate (16 - text.length) 0

/-- `LobbyBuilder::buildLobbyRes`, for at most 65535 markets. -/
def LobbyBuilder.buildLobbyRes (opcode : Opcode) (sid : SessionId) (markets : List MarketMeta) :
    List UInt8 :=
  let count := markets.length % 2 ^ 16
  let bodyLen := 2 + count * 17
  buildHeader opcode (bodyLen % 2 ^ 16) sid ++ beBytes 2 count ++
    markets.flatMap fun m => m.id :: aliasField m.aliasName

/-- `LobbyBuilder::serialize`. -/
def LobbyBuilder.serialize (opcode : Opcode) (sid : SessionId) (markets : List MarketMeta) :
    List UInt8 :=
  match opcode with
  | .lobbyEntryRes => buildLobbyRes opcode sid markets
  | _ => []

/-- `PingBuilder::buildPingRes`; `serverTs` is the clock reading. -/
def PingBuilder.buildPingRes (opcode : Opcode) (sid : SessionId) (nonce clientTs serverTs : UInt64) :
    List UInt8 :=
  buildHeader opcode 24 sid ++ beBytes 8 nonce.toNat ++ beBytes 8 clientTs.toNat ++
    beBytes 8 serverTs.toNat

/-- `PingBuilder::serialize`. -/
def PingBuilder.serialize (opcode : Opcode) (sid : SessionId) (nonce clientTs serverTs : UInt64) :
    List UInt8 :=
  match opcode with
  | .pingRes => buildPingRes opcode sid nonce clientTs serverTs
  | _ => []

/-- The payload that the `handleAction` of an action builds. -/
def Action.payload (serverTs : UInt64) : Action → List UInt8
  | .loginSuccessRes sid => LoginBuilder.serialize .loginSuccessRes sid
  | .loginFailRes sid => LoginBuilder.serialize .loginFailRes sid
  | .lobbyEntryRes sid => LobbyBuilder.serialize .lobbyEntryRes sid ShardManager.markets
  | .pingRes sid nonce clientTs => PingBuilder.serialize .pingRes sid nonce clientTs serverTs

/-! ## Event handlers -/

/-- The database of a login context: the password stored for an account id. A
    context without a database manager has none. -/
abbrev AccountDb := Option (List UInt8 → Option (List UInt8))

/-- `LoginContext::verify`. -/
def LoginContext.verify (getAccountPassword : List UInt8 → Option (List UInt8))
    (id pw : List UInt8) : Bool :=
  match getAccountPassword id with
  | none => false
  | some dbPw => if dbPw ≠ pw then false else true

/-- `"test"`, the only account accepted without a database. -/
def LoginContext.testName : List UInt8 := [0x74, 0x65, 0x73, 0x74]

/-- `LoginContext::loginReqEvent`: the action it commits. -/
def LoginContext.loginReqEvent (db : AccountDb) (sid : SessionId) (id pw : List UInt8) :
    Option Action :=
  match db with
  | some getAccountPassword =>
    if !verify getAccountPassword id pw then
      ActionFactory.create .loginFailRes sid
    else
      ActionFactory.create .loginSuccessRes sid
  | none =>
    if id = testName ∧ pw = testName then
      ActionFactory.create .loginSuccessRes sid
    else
      ActionFactory.create .loginFailRes sid

/-- `LobbyContext::lobbyEntryReqEvent`. -/
def LobbyContext.lobbyEntryReqEvent (sid : SessionId) : Option Action :=
  ActionFactory.create .lobbyEntryRes sid

/-- `PingContext::pingReqEvent`. -/
def PingContext.pingReqEvent (sid : SessionId) (nonce clientTs : UInt64) : Option Action :=
  some (.pingRes sid nonce clientTs)

/-- `Event::handleEvent`: the action committed to the shard, if any. -/
def Event.handleEvent (db : AccountDb) : Event → Option Action
  | .loginReq sid _ id pw => LoginContext.loginReqEvent db sid id pw
  | .lobbyEntryReq sid _ => LobbyContext.lobbyEntryReqEvent sid
  | .pingReq sid _ nonce clientTs => PingContext.pingReqEvent sid nonce clientTs
  | .marketDumpReq => none

end NfEngine
