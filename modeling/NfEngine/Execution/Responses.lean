-- SUMMARY: The response builders, store by store, and that the packet parser and the documented layouts undo them.
import NfEngine.Execution.Header
import NfEngine.Lib.Decode
import Mathlib.Data.List.TakeWhile

/-!
# Responses

The builders allocate a vector of the final size and store the header and the body into
it. Here they are written with their stores and offsets, the loop of the lobby response
included; every store stays inside of the vector, and the bytes are those of the builders
of `Execution.Action`, which the server uses.

A response that was built is then read back: by the packet parser, and its body by the
layout of `ParsedPacketTypes.h` or, for a ping, by the client of the simulator.
-/

namespace NfEngine

open Lib.Bytes Lib.Buffer Lib.Decode

/-! ## Login -/

namespace LoginBuilder

/-- The stores that `buildLoginResSuccess` and `buildLoginResFail` share. -/
def fillLoginRes (opcode : Opcode) (sid : SessionId) (resultCode : UInt8) : Option (List UInt8) :=
  storeAll (zeros (headerSize + 1)) (headerStores opcode 1 sid ++ [(16, [resultCode])])

/-- `LoginBuilder::buildLoginResSuccess`. -/
def fillLoginResSuccess (opcode : Opcode) (sid : SessionId) : Option (List UInt8) :=
  fillLoginRes opcode sid 0x01

/-- `LoginBuilder::buildLoginResFail`. -/
def fillLoginResFail (opcode : Opcode) (_sid : SessionId) : Option (List UInt8) :=
  fillLoginRes opcode 0 0x00

theorem fillLoginRes_eq (opcode : Opcode) (sid : SessionId) (resultCode : UInt8) :
    fillLoginRes opcode sid resultCode = some (buildHeader opcode 1 sid ++ [resultCode]) := by
  have hflat : (headerStores opcode 1 sid ++ [(16, [resultCode])]).flatMap Prod.snd =
      buildHeader opcode 1 sid ++ [resultCode] := by
    rw [List.flatMap_append, flatMap_headerStores]
    rfl
  rw [fillLoginRes, storeAll_zeros _ _, hflat]
  · simp [headerStores, Adjacent]
  · rw [hflat, List.length_append, length_buildHeader, List.length_singleton]

theorem fillLoginResSuccess_eq (opcode : Opcode) (sid : SessionId) :
    fillLoginResSuccess opcode sid = some (buildLoginResSuccess opcode sid) :=
  fillLoginRes_eq opcode sid 0x01

theorem fillLoginResFail_eq (opcode : Opcode) (sid : SessionId) :
    fillLoginResFail opcode sid = some (buildLoginResFail opcode sid) :=
  fillLoginRes_eq opcode 0 0x00

end LoginBuilder

/-! ## Lobby -/

namespace LobbyBuilder

/-- The bytes of one market. -/
def entry (m : MarketMeta) : List UInt8 := m.id :: aliasField m.aliasName

/-- The loop of `buildLobbyRes`, from an offset on. -/
def fillEntries : List MarketMeta → ℕ → List UInt8 → Option (List UInt8)
  | [], _, payload => some payload
  | m :: markets, offset, payload =>
    (storeAll payload [(offset, [m.id]), (offset + 1, aliasField m.aliasName)]).bind
      (fillEntries markets (offset + 1 + 16))

/-- `LobbyBuilder::buildLobbyRes`. -/
def fillLobbyRes (opcode : Opcode) (sid : SessionId) (markets : List MarketMeta) :
    Option (List UInt8) :=
  let count := markets.length % 2 ^ 16
  let bodyLen := 2 + count * 17
  (storeAll (zeros (headerSize + bodyLen))
      (headerStores opcode (bodyLen % 2 ^ 16) sid ++ [(headerSize, beBytes 2 count)])).bind
    (fillEntries markets (headerSize + 2))

theorem length_aliasField (name : List UInt8) : (aliasField name).length = 16 := by
  simp only [aliasField, List.length_append, List.length_replicate, List.length_take]
  omega

theorem length_flatMap_entry (markets : List MarketMeta) :
    (markets.flatMap entry).length = markets.length * 17 := by
  induction markets with
  | nil => rfl
  | cons m markets ih =>
    rw [List.flatMap_cons, List.length_append, ih, entry, List.length_cons, length_aliasField,
      List.length_cons]
    omega

/-- The loop puts the entries behind what is there. -/
theorem fillEntries_eq {markets : List MarketMeta} {done : List UInt8} {offset n : ℕ}
    (hoffset : offset = done.length) (hn : markets.length * 17 ≤ n) :
    fillEntries markets offset (done ++ zeros n) =
      some (done ++ markets.flatMap entry ++ zeros (n - markets.length * 17)) := by
  induction markets generalizing done offset n with
  | nil => simp [fillEntries]
  | cons m markets ih =>
    rw [List.length_cons] at hn
    have hflat : [(offset, [m.id]), (offset + 1, aliasField m.aliasName)].flatMap Prod.snd = entry m := by
      simp [entry]
    have hlen : (entry m).length = 17 := by rw [entry, List.length_cons, length_aliasField]
    have hadj : Adjacent done.length [(offset, [m.id]), (offset + 1, aliasField m.aliasName)] :=
      ⟨hoffset, congrArg (· + 1) hoffset, trivial⟩
    have hnext : offset + 1 + 16 = (done ++ entry m).length := by
      rw [List.length_append, hlen, hoffset]
    have hrest : n - 17 - markets.length * 17 = n - (markets.length + 1) * 17 := by omega
    rw [fillEntries, storeAll_adjacent hadj (by rw [hflat, hlen]; omega), hflat, hlen, Option.bind_some,
      ih hnext (by omega), hrest, List.flatMap_cons, List.length_cons, List.append_assoc done]

/-- Every store of the lobby response stays inside of the vector, as long as the markets
    can be counted in two bytes. -/
theorem fillLobbyRes_eq (opcode : Opcode) (sid : SessionId) {markets : List MarketMeta}
    (hcount : markets.length < 2 ^ 16) :
    fillLobbyRes opcode sid markets = some (buildLobbyRes opcode sid markets) := by
  have hmod : markets.length % 2 ^ 16 = markets.length := Nat.mod_eq_of_lt hcount
  simp only [fillLobbyRes, buildLobbyRes, hmod]
  generalize hhead : headerStores opcode ((2 + markets.length * 17) % 2 ^ 16) sid ++
    [(headerSize, beBytes 2 markets.length)] = stores
  have hflat : stores.flatMap Prod.snd =
      buildHeader opcode ((2 + markets.length * 17) % 2 ^ 16) sid ++ beBytes 2 markets.length := by
    rw [← hhead, List.flatMap_append, flatMap_headerStores, List.flatMap_singleton]
  have hlen : (stores.flatMap Prod.snd).length = headerSize + 2 := by
    rw [hflat, List.length_append, length_buildHeader, length_beBytes]
  have hadj : Adjacent ([] : List UInt8).length stores := by
    rw [← hhead]
    simp [headerStores, Adjacent, headerSize]
  have hstores := storeAll_adjacent hadj (n := headerSize + (2 + markets.length * 17)) (by omega)
  rw [List.nil_append, List.nil_append, hlen] at hstores
  have hrest : headerSize + (2 + markets.length * 17) - (headerSize + 2) = markets.length * 17 := by
    omega
  rw [hstores, Option.bind_some, hrest, fillEntries_eq hlen.symm (Nat.le_refl _), Nat.sub_self, hflat,
    zeros, List.replicate_zero, List.append_nil]
  rfl

/-- One market by the documented layout: the id and sixteen bytes that end with a NUL. -/
def decodeEntry : Decoder MarketMeta := fun xs =>
  (uint 1 xs).bind fun (id, rest) =>
    (bytes 16 rest).map fun (field, rest) => (⟨UInt8.ofNat id, field.takeWhile (· ≠ 0)⟩, rest)

/-- The body of a lobby response by the documented layout: the count and the markets, and
    nothing behind them. -/
def decodeLobbyRes (body : List UInt8) : Option (List MarketMeta) :=
  (uint 2 body).bind fun (count, rest) =>
    (many decodeEntry count rest).bind fun (markets, rest) => if rest = [] then some markets else none

/-- The market as the response can carry it: at most fifteen bytes of the alias, up to the
    first NUL. -/
def cut (m : MarketMeta) : MarketMeta := ⟨m.id, (m.aliasName.takeWhile (· ≠ 0)).take 15⟩

theorem takeWhile_aliasField (name : List UInt8) :
    (aliasField name).takeWhile (· ≠ 0) = (name.takeWhile (· ≠ 0)).take 15 := by
  have htext : ∀ b ∈ (name.takeWhile (· ≠ 0)).take 15, decide (b ≠ 0) = true := by
    intro b hb
    exact List.mem_takeWhile_imp (p := fun b => decide (b ≠ 0)) (List.mem_of_mem_take hb)
  unfold aliasField
  dsimp only
  rw [List.takeWhile_append_of_pos htext]
  simp

theorem decodeEntry_entry (m : MarketMeta) (rest : List UInt8) :
    decodeEntry (entry m ++ rest) = some (cut m, rest) := by
  have hid : uint 1 (entry m ++ rest) = some (m.id.toNat, aliasField m.aliasName ++ rest) := by
    refine uint_eq_some.mpr ⟨?_, m.id.toNat_lt⟩
    simp [entry, beBytes]
  have hfield : bytes 16 (aliasField m.aliasName ++ rest) = some (aliasField m.aliasName, rest) :=
    bytes_eq_some.mpr ⟨rfl, length_aliasField _⟩
  rw [decodeEntry, hid, Option.bind_some]
  dsimp only
  rw [hfield, Option.map_some, takeWhile_aliasField, UInt8.ofNat_toNat]
  rfl

theorem decodeLobbyRes_entries {markets : List MarketMeta} (hcount : markets.length < 2 ^ 16) :
    decodeLobbyRes (beBytes 2 markets.length ++ markets.flatMap entry) = some (markets.map cut) := by
  have hmany := many_flatMap decodeEntry_entry markets []
  rw [List.append_nil] at hmany
  rw [decodeLobbyRes, uint_eq_some.mpr ⟨rfl, hcount⟩, Option.bind_some]
  dsimp only
  rw [hmany, Option.bind_some]
  exact if_pos rfl

end LobbyBuilder

/-! ## Ping -/

/-- `PingBuilder::buildPingRes`. -/
def PingBuilder.fillPingRes (opcode : Opcode) (sid : SessionId) (nonce clientTs serverTs : UInt64) :
    Option (List UInt8) :=
  storeAll (zeros (16 + 24))
    (headerByteStores opcode (UInt8.ofNat ((24 >>> 8) &&& 0xFF)) (UInt8.ofNat (24 &&& 0xFF)) sid ++
      [(16, beBytes 8 nonce.toNat), (16 + 8, beBytes 8 clientTs.toNat),
        (16 + 8 + 8, beBytes 8 serverTs.toNat)])

theorem PingBuilder.fillPingRes_eq (opcode : Opcode) (sid : SessionId)
    (nonce clientTs serverTs : UInt64) :
    fillPingRes opcode sid nonce clientTs serverTs =
      some (buildPingRes opcode sid nonce clientTs serverTs) := by
  have hbodyLen : [UInt8.ofNat ((24 >>> 8) &&& 0xFF), UInt8.ofNat (24 &&& 0xFF)] = beBytes 2 24 := by
    decide
  have hflat : (headerByteStores opcode (UInt8.ofNat ((24 >>> 8) &&& 0xFF)) (UInt8.ofNat (24 &&& 0xFF)) sid ++
      [(16, beBytes 8 nonce.toNat), (16 + 8, beBytes 8 clientTs.toNat),
        (16 + 8 + 8, beBytes 8 serverTs.toNat)]).flatMap Prod.snd =
      buildPingRes opcode sid nonce clientTs serverTs := by
    rw [List.flatMap_append, flatMap_headerByteStores opcode hbodyLen]
    simp [buildPingRes]
  rw [fillPingRes, storeAll_zeros _ _, hflat]
  · simp [headerByteStores, Adjacent]
  · rw [hflat]
    simp [buildPingRes, length_buildHeader, headerSize]

/-- What `Client::pingPhase` reads out of the bytes that `recv` gave: the nonce, its own time
    and the time of the server. -/
def Client.readPingRes (buf : List UInt8) : Option (UInt64 × UInt64 × UInt64) :=
  if buf.length < 40 then
    none
  else
    let body := buf.drop 16
    let be64 := fun off => UInt64.ofNat (beNat (slice body off 8))
    some (be64 0, be64 8, be64 16)

/-- The three numbers behind a header. -/
def PingBuilder.body (nonce clientTs serverTs : UInt64) : List UInt8 :=
  beBytes 8 nonce.toNat ++ beBytes 8 clientTs.toNat ++ beBytes 8 serverTs.toNat

theorem PingBuilder.buildPingRes_eq (opcode : Opcode) (sid : SessionId)
    (nonce clientTs serverTs : UInt64) :
    buildPingRes opcode sid nonce clientTs serverTs =
      buildHeader opcode 24 sid ++ body nonce clientTs serverTs := by
  rw [buildPingRes, body, List.append_assoc, List.append_assoc, List.append_assoc]

theorem PingBuilder.length_body (nonce clientTs serverTs : UInt64) :
    (body nonce clientTs serverTs).length = 24 := by
  simp [body]

theorem Client.readPingRes_buildPingRes (opcode : Opcode) (sid : SessionId)
    (nonce clientTs serverTs : UInt64) :
    readPingRes (PingBuilder.buildPingRes opcode sid nonce clientTs serverTs) =
      some (nonce, clientTs, serverTs) := by
  have hfield : ∀ (front : List UInt8) (n : UInt64) (rest : List UInt8),
      UInt64.ofNat (beNat (slice (front ++ beBytes 8 n.toNat ++ rest) front.length 8)) = n := by
    intro front n rest
    have hright := slice_append_right front (beBytes 8 n.toNat ++ rest) 0 8
    rw [Nat.add_zero, slice_left (length_beBytes ..), ← List.append_assoc] at hright
    rw [hright, beNat_beBytes n.toNat_lt, UInt64.ofNat_toNat]
  have hlong : ¬ (PingBuilder.buildPingRes opcode sid nonce clientTs serverTs).length < 40 := by
    rw [PingBuilder.buildPingRes_eq, List.length_append, length_buildHeader, PingBuilder.length_body]
    decide
  have hdrop : (PingBuilder.buildPingRes opcode sid nonce clientTs serverTs).drop 16 =
      PingBuilder.body nonce clientTs serverTs := by
    rw [PingBuilder.buildPingRes_eq]
    exact List.drop_left' (length_buildHeader ..)
  have hnonce := hfield [] nonce (beBytes 8 clientTs.toNat ++ beBytes 8 serverTs.toNat)
  have hclient := hfield (beBytes 8 nonce.toNat) clientTs (beBytes 8 serverTs.toNat)
  have hserver := hfield (beBytes 8 nonce.toNat ++ beBytes 8 clientTs.toNat) serverTs []
  rw [List.nil_append, ← List.append_assoc] at hnonce
  rw [List.append_nil] at hserver
  rw [readPingRes, if_neg hlong, hdrop]
  exact congrArg some (Prod.ext hnonce (Prod.ext hclient hserver))

/-! ## Built and read back -/

/-- Whatever connection it comes in on, the parser accepts the frame and finds this in it. -/
def Arrives (frame : List UInt8) (opcode : Opcode) (sid : SessionId) (body : List UInt8) : Prop :=
  ∀ fd connInfo, ∃ parsed, PacketParser.parse ⟨fd, connInfo, frame⟩ = some parsed ∧
    Delivers frame opcode sid body parsed

theorem arrives_buildHeader {opcode : Opcode} (hop : opcode.Named) (sid : SessionId) {n : ℕ}
    {body : List UInt8} (hn : body.length = n) (hlen : n < 2 ^ 16) :
    Arrives (buildHeader opcode n sid ++ body) opcode sid body := by
  subst hn
  intro fd connInfo
  exact PacketParser.parse_buildHeader hop sid hlen fd connInfo

/-- Every response that is built arrives: with its opcode and session, with a body that
    decodes to the markets as far as the format carries them, and with the three numbers
    of the ping. -/
theorem responses_arrive {opcode : Opcode} (hop : opcode.Named) (sid : SessionId)
    (nonce clientTs serverTs : UInt64) {markets : List MarketMeta}
    (hmarkets : 2 + 17 * markets.length ≤ 65535) :
    (∃ frame, LoginBuilder.fillLoginResSuccess opcode sid = some frame ∧
        Arrives frame opcode sid [0x01]) ∧
      (∃ frame, LoginBuilder.fillLoginResFail opcode sid = some frame ∧
        Arrives frame opcode 0 [0x00]) ∧
      (∃ frame body, LobbyBuilder.fillLobbyRes opcode sid markets = some frame ∧
        Arrives frame opcode sid body ∧
        LobbyBuilder.decodeLobbyRes body = some (markets.map LobbyBuilder.cut)) ∧
      ∃ frame, PingBuilder.fillPingRes opcode sid nonce clientTs serverTs = some frame ∧
        Arrives frame opcode sid (PingBuilder.body nonce clientTs serverTs) ∧
        Client.readPingRes frame = some (nonce, clientTs, serverTs) := by
  have hcount : markets.length < 2 ^ 16 := by omega
  refine ⟨?_, ?_, ?_, ?_⟩
  · exact ⟨_, LoginBuilder.fillLoginResSuccess_eq opcode sid, arrives_buildHeader hop sid rfl (by decide)⟩
  · exact ⟨_, LoginBuilder.fillLoginResFail_eq opcode sid, arrives_buildHeader hop 0 rfl (by decide)⟩
  · refine ⟨_, _, LobbyBuilder.fillLobbyRes_eq opcode sid hcount, ?_,
      LobbyBuilder.decodeLobbyRes_entries hcount⟩
    have hlen : (beBytes 2 markets.length ++ markets.flatMap LobbyBuilder.entry).length =
        (2 + markets.length * 17) % 2 ^ 16 := by
      rw [List.length_append, length_beBytes, LobbyBuilder.length_flatMap_entry]
      omega
    have harrives := arrives_buildHeader hop sid hlen (Nat.mod_lt _ (by decide))
    rw [← List.append_assoc] at harrives
    rw [LobbyBuilder.buildLobbyRes, Nat.mod_eq_of_lt hcount]
    exact harrives
  · refine ⟨_, PingBuilder.fillPingRes_eq opcode sid nonce clientTs serverTs, ?_,
      Client.readPingRes_buildPingRes ..⟩
    rw [PingBuilder.buildPingRes_eq]
    exact arrives_buildHeader hop sid (PingBuilder.length_body ..) (by decide)

/-- The markets of `initMarkets`, in the lobby response of a session. -/
theorem responses_arrive_initMarkets :
    ∃ frame body, LobbyBuilder.fillLobbyRes .lobbyEntryRes 7 ShardManager.markets = some frame ∧
      Arrives frame .lobbyEntryRes 7 body ∧
      LobbyBuilder.decodeLobbyRes body = some ShardManager.markets := by
  obtain ⟨_, _, ⟨frame, body, hframe, harrives, hdecode⟩, _⟩ :=
    @responses_arrive .lobbyEntryRes rfl 7 0 0 0 ShardManager.markets (by decide)
  have hcut : ShardManager.markets.map LobbyBuilder.cut = ShardManager.markets := by decide
  exact ⟨frame, body, hframe, harrives, hcut ▸ hdecode⟩

end NfEngine
