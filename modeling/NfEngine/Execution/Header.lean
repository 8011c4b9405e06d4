-- SUMMARY: The common header as the parser reads it and as the builders write it.
import NfEngine.Execution.Action
import NfEngine.Lib.Buffer

/-!
# The common header

`CommonPacketHeader` is a packed structure: its fields are the bytes of the header one
after the other. The parser reads the same fields one by one at fixed offsets, and the
builders write them. One equivalence says which packets the parser accepts and what it
makes of them; built frames are accepted with the values they were built from.
-/

namespace NfEngine

open Lib.Bytes Lib.Buffer

/-- `CommonPacketHeader`, with its fields in host order. -/
structure CommonPacketHeader where
  version : PacketVersion
  opcode : Opcode
  bodyLen : UInt16
  sessionId : SessionId
  flags : UInt32
  deriving DecidableEq, Repr

namespace CommonPacketHeader

/-- The structure that `memcpy` of a header fills, with `ntohs`, `be64toh` and `ntohl`
    applied to its fields. -/
def ofBytes (bs : List UInt8) : CommonPacketHeader where
  version := .ofByte (bs.getD 0 0)
  opcode := .ofByte (bs.getD 1 0)
  bodyLen := UInt16.ofNat (beNat (slice bs 2 2))
  sessionId := UInt64.ofNat (beNat (slice bs 4 8))
  flags := UInt32.ofNat (beNat (slice bs 12 4))

theorem toNat_bodyLen (bs : List UInt8) : (ofBytes bs).bodyLen.toNat = beNat (slice bs 2 2) :=
  UInt16.toNat_ofNat_of_lt' (beNat_slice_lt bs 2 2)

/-- The header depends on the first sixteen bytes alone. -/
theorem ofBytes_take {bs : List UInt8} {n : ℕ} (hn : headerSize ≤ n) :
    ofBytes (bs.take n) = ofBytes bs := by
  have hfield : ∀ off len, off + len ≤ headerSize → slice (bs.take n) off len = slice bs off len :=
    fun off len h => slice_take (Nat.le_trans h hn)
  have hbyte : ∀ i, i < headerSize → (bs.take n).getD i 0 = bs.getD i 0 := by
    intro i hi
    rw [List.getD_eq_getElem?_getD, List.getD_eq_getElem?_getD,
      List.getElem?_take_of_lt (Nat.lt_of_lt_of_le hi hn)]
  unfold ofBytes
  rw [hbyte 0 (by decide), hbyte 1 (by decide), hfield 2 2 (by decide), hfield 4 8 (by decide),
    hfield 12 4 (by decide)]

end CommonPacketHeader

/-! ## The parser -/

/-- `bodySize()` bytes from `bodyData()` on. -/
def ParsedPacket.body (parsed : ParsedPacket) : List UInt8 :=
  slice parsed.payload parsed.bodyOffset parsed.bodyLen

/-- The parser accepts the packets that are as long as their header says. -/
theorem PacketParser.parse_eq_some {packet : Packet} {parsed : ParsedPacket} :
    parse packet = some parsed ↔
      headerSize + (CommonPacketHeader.ofBytes packet.payload).bodyLen.toNat ≤ packet.payload.length ∧
        parsed =
          { fd := packet.fd
            connInfo := packet.connInfo
            version := (CommonPacketHeader.ofBytes packet.payload).version
            opcode := (CommonPacketHeader.ofBytes packet.payload).opcode
            flags := (CommonPacketHeader.ofBytes packet.payload).flags
            sessionId := (CommonPacketHeader.ofBytes packet.payload).sessionId
            payload := packet.payload
            bodyOffset := headerSize
            bodyLen := (CommonPacketHeader.ofBytes packet.payload).bodyLen.toNat } := by
  rw [CommonPacketHeader.toNat_bodyLen]
  unfold parse
  dsimp only
  constructor
  · intro h
    split at h
    · cases h
    · split at h
      · cases h
      next hlong =>
        cases h
        exact ⟨Nat.not_lt.mp hlong, rfl⟩
  · rintro ⟨hlong, rfl⟩
    rw [if_neg (by omega), if_neg (Nat.not_lt.mpr hlong)]
    rfl

/-- The body of a parsed packet lies inside of its payload. -/
theorem PacketParser.body_bounds {packet : Packet} {parsed : ParsedPacket}
    (h : parse packet = some parsed) :
    parsed.bodyOffset = headerSize ∧ headerSize + parsed.bodyLen ≤ parsed.payload.length := by
  obtain ⟨hfits, rfl⟩ := parse_eq_some.mp h
  exact ⟨rfl, hfits⟩

/-! ## The builders -/

/-- The header that `LoginBuilder` and `LobbyBuilder` store: fields in network order. -/
def headerStores (opcode : Opcode) (bodyLen : ℕ) (sid : SessionId) : List (ℕ × List UInt8) :=
  [(0, [0x01]), (1, [opcode.toByte]), (2, beBytes 2 bodyLen), (4, beBytes 8 sid.toNat),
    (12, beBytes 4 0)]

/-- The header that `PingBuilder` and the client store: the length in two bytes of its own. -/
def headerByteStores (opcode : Opcode) (high low : UInt8) (sid : SessionId) : List (ℕ × List UInt8) :=
  [(0, [0x01]), (1, [opcode.toByte]), (2, [high]), (3, [low]), (4, beBytes 8 sid.toNat),
    (12, zeros 4)]

theorem flatMap_headerStores (opcode : Opcode) (bodyLen : ℕ) (sid : SessionId) :
    (headerStores opcode bodyLen sid).flatMap Prod.snd = buildHeader opcode bodyLen sid := by
  simp [headerStores, buildHeader]

theorem flatMap_headerByteStores {high low : UInt8} {bodyLen : ℕ} (opcode : Opcode)
    (hlen : [high, low] = beBytes 2 bodyLen) (sid : SessionId) :
    (headerByteStores opcode high low sid).flatMap Prod.snd = buildHeader opcode bodyLen sid := by
  have hflags : beBytes 4 0 = zeros 4 := by decide
  simp [headerByteStores, buildHeader, ← hlen, hflags]

theorem length_buildHeader (opcode : Opcode) (bodyLen : ℕ) (sid : SessionId) :
    (buildHeader opcode bodyLen sid).length = headerSize := by
  simp [buildHeader, headerSize]

/-- An opcode of the enumeration survives the cast from its byte. -/
def Opcode.Named (opcode : Opcode) : Prop := ofByte opcode.toByte = opcode

/-- The header that the builders write. -/
theorem CommonPacketHeader.ofBytes_buildHeader {opcode : Opcode} (hop : opcode.Named) {bodyLen : ℕ}
    (hlen : bodyLen < 2 ^ 16) (sid : SessionId) (rest : List UInt8) :
    ofBytes (buildHeader opcode bodyLen sid ++ rest) = ⟨.v1, opcode, UInt16.ofNat bodyLen, sid, 0⟩ := by
  have hsid : sid.toNat < 256 ^ 8 := sid.toNat_lt
  -- each field is a slice behind the fields in front of it
  have hbody : slice (buildHeader opcode bodyLen sid ++ rest) 2 2 = beBytes 2 bodyLen := by
    rw [buildHeader, List.append_assoc, List.append_assoc, List.append_assoc]
    exact (slice_append_right [0x01, opcode.toByte] _ 0 2).trans (slice_left (length_beBytes ..) _)
  have hsession : slice (buildHeader opcode bodyLen sid ++ rest) 4 8 = beBytes 8 sid.toNat := by
    rw [buildHeader, List.append_assoc, List.append_assoc]
    exact (slice_append_right ([0x01, opcode.toByte] ++ beBytes 2 bodyLen) _ 0 8).trans
      (slice_left (length_beBytes ..) _)
  have hflags : slice (buildHeader opcode bodyLen sid ++ rest) 12 4 = beBytes 4 0 := by
    rw [buildHeader, List.append_assoc]
    have hfront : ([0x01, opcode.toByte] ++ beBytes 2 bodyLen ++ beBytes 8 sid.toNat).length = 12 := by
      simp
    have hright := slice_append_right
      ([0x01, opcode.toByte] ++ beBytes 2 bodyLen ++ beBytes 8 sid.toNat) (beBytes 4 0 ++ rest) 0 4
    rw [hfront] at hright
    exact hright.trans (slice_left (length_beBytes ..) _)
  unfold ofBytes
  rw [hbody, hsession, hflags, beNat_beBytes hlen, beNat_beBytes hsid, beNat_beBytes (by decide),
    UInt64.ofNat_toNat]
  exact congrArg (CommonPacketHeader.mk .v1 · _ _ _) hop

/-- The parser has found this opcode, session and body in the frame, with version 1, no
    flags, and nothing behind the body. -/
structure Delivers (frame : List UInt8) (opcode : Opcode) (sid : SessionId) (body : List UInt8)
    (parsed : ParsedPacket) : Prop where
  version : parsed.version = .v1
  opcode : parsed.opcode = opcode
  flags : parsed.flags = 0
  sessionId : parsed.sessionId = sid
  payload : parsed.payload = frame
  bodyLen : headerSize + parsed.bodyLen = frame.length
  body : parsed.body = body

/-- What the parser makes of a header in front of a body of the announced length. -/
theorem PacketParser.parse_buildHeader {opcode : Opcode} (hop : opcode.Named) (sid : SessionId)
    {body : List UInt8} (hlen : body.length < 2 ^ 16) (fd : Int) (connInfo : ConnInfo) :
    ∃ parsed, parse ⟨fd, connInfo, buildHeader opcode body.length sid ++ body⟩ = some parsed ∧
      Delivers (buildHeader opcode body.length sid ++ body) opcode sid body parsed := by
  have hheader := CommonPacketHeader.ofBytes_buildHeader hop hlen sid body
  have hbodyLen : (UInt16.ofNat body.length).toNat = body.length := UInt16.toNat_ofNat_of_lt' hlen
  have hlength : (buildHeader opcode body.length sid ++ body).length = headerSize + body.length := by
    rw [List.length_append, length_buildHeader]
  refine ⟨_, parse_eq_some.mpr ⟨?_, rfl⟩, ?_⟩
  · exact Nat.le_of_eq (by rw [hheader, hbodyLen, hlength])
  · rw [hheader]
    refine ⟨rfl, rfl, rfl, rfl, rfl, ?_, ?_⟩
    · rw [hbodyLen, hlength]
    · unfold ParsedPacket.body
      dsimp only
      rw [hbodyLen, ← length_buildHeader opcode body.length sid]
      exact (slice_append_right _ body 0 _).trans (List.take_length ..)

end NfEngine
