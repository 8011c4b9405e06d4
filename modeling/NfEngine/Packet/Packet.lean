-- SUMMARY: Packets, the common header, the packet parser and the packet builder.
import NfEngine.Lib.Bytes

/-!
# Packets

The wire format of `packet/ParsedPacketTypes.h` and the two functions that cross
it: `PacketParser::parse` on the way in and `PacketBuilder::build` on the way
out. A `sockaddr_in` is kept in host order, since each address passes through
`ntohl`/`htonl` in pairs before it is used.
-/

namespace NfEngine

open Lib.Bytes

/-- `uint64_t` session ids. -/
abbrev SessionId := UInt64

inductive Protocol where
  | tcp
  | udp
  | tls
  | unknown
  deriving DecidableEq, Repr

/-- `sockaddr_in`: address and port. -/
structure SockAddr where
  ip : UInt32
  port : UInt16
  deriving DecidableEq, Repr

structure ConnInfo where
  protocol : Protocol
  srcIp : UInt32
  srcPort : UInt16
  dstIp : UInt32
  dstPort : UInt16
  deriving DecidableEq, Repr

/-- `ConnInfo{}`: value-initialised, so the enumeration is its first member. -/
def ConnInfo.zero : ConnInfo := ⟨.tcp, 0, 0, 0, 0⟩

/-- The endpoint a packet came from. -/
def ConnInfo.src (ci : ConnInfo) : SockAddr := ⟨ci.srcIp, ci.srcPort⟩

/-- The endpoint a packet goes to. -/
def ConnInfo.dst (ci : ConnInfo) : SockAddr := ⟨ci.dstIp, ci.dstPort⟩

structure Packet where
  fd : Int
  connInfo : ConnInfo
  payload : List UInt8
  deriving DecidableEq, Repr

/-- The constructor of `Packet`. -/
def Packet.make (fd : Int) (proto : Protocol) (payload : List UInt8) (src dst : SockAddr) : Packet :=
  { fd := fd
    connInfo :=
      { protocol := proto
        srcIp := src.ip
        srcPort := src.port
        dstIp := dst.ip
        dstPort := dst.port }
    payload := payload }

/-! ## Opcodes and versions -/

/-- `enum class Opcode : uint8_t`. The header byte is cast without a check, so a
    value outside the enumeration is possible and keeps its byte. -/
inductive Opcode where
  | loginReq
  | loginSuccessRes
  | loginFailRes
  | lobbyEntryReq
  | lobbyEntryRes
  | pingReq
  | pingRes
  | invalid
  | other (raw : UInt8)
  deriving DecidableEq, Repr

def Opcode.ofByte (b : UInt8) : Opcode :=
  if b = 0x10 then .loginReq
  else if b = 0x11 then .loginSuccessRes
  else if b = 0x12 then .loginFailRes
  else if b = 0x20 then .lobbyEntryReq
  else if b = 0x21 then .lobbyEntryRes
  else if b = 0x90 then .pingReq
  else if b = 0x91 then .pingRes
  else if b = 0xFF then .invalid
  else .other b

def Opcode.toByte : Opcode → UInt8
  | .loginReq => 0x10
  | .loginSuccessRes => 0x11
  | .loginFailRes => 0x12
  | .lobbyEntryReq => 0x20
  | .lobbyEntryRes => 0x21
  | .pingReq => 0x90
  | .pingRes => 0x91
  | .invalid => 0xFF
  | .other raw => raw

/-- `enum class PacketVersion : uint8_t`, cast from the header byte as well. -/
inductive PacketVersion where
  | v1
  | other (raw : UInt8)
  deriving DecidableEq, Repr

def PacketVersion.ofByte (b : UInt8) : PacketVersion := if b = 1 then .v1 else .other b

/-! ## Parsing -/

/-- `sizeof(CommonPacketHeader)`. -/
def headerSize : ℕ := 16

structure ParsedPacket where
  fd : Int
  connInfo : ConnInfo
  version : PacketVersion
  opcode : Opcode
  flags : UInt32
  sessionId : SessionId
  payload : List UInt8
  bodyOffset : ℕ
  bodyLen : ℕ
  deriving DecidableEq, Repr

/-- `ParsedPacket::setSessionId`. -/
def ParsedPacket.setSessionId (parsed : ParsedPacket) (sid : SessionId) : ParsedPacket :=
  { parsed with sessionId := sid }

/-- `PacketParser::parse`: the version byte is read and not checked. -/
def PacketParser.parse (packet : Packet) : Option ParsedPacket :=
  let payload := packet.payload
  if payload.length < headerSize then
    none
  else
    let bodyLen := beNat (slice payload 2 2)
    if payload.length < headerSize + bodyLen then
      none
    else
      some
        { fd := packet.fd
          connInfo := packet.connInfo
          version := .ofByte (payload.getD 0 0)
          opcode := .ofByte (payload.getD 1 0)
          flags := UInt32.ofNat (beNat (slice payload 12 4))
          sessionId := UInt64.ofNat (beNat (slice payload 4 8))
          payload := payload
          bodyOffset := headerSize
          bodyLen := bodyLen }

/-- What a successful parse keeps of the packet it came from. -/
theorem PacketParser.parse_origin {packet : Packet} {parsed : ParsedPacket}
    (h : parse packet = some parsed) :
    parsed.fd = packet.fd ∧ parsed.connInfo = packet.connInfo := by
  simp only [parse] at h
  split at h
  · cases h
  · split at h
    · cases h
    · cases h
      exact ⟨rfl, rfl⟩

end NfEngine
