-- SUMMARY: Shard events and the body parsers that build them from packets.
import NfEngine.Packet.Packet

/-!
# Events

The events a shard handles, and the three body parsers behind
`EventFactory::create`. A parser is a pure function of the parsed packet; its
answer is `none` where the source returns a null pointer. The string views of a
login event point into the payload that the event owns, so they are kept as the
bytes they view.
-/

namespace NfEngine

open Lib.Bytes

inductive Event where
  | loginReq (sessionId : SessionId) (payload id pw : List UInt8)
  | lobbyEntryReq (sessionId : SessionId) (payload : List UInt8)
  | pingReq (sessionId : SessionId) (payload : List UInt8) (nonce clientTs : UInt64)
  /-- The internal event of the control thread, which carries no session. -/
  | marketDumpReq
  deriving DecidableEq, Repr

/-- `LoginParser::parseLoginReq`. -/
def LoginParser.parseLoginReq (parsed : ParsedPacket) : Option Event :=
  let payload := parsed.payload
  let len := parsed.bodyLen
  if payload.length < headerSize ∨ payload.length < headerSize + len then
    none
  else
    let buf := payload.drop headerSize
    if len < 2 then
      none
    else
      let idLen := beNat (slice buf 0 2)
      let offset := 2
      if offset + idLen > len then
        none
      else
        let id := slice buf offset idLen
        let offset := offset + idLen
        if offset + 2 > len then
          none
        else
          let pwLen := beNat (slice buf offset 2)
          let offset := offset + 2
          if offset + pwLen > len then
            none
          else
            some (.loginReq parsed.sessionId payload id (slice buf offset pwLen))

/-- `LoginParser::deserialize`. -/
def LoginParser.deserialize (parsed : ParsedPacket) : Option Event :=
  match parsed.opcode with
  | .loginReq => parseLoginReq parsed
  | _ => none

/-- `LobbyParser::parseLobbyEntryReq`. -/
def LobbyParser.parseLobbyEntryReq (parsed : ParsedPacket) : Option Event :=
  if parsed.bodyLen ≠ 0 then
    none
  else if parsed.payload.length < headerSize then
    none
  else
    some (.lobbyEntryReq parsed.sessionId parsed.payload)

/-- `LobbyParser::deserialize`. -/
def LobbyParser.deserialize (parsed : ParsedPacket) : Option Event :=
  match parsed.opcode with
  | .lobbyEntryReq => parseLobbyEntryReq parsed
  | _ => none

/-- `PingParser::parsePingReq`. -/
def PingParser.parsePingReq (parsed : ParsedPacket) : Option Event :=
  let payload := parsed.payload
  let bodyLen := parsed.bodyLen
  if payload.length < headerSize ∨ payload.length < headerSize + bodyLen then
    none
  else if bodyLen ≠ 16 then
    none
  else
    let buf := payload.drop headerSize
    let nonce := UInt64.ofNat (beNat (slice buf 0 8))
    let clientTs := UInt64.ofNat (beNat (slice buf 8 8))
    some (.pingReq parsed.sessionId payload nonce clientTs)

/-- `PingParser::deserialize`. -/
def PingParser.deserialize (parsed : ParsedPacket) : Option Event :=
  match parsed.opcode with
  | .pingReq => parsePingReq parsed
  | _ => none

/-- `EventFactory::create`. -/
def EventFactory.create (parsed : ParsedPacket) : Option Event :=
  match parsed.opcode with
  | .loginReq => LoginParser.deserialize parsed
  | .lobbyEntryReq => LobbyParser.deserialize parsed
  | .pingReq => PingParser.deserialize parsed
  | _ => none

/-! ## What an event says about its packet -/

/-- The session an external event belongs to. -/
def Event.sessionId? : Event → Option SessionId
  | .loginReq sid _ _ _ => some sid
  | .lobbyEntryReq sid _ => some sid
  | .pingReq sid _ _ _ => some sid
  | .marketDumpReq => none

/-- The request opcode an external event comes from. -/
def Event.opcode? : Event → Option Opcode
  | .loginReq .. => some .loginReq
  | .lobbyEntryReq .. => some .lobbyEntryReq
  | .pingReq .. => some .pingReq
  | .marketDumpReq => none

private theorem LoginParser.parseLoginReq_origin {parsed : ParsedPacket} {ev : Event}
    (h : parseLoginReq parsed = some ev) :
    ev.sessionId? = some parsed.sessionId ∧ ev.opcode? = some .loginReq := by
  simp only [parseLoginReq] at h
  repeat' split at h
  all_goals cases h
  exact ⟨rfl, rfl⟩

private theorem LobbyParser.parseLobbyEntryReq_origin {parsed : ParsedPacket} {ev : Event}
    (h : parseLobbyEntryReq parsed = some ev) :
    ev.sessionId? = some parsed.sessionId ∧ ev.opcode? = some .lobbyEntryReq := by
  simp only [parseLobbyEntryReq] at h
  repeat' split at h
  all_goals cases h
  exact ⟨rfl, rfl⟩

private theorem PingParser.parsePingReq_origin {parsed : ParsedPacket} {ev : Event}
    (h : parsePingReq parsed = some ev) :
    ev.sessionId? = some parsed.sessionId ∧ ev.opcode? = some .pingReq := by
  simp only [parsePingReq] at h
  repeat' split at h
  all_goals cases h
  exact ⟨rfl, rfl⟩

/-- An event carries the session id and the opcode of the packet it was built
    from, whichever parser built it. -/
theorem EventFactory.create_origin {parsed : ParsedPacket} {ev : Event}
    (h : create parsed = some ev) :
    ev.sessionId? = some parsed.sessionId ∧ ev.opcode? = some parsed.opcode := by
  unfold create at h
  cases hop : parsed.opcode with
  | loginReq =>
    simp only [hop, LoginParser.deserialize] at h
    exact LoginParser.parseLoginReq_origin h
  | lobbyEntryReq =>
    simp only [hop, LobbyParser.deserialize] at h
    exact LobbyParser.parseLobbyEntryReq_origin h
  | pingReq =>
    simp only [hop, PingParser.deserialize] at h
    exact PingParser.parsePingReq_origin h
  | _ => simp only [hop] at h; cases h

end NfEngine
