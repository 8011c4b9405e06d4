-- SUMMARY: What the framing layers of TCP and TLS cut off is accepted by the packet parser, with the header that framing has seen.
import NfEngine.Execution.Header
import NfEngine.Protocol.StreamReceive
import NfEngine.Protocol.TcpSegmentation

/-!
# From framing to parsing

The length of a packet is decoded twice. `TcpFraming` and `TlsFraming` copy a
`CommonPacketHeader` out of the front of the ring, possibly across its wrap point, and
`PacketParser` reads the fields again, at offsets of the vector that was cut off. Both
see the same header, so the parser's checks of the length cannot fail for a packet that
came in over TCP or TLS, and the payload ends where the body does.
-/

namespace NfEngine

open Lib.Bytes Lib.Framing

/-! ## One frame -/

/-- The header fields of a parsed packet. -/
def ParsedPacket.header (parsed : ParsedPacket) : CommonPacketHeader where
  version := parsed.version
  opcode := parsed.opcode
  bodyLen := UInt16.ofNat parsed.bodyLen
  sessionId := parsed.sessionId
  flags := parsed.flags

/-- The parser accepts the packet, with the header that its bytes begin with, and there is
    nothing behind the body. -/
def Packet.ParsesWhole (packet : Packet) : Prop :=
  ∃ parsed, PacketParser.parse packet = some parsed ∧
    parsed.header = CommonPacketHeader.ofBytes packet.payload ∧
    headerSize + parsed.bodyLen = packet.payload.length

/-- `TcpFraming::tryExtractFrame` with the structure that it copies out of the ring. -/
theorem TcpFraming.tryExtractFrame_eq_struct (rxRing : ByteRingBuffer) :
    tryExtractFrame rxRing =
      if rxRing.readable < headerSize then
        .needMoreData
      else
        let hdr := CommonPacketHeader.ofBytes (rxRing.peek headerSize)
        if tcpMaxBodyLen < hdr.bodyLen.toNat then
          .invalidBodyLen
        else
          let frameLen := headerSize + hdr.bodyLen.toNat
          if rxRing.readable < frameLen then .needMoreData else .ok frameLen := by
  simp only [CommonPacketHeader.toNat_bodyLen]
  rfl

theorem TcpFraming.ok_eq {rxRing : ByteRingBuffer} {frameLen : ℕ}
    (hok : tryExtractFrame rxRing = .ok frameLen) :
    frameLen = headerSize + (CommonPacketHeader.ofBytes (rxRing.peek headerSize)).bodyLen.toNat := by
  rw [tryExtractFrame_eq_struct] at hok
  dsimp only at hok
  repeat' split at hok
  all_goals cases hok
  rfl

/-- A whole frame is accepted. -/
theorem Packet.parsesWhole_of_isFrame {packet : Packet} (h : tcpHeader.format.IsFrame packet.payload) :
    packet.ParsesWhole := by
  obtain ⟨_, hlen⟩ := FrameHeader.announced_eq_some.mp h
  have hbody : packet.payload.length =
      headerSize + (CommonPacketHeader.ofBytes packet.payload).bodyLen.toNat := by
    rw [CommonPacketHeader.toNat_bodyLen]
    exact hlen
  refine ⟨_, PacketParser.parse_eq_some.mpr ⟨hbody.ge, rfl⟩, ?_, hbody.symm⟩
  simp only [ParsedPacket.header, UInt16.ofNat_toNat]

/-! ## Everything that a connection enqueues -/

namespace FrameReader

variable {π : Type} {reader : FrameReader π} {rxRing : ByteRingBuffer}

/-- Every message was made of a whole frame, and a ring that is left is valid. -/
structure MadeOfFrames (reader : FrameReader π) (result : List π × RxResult) : Prop where
  msgs : ∀ msg ∈ result.1, ∃ f, reader.hdr.format.IsFrame f ∧ reader.make f = .ok msg
  ring : ∀ rxRing, result.2 = .open rxRing → rxRing.Valid

/-- Nothing was made, and the ring was not touched. -/
theorem madeOfFrames_open (h : rxRing.Valid) : reader.MadeOfFrames ([], .open rxRing) where
  msgs := by simp
  ring := by
    rintro _ ⟨⟩
    exact h

/-- Nothing was made, and the connection is not open. -/
theorem madeOfFrames_end {result : RxResult} (h : ∀ rxRing, result ≠ .open rxRing) :
    reader.MadeOfFrames ([], result) where
  msgs := by simp
  ring rxRing hopen := absurd hopen (h rxRing)

theorem MadeOfFrames.append {msgs : List π} {next : List π × RxResult}
    (h : ∀ msg ∈ msgs, ∃ f, reader.hdr.format.IsFrame f ∧ reader.make f = .ok msg)
    (hnext : reader.MadeOfFrames next) : reader.MadeOfFrames (msgs ++ next.1, next.2) where
  msgs := by
    intro msg hmem
    rcases List.mem_append.mp hmem with hfirst | hlater
    · exact h msg hfirst
    · exact hnext.msgs msg hlater
  ring := hnext.ring

theorem extractFrames_madeOfFrames (fuel : ℕ) (h : rxRing.Valid) :
    reader.MadeOfFrames (reader.extractFrames fuel rxRing) := by
  induction fuel generalizing rxRing with
  | zero => exact madeOfFrames_open h
  | succ fuel ih =>
    unfold extractFrames
    cases hex : reader.hdr.tryExtractFrame rxRing with
    | needMoreData => exact madeOfFrames_open h
    | invalidBodyLen => exact madeOfFrames_end (by simp)
    | ok frameLen =>
      obtain ⟨hpayload, hvalid, _⟩ := h.read frameLen
      have hframe : reader.hdr.format.IsFrame (rxRing.read frameLen).1 := by
        rw [hpayload]
        exact FrameHeader.isFrame_take (FrameHeader.complete_of_ok h hex)
      dsimp only
      split
      · exact madeOfFrames_end (by simp)
      · split
        next => exact madeOfFrames_end (by simp)
        next msg hmake =>
          have hmsg : ∀ m ∈ [msg], ∃ f, reader.hdr.format.IsFrame f ∧ reader.make f = .ok m :=
            List.forall_mem_singleton.mpr ⟨_, hframe, hmake⟩
          exact .append hmsg (ih hvalid)

theorem take_madeOfFrames {data : List UInt8} (h : rxRing.Valid) (hdata : data.length ≤ rxRing.writeLen) :
    reader.MadeOfFrames (reader.take rxRing data) :=
  extractFrames_madeOfFrames _ (h.produce hdata).1

theorem receive_madeOfFrames {answers : List ReadAnswer} (last : ReadEnd) (h : rxRing.Valid)
    (hoffered : reader.Offered answers rxRing) :
    reader.MadeOfFrames (reader.receive answers last rxRing) := by
  induction answers generalizing rxRing with
  | nil =>
    unfold receive
    split
    · exact madeOfFrames_end (by simp)
    · cases last with
      | stop => exact madeOfFrames_open h
      | close reason => exact madeOfFrames_end (by simp)
  | cons answer answers ih =>
    unfold receive
    split
    · exact madeOfFrames_end (by simp)
    · cases answer with
      | again => exact ih h hoffered
      | bytes data =>
        obtain ⟨_, hlen, hrest⟩ := hoffered
        have htake : reader.MadeOfFrames (reader.take rxRing data) := take_madeOfFrames h hlen
        dsimp only
        split
        next msgs rxRing' heq =>
          rw [heq] at htake hrest
          exact .append htake.msgs (ih (htake.ring _ rfl) (hrest _ rfl))
        next heq => exact heq ▸ htake

/-- Every piece that `SSL_read` or `recv` returns fits the room that it was offered, in all
    events. -/
def OfferedEach (reader : FrameReader π) : List (List ReadAnswer × ReadEnd) → ByteRingBuffer → Prop
  | [], _ => True
  | (answers, last) :: events, rxRing =>
    reader.Offered answers rxRing ∧
      ∀ rxRing', (reader.receive answers last rxRing).2 = .open rxRing' → reader.OfferedEach events rxRing'

theorem receiveAll_madeOfFrames {events : List (List ReadAnswer × ReadEnd)} (h : rxRing.Valid)
    (hoffered : reader.OfferedEach events rxRing) :
    reader.MadeOfFrames (reader.receiveAll events rxRing) := by
  induction events generalizing rxRing with
  | nil => exact madeOfFrames_open h
  | cons event events ih =>
    obtain ⟨answers, last⟩ := event
    obtain ⟨hfirst, hrest⟩ := hoffered
    have hreceive := receive_madeOfFrames last h hfirst
    unfold receiveAll
    split
    next msgs rxRing' heq =>
      rw [heq] at hreceive hrest
      exact .append hreceive.msgs (ih (hreceive.ring _ rfl) (hrest _ rfl))
    next heq => exact heq ▸ hreceive

end FrameReader

namespace TcpReactor

/-- The payloads of the plaintext loops are whole frames, and a ring that is left is valid. -/
def CutsFrames (result : List (List UInt8) × Option ByteRingBuffer) : Prop :=
  (∀ payload ∈ result.1, tcpHeader.format.IsFrame payload) ∧ ∀ rxRing ∈ result.2, rxRing.Valid

theorem extractFrames_cutsFrames (fuel : ℕ) {rxRing : ByteRingBuffer} (h : rxRing.Valid) :
    CutsFrames (extractFrames fuel rxRing) := by
  have hmade : frameReader.MadeOfFrames (frameReader.extractFrames fuel rxRing) :=
    FrameReader.extractFrames_madeOfFrames fuel h
  have hpayloads : ∀ payload ∈ (frameReader.extractFrames fuel rxRing).1,
      tcpHeader.format.IsFrame payload := by
    intro payload hmem
    obtain ⟨f, hframe, hmake⟩ := hmade.msgs payload hmem
    cases hmake
    exact hframe
  rw [extractFrames_eq]
  split
  next heq =>
    rw [heq] at hmade hpayloads
    exact ⟨hpayloads, by rintro _ ⟨⟩; exact hmade.ring _ rfl⟩
  next heq =>
    rw [heq] at hpayloads
    exact ⟨hpayloads, by simp⟩

theorem receiveLoop_cutsFrames (fuel : ℕ) {socket : List UInt8} {rxRing : ByteRingBuffer}
    (h : rxRing.Valid) : CutsFrames (receiveLoop fuel socket rxRing) := by
  induction fuel generalizing socket rxRing with
  | zero => exact ⟨by simp [receiveLoop], by rintro _ ⟨⟩; exact h⟩
  | succ fuel ih =>
    unfold receiveLoop
    split
    · exact ⟨by simp, by simp⟩
    · split
      · exact ⟨by simp, by rintro _ ⟨⟩; exact h⟩
      · have hfilled := (h.produce (List.length_take_le rxRing.writeLen socket)).1
        have hfirst := extractFrames_cutsFrames
          ((rxRing.store (socket.take rxRing.writeLen)).produce
            (socket.take rxRing.writeLen).length).readable hfilled
        dsimp only
        split
        next heq => exact heq ▸ hfirst
        next payloads rxRing' heq =>
          rw [heq] at hfirst
          have hnext := @ih (socket.drop (socket.take rxRing.writeLen).length) _ (hfirst.2 _ rfl)
          refine ⟨?_, hnext.2⟩
          intro payload hmem
          rcases List.mem_append.mp hmem with hmem | hmem
          · exact hfirst.1 payload hmem
          · exact hnext.1 payload hmem

/-- Every packet that is enqueued is accepted, and a connection that stays keeps a valid ring. -/
theorem receive_parsesWhole (reactor : TcpReactor) {conn : TcpConnection} (h : conn.rxRing.Valid)
    (socket : List UInt8) :
    (∀ p ∈ (reactor.receive conn socket).1, p.2.ParsesWhole) ∧
      ∀ conn', (reactor.receive conn socket).2 = .open conn' → conn'.rxRing.Valid := by
  have hcuts : CutsFrames (receiveLoop (socket.length + 1) socket conn.rxRing) :=
    receiveLoop_cutsFrames _ h
  have hpackets : ∀ payloads : List (List UInt8),
      (∀ payload ∈ payloads, tcpHeader.format.IsFrame payload) →
      ∀ p ∈ payloads.map (reactor.toWorker conn), p.2.ParsesWhole := by
    intro payloads hframes p hmem
    obtain ⟨payload, hpayload, rfl⟩ := List.mem_map.mp hmem
    exact Packet.parsesWhole_of_isFrame (hframes payload hpayload)
  unfold receive
  split
  · exact ⟨by simp, by rintro _ ⟨⟩⟩
  · split
    next heq =>
      rw [heq] at hcuts
      exact ⟨hpackets _ hcuts.1, by rintro _ ⟨⟩⟩
    next heq =>
      rw [heq] at hcuts
      refine ⟨hpackets _ hcuts.1, ?_⟩
      rintro _ ⟨⟩
      exact hcuts.2 _ rfl

theorem receiveAll_parsesWhole (reactor : TcpReactor) {conn : TcpConnection} (h : conn.rxRing.Valid)
    (sockets : List (List UInt8)) :
    ∀ p ∈ (reactor.receiveAll (.open conn) sockets).1, p.2.ParsesWhole := by
  induction sockets generalizing conn with
  | nil => simp [receiveAll]
  | cons socket sockets ih =>
    obtain ⟨hfirst, hring⟩ := reactor.receive_parsesWhole h socket
    unfold receiveAll
    intro p hmem
    rcases List.mem_append.mp hmem with hmem | hmem
    · exact hfirst p hmem
    · cases hnext : (reactor.receive conn socket).2 with
      | «open» conn' =>
        rw [hnext] at hmem
        exact ih (hring conn' hnext) p hmem
      | handedOver =>
        rw [hnext] at hmem
        simp [receiveAll] at hmem
      | closed =>
        rw [hnext] at hmem
        simp [receiveAll] at hmem

end TcpReactor

theorem TlsReactor.receiveAll_parsesWhole (reactor : TlsReactor) {conn : TlsConnection}
    (h : conn.rxRing.Valid) {events : List (List (List UInt8) × SslReadEnd)}
    (hoffered : (reactor.reader conn).OfferedEach (readEvents events) conn.rxRing) :
    ∀ p ∈ (reactor.receiveAll conn events).1, p.2.ParsesWhole := by
  intro p hmem
  obtain ⟨f, hframe, hmake⟩ := (FrameReader.receiveAll_madeOfFrames h hoffered).msgs p hmem
  cases hmake
  exact Packet.parsesWhole_of_isFrame hframe

/-- TCP and TLS frame alike. What they cut off is exactly the frame at the front of the
    ring, and the parser makes a packet of it with the header that framing has seen; the
    rest of the ring is not touched. So no packet that a reactor enqueues fails the parser's
    checks of the length. -/
theorem framed_packets_parse :
    (∀ rxRing, TcpFraming.tryExtractFrame rxRing = TlsFraming.tryExtractFrame rxRing) ∧
    (∀ (rxRing : ByteRingBuffer) (frameLen : ℕ), rxRing.Valid →
      TcpFraming.tryExtractFrame rxRing = .ok frameLen →
      (rxRing.read frameLen).1 = rxRing.content.take frameLen ∧
      (rxRing.read frameLen).1.length = frameLen ∧
      (rxRing.read frameLen).2.content = rxRing.content.drop frameLen ∧
      ∀ fd proto src dst, ∃ parsed,
        PacketParser.parse (.make fd proto (rxRing.read frameLen).1 src dst) = some parsed ∧
        parsed.header = CommonPacketHeader.ofBytes (rxRing.read frameLen).1 ∧
        parsed.header = CommonPacketHeader.ofBytes (rxRing.peek headerSize) ∧
        parsed.payload = (rxRing.read frameLen).1 ∧ parsed.bodyLen = frameLen - headerSize) ∧
    (∀ (reactor : TcpReactor) (conn : TcpConnection) (sockets : List (List UInt8)),
      conn.rxRing.Valid → ∀ p ∈ (reactor.receiveAll (.open conn) sockets).1, p.2.ParsesWhole) ∧
    ∀ (reactor : TlsReactor) (conn : TlsConnection) (events : List (List (List UInt8) × SslReadEnd)),
      conn.rxRing.Valid →
      (reactor.reader conn).OfferedEach (TlsReactor.readEvents events) conn.rxRing →
      ∀ p ∈ (reactor.receiveAll conn events).1, p.2.ParsesWhole := by
  refine ⟨fun _ => rfl, ?_, ?_, ?_⟩
  · intro rxRing frameLen hvalid hok
    have hheaderOk : tcpHeader.tryExtractFrame rxRing = .ok frameLen := hok
    have hcomplete := FrameHeader.complete_of_ok hvalid hheaderOk
    obtain ⟨hread, _, hrest, _⟩ := hvalid.read frameLen
    have hlen : (rxRing.read frameLen).1.length = frameLen := by
      rw [hread]
      exact List.length_take_of_le (Format.complete_eq_some.mp hcomplete).2
    refine ⟨hread, hlen, hrest, ?_⟩
    intro fd proto src dst
    have hframe : tcpHeader.format.IsFrame (rxRing.read frameLen).1 :=
      hread ▸ FrameHeader.isFrame_take hcomplete
    obtain ⟨parsed, hparse, hheader, hbody⟩ :=
      (Packet.make fd proto (rxRing.read frameLen).1 src dst).parsesWhole_of_isFrame hframe
    -- both copies are taken from the first sixteen bytes of the content
    have hpeek : CommonPacketHeader.ofBytes (rxRing.read frameLen).1 =
        CommonPacketHeader.ofBytes (rxRing.peek headerSize) := by
      have hfront : headerSize ≤ frameLen := TcpFraming.ok_eq hok ▸ Nat.le_add_right _ _
      rw [hread, hvalid.peek, CommonPacketHeader.ofBytes_take hfront,
        CommonPacketHeader.ofBytes_take (Nat.le_refl _)]
    refine ⟨parsed, hparse, hheader, hheader.trans hpeek, ?_, ?_⟩
    · obtain ⟨_, rfl⟩ := PacketParser.parse_eq_some.mp hparse
      rfl
    · have hbody' : headerSize + parsed.bodyLen = frameLen := hbody.trans hlen
      omega
  · intro reactor conn sockets h
    exact reactor.receiveAll_parsesWhole h sockets
  · intro reactor conn events h hoffered
    exact reactor.receiveAll_parsesWhole h hoffered

/-- A ring that holds a frame without a body and the first byte of the next, across its
    wrap point. -/
def wrappedRing : ByteRingBuffer where
  buffer := [0, 0, 0, 0, 0, 0, 1, 0, 0, 0, 0, 1, 0, 0, 0, 1, 0x90, 0, 0, 0]
  head := 15
  tail := 12
  size := 17

theorem framed_packets_parse_wrapped :
    wrappedRing.Valid ∧ TcpFraming.tryExtractFrame wrappedRing = .ok 16 ∧
      ∃ parsed, PacketParser.parse (.make 7 .tcp (wrappedRing.read 16).1 ⟨1, 40000⟩ ⟨0, 9000⟩) = some parsed ∧
        parsed.header = CommonPacketHeader.ofBytes (wrappedRing.peek headerSize) ∧ parsed.bodyLen = 0 := by
  have hvalid : wrappedRing.Valid := ⟨by decide, by decide, by decide⟩
  have hok : TcpFraming.tryExtractFrame wrappedRing = .ok 16 := by decide
  obtain ⟨_, _, _, hparses⟩ := framed_packets_parse.2.1 wrappedRing 16 hvalid hok
  obtain ⟨parsed, hparse, _, hheader, _, hbody⟩ := hparses 7 .tcp ⟨1, 40000⟩ ⟨0, 9000⟩
  exact ⟨hvalid, hok, parsed, hparse, hheader, hbody⟩

end NfEngine
