-- SUMMARY: The framing layers of TCP, TLS and IPC as one header format, and which frames fit the receive ring.
import NfEngine.Protocol.TcpReceive

/-!
# Framing layers

`TcpFraming`, `TlsFraming` and serverd's `IpcFraming` read a two-byte body length
out of a header and answer whether the ring holds the whole frame. They differ in
the size of the header and in the place of the length.

A receive loop gives up on a connection when its ring is full, and it looks at
the ring only after the framing layer has asked for more data. The last section
says for which body lengths the ring cannot be full then: those whose frame is
not longer than the ring, which the check against the largest body does not
enforce.
-/

namespace NfEngine

open Lib.Bytes

/-- A header that announces the length of the body in two bytes. The largest body
    that the layer admits is not below what two bytes can announce. -/
structure FrameHeader where
  size : ℕ
  lenAt : ℕ
  maxBodyLen : ℕ
  lenAt_le : lenAt + 2 ≤ size
  le_maxBodyLen : 2 ^ 16 - 1 ≤ maxBodyLen

/-- The answers of `TlsFraming`, the same as those of `TcpFraming`. -/
abbrev TlsFramingResult := TcpFramingResult

/-- The answers of `IpcFraming`, the same as those of `TcpFraming`. -/
abbrev IpcFramingResult := TcpFramingResult

namespace FrameHeader

/-- `tryExtractFrame` of all three layers. -/
def tryExtractFrame (hdr : FrameHeader) (rxRing : ByteRingBuffer) : TcpFramingResult :=
  if rxRing.readable < hdr.size then
    .needMoreData
  else
    let headerBuf := rxRing.peek hdr.size
    let bodyLen := beNat (slice headerBuf hdr.lenAt 2)
    if hdr.maxBodyLen < bodyLen then
      .invalidBodyLen
    else
      let frameLen := hdr.size + bodyLen
      if rxRing.readable < frameLen then .needMoreData else .ok frameLen

/-- The body length that the front of a byte string announces, once the header is
    there. -/
def bodyLen? (hdr : FrameHeader) (content : List UInt8) : Option ℕ :=
  if content.length < hdr.size then none else some (beNat (slice content hdr.lenAt 2))

end FrameHeader

/-- `TCP_HEADER_SIZE` and `TCP_MAX_BODY_LEN`. -/
def tcpHeader : FrameHeader := ⟨headerSize, 2, tcpMaxBodyLen, by decide, by decide⟩

/-- `TLS_HEADER_SIZE` and `TLS_MAX_BODY_LEN`. -/
def tlsHeader : FrameHeader := ⟨headerSize, 2, 64 * 1024, by decide, by decide⟩

/-- `IPC_HEADER_SIZE` and `IPC_MAX_BODY_LEN` of serverd. -/
def ipcHeader : FrameHeader := ⟨2, 0, 64 * 1024, by decide, by decide⟩

def TlsFraming.tryExtractFrame (rxRing : ByteRingBuffer) : TlsFramingResult :=
  tlsHeader.tryExtractFrame rxRing

def IpcFraming.tryExtractFrame (rxRing : ByteRingBuffer) : IpcFramingResult :=
  ipcHeader.tryExtractFrame rxRing

theorem TcpFraming.tryExtractFrame_eq_header (rxRing : ByteRingBuffer) :
    TcpFraming.tryExtractFrame rxRing = tcpHeader.tryExtractFrame rxRing := rfl

namespace FrameHeader

variable {hdr : FrameHeader} {r : ByteRingBuffer}

/-- On a valid ring the answer depends on the content alone: the check against the
    largest body never fires. -/
theorem tryExtractFrame_eq (hdr : FrameHeader) (h : r.Valid) :
    hdr.tryExtractFrame r =
      match hdr.bodyLen? r.content with
      | none => .needMoreData
      | some n => if r.readable < hdr.size + n then .needMoreData else .ok (hdr.size + n) := by
  unfold tryExtractFrame bodyLen?
  rw [h.length_content]
  by_cases hhead : r.readable < hdr.size
  · rw [if_pos hhead, if_pos hhead]
  · have hbody : beNat (slice (r.peek hdr.size) hdr.lenAt 2) = beNat (slice r.content hdr.lenAt 2) := by
      rw [h.peek, slice_take hdr.lenAt_le]
    have hmax : ¬ hdr.maxBodyLen < beNat (slice r.content hdr.lenAt 2) := by
      have := beNat_slice_lt r.content hdr.lenAt 2
      have := hdr.le_maxBodyLen
      omega
    simp only [if_neg hhead, hbody, if_neg hmax]

/-- A complete frame is a header at least, and the ring holds all of it. -/
theorem ok_bounds (hdr : FrameHeader) (h : r.Valid) {frameLen : ℕ}
    (hok : hdr.tryExtractFrame r = .ok frameLen) : 0 < frameLen ∧ frameLen ≤ r.readable := by
  have hsize := hdr.lenAt_le
  rw [hdr.tryExtractFrame_eq h] at hok
  split at hok
  · cases hok
  · split at hok
    · cases hok
    · cases hok
      omega

/-! ## The rings of a receive loop -/

/-- The rings that the receive loop of a connection goes through: `recv` or
    `SSL_read` stores at `writePtr()` when the framing layer wants more data, and a
    complete frame is read off the front. -/
inductive Receives (hdr : FrameHeader) (capacity : ℕ) : ByteRingBuffer → Prop where
  | new : Receives hdr capacity (.new capacity)
  | recv {r : ByteRingBuffer} {data : List UInt8} (h : Receives hdr capacity r)
      (hmore : hdr.tryExtractFrame r = .needMoreData) (hdata : data ≠ [])
      (hlen : data.length ≤ r.writeLen) :
      Receives hdr capacity ((r.store data).produce data.length)
  | frame {r : ByteRingBuffer} {frameLen : ℕ} (h : Receives hdr capacity r)
      (hok : hdr.tryExtractFrame r = .ok frameLen) : Receives hdr capacity (r.read frameLen).2

theorem Receives.valid {capacity : ℕ} (hcap : 0 < capacity) (h : hdr.Receives capacity r) :
    r.Valid ∧ r.buffer.length = capacity := by
  induction h with
  | new => exact ⟨ByteRingBuffer.valid_new hcap, ByteRingBuffer.length_buffer_new _⟩
  | recv _ _ _ hlen ih =>
    obtain ⟨hvalid, _, hbuf⟩ := ih.1.produce hlen
    exact ⟨hvalid, hbuf.trans ih.2⟩
  | frame _ _ ih =>
    obtain ⟨_, hvalid, _, hbuf⟩ := ih.1.read _
    exact ⟨hvalid, hbuf.trans ih.2⟩

/-- A frame with this body never fills the ring before it is complete: whenever the
    framing layer wants more data and the header, as far as it is there, announces
    this body, there is room for more and the receive loop goes on. -/
def KeepsRoom (hdr : FrameHeader) (capacity bodyLen : ℕ) : Prop :=
  ∀ r, hdr.Receives capacity r → (∀ n ∈ hdr.bodyLen? r.content, n = bodyLen) →
    hdr.tryExtractFrame r = .needMoreData → 0 < r.writable ∧ r.writeLen ≠ 0

theorem keepsRoom_of_le {capacity bodyLen : ℕ} (hfit : hdr.size + bodyLen ≤ capacity) :
    hdr.KeepsRoom capacity bodyLen := by
  intro r hr hbody hmore
  have hsize := hdr.lenAt_le
  obtain ⟨hvalid, hcap⟩ := hr.valid (by omega)
  have hshort : r.readable < capacity := by
    rw [hdr.tryExtractFrame_eq hvalid] at hmore
    cases hn : hdr.bodyLen? r.content with
    | none =>
      unfold bodyLen? at hn
      split at hn
      next hlt =>
        rw [hvalid.length_content] at hlt
        omega
      next => cases hn
    | some n =>
      obtain rfl : n = bodyLen := hbody n hn
      simp only [hn] at hmore
      split at hmore
      · omega
      · cases hmore
  have hroom := hvalid.writeLen_pos (by rw [hvalid.length_content]; omega)
  unfold ByteRingBuffer.readable at hshort
  unfold ByteRingBuffer.writable
  exact ⟨by omega, by omega⟩

/-- A ring full of the beginning of one frame. -/
def fillingBytes (hdr : FrameHeader) (capacity bodyLen : ℕ) : List UInt8 :=
  List.replicate hdr.lenAt 0 ++ beBytes 2 bodyLen ++ List.replicate (capacity - hdr.lenAt - 2) 0

theorem length_fillingBytes {capacity : ℕ} (hcap : hdr.size ≤ capacity) (bodyLen : ℕ) :
    (hdr.fillingBytes capacity bodyLen).length = capacity := by
  have := hdr.lenAt_le
  simp only [fillingBytes, List.length_append, List.length_replicate, length_beBytes]
  omega

theorem bodyLen?_fillingBytes {capacity bodyLen : ℕ} (hcap : hdr.size ≤ capacity)
    (hbody : bodyLen < 2 ^ 16) : hdr.bodyLen? (hdr.fillingBytes capacity bodyLen) = some bodyLen := by
  have hslice : slice (hdr.fillingBytes capacity bodyLen) hdr.lenAt 2 = beBytes 2 bodyLen := by
    unfold slice fillingBytes
    rw [List.append_assoc, List.drop_left' (List.length_replicate ..),
      List.take_left' (length_beBytes ..)]
  rw [bodyLen?, length_fillingBytes hcap, if_neg (Nat.not_lt.mpr hcap), hslice,
    beNat_beBytes hbody]

/-- One `recv` can fill the ring with the beginning of a frame that is longer than
    the ring, and the framing layer then wants more data. -/
theorem exists_full_ring {capacity bodyLen : ℕ} (hcap : hdr.size ≤ capacity)
    (hbody : bodyLen < 2 ^ 16) (hlong : capacity < hdr.size + bodyLen) :
    ∃ r, hdr.Receives capacity r ∧ hdr.bodyLen? r.content = some bodyLen ∧
      hdr.tryExtractFrame r = .needMoreData ∧ r.writable = 0 := by
  have hpos : 0 < capacity := by
    have := hdr.lenAt_le
    omega
  have hnew := ByteRingBuffer.valid_new hpos
  have hlen := length_fillingBytes hcap bodyLen
  have hwrite : (hdr.fillingBytes capacity bodyLen).length ≤ (ByteRingBuffer.new capacity).writeLen := by
    rw [hlen, ByteRingBuffer.writeLen_new]
  have hempty : hdr.tryExtractFrame (.new capacity) = .needMoreData := by
    have := hdr.lenAt_le
    exact if_pos (show 0 < hdr.size by omega)
  have hr := Receives.recv Receives.new hempty
    (List.ne_nil_of_length_pos (by rw [hlen]; exact hpos)) hwrite
  obtain ⟨hvalid, hcontent, hbuf⟩ := hnew.produce hwrite
  rw [ByteRingBuffer.content_new, List.nil_append] at hcontent
  have hannounced := bodyLen?_fillingBytes hcap hbody
  refine ⟨_, hr, by rw [hcontent, hannounced], ?_, ?_⟩
  · rw [hdr.tryExtractFrame_eq hvalid, hcontent, hannounced]
    refine if_pos ?_
    rw [← hvalid.length_content, hcontent, hlen]
    exact hlong
  · unfold ByteRingBuffer.writable
    rw [hbuf, ByteRingBuffer.length_buffer_new]
    change capacity - (0 + _) = 0
    omega

theorem keepsRoom_iff_le {capacity : ℕ} (hcap : hdr.size ≤ capacity) (bodyLen : UInt16) :
    hdr.KeepsRoom capacity bodyLen.toNat ↔ hdr.size + bodyLen.toNat ≤ capacity := by
  refine ⟨fun hkeeps => ?_, keepsRoom_of_le⟩
  by_contra hlong
  obtain ⟨r, hr, hbody, hmore, hfull⟩ :=
    exists_full_ring hcap bodyLen.toNat_lt (Nat.not_le.mp hlong)
  have hroom := (hkeeps r hr (by simp [hbody]) hmore).1
  omega

end FrameHeader

/-! ## The loops of the reactors -/

namespace TcpReactor

open FrameHeader

/-- The inner loop ends on a ring of the receive loop that wants more data. -/
theorem extractFrames_receives {capacity fuel : ℕ} (hcap : 0 < capacity) {r : ByteRingBuffer}
    (h : tcpHeader.Receives capacity r) (hfuel : r.readable ≤ fuel) :
    ∃ payloads r', extractFrames fuel r = (payloads, some r') ∧ tcpHeader.Receives capacity r' ∧
      tcpHeader.tryExtractFrame r' = .needMoreData := by
  induction fuel generalizing r with
  | zero => exact ⟨[], r, rfl, h, if_pos (show r.readable < headerSize by unfold headerSize; omega)⟩
  | succ fuel ih =>
    obtain ⟨hvalid, _⟩ := h.valid hcap
    unfold extractFrames
    rw [TcpFraming.tryExtractFrame_eq_header]
    cases hex : tcpHeader.tryExtractFrame r with
    | needMoreData => exact ⟨[], r, rfl, h, hex⟩
    | invalidBodyLen =>
      rw [tcpHeader.tryExtractFrame_eq hvalid] at hex
      repeat' split at hex
      all_goals cases hex
    | ok frameLen =>
      obtain ⟨hpos, hle⟩ := tcpHeader.ok_bounds hvalid hex
      obtain ⟨hpayload, hvalid', hcontent, _⟩ := hvalid.read frameLen
      have hlen : (r.read frameLen).1.length = frameLen := by
        rw [hpayload, List.length_take, hvalid.length_content, Nat.min_eq_left hle]
      have hfuel' : (r.read frameLen).2.readable ≤ fuel := by
        rw [← hvalid'.length_content, hcontent, List.length_drop, hvalid.length_content]
        omega
      obtain ⟨payloads, r', hrest, hr', hmore⟩ := ih (h.frame hex) hfuel'
      refine ⟨(r.read frameLen).1 :: payloads, r', ?_, hr', hmore⟩
      simp only [hrest, hlen, ne_eq, not_true, if_false]

/-- The receive loop closes a connection only over a ring that is full while the
    framing layer wants more data. -/
theorem receiveLoop_closes {capacity fuel : ℕ} (hcap : 0 < capacity) {socket : List UInt8}
    {r : ByteRingBuffer} (h : tcpHeader.Receives capacity r)
    (hmore : tcpHeader.tryExtractFrame r = .needMoreData)
    (hclosed : (receiveLoop fuel socket r).2 = none) :
    ∃ r', tcpHeader.Receives capacity r' ∧ tcpHeader.tryExtractFrame r' = .needMoreData ∧
      r'.writeLen = 0 := by
  induction fuel generalizing socket r with
  | zero => cases hclosed
  | succ fuel ih =>
    unfold receiveLoop at hclosed
    split at hclosed
    next hfull => exact ⟨r, h, hmore, hfull⟩
    next =>
      split at hclosed
      next => cases hclosed
      next hroom hsome =>
        have hdata : socket.take r.writeLen ≠ [] := by
          simp [List.take_eq_nil_iff, hroom, hsome]
        have hrecv := h.recv hmore hdata (List.length_take_le _ _)
        obtain ⟨payloads, r', hex, hr', hmore'⟩ := extractFrames_receives hcap hrecv (Nat.le_refl _)
        simp only [hex] at hclosed
        exact ih hr' hmore' hclosed

end TcpReactor

/-- `TLS_MAX_RX_BUFFER_SIZE`. -/
def tlsMaxRxBufferSize : ℕ := 65536

/-- `IPC_MAX_RX_BUFFER_SIZE`. -/
def ipcMaxRxBufferSize : ℕ := 65536

/-- The receive rings hold every frame but the longest: fifteen body lengths of TCP
    and TLS and one of IPC announce a frame that is longer than the ring. -/
theorem rxRing_keepsRoom_iff (bodyLen : UInt16) :
    (tcpHeader.KeepsRoom tcpMaxRxBufferSize bodyLen.toNat ↔ bodyLen ≤ 65520) ∧
    (tlsHeader.KeepsRoom tlsMaxRxBufferSize bodyLen.toNat ↔ bodyLen ≤ 65520) ∧
    (ipcHeader.KeepsRoom ipcMaxRxBufferSize bodyLen.toNat ↔ bodyLen ≤ 65534) := by
  have hbound := bodyLen.toNat_lt
  refine ⟨?_, ?_, ?_⟩
  · rw [FrameHeader.keepsRoom_iff_le (by decide), UInt16.le_iff_toNat_le]
    change 16 + _ ≤ 65536 ↔ _ ≤ 65520
    omega
  · rw [FrameHeader.keepsRoom_iff_le (by decide), UInt16.le_iff_toNat_le]
    change 16 + _ ≤ 65536 ↔ _ ≤ 65520
    omega
  · rw [FrameHeader.keepsRoom_iff_le (by decide), UInt16.le_iff_toNat_le]
    change 2 + _ ≤ 65536 ↔ _ ≤ 65534
    omega

/-- The largest body that each framing layer admits fills the ring while the layer
    still wants more data. -/
theorem largestBody_fills_rxRing :
    (∃ r, tcpHeader.Receives tcpMaxRxBufferSize r ∧ tcpHeader.bodyLen? r.content = some 65535 ∧
      TcpFraming.tryExtractFrame r = .needMoreData ∧ r.writable = 0) ∧
    (∃ r, tlsHeader.Receives tlsMaxRxBufferSize r ∧ tlsHeader.bodyLen? r.content = some 65535 ∧
      TlsFraming.tryExtractFrame r = .needMoreData ∧ r.writable = 0) ∧
    (∃ r, ipcHeader.Receives ipcMaxRxBufferSize r ∧ ipcHeader.bodyLen? r.content = some 65535 ∧
      IpcFraming.tryExtractFrame r = .needMoreData ∧ r.writable = 0) :=
  ⟨FrameHeader.exists_full_ring (by decide) (by decide) (by decide),
    FrameHeader.exists_full_ring (by decide) (by decide) (by decide),
    FrameHeader.exists_full_ring (by decide) (by decide) (by decide)⟩

end NfEngine
