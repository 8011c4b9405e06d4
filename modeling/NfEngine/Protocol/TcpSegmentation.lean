-- SUMMARY: The receive path refines the framing of the byte stream, and when its result does not depend on how the stream is cut.
import NfEngine.Protocol.FrameReader

/-!
# Segmentation of a TCP stream

The wire format announces the length of a frame in its header. On a valid ring
the extraction loop cuts off the complete frames of the ring's content, and the
receive loop those of the content followed by the socket, as long as no frame is
longer than the ring. The frames of a plaintext stream therefore do not depend
on its segmentation.

The decision between plaintext and TLS does: the sniff is repeated at every
event and looks at the bytes that are readable then, not at the first bytes of
the stream.
-/

namespace NfEngine

open Lib.Bytes Lib.Framing

/-- A frame is a header and the body whose length the header announces. -/
def tcpFormat : Format UInt8 where
  announced xs := if xs.length < headerSize then none else some (headerSize + beNat (slice xs 2 2))
  pos := by
    intro xs n h
    split at h <;> cases h
    exact Nat.add_pos_left (by decide) _
  stable := by
    intro xs n h ys
    split at h
    · cases h
    next hlen =>
      have hslice := slice_append (show 2 + 2 ≤ xs.length by unfold headerSize at hlen; omega) ys
      rw [if_neg (by rw [List.length_append]; omega), hslice]
      exact h

theorem format_tcpHeader : tcpHeader.format = tcpFormat := by
  refine Format.ext_announced (funext fun xs => ?_)
  change (if xs.length < headerSize then none else some (beNat (slice xs 2 2))).map (headerSize + ·) =
    if xs.length < headerSize then none else some (headerSize + beNat (slice xs 2 2))
  split <;> rfl

/-- The ring of a plaintext connection between two events: what the extraction
    loop has left of the bytes received so far. -/
structure TcpConnection.Waiting (conn : TcpConnection) (pending : List UInt8) : Prop where
  valid : conn.rxRing.Valid
  capacity : conn.rxRing.buffer.length = tcpMaxRxBufferSize
  content : conn.rxRing.content = pending
  incomplete : tcpFormat.complete pending = none

theorem TcpConnection.waiting_new (fd : Int) (peer : SockAddr) :
    (TcpConnection.new fd peer).Waiting [] where
  valid := ByteRingBuffer.valid_new (by decide)
  capacity := ByteRingBuffer.length_buffer_new _
  content := rfl
  incomplete := rfl

namespace TcpReactor

/-- The inner loop as that of the stream reactors: a frame is left as it is. -/
def frameReader : FrameReader (List UInt8) := ⟨tcpHeader, .ok⟩

theorem extractFrames_eq (fuel : ℕ) (rxRing : ByteRingBuffer) :
    extractFrames fuel rxRing =
      match frameReader.extractFrames fuel rxRing with
      | (payloads, .open rxRing') => (payloads, some rxRing')
      | (payloads, _) => (payloads, none) := by
  induction fuel generalizing rxRing with
  | zero => rfl
  | succ fuel ih =>
    unfold extractFrames FrameReader.extractFrames
    have hhdr : frameReader.hdr.tryExtractFrame rxRing = TcpFraming.tryExtractFrame rxRing := rfl
    rw [hhdr]
    cases TcpFraming.tryExtractFrame rxRing with
    | needMoreData => rfl
    | invalidBodyLen => rfl
    | ok frameLen =>
      dsimp only
      split
      · rfl
      · rw [ih]
        rcases frameReader.extractFrames fuel (rxRing.read frameLen).2 with ⟨payloads, _ | _ | _⟩ <;> rfl

/-- The inner loop cuts off the complete frames of the ring's content. -/
theorem extractFrames_spec (fuel : ℕ) {rxRing : ByteRingBuffer} (h : rxRing.Valid)
    (hfuel : rxRing.readable ≤ fuel) :
    ∃ rxRing', extractFrames fuel rxRing = (tcpFormat.frames rxRing.content, some rxRing') ∧
      rxRing'.Valid ∧ rxRing'.content = tcpFormat.rest rxRing.content ∧
      rxRing'.buffer.length = rxRing.buffer.length := by
  have haccepts : frameReader.Accepts := fun f _ => ⟨f, rfl⟩
  obtain ⟨hmsgs, rxRing', hopen, hvalid, hbuf, hcontent⟩ :=
    FrameReader.extractFrames_cuts haccepts fuel h rfl hfuel
  have hframes := (FrameReader.msgs_eq_map (fun _ => rfl) hmsgs).trans (List.map_id _)
  change _ = tcpHeader.format.frames _ at hframes
  change _ = tcpHeader.format.rest _ at hcontent
  rw [format_tcpHeader] at hframes hcontent
  refine ⟨rxRing', ?_, hvalid, hcontent, hbuf⟩
  rw [extractFrames_eq]
  generalize frameReader.extractFrames fuel rxRing = result at hopen hframes
  obtain ⟨payloads, end_⟩ := result
  obtain rfl : end_ = .open rxRing' := hopen
  exact congrArg (·, some rxRing') hframes

/-- A ring that holds an incomplete frame of a fitting stream has room. -/
theorem length_lt_of_fits {cap : ℕ} {content socket : List UInt8} (hcap : headerSize ≤ cap)
    (hc : tcpFormat.complete content = none) (hfits : tcpFormat.Fits cap (content ++ socket)) :
    content.length < cap := by
  rw [← format_tcpHeader] at hc hfits
  exact FrameHeader.length_lt_of_fits hcap hc hfits

/-- The outer loop cuts off the complete frames of what the ring holds followed by
    the socket. -/
theorem receiveLoop_spec (fuel : ℕ) {socket : List UInt8} {rxRing : ByteRingBuffer}
    (h : rxRing.Valid) (hcap : headerSize ≤ rxRing.buffer.length) (hfuel : socket.length < fuel)
    (hc : tcpFormat.complete rxRing.content = none)
    (hfits : tcpFormat.Fits rxRing.buffer.length (rxRing.content ++ socket)) :
    ∃ rxRing', receiveLoop fuel socket rxRing =
        (tcpFormat.frames (rxRing.content ++ socket), some rxRing') ∧
      rxRing'.Valid ∧ rxRing'.content = tcpFormat.rest (rxRing.content ++ socket) ∧
      rxRing'.buffer.length = rxRing.buffer.length := by
  induction fuel generalizing socket rxRing with
  | zero => omega
  | succ fuel ih =>
    have hroom := h.writeLen_pos (length_lt_of_fits hcap hc hfits)
    unfold receiveLoop
    rw [if_neg (by omega)]
    split
    next hnil =>
      subst hnil
      rw [List.append_nil]
      refine ⟨rxRing, ?_, h, ?_, rfl⟩
      · rw [Format.frames_of_complete_eq_none hc]
      · rw [Format.rest_of_complete_eq_none hc]
    next hmore =>
      have hlen : (socket.take rxRing.writeLen).length ≤ rxRing.writeLen := List.length_take_le _ _
      obtain ⟨hvalid₁, hcontent₁, hbuf₁⟩ := h.produce hlen
      obtain ⟨ring₂, hex, hvalid₂, hcontent₂, hbuf₂⟩ := extractFrames_spec _ hvalid₁ (Nat.le_refl _)
      rw [hcontent₁] at hex hcontent₂
      -- what is still in the socket continues what is left in the ring
      have hsplit : socket.take rxRing.writeLen ++ socket.drop (socket.take rxRing.writeLen).length =
          socket := List.prefix_iff_eq_append.mp (List.take_prefix _ _)
      have hall : rxRing.content ++ socket = (rxRing.content ++ socket.take rxRing.writeLen) ++
          socket.drop (socket.take rxRing.writeLen).length := by
        rw [List.append_assoc, hsplit]
      have hsocket : 0 < socket.length := List.length_pos_iff.mpr hmore
      have hfuel' : (socket.drop (socket.take rxRing.writeLen).length).length < fuel := by
        rw [List.length_drop, List.length_take]
        omega
      rw [hall] at hfits
      obtain ⟨ring₃, hrec, hvalid₃, hcontent₃, hbuf₃⟩ := ih hvalid₂ (by omega) hfuel'
        (hcontent₂ ▸ Format.complete_rest _) (by
          rw [hbuf₂, hbuf₁, hcontent₂]
          exact hfits.of_append)
      refine ⟨ring₃, ?_, hvalid₃, ?_, by omega⟩
      · simp only [hex, hrec, hcontent₂]
        rw [hall, Format.frames_append (rxRing.content ++ socket.take rxRing.writeLen)]
      · rw [hcontent₃, hcontent₂, hall, ← Format.rest_append]

/-! ## One event and all events -/

/-- An event without a ClientHello. -/
theorem receive_plain (reactor : TcpReactor) {conn : TcpConnection} {pending socket : List UInt8}
    (h : conn.Waiting pending) (hfits : tcpFormat.Fits tcpMaxRxBufferSize (pending ++ socket))
    (hhello : isTlsClientHello socket = false) :
    ∃ rxRing, reactor.receive conn socket =
        ((tcpFormat.frames (pending ++ socket)).map (reactor.toWorker conn),
          .open { conn with rxRing := rxRing }) ∧
      { conn with rxRing := rxRing }.Waiting (tcpFormat.rest (pending ++ socket)) := by
  have hcap : headerSize ≤ conn.rxRing.buffer.length := by
    rw [h.capacity]
    decide
  obtain ⟨rxRing, hloop, hvalid, hcontent, hbuf⟩ :=
    receiveLoop_spec (socket.length + 1) h.valid hcap (Nat.lt_succ_self _)
      (h.content.symm ▸ h.incomplete) (by rw [h.capacity, h.content]; exact hfits)
  rw [h.content] at hloop hcontent
  refine ⟨rxRing, ?_, hvalid, hbuf.trans h.capacity, hcontent, Format.complete_rest _⟩
  simp only [receive, hhello, Bool.and_false, hloop]
  rfl

/-- Events without a ClientHello among them: the frames of the whole stream. -/
theorem receiveAll_plain (reactor : TcpReactor) {conn : TcpConnection} {pending : List UInt8}
    {sockets : List (List UInt8)} (h : conn.Waiting pending)
    (hfits : tcpFormat.Fits tcpMaxRxBufferSize (pending ++ sockets.flatten))
    (hhello : ∀ socket ∈ sockets, isTlsClientHello socket = false) :
    ∃ conn', reactor.receiveAll (.open conn) sockets =
      ((tcpFormat.frames (pending ++ sockets.flatten)).map (reactor.toWorker conn), .open conn') := by
  induction sockets generalizing conn pending with
  | nil =>
    refine ⟨conn, ?_⟩
    rw [List.flatten_nil, List.append_nil, Format.frames_of_complete_eq_none h.incomplete]
    rfl
  | cons socket sockets ih =>
    rw [List.flatten_cons, ← List.append_assoc] at hfits ⊢
    obtain ⟨rxRing, hrecv, hwait⟩ := reactor.receive_plain h hfits.prefix_fits
      (hhello socket List.mem_cons_self)
    obtain ⟨conn', hrest⟩ := ih hwait hfits.of_append
      fun s hs => hhello s (List.mem_cons_of_mem _ hs)
    refine ⟨conn', ?_⟩
    simp only [receiveAll, hrecv, hrest]
    rw [Format.frames_append (pending ++ socket), List.map_append]
    rfl

/-! ## The sniff -/

theorem isTlsClientHello_iff {socket : List UInt8} :
    isTlsClientHello socket = true ↔
      5 ≤ socket.length ∧ socket[0]? = some 0x16 ∧ socket[1]? = some 0x03 := by
  rcases socket with _ | ⟨a, _ | ⟨b, t⟩⟩
  · simp [isTlsClientHello]
  · simp [isTlsClientHello]
  · simp only [isTlsClientHello, List.take_succ_cons, List.length_cons, List.length_take,
      List.getD_cons_zero, List.getD_cons_succ, List.getElem?_cons_zero, List.getElem?_cons_succ]
    split <;> simp <;> omega

theorem isTlsClientHello_append {socket : List UInt8} (h : isTlsClientHello socket = true)
    (more : List UInt8) : isTlsClientHello (socket ++ more) = true := by
  rw [isTlsClientHello_iff] at h ⊢
  obtain ⟨hlen, h0, h1⟩ := h
  refine ⟨?_, ?_, ?_⟩
  · rw [List.length_append]
    omega
  · rwa [List.getElem?_append_left (by omega)]
  · rwa [List.getElem?_append_left (by omega)]

/-- Nowhere in the stream do the two bytes of a TLS handshake record stand with
    three more bytes behind them. -/
def HelloFree (stream : List UInt8) : Prop :=
  ∀ i, i + 5 ≤ stream.length → stream[i]? = some 0x16 → stream[i + 1]? ≠ some 0x03

theorem helloFree_iff {stream : List UInt8} :
    HelloFree stream ↔ ∀ i, isTlsClientHello (stream.drop i) = false := by
  refine forall_congr' fun i => ?_
  rw [← Bool.not_eq_true, isTlsClientHello_iff, List.getElem?_drop, List.getElem?_drop,
    List.length_drop]
  simp only [Nat.add_zero, not_and]
  refine ⟨fun h h5 => h (by omega), fun h h5 => h (by omega)⟩

/-- No event of any cut of such a stream shows a ClientHello. -/
theorem HelloFree.not_hello {sockets : List (List UInt8)} (h : HelloFree sockets.flatten) :
    ∀ socket ∈ sockets, isTlsClientHello socket = false := by
  intro socket hmem
  obtain ⟨before, after, rfl⟩ := List.append_of_mem hmem
  have hdrop := helloFree_iff.mp h before.flatten.length
  rw [List.flatten_append, List.drop_left, List.flatten_cons] at hdrop
  by_contra hhello
  rw [isTlsClientHello_append (Bool.eq_true_of_not_eq_false hhello)] at hdrop
  cases hdrop

/-! ## Independence of segmentation -/

inductive Decision where
  | plaintext
  | tls
  | dropped
  deriving DecidableEq, Repr

def Received.decision : Received → Decision
  | .open _ => .plaintext
  | .handedOver => .tls
  | .closed => .dropped

/-- The decision that the first five bytes of a stream call for. -/
def streamDecision (stream : List UInt8) : Decision :=
  if isTlsClientHello stream then .tls else .plaintext

/-- Any two ways to cut the stream into events lead to the same decision, the one
    its first five bytes call for, and to the same packets if it is plaintext. -/
def SegmentationFree (reactor : TcpReactor) (conn : TcpConnection) (stream : List UInt8) : Prop :=
  ∀ cut cut' : List (List UInt8), cut.flatten = stream → cut'.flatten = stream →
    (reactor.receiveAll (.open conn) cut).2.decision = streamDecision stream ∧
    (reactor.receiveAll (.open conn) cut').2.decision = streamDecision stream ∧
    (streamDecision stream = .plaintext →
      (reactor.receiveAll (.open conn) cut).1 = (reactor.receiveAll (.open conn) cut').1)

theorem flatten_cut (stream : List UInt8) (i : ℕ) :
    [stream.take i, stream.drop i].flatten = stream := by
  rw [List.flatten_cons, List.flatten_cons, List.flatten_nil, List.append_nil,
    List.take_append_drop]

/-- A ClientHello whose first byte arrives alone is taken for plaintext. -/
theorem receiveAll_hello_cut (reactor : TcpReactor) {conn : TcpConnection} {stream : List UInt8}
    (h : conn.Waiting []) (hfits : tcpFormat.Fits tcpMaxRxBufferSize stream)
    (hhello : isTlsClientHello stream = true) :
    (reactor.receiveAll (.open conn) [stream.take 1, stream.drop 1]).2.decision = .plaintext := by
  obtain ⟨_, _, h1⟩ := isTlsClientHello_iff.mp hhello
  obtain ⟨conn', hall⟩ := reactor.receiveAll_plain h
    (show tcpFormat.Fits _ ([] ++ [stream.take 1, stream.drop 1].flatten) by rwa [flatten_cut]) (by
      intro socket hmem
      rw [← Bool.not_eq_true, isTlsClientHello_iff]
      simp only [List.mem_cons, List.not_mem_nil, or_false] at hmem
      rcases hmem with rfl | rfl
      · rw [List.length_take]
        omega
      · rw [List.getElem?_drop, h1]
        simp)
  rw [hall]
  rfl

/-- A stream that is not a ClientHello is handed over when an event begins where
    its bytes look like one. -/
theorem receiveAll_late_hello (reactor : TcpReactor) (htls : reactor.tlsServer = true)
    {conn : TcpConnection} {stream : List UInt8} {i : ℕ} (h : conn.Waiting [])
    (hfits : tcpFormat.Fits tcpMaxRxBufferSize stream) (hplain : isTlsClientHello stream = false)
    (hhello : isTlsClientHello (stream.drop i) = true) :
    (reactor.receiveAll (.open conn) [stream.take i, stream.drop i]).2.decision = .tls := by
  have hfirst : isTlsClientHello (stream.take i) = false := by
    by_contra hbad
    have := isTlsClientHello_append (Bool.eq_true_of_not_eq_false hbad) (stream.drop i)
    rw [List.take_append_drop, hplain] at this
    cases this
  have hfits' : tcpFormat.Fits tcpMaxRxBufferSize ([] ++ stream.take i ++ stream.drop i) := by
    simpa using hfits
  obtain ⟨rxRing, hrecv, _⟩ := reactor.receive_plain h hfits'.prefix_fits hfirst
  simp only [receiveAll, hrecv]
  simp only [receive, htls, hhello, Bool.and_self, if_true]
  rfl

/-- The result of receiving a stream is independent of its segmentation exactly
    when the stream nowhere looks like a ClientHello. -/
theorem segmentationFree_iff_helloFree (reactor : TcpReactor) (htls : reactor.tlsServer = true)
    (fd : Int) (peer : SockAddr) {stream : List UInt8}
    (hfits : tcpFormat.Fits tcpMaxRxBufferSize stream) :
    SegmentationFree reactor (.new fd peer) stream ↔ HelloFree stream := by
  have hnew := TcpConnection.waiting_new fd peer
  constructor
  · intro hfree
    rw [helloFree_iff]
    by_contra hsome
    obtain ⟨i, hi⟩ := not_forall.mp hsome
    have hi := Bool.eq_true_of_not_eq_false hi
    cases hhello : isTlsClientHello stream with
    | true =>
      have hdec := (hfree [stream.take 1, stream.drop 1] [stream] (flatten_cut _ _) (by simp)).1
      rw [reactor.receiveAll_hello_cut hnew hfits hhello, streamDecision, hhello] at hdec
      cases hdec
    | false =>
      have hdec := (hfree [stream.take i, stream.drop i] [stream] (flatten_cut _ _) (by simp)).1
      rw [reactor.receiveAll_late_hello htls hnew hfits hhello hi, streamDecision, hhello] at hdec
      cases hdec
  · rintro hfree cut cut' rfl hcut'
    have hplain : streamDecision cut.flatten = .plaintext := by
      rw [streamDecision, show isTlsClientHello cut.flatten = false from helloFree_iff.mp hfree 0]
      rfl
    obtain ⟨conn, hall⟩ := reactor.receiveAll_plain hnew hfits hfree.not_hello
    obtain ⟨conn', hall'⟩ := reactor.receiveAll_plain hnew
      (show tcpFormat.Fits _ ([] ++ cut'.flatten) by rwa [hcut']) (hcut' ▸ hfree).not_hello
    rw [hall, hall', hplain, hcut']
    exact ⟨rfl, rfl, fun _ => rfl⟩

/-- A reactor with four workers and a TLS server, as the core builds it. -/
def plainReactor : TcpReactor := ⟨true, 4, ⟨0, 9000⟩⟩

theorem segmentationFree_bareFrame :
    SegmentationFree plainReactor (.new 7 ⟨0x7F000001, 40000⟩) bareFrame := by
  refine (segmentationFree_iff_helloFree plainReactor rfl 7 _ (by decide)).mpr fun i hi => ?_
  have hbytes : ∀ i < 12, bareFrame[i]? = some 0x16 → bareFrame[i + 1]? ≠ some 0x03 := by decide
  exact hbytes i (by simp only [bareFrame, List.length_cons, List.length_nil] at hi; omega)

/-- The front of a handshake record. -/
def clientHello : List UInt8 := [0x16, 0x03, 0x01, 0x00, 0x05, 0x01]

/-- In one piece the handshake is handed over to TLS; when its first byte arrives
    alone, the connection stays plaintext. -/
theorem clientHello_not_segmentationFree :
    tcpFormat.Fits tcpMaxRxBufferSize clientHello ∧
    (plainReactor.receiveAll (.open (.new 7 ⟨0x7F000001, 40000⟩)) [clientHello]).2.decision = .tls ∧
    (plainReactor.receiveAll (.open (.new 7 ⟨0x7F000001, 40000⟩))
      [[0x16], [0x03, 0x01, 0x00, 0x05, 0x01]]).2.decision = .plaintext ∧
    ¬ SegmentationFree plainReactor (.new 7 ⟨0x7F000001, 40000⟩) clientHello := by
  have hfits : tcpFormat.Fits tcpMaxRxBufferSize clientHello := by decide
  have hcut := plainReactor.receiveAll_hello_cut
    (TcpConnection.waiting_new 7 ⟨0x7F000001, 40000⟩) hfits rfl
  refine ⟨hfits, rfl, hcut, fun hfree => ?_⟩
  have hdec := (hfree [clientHello.take 1, clientHello.drop 1] [clientHello] rfl rfl).1
  rw [hcut] at hdec
  cases hdec

end TcpReactor

end NfEngine
