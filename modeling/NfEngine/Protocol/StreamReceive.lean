-- SUMMARY: The receive handlers of the TLS and IPC reactors, and that the workers get the frames of a byte stream however it arrives.
import NfEngine.Ipc.IpcMessage
import NfEngine.Protocol.FrameReader

/-!
# Receiving a stream in pieces

`TlsReactor::receive` and `IpcReactor::receive` run the loop of the stream reactors with
`SSL_read` and `recv`. A frame becomes a packet, or a message whose constructor may
throw, and goes to a worker. The frames that reach the workers do not depend on the
pieces in which the stream is read.
-/

namespace NfEngine

open Lib.Bytes Lib.Framing Lib.Ring

/-- A receive ring without content, with its positions anywhere. -/
structure ByteRingBuffer.Drained (r : ByteRingBuffer) (capacity : ℕ) : Prop where
  valid : r.Valid
  length_buffer : r.buffer.length = capacity
  content : r.content = []

/-- What `SSL_get_error` says of an `SSL_read` that has returned no bytes. -/
inductive SslReadEnd where
  | wantRead
  | wantWrite
  | failed
  deriving DecidableEq, Repr

def SslReadEnd.readEnd : SslReadEnd → ReadEnd
  | .wantRead => .stop
  | .wantWrite => .stop
  | .failed => .close .failed

structure TlsConnection where
  fd : Int
  serverAddr : SockAddr
  peerAddr : SockAddr
  rxRing : ByteRingBuffer

/-- The number of workers of the reactor. -/
structure TlsReactor where
  tlsWorkers : ℕ

namespace TlsReactor

/-- The packet of a frame and the worker it is enqueued to. -/
def toWorker (reactor : TlsReactor) (conn : TlsConnection) (payload : List UInt8) : ℕ × Packet :=
  let pkt := Packet.make conn.fd .tls payload conn.peerAddr conn.serverAddr
  ((pkt.fd % 2 ^ 64).toNat % reactor.tlsWorkers, pkt)

def reader (reactor : TlsReactor) (conn : TlsConnection) : FrameReader (ℕ × Packet) :=
  ⟨tlsHeader, fun payload => .ok (reactor.toWorker conn payload)⟩

/-- `receive`, with the pieces that `SSL_read` returns and how it ends. -/
def receive (reactor : TlsReactor) (conn : TlsConnection) (pieces : List (List UInt8))
    (last : SslReadEnd) : List (ℕ × Packet) × RxResult :=
  (reactor.reader conn).receive (pieces.map .bytes) last.readEnd conn.rxRing

def readEvents (events : List (List (List UInt8) × SslReadEnd)) :
    List (List ReadAnswer × ReadEnd) :=
  events.map fun e => (e.1.map .bytes, e.2.readEnd)

/-- `receive` for several events, one after the other. -/
def receiveAll (reactor : TlsReactor) (conn : TlsConnection)
    (events : List (List (List UInt8) × SslReadEnd)) : List (ℕ × Packet) × RxResult :=
  (reactor.reader conn).receiveAll (readEvents events) conn.rxRing

theorem accepts_reader (reactor : TlsReactor) (conn : TlsConnection) :
    (reactor.reader conn).Accepts := fun _ _ => ⟨_, rfl⟩

theorem data_readEvents (events : List (List (List UInt8) × SslReadEnd)) :
    ((readEvents events).flatMap fun e => e.1.flatMap ReadAnswer.data) =
      events.flatMap fun e => e.1.flatten := by
  simp only [readEvents, List.flatMap_map, ReadAnswer.data, List.flatMap_id']

end TlsReactor

/-- What `recv` returns when the loop of the IPC reactor goes on. -/
inductive RecvAnswer where
  | bytes (data : List UInt8)
  /-- `EINTR`. -/
  | interrupted

def RecvAnswer.readAnswer : RecvAnswer → ReadAnswer
  | .bytes data => .bytes data
  | .interrupted => .again

/-- What `recv` returns when the loop of the IPC reactor ends. -/
inductive RecvEnd where
  | endOfStream
  | wouldBlock
  | failed
  deriving DecidableEq, Repr

def RecvEnd.readEnd : RecvEnd → ReadEnd
  | .endOfStream => .close .endOfStream
  | .wouldBlock => .stop
  | .failed => .close .failed

namespace IpcReactor

def reader (fd : Int) : FrameReader IpcMessage := ⟨ipcHeader, IpcMessage.make fd⟩

/-- Each message with its worker: `m_rr.fetch_add(1) % m_ipcWorkers.size()`. -/
def dispatch (workers rr : ℕ) (msgs : List IpcMessage) : List (ℕ × IpcMessage) :=
  msgs.zipIdx.map fun (msg, i) => ((rr + i) % 2 ^ 64 % workers, msg)

theorem payloads_dispatch (workers rr : ℕ) (msgs : List IpcMessage) :
    (dispatch workers rr msgs).map (·.2.payload) = msgs.map (·.payload) := by
  have hfst : msgs.zipIdx.map Prod.fst = msgs := List.zipIdx_map_fst 0 msgs
  conv_rhs => rw [← hfst, List.map_map]
  rw [dispatch, List.map_map]
  rfl

theorem workers_dispatch (workers rr : ℕ) (msgs : List IpcMessage) :
    (dispatch workers rr msgs).map (·.1) =
      (List.range msgs.length).map fun i => (rr + i) % 2 ^ 64 % workers := by
  rw [dispatch, List.map_map, List.range_eq_range', ← List.zipIdx_map_snd 0 msgs, List.map_map]
  rfl

theorem mem_of_mem_dispatch {workers rr : ℕ} {msgs : List IpcMessage} {e : ℕ × IpcMessage}
    (h : e ∈ dispatch workers rr msgs) : e.2 ∈ msgs := by
  obtain ⟨pair, hpair, rfl⟩ := List.mem_map.mp h
  exact List.fst_mem_of_mem_zipIdx hpair

def readEvents (events : List (List RecvAnswer × RecvEnd)) : List (List ReadAnswer × ReadEnd) :=
  events.map fun e => (e.1.map RecvAnswer.readAnswer, e.2.readEnd)

/-- `receive` for several events of a connection, one after the other, with the answers
    of `recv` in each. -/
def receiveAll (workers rr : ℕ) (fd : Int) (events : List (List RecvAnswer × RecvEnd))
    (rxRing : ByteRingBuffer) : List (ℕ × IpcMessage) × RxResult :=
  let (msgs, result) := (reader fd).receiveAll (readEvents events) rxRing
  (dispatch workers rr msgs, result)

/-- The constructor accepts what the framing layer cuts off. -/
theorem accepts_reader (fd : Int) : (reader fd).Accepts := by
  intro f hframe
  obtain ⟨hsize, hlen⟩ := FrameHeader.announced_eq_some.mp hframe
  change 2 ≤ f.length at hsize
  have hbody : IpcMessage.frameBodyLen f = beNat (slice f 0 2) := if_neg (Nat.not_lt.mpr hsize)
  refine ⟨⟨fd, f, hsize, ?_⟩, IpcMessage.make_eq_ok.mpr ⟨rfl, rfl⟩⟩
  rw [hbody, Nat.add_comm]
  exact hlen

end IpcReactor

namespace FrameReader

variable {π : Type} {reader : FrameReader π} {capacity : ℕ} {rxRing : ByteRingBuffer}

/-- On an empty ring the frames of a stream are made into messages, in order, and the
    unfinished frame is left. -/
theorem receiveAll_stream (haccepts : reader.Accepts) (hsize : reader.hdr.size ≤ capacity)
    {events : List (List ReadAnswer × ReadEnd)} {fs : List (List UInt8)} {p : List UInt8}
    (h : rxRing.Drained capacity) (hstream : reader.hdr.format.Stream capacity fs p)
    (hdata : (events.flatMap fun e => e.1.flatMap ReadAnswer.data) = fs.flatten ++ p)
    (hoffered : reader.OfferedAll events rxRing) :
    ∃ msgs rxRing', reader.receiveAll events rxRing = (msgs, .open rxRing') ∧
      List.Forall₂ (fun f msg => reader.make f = .ok msg) fs msgs ∧ rxRing'.content = p := by
  have hempty : reader.hdr.format.complete rxRing.content = none := by
    rw [h.content]
    exact Format.complete_nil
  have hall : rxRing.content ++ (events.flatMap fun e => e.1.flatMap ReadAnswer.data) =
      fs.flatten ++ p := by
    rw [h.content, List.nil_append, hdata]
  have hcuts := receiveAll_cuts haccepts hsize h.valid h.length_buffer hempty
    (hall ▸ hstream.fits) hoffered
  rw [hall] at hcuts
  obtain ⟨hmsgs, rxRing', hopen, _, _, hcontent⟩ := hcuts
  rw [hstream.frames_eq] at hmsgs
  rw [hstream.rest_eq] at hcontent
  exact ⟨_, rxRing', Prod.ext rfl hopen, hmsgs, hcontent⟩

end FrameReader

/-- What a stream of frames that fit the receive ring brings the workers, in whatever pieces it
    is read: one packet or message for each frame, in order and with its bytes. The connection
    stays open with the unfinished frame in its ring. A packet goes to the worker of its
    descriptor, and the messages to the workers in turn. -/
theorem receive_frames :
    (∀ (reactor : TlsReactor) (conn : TlsConnection)
        (events : List (List (List UInt8) × SslReadEnd)) (fs : List (List UInt8)) (p : List UInt8),
      conn.rxRing.Drained tlsMaxRxBufferSize →
      tlsHeader.format.Stream tlsMaxRxBufferSize fs p →
      (events.flatMap fun e => e.1.flatten) = fs.flatten ++ p →
      (reactor.reader conn).OfferedAll (TlsReactor.readEvents events) conn.rxRing →
      ∃ enqueued rxRing, reactor.receiveAll conn events = (enqueued, .open rxRing) ∧
        enqueued.map (·.2.payload) = fs ∧
        (∀ e ∈ enqueued, e.1 = (conn.fd % 2 ^ 64).toNat % reactor.tlsWorkers ∧ e.2.fd = conn.fd ∧
          e.2.connInfo.protocol = .tls ∧ e.2.connInfo.src = conn.peerAddr ∧
          e.2.connInfo.dst = conn.serverAddr) ∧
        rxRing.content = p) ∧
    (∀ (workers rr : ℕ) (fd : Int) (rxRing : ByteRingBuffer)
        (events : List (List RecvAnswer × RecvEnd)) (fs : List (List UInt8)) (p : List UInt8),
      rxRing.Drained ipcMaxRxBufferSize →
      ipcHeader.format.Stream ipcMaxRxBufferSize fs p →
      (events.flatMap fun e => e.1.flatMap fun a => a.readAnswer.data) = fs.flatten ++ p →
      (IpcReactor.reader fd).OfferedAll (IpcReactor.readEvents events) rxRing →
      ∃ enqueued rxRing', IpcReactor.receiveAll workers rr fd events rxRing =
          (enqueued, .open rxRing') ∧
        enqueued.map (·.2.payload) = fs ∧ (∀ e ∈ enqueued, e.2.fd = fd) ∧
        enqueued.map (·.1) = (List.range fs.length).map (fun i => (rr + i) % 2 ^ 64 % workers) ∧
        rxRing'.content = p) := by
  constructor
  · intro reactor conn events fs p hring hstream hdata hoffered
    obtain ⟨msgs, rxRing, hrecv, hmsgs, hrest⟩ := FrameReader.receiveAll_stream
      (reactor.accepts_reader conn) (show 16 ≤ _ by decide) hring hstream
      ((TlsReactor.data_readEvents events).trans hdata) hoffered
    have hmap : msgs = fs.map (reactor.toWorker conn) :=
      FrameReader.msgs_eq_map (fun _ => rfl) hmsgs
    subst hmap
    refine ⟨_, rxRing, hrecv, ?_, ?_, hrest⟩
    · rw [List.map_map]
      exact List.map_id fs
    · rintro e he
      obtain ⟨f, _, rfl⟩ := List.mem_map.mp he
      exact ⟨rfl, rfl, rfl, rfl, rfl⟩
  · intro workers rr fd rxRing events fs p hring hstream hdata hoffered
    have hdata' : ((IpcReactor.readEvents events).flatMap fun e => e.1.flatMap ReadAnswer.data) =
        fs.flatten ++ p := by
      simpa only [IpcReactor.readEvents, List.flatMap_map] using hdata
    obtain ⟨msgs, rxRing', hrecv, hmsgs, hrest⟩ := FrameReader.receiveAll_stream
      (IpcReactor.accepts_reader fd) (show 2 ≤ _ by decide) hring hstream hdata' hoffered
    have hmade : List.Forall₂ (fun f (msg : IpcMessage) => msg.fd = fd ∧ msg.payload = f) fs msgs :=
      hmsgs.imp fun _ _ hok => IpcMessage.make_eq_ok.mp hok
    refine ⟨IpcReactor.dispatch workers rr msgs, rxRing', ?_, ?_, ?_, ?_, hrest⟩
    · rw [IpcReactor.receiveAll, hrecv]
    · rw [IpcReactor.payloads_dispatch, eq_comm, ← List.forall₂_eq_eq_eq, List.forall₂_map_right_iff]
      exact hmade.imp fun _ _ h => h.2.symm
    · intro e he
      obtain ⟨i, hi, hmsg⟩ := List.getElem_of_mem (IpcReactor.mem_of_mem_dispatch he)
      rw [← hmsg]
      exact (hmade.get (hmade.length_eq ▸ hi) hi).1
    · rw [IpcReactor.workers_dispatch, hmade.length_eq]

/-- A ring without content, so many bytes in front of its end. -/
def ByteRingBuffer.emptyAt (capacity room : ℕ) : ByteRingBuffer :=
  ⟨List.replicate capacity 0, capacity - room, capacity - room, 0⟩

theorem ByteRingBuffer.drained_emptyAt {capacity room : ℕ} (hpos : 0 < room) (hle : room ≤ capacity) :
    (emptyAt capacity room).Drained capacity where
  valid :=
    { head_lt := by
        simp only [emptyAt, List.length_replicate]
        omega
      size_le := Nat.zero_le _
      tail_eq := by
        simp only [emptyAt, List.length_replicate]
        rw [Nat.add_zero, Nat.mod_eq_of_lt (by omega)] }
  length_buffer := List.length_replicate
  content := rfl

theorem ByteRingBuffer.writeLen_emptyAt {capacity room : ℕ} (hpos : 0 < room) (hle : room ≤ capacity) :
    (emptyAt capacity room).writeLen = room := by
  simp only [writeLen, writable, emptyAt, List.length_replicate]
  split <;> omega

/-- A read up to the end of the ring goes on at its beginning. -/
theorem ByteRingBuffer.writeLen_filled {capacity : ℕ} {data : List UInt8} (hle : data.length ≤ capacity) :
    (((emptyAt capacity data.length).store data).produce data.length).writeLen =
      capacity - data.length := by
  have hend : capacity - data.length + data.length = capacity := Nat.sub_add_cancel hle
  have hlen : (overwrite (List.replicate capacity (0 : UInt8)) (capacity - data.length) data).length =
      capacity := by
    rw [length_overwrite (by rw [hend, List.length_replicate]), List.length_replicate]
  simp only [writeLen, writable, store, produce, emptyAt, hlen, hend, Nat.mod_self, Nat.zero_add]
  split <;> omega

/-- Bytes that do not make up a header stay in the ring. -/
theorem FrameReader.take_of_lt {π : Type} {reader : FrameReader π} {rxRing : ByteRingBuffer}
    {data : List UInt8} (h : rxRing.size + data.length < reader.hdr.size) :
    reader.take rxRing data = ([], .open ((rxRing.store data).produce data.length)) := by
  have hneed : reader.hdr.tryExtractFrame ((rxRing.store data).produce data.length) = .needMoreData :=
    if_pos h
  unfold take
  dsimp only
  cases ((rxRing.store data).produce data.length).readable with
  | zero => rfl
  | succ n => rw [extractFrames, hneed]

/-- A read up to the end of an empty ring, which does not make up a header, is followed by one
    from its beginning. -/
theorem FrameReader.room_after {π : Type} {reader : FrameReader π} {capacity : ℕ} {data more : List UInt8}
    (hle : data.length ≤ capacity) (hshort : data.length < reader.hdr.size)
    (hroom : more.length ≤ capacity - data.length) {rxRing : ByteRingBuffer}
    (htake : (reader.take (.emptyAt capacity data.length) data).2 = .open rxRing) :
    more.length ≤ rxRing.writeLen := by
  rw [take_of_lt (by simpa [ByteRingBuffer.emptyAt] using hshort)] at htake
  cases htake
  rwa [ByteRingBuffer.writeLen_filled hle]

/-- Both headers straddle the end of the ring: the first read ends there, in the middle of the
    first header, and the second brings the rest, another frame and the beginning of a third. -/
theorem receive_frames_wrapped :
    (∃ enqueued rxRing, TlsReactor.receiveAll ⟨4⟩
          ⟨7, ⟨0, 9000⟩, ⟨1, 40000⟩, .emptyAt tlsMaxRxBufferSize 6⟩
          [([bareFrame.take 6, bareFrame.drop 6 ++ bareFrame ++ [1]], .wantRead)] =
            (enqueued, .open rxRing) ∧
        enqueued.map (·.2.payload) = [bareFrame, bareFrame] ∧
        (∀ e ∈ enqueued, e.1 = 3 ∧ e.2.fd = 7) ∧ rxRing.content = [1]) ∧
      ∃ enqueued rxRing, IpcReactor.receiveAll 2 5 9
          [([.bytes [0], .interrupted, .bytes [1, 7, 0, 2, 8, 9, 0]], .wouldBlock)]
          (.emptyAt ipcMaxRxBufferSize 1) = (enqueued, .open rxRing) ∧
        enqueued.map (·.2.payload) = [[0, 1, 7], [0, 2, 8, 9]] ∧ (∀ e ∈ enqueued, e.2.fd = 9) ∧
        enqueued.map (·.1) = [1, 0] ∧ rxRing.content = [0] := by
  have hframe : ∀ f ∈ [bareFrame, bareFrame],
      tlsHeader.format.IsFrame f ∧ f.length ≤ tlsMaxRxBufferSize := by
    simp only [List.mem_cons, List.not_mem_nil, or_false, or_self, forall_eq]
    exact ⟨rfl, by decide⟩
  have htls : tlsHeader.format.Stream tlsMaxRxBufferSize [bareFrame, bareFrame] [1] :=
    ⟨hframe, bareFrame.tail, by decide, rfl, by decide⟩
  have hmessage : ∀ f ∈ [[0, 1, 7], [0, 2, 8, 9]],
      ipcHeader.format.IsFrame f ∧ f.length ≤ ipcMaxRxBufferSize := by
    simp only [List.mem_cons, List.not_mem_nil, or_false, forall_eq_or_imp, forall_eq]
    exact ⟨⟨rfl, by decide⟩, rfl, by decide⟩
  have hipc : ipcHeader.format.Stream ipcMaxRxBufferSize [[0, 1, 7], [0, 2, 8, 9]] [0] :=
    ⟨hmessage, [1, 7], by decide, rfl, by decide⟩
  constructor
  · obtain ⟨enqueued, rxRing, hrecv, hpayloads, hall, hrest⟩ := receive_frames.1 ⟨4⟩
      ⟨7, ⟨0, 9000⟩, ⟨1, 40000⟩, .emptyAt tlsMaxRxBufferSize 6⟩
      [([bareFrame.take 6, bareFrame.drop 6 ++ bareFrame ++ [1]], .wantRead)]
      [bareFrame, bareFrame] [1] (ByteRingBuffer.drained_emptyAt (by decide) (by decide)) htls rfl
      ⟨rfl, ⟨by decide, (ByteRingBuffer.writeLen_emptyAt (by decide) (by decide)).ge, fun _ htake =>
        ⟨by decide, FrameReader.room_after (by decide) (by decide) (by decide) htake,
          fun _ _ => trivial⟩⟩, fun _ _ => trivial⟩
    exact ⟨enqueued, rxRing, hrecv, hpayloads, fun e he => ⟨(hall e he).1, (hall e he).2.1⟩, hrest⟩
  · exact receive_frames.2 2 5 9 _ [([.bytes [0], .interrupted, .bytes [1, 7, 0, 2, 8, 9, 0]], .wouldBlock)]
      [[0, 1, 7], [0, 2, 8, 9]] [0] (ByteRingBuffer.drained_emptyAt (by decide) (by decide)) hipc rfl
      ⟨rfl, ⟨by decide, (ByteRingBuffer.writeLen_emptyAt (by decide) (by decide)).ge, fun _ htake =>
        ⟨by decide, FrameReader.room_after (by decide) (by decide) (by decide) htake,
          fun _ _ => trivial⟩⟩, fun _ _ => trivial⟩

end NfEngine
