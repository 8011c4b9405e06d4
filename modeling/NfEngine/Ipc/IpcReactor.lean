-- SUMMARY: The reply path of the IPC reactor: the worker's reply, the transmit rings and their flush, and which responses reach the client whole.
import NfEngine.Ipc.IpcMessage
import NfEngine.Lib.Map

/-!
# Replies on the local socket

An IPC worker frames the response of the command handler and hands it to the
reactor, which puts it into the transmit ring of the connection, sends the ring
and closes the connection once it is empty. A reply that does not fit the ring is
dropped.

`buildFrame` cuts a response to what the header can announce, and the ring is one
byte shorter than the longest frame. So the cut never takes effect: a response of
65535 bytes or more does not fit even an empty ring, and the client waits for a
reply that never comes.
-/

namespace NfEngine

open Lib Lib.Bytes

/-- `IPC_MAX_TX_BUFFER_SIZE`. -/
def ipcMaxTxBufferSize : ℕ := 65536

namespace IpcMessage

theorem length_buildFrame (body : List UInt8) :
    (buildFrame body).length = ipcHeaderSize + min body.length 65535 := by
  rw [buildFrame_eq, List.length_append, length_beBytes, List.length_take, Nat.min_comm,
    ipcHeaderSize]

/-- The message that the constructor makes of a built frame. -/
def ofBody (fd : Int) (body : List UInt8) : IpcMessage where
  fd := fd
  payload := buildFrame body
  header_le := by
    rw [length_buildFrame]
    exact Nat.le_add_right _ _
  length_eq := by
    rw [length_buildFrame, buildFrame_eq, frameBodyLen_beBytes (by omega), Nat.add_comm]

/-- The constructor accepts every built frame. -/
theorem make_buildFrame (fd : Int) (body : List UInt8) :
    make fd (buildFrame body) = .ok (ofBody fd body) := make_eq_ok.mpr ⟨rfl, rfl⟩

end IpcMessage

/-- The reply that `IpcWorker::drainRxQueue` hands to the reactor for a request. -/
def IpcWorker.reply (handle : List UInt8 → List UInt8) (msg : IpcMessage) : IpcMessage :=
  .ofBody msg.fd (handle msg.body)

/-- What `send` answers. -/
inductive SendResult where
  | sent (n : ℕ)
  | wouldBlock
  | failed
  deriving DecidableEq, Repr

namespace IpcReactor

/-- A connection of `m_conns`: its transmit ring. -/
structure Conn where
  txRing : ByteRingBuffer
  valid : txRing.Valid
  capacity : txRing.buffer.length = ipcMaxTxBufferSize

namespace Conn

/-- The connection that `acceptConnection` puts into `m_conns`. -/
def new : Conn :=
  ⟨.new ipcMaxTxBufferSize, ByteRingBuffer.valid_new (by decide), ByteRingBuffer.length_buffer_new _⟩

/-- Put a reply into the ring, or drop it when there is not enough room. -/
def place (conn : Conn) (payload : List UInt8) : Option Conn :=
  if conn.txRing.writable < payload.length then
    none
  else
    some
      { txRing := (conn.txRing.write payload).2
        valid := (conn.valid.write payload).2.1
        capacity := (conn.valid.write payload).2.2.2.trans conn.capacity }

/-- `send` has taken bytes off the front. -/
def consume (conn : Conn) (n : ℕ) (hn : n ≤ conn.txRing.readable) : Conn :=
  ⟨conn.txRing.consume n, (conn.valid.consume hn).1, conn.capacity⟩

/-- `flushTxBuffer` on a connection: the bytes that the kernel takes, and the
    connection, or `none` when it is closed. Behind the listed results the socket
    is full. -/
def flush : List SendResult → Conn → List UInt8 × Option Conn
  | [], conn => ([], if conn.txRing.readable = 0 then none else some conn)
  | result :: results, conn =>
    if conn.txRing.readable = 0 then
      ([], none)
    else
      match result with
      | .wouldBlock => ([], some conn)
      | .failed => ([], none)
      | .sent m =>
        let len := conn.txRing.readLen
        let n := min m len
        let next := conn.consume n ((Nat.min_le_right m len).trans conn.txRing.readLen_le)
        let bytes := slice conn.txRing.buffer conn.txRing.head n
        if n < len then
          (bytes, some next)
        else
          (bytes ++ (flush results next).1, (flush results next).2)

/-- A flush that closes the connection, and not over an error, has sent all of the
    ring. -/
theorem flush_complete {results : List SendResult} {conn : Conn}
    (hok : .failed ∉ results) (hclosed : (conn.flush results).2 = none) :
    (conn.flush results).1 = conn.txRing.content := by
  have hempty : ∀ conn : Conn, conn.txRing.readable = 0 → ([] : List UInt8) = conn.txRing.content := by
    intro conn hzero
    exact (List.eq_nil_of_length_eq_zero (conn.valid.length_content.trans hzero)).symm
  induction results generalizing conn with
  | nil =>
    simp only [flush] at hclosed ⊢
    split at hclosed
    next hzero => exact hempty conn hzero
    next => cases hclosed
  | cons result results ih =>
    simp only [flush] at hclosed ⊢
    split at hclosed
    next hzero =>
      rw [if_pos hzero]
      exact hempty conn hzero
    next hsome =>
      rw [if_neg hsome]
      cases result with
      | wouldBlock => cases hclosed
      | failed => exact absurd List.mem_cons_self hok
      | sent m =>
        simp only at hclosed ⊢
        split at hclosed
        next => cases hclosed
        next hall =>
          rw [if_neg hall, ih (fun h => hok (List.mem_cons_of_mem _ h)) hclosed]
          exact conn.valid.slice_append_consume (Nat.min_le_right ..)

end Conn

/-- The body of the loop of `processTxQueue`. -/
def placeReply (conns : Map Int Conn) (msg : IpcMessage) : Map Int Conn :=
  match conns.find msg.fd with
  | none => conns
  | some conn =>
    match conn.place msg.payload with
    | none => conns
    | some conn' => conns.insert msg.fd conn'

/-- The loop of `processTxQueue` over the drained batch. -/
def processTxQueue (conns : Map Int Conn) (msgs : List IpcMessage) : Map Int Conn :=
  msgs.foldl placeReply conns

@[simp] theorem processTxQueue_concat (conns : Map Int Conn) (before : List IpcMessage)
    (msg : IpcMessage) :
    processTxQueue conns (before ++ [msg]) = placeReply (processTxQueue conns before) msg := by
  simp [processTxQueue]

theorem processTxQueue_singleton (conns : Map Int Conn) (msg : IpcMessage) :
    processTxQueue conns [msg] = placeReply conns msg := rfl

section Reply

variable {conns : Map Int Conn} {conn : Conn}

/-- A reply to a connection with an empty ring is dropped exactly when it is longer
    than the ring. -/
theorem placeReply_of_empty (msg : IpcMessage) (hconn : conns.find msg.fd = some conn)
    (hempty : conn.txRing.content = []) :
    (ipcMaxTxBufferSize < msg.payload.length ∧ placeReply conns msg = conns) ∨
      (msg.payload.length ≤ ipcMaxTxBufferSize ∧
        ∃ conn', (placeReply conns msg).find msg.fd = some conn' ∧
          conn'.txRing.content = msg.payload) := by
  have hroom : conn.txRing.writable = ipcMaxTxBufferSize := by
    have hlen := conn.valid.length_content
    rw [hempty] at hlen
    rw [ByteRingBuffer.writable, conn.capacity]
    change 0 = conn.txRing.size at hlen
    omega
  unfold placeReply Conn.place
  rw [hconn]
  by_cases hfit : ipcMaxTxBufferSize < msg.payload.length
  · simp only [hroom, if_pos hfit]
    exact .inl ⟨hfit, trivial⟩
  · simp only [hroom, if_neg hfit]
    refine .inr ⟨Nat.not_lt.mp hfit, _, Map.find_insert_same .., ?_⟩
    have hwrite := (conn.valid.write msg.payload).2.2.1
    rwa [hempty, hroom, List.nil_append, List.take_of_length_le (Nat.not_lt.mp hfit)] at hwrite

/-- The bytes of a reply whose body was not cut. -/
theorem ofBody_payload {fd : Int} {body : List UInt8} (hlen : body.length ≤ 65535) :
    (IpcMessage.ofBody fd body).payload = beBytes 2 body.length ++ body := by
  change IpcMessage.buildFrame body = _
  rw [IpcMessage.buildFrame_eq, Nat.min_eq_left hlen, List.take_of_length_le hlen]

/-- The response stands whole in the transmit ring, behind its length, and a client
    that is sent the ring without an error reads it back. -/
def Delivered (conns : Map Int Conn) (fd : Int) (response : List UInt8) : Prop :=
  ∃ conn, conns.find fd = some conn ∧
    conn.txRing.content = beBytes 2 response.length ++ response ∧
    ∀ results, .failed ∉ results → (conn.flush results).2 = none →
      IpcClient.readReply (conn.flush results).1 = .ok response

/-- The response of the handler is delivered over an empty ring exactly when its
    frame fits the ring. -/
theorem processTxQueue_delivers_iff (handle : List UInt8 → List UInt8) (msg : IpcMessage)
    (before : List IpcMessage) (hconn : (processTxQueue conns before).find msg.fd = some conn)
    (hempty : conn.txRing.content = []) :
    Delivered (processTxQueue conns (before ++ [IpcWorker.reply handle msg])) msg.fd
        (handle msg.body) ↔
      (handle msg.body).length ≤ 65534 := by
  have hlen : (IpcWorker.reply handle msg).payload.length = 2 + min (handle msg.body).length 65535 :=
    IpcMessage.length_buildFrame _
  rw [processTxQueue_concat]
  rcases placeReply_of_empty (IpcWorker.reply handle msg) hconn hempty with
    ⟨hlong, hsame⟩ | ⟨hfit, conn', hconn', hcontent⟩
  · -- dropped: the ring is as empty as before
    rw [hlen, ipcMaxTxBufferSize] at hlong
    refine ⟨?_, fun hle => by omega⟩
    rintro ⟨other, hother, hbytes, _⟩
    rw [hsame, hconn, Option.some.injEq] at hother
    rw [← hother, hempty] at hbytes
    cases hbytes
  · rw [hlen, ipcMaxTxBufferSize] at hfit
    have hle : (handle msg.body).length ≤ 65534 := by omega
    have hpayload : (IpcWorker.reply handle msg).payload =
        beBytes 2 (handle msg.body).length ++ handle msg.body := ofBody_payload (by omega)
    rw [hpayload] at hcontent
    refine ⟨fun _ => hle, fun _ => ⟨conn', hconn', hcontent, ?_⟩⟩
    intro results hok hclosed
    have hread := IpcClient.readReply_beBytes (show (handle msg.body).length < 2 ^ 16 by omega) []
    rw [Conn.flush_complete hok hclosed, hcontent]
    rwa [List.append_nil] at hread

end Reply

/-- A client's request on descriptor 9. -/
def statsRequest : IpcMessage := .ofBody 9 [1]

/-- The reactor has that connection only. -/
def statsConns : Map Int Conn := Map.empty.insert 9 Conn.new

theorem find_statsConns : statsConns.find statsRequest.fd = some Conn.new := Map.find_insert_same ..

theorem processTxQueue_delivers_short :
    Delivered (processTxQueue statsConns ([] ++ [IpcWorker.reply (fun _ => [52, 50]) statsRequest]))
      9 [52, 50] :=
  (processTxQueue_delivers_iff (fun _ => [52, 50]) statsRequest [] find_statsConns
    (ByteRingBuffer.content_new _)).mpr (by decide)

/-- A response of 65535 bytes is dropped although the ring is empty: the client is
    sent nothing. -/
theorem longResponse_not_delivered :
    ∃ handle : List UInt8 → List UInt8, (handle statsRequest.body).length = 65535 ∧
      processTxQueue statsConns [IpcWorker.reply handle statsRequest] = statsConns ∧
      ¬ Delivered (processTxQueue statsConns [IpcWorker.reply handle statsRequest]) statsRequest.fd
        (handle statsRequest.body) := by
  obtain ⟨response, hlen⟩ : ∃ response : List UInt8, response.length = 65535 :=
    ⟨List.replicate 65535 0, List.length_replicate ..⟩
  have hpayload : (IpcWorker.reply (fun _ => response) statsRequest).payload.length =
      2 + min response.length 65535 := IpcMessage.length_buildFrame _
  have hdropped : placeReply statsConns (IpcWorker.reply (fun _ => response) statsRequest) =
      statsConns := by
    rcases placeReply_of_empty (IpcWorker.reply (fun _ => response) statsRequest) find_statsConns
      (ByteRingBuffer.content_new _) with ⟨_, hsame⟩ | ⟨hfit, _⟩
    · exact hsame
    · rw [hpayload, ipcMaxTxBufferSize] at hfit
      omega
  rw [← processTxQueue_singleton] at hdropped
  refine ⟨fun _ => response, hlen, hdropped, ?_⟩
  rintro ⟨conn, hconn, hbytes, _⟩
  rw [hdropped, find_statsConns, Option.some.injEq] at hconn
  rw [← hconn, show Conn.new.txRing.content = [] from ByteRingBuffer.content_new _] at hbytes
  cases hbytes

end IpcReactor

end NfEngine
