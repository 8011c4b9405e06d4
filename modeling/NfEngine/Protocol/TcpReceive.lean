-- SUMMARY: The plaintext receive path of the TCP reactor: the ClientHello sniff, the receive loop and the extraction of frames.
import NfEngine.Algorithm.ByteRingBuffer
import NfEngine.Lib.Framing
import NfEngine.Packet.Packet

/-!
# Receiving on a TCP connection

`TcpFraming::tryExtractFrame` and `TcpReactor::receive`, for one connection of
`m_conns`. The socket is the byte string that is readable when the event is
handled: `recv` with `MSG_PEEK` shows its front, `recv` hands out its front, and
an empty socket is `EAGAIN`. The frames go to the worker of the descriptor.
-/

namespace NfEngine

open Lib.Bytes Lib.Framing

/-! ## Framing -/

/-- `TCP_MAX_BODY_LEN`. -/
def tcpMaxBodyLen : ℕ := 64 * 1024

inductive TcpFramingResult where
  | needMoreData
  | invalidBodyLen
  | ok (frameLen : ℕ)
  deriving DecidableEq, Repr

def TcpFraming.tryExtractFrame (rxRing : ByteRingBuffer) : TcpFramingResult :=
  if rxRing.readable < headerSize then
    .needMoreData
  else
    let headerBuf := rxRing.peek headerSize
    let bodyLen := beNat (slice headerBuf 2 2)
    if tcpMaxBodyLen < bodyLen then
      .invalidBodyLen
    else
      let frameLen := headerSize + bodyLen
      if rxRing.readable < frameLen then .needMoreData else .ok frameLen

/-! ## The reactor -/

/-- `TCP_MAX_RX_BUFFER_SIZE`. -/
def tcpMaxRxBufferSize : ℕ := 65536

structure TcpConnection where
  fd : Int
  peer : SockAddr
  rxRing : ByteRingBuffer

/-- The connection that `acceptConnection` puts into `m_conns`. -/
def TcpConnection.new (fd : Int) (peer : SockAddr) : TcpConnection :=
  ⟨fd, peer, .new tcpMaxRxBufferSize⟩

/-- What `receive` reads of the reactor: whether `m_tlsServer` is set, the number
    of workers and the server's address. -/
structure TcpReactor where
  tlsServer : Bool
  tcpWorkers : ℕ
  serverAddr : SockAddr

namespace TcpReactor

/-- `recv` of five bytes with `MSG_PEEK`. -/
def isTlsClientHello (socket : List UInt8) : Bool :=
  let buf := socket.take 5
  if buf.length < 5 then false else buf.getD 0 0 == 0x16 && buf.getD 1 0 == 0x03

/-- The packet of a frame and the worker it is enqueued to. -/
def toWorker (reactor : TcpReactor) (conn : TcpConnection) (payload : List UInt8) : ℕ × Packet :=
  let pkt := Packet.make conn.fd .tcp payload conn.peer reactor.serverAddr
  ((pkt.fd % 2 ^ 64).toNat % reactor.tcpWorkers, pkt)

/-- The inner loop of `receive`: the payloads it cuts out, and the ring it leaves,
    or `none` when it closes the connection. A frame is at least a header long, so
    the readable bytes bound the rounds. -/
def extractFrames : ℕ → ByteRingBuffer → List (List UInt8) × Option ByteRingBuffer
  | 0, rxRing => ([], some rxRing)
  | fuel + 1, rxRing =>
    match TcpFraming.tryExtractFrame rxRing with
    | .needMoreData => ([], some rxRing)
    | .invalidBodyLen => ([], none)
    | .ok frameLen =>
      let (payload, rxRing') := rxRing.read frameLen
      if payload.length ≠ frameLen then
        ([], none)
      else
        let (payloads, rxRing'') := extractFrames fuel rxRing'
        (payload :: payloads, rxRing'')

/-- The outer loop of `receive`: every round takes at least one byte out of the
    socket. -/
def receiveLoop : ℕ → List UInt8 → ByteRingBuffer → List (List UInt8) × Option ByteRingBuffer
  | 0, _, rxRing => ([], some rxRing)
  | fuel + 1, socket, rxRing =>
    if rxRing.writeLen = 0 then
      ([], none)
    else if socket = [] then
      ([], some rxRing)
    else
      let bytes := socket.take rxRing.writeLen
      let filled := (rxRing.store bytes).produce bytes.length
      match extractFrames filled.readable filled with
      | (payloads, none) => (payloads, none)
      | (payloads, some rxRing') =>
        let (payloads', rxRing'') := receiveLoop fuel (socket.drop bytes.length) rxRing'
        (payloads ++ payloads', rxRing'')

/-- What has become of a connection. -/
inductive Received where
  | open (conn : TcpConnection)
  | handedOver
  | closed

/-- `receive` on a connection of `m_conns`: the packets it enqueues, each with its
    worker, and what becomes of the connection. -/
def receive (reactor : TcpReactor) (conn : TcpConnection) (socket : List UInt8) :
    List (ℕ × Packet) × Received :=
  if reactor.tlsServer && isTlsClientHello socket then
    ([], .handedOver)
  else
    match receiveLoop (socket.length + 1) socket conn.rxRing with
    | (payloads, none) => (payloads.map (reactor.toWorker conn), .closed)
    | (payloads, some rxRing) =>
      (payloads.map (reactor.toWorker conn), .open { conn with rxRing := rxRing })

/-- The `EPOLLIN` events of one connection, each with the bytes that are readable
    then. A connection that has left `m_conns` has no more events here. -/
def receiveAll (reactor : TcpReactor) : Received → List (List UInt8) → List (ℕ × Packet) × Received
  | .open conn, socket :: sockets =>
    let (pkts, next) := reactor.receive conn socket
    let (pkts', last) := reactor.receiveAll next sockets
    (pkts ++ pkts', last)
  | conn, _ => ([], conn)

end TcpReactor

end NfEngine
