-- SUMMARY: The server down to the bytes of its connections: receive rings, transmit rings and TLS queues over the exchange of packets.
import NfEngine.Protocol.StreamReceive
import NfEngine.Protocol.TcpTransmit
import NfEngine.Protocol.TlsTransmit
import NfEngine.Server.Exchange

/-!
# Bytes on the wire

The server of `Server.step` is given the frames that its reactors cut out of the bytes
they read, and is told whether a response fits the ring of its connection. `Wire` adds the
connection objects of the two reactors: a read call returns bytes, the receive loop cuts
the frames, and what becomes of a response is decided by the rings and queues, which a
flush empties into the socket. Each step of `Wire` is a run of the exchange below it.

The rounds of a loop are single steps here, so that the runs include all interleavings of
the threads, and more. `read`, `arrivals` and `placed` are observations.
-/

namespace NfEngine

open Lib Lib.Transition

namespace Server

variable {cfg : ServerConfig}

/-- Where bytes come from and where they go: the TCP reactor's or the TLS reactor's object
    of a connection, or the UDP socket. -/
inductive Endpoint where
  | tcp (inc : ℕ)
  | tls (inc : ℕ)
  | udp
  deriving DecidableEq

/-- The entries of a log at one endpoint. -/
def Endpoint.of (p : Endpoint) (log : List (Endpoint × List UInt8)) : List (List UInt8) :=
  (log.filter fun entry => entry.1 = p).map Prod.snd

/-- The reactor has not made its object of the connection yet. -/
def Endpoint.Unmade (n : Net) : Endpoint → Prop
  | .tcp inc => n.accepted ≤ inc
  | .tls inc => n.accepted ≤ inc ∨ ∃ fd, n.Holds .tcp fd inc ∨ n.Holds .handover fd inc
  | .udp => False

/-- An object of the TCP reactor's `m_conns`, and what `recv` has returned. -/
structure TcpLine where
  conn : TcpConnection
  tx : TcpTxConn
  read : List UInt8

def TcpLine.new (fd : Int) (peer : SockAddr) : TcpLine := ⟨.new fd peer, .new fd, []⟩

/-- An object of the TLS reactor's `m_conns`, and what `SSL_read` has returned. -/
structure TlsLine where
  tx : TlsTxConn
  read : List UInt8

def TlsLine.new (fd : Int) (serverAddr peerAddr : SockAddr) : TlsLine :=
  ⟨.new ⟨fd, serverAddr, peerAddr, .new tlsMaxRxBufferSize⟩, []⟩

/-- The server with the objects of its connections, by incarnation. `arrivals` are the frames
    and datagrams queued at the workers, and `placed` the payloads that went into a transmit
    ring or a TLS queue, each with its endpoint. -/
structure Wire (cfg : ServerConfig) where
  exchange : Exchange cfg
  tcp : ℕ → TcpLine
  tls : ℕ → TlsLine
  arrivals : List (Endpoint × List UInt8)
  placed : List (Endpoint × List UInt8)

/-- The steps that neither receive a packet nor place a response. -/
def Act.isQuiet : Act cfg → Bool
  | .tcpReceive _ _ _ | .tlsReceive _ _ _ | .udpReceive _ _ | .tcpPlace _ | .tlsPlace => false
  | _ => true

namespace Wire

def init (cfg : ServerConfig) : Wire cfg :=
  ⟨.init cfg, fun _ => .new (-1) ⟨0, 0⟩, fun _ => .new (-1) ⟨0, 0⟩ ⟨0, 0⟩, [], []⟩

def setTcp (w : Wire cfg) (inc : ℕ) (line : TcpLine) : Wire cfg :=
  { w with tcp := Function.update w.tcp inc line }

def setTls (w : Wire cfg) (inc : ℕ) (line : TlsLine) : Wire cfg :=
  { w with tls := Function.update w.tls inc line }

/-- A step of the exchange. -/
def lift (w : Wire cfg) (a : Server.Act cfg) : Option (Wire cfg) :=
  (w.exchange.step a).map fun e => { w with exchange := e }

/-- The frames whose worker has room for them. -/
def kept : List Bool → List (List UInt8) → List (List UInt8)
  | _, [] => []
  | enqueued, frame :: frames =>
    if enqueued.headD true then frame :: kept enqueued.tail frames else kept enqueued.tail frames

/-- The frames go to the workers, one by one; the connection is closed behind them or not. -/
def receive (w : Wire cfg) (p : Endpoint) (act : List UInt8 → Server.Act cfg)
    (payloads : List (List UInt8)) (last : List (Server.Act cfg)) : Option (Wire cfg) :=
  (run Exchange.step w.exchange (payloads.map act ++ last)).map fun e =>
    { w with exchange := e, arrivals := w.arrivals ++ payloads.map (Prod.mk p) }

/-- The payloads go into the transmit ring or the queue of an object. -/
def place (w : Wire cfg) (p : Endpoint) (payloads : List (List UInt8)) : Wire cfg :=
  { w with placed := w.placed ++ payloads.map (Prod.mk p) }

/-- The frames of the receive loops, as they are. -/
def reader (hdr : FrameHeader) : FrameReader (List UInt8) := ⟨hdr, .ok⟩

/-- A round of `TcpReactor::receive`. -/
def tcpRecv (w : Wire cfg) (fd : Int) (data : List UInt8) (enqueued : List Bool) : Option (Wire cfg) :=
  match w.exchange.server.net.tcpConns.find fd with
  | none => none
  | some inc =>
    let line := w.tcp inc
    if 0 < data.length ∧ data.length ≤ line.conn.rxRing.writeLen then
      match (reader tcpHeader).take line.conn.rxRing data with
      | (frames, .open rxRing) =>
        (w.setTcp inc { line with
            conn := { line.conn with rxRing := rxRing }
            read := line.read ++ data }).receive
          (.tcp inc) (.tcpReceive fd line.conn.peer) (kept enqueued frames) []
      | (frames, _) =>
        (w.setTcp inc { line with read := line.read ++ data }).receive
          (.tcp inc) (.tcpReceive fd line.conn.peer) (kept enqueued frames) [.tcpClose fd]
    else
      none

/-- A round of `TlsReactor::receive`. -/
def tlsRead (w : Wire cfg) (fd : Int) (data : List UInt8) (enqueued : List Bool) : Option (Wire cfg) :=
  match w.exchange.server.net.tlsConns.find fd with
  | none => none
  | some inc =>
    let line := w.tls inc
    let tls := line.tx.tls
    if 0 < data.length ∧ data.length ≤ tls.rxRing.writeLen then
      match (reader tlsHeader).take tls.rxRing data with
      | (frames, .open rxRing) =>
        (w.setTls inc ⟨{ line.tx with tls := { tls with rxRing := rxRing } }, line.read ++ data⟩).receive
          (.tls inc) (.tlsReceive fd tls.peerAddr) (kept enqueued frames) []
      | (frames, _) =>
        (w.setTls inc { line with read := line.read ++ data }).receive
          (.tls inc) (.tlsReceive fd tls.peerAddr) (kept enqueued frames) [.tlsClose fd]
    else
      none

/-- `TcpReactor::processTxQueue` for one packet. -/
def tcpPlace (w : Wire cfg) : Option (Wire cfg) :=
  match w.exchange.server.tcpTx with
  | [] => none
  | item :: _ =>
    match w.exchange.server.net.tcpConns.find item.packet.fd with
    | none => w.lift (.tcpPlace false)
    | some inc =>
      let line := w.tcp inc
      let (tx, fits) := line.tx.offer item.packet.payload
      ((w.setTcp inc { line with tx := tx }).place (.tcp inc)
        (if fits then [item.packet.payload] else [])).lift (.tcpPlace fits)

/-- `TlsReactor::processTxQueue` for one packet. -/
def tlsPlace (w : Wire cfg) : Option (Wire cfg) :=
  match w.exchange.server.tlsTx with
  | [] => none
  | item :: _ =>
    match w.exchange.server.net.tlsConns.find item.packet.fd with
    | none => w.lift .tlsPlace
    | some inc =>
      let line := w.tls inc
      ((w.setTls inc { line with tx := line.tx.push item.packet }).place (.tls inc)
        [item.packet.payload]).lift .tlsPlace

/-- `TcpReactor::flushTxBuffer`. -/
def tcpFlush (w : Wire cfg) (fd : Int) (results : List SendResult) : Option (Wire cfg) :=
  match w.exchange.server.net.tcpConns.find fd with
  | none => none
  | some inc =>
    let line := w.tcp inc
    match line.tx.sendLoop results with
    | (.failed, tx) => (w.setTcp inc { line with tx := tx }).lift (.tcpClose fd)
    | (_, tx) => some (w.setTcp inc { line with tx := tx })

/-- `TlsReactor::flushTx`. -/
def tlsFlush (w : Wire cfg) (fd : Int) (writes : List SslWrite) : Option (Wire cfg) :=
  match w.exchange.server.net.tlsConns.find fd with
  | none => none
  | some inc =>
    let line := w.tls inc
    match line.tx.flushLoop TlsTx.flushBudget writes with
    | none => none
    | some (.fatal, tx) => (w.setTls inc { line with tx := tx }).lift (.tlsClose fd)
    | some (_, tx) => some (w.setTls inc { line with tx := tx })

/-- A round of `TlsReactor::processHandover`. -/
def processHandover (w : Wire cfg) (sslNew : Bool) : Option (Wire cfg) :=
  match w.exchange.server.net.handoverQueue with
  | [] => none
  | (fd, inc) :: _ =>
    if sslNew then
      (w.setTls inc (.new fd cfg.tcpAddr (w.tcp inc).conn.peer)).lift (.processHandover true)
    else
      w.lift (.processHandover false)

inductive Act (cfg : ServerConfig) where
  | accept (fd : Int) (peer : SockAddr)
  | processHandover (sslNew : Bool)
  | tcpRecv (fd : Int) (data : List UInt8) (enqueued : List Bool)
  | tlsRead (fd : Int) (data : List UInt8) (enqueued : List Bool)
  | recvfrom (src : SockAddr) (payload : List UInt8)
  | tcpPlace
  | tlsPlace
  | tcpFlush (fd : Int) (results : List SendResult)
  | tlsFlush (fd : Int) (writes : List SslWrite)
  /-- A hangup, a handover, a worker, a shard or the UDP reactor. -/
  | inside (a : Server.Act cfg)

def step (w : Wire cfg) : Act cfg → Option (Wire cfg)
  | .accept fd peer => (w.setTcp w.exchange.server.net.accepted (.new fd peer)).lift (.accept fd)
  | .processHandover sslNew => w.processHandover sslNew
  | .tcpRecv fd data enqueued => w.tcpRecv fd data enqueued
  | .tlsRead fd data enqueued => w.tlsRead fd data enqueued
  | .recvfrom src payload => w.receive .udp (.udpReceive src) [payload] []
  | .tcpPlace => w.tcpPlace
  | .tlsPlace => w.tlsPlace
  | .tcpFlush fd results => w.tcpFlush fd results
  | .tlsFlush fd writes => w.tlsFlush fd writes
  | .inside (.accept _) | .inside (.processHandover _) => none
  | .inside a => if a.isQuiet then w.lift a else none

end Wire

end Server

end NfEngine
