-- SUMMARY: The transmit path of the TCP reactor: rings, partial sends and flushes, and that each connection's bytes go out whole and in order.
import NfEngine.Ipc.IpcReactor
import NfEngine.Lib.Transition
import NfEngine.Protocol.ConnTable

/-!
# Transmitting over TCP

`TcpReactor::processTxQueue` puts the payloads of a drained batch into the transmit
rings, dropping one that does not fit, and then flushes every ring it has written to.
`flushTxBuffer` sends what the ring holds, one contiguous piece after the other, until
the ring is empty or the socket takes no more; then `EPOLLOUT` is registered, and the
event flushes again.

Each connection keeps a record of the packets it was offered, with the room its ring
had then, and of the bytes that `send` has taken.
-/

namespace NfEngine

open Lib Lib.Bytes Lib.Transition

/-- `TCP_MAX_TX_BUFFER_SIZE`. -/
def tcpMaxTxBufferSize : ℕ := 65536

structure TcpTxConn where
  fd : Int
  txRing : ByteRingBuffer
  valid : txRing.Valid
  capacity : txRing.buffer.length = tcpMaxTxBufferSize
  /-- The payloads of the packets for this connection, each with `writable()` at the
      time. -/
  offered : List (List UInt8 × ℕ)
  sent : List UInt8

/-- How the loop of `flushTxBuffer` ends. -/
inductive FlushEnd where
  | drained
  /-- The socket has taken less than it was offered. -/
  | blocked
  | failed
  deriving DecidableEq, Repr

namespace TcpTxConn

/-- The connection that `acceptConnection` puts into `m_conns`. -/
def new (fd : Int) : TcpTxConn :=
  ⟨fd, .new tcpMaxTxBufferSize, ByteRingBuffer.valid_new (by decide),
    ByteRingBuffer.length_buffer_new _, [], []⟩

/-- The payloads that fitted. -/
def fitted (conn : TcpTxConn) : List (List UInt8) :=
  (conn.offered.filter fun o => o.1.length ≤ o.2).map (·.1)

/-- What the loop of `processTxQueue` does with a packet of this connection, and whether
    the descriptor becomes dirty. -/
def offer (conn : TcpTxConn) (payload : List UInt8) : TcpTxConn × Bool :=
  let offered := conn.offered ++ [(payload, conn.txRing.writable)]
  if conn.txRing.writable < payload.length then
    ({ conn with offered := offered }, false)
  else
    ({ conn with
        txRing := (conn.txRing.write payload).2
        valid := (conn.valid.write payload).2.1
        capacity := (conn.valid.write payload).2.2.2.trans conn.capacity
        offered := offered }, true)

/-- `send` has taken bytes off the front of the ring. -/
def consume (conn : TcpTxConn) (n : ℕ) (hn : n ≤ conn.txRing.readable) : TcpTxConn :=
  { conn with
    txRing := conn.txRing.consume n
    valid := (conn.valid.consume hn).1
    capacity := conn.capacity
    sent := conn.sent ++ slice conn.txRing.buffer conn.txRing.head n }

/-- The loop of `flushTxBuffer`. Behind the listed results the socket is full. -/
def sendLoop : List SendResult → TcpTxConn → FlushEnd × TcpTxConn
  | [], conn => (if conn.txRing.readable = 0 then .drained else .blocked, conn)
  | result :: results, conn =>
    if conn.txRing.readable = 0 then
      (.drained, conn)
    else
      match result with
      | .wouldBlock => (.blocked, conn)
      | .failed => (.failed, conn)
      | .sent m =>
        let len := conn.txRing.readLen
        let n := min m len
        let next := conn.consume n ((Nat.min_le_right m len).trans conn.txRing.readLen_le)
        if n < len then (.blocked, next) else sendLoop results next

/-- What was sent and what the ring holds are the payloads that fitted. -/
def Balanced (conn : TcpTxConn) : Prop :=
  conn.sent ++ conn.txRing.content = conn.fitted.flatten

theorem balanced_new (fd : Int) : (new fd).Balanced := ByteRingBuffer.content_new tcpMaxTxBufferSize

theorem fitted_offer (conn : TcpTxConn) (payload : List UInt8) :
    (conn.offer payload).1.fitted =
      if conn.txRing.writable < payload.length then conn.fitted else conn.fitted ++ [payload] := by
  unfold offer fitted
  split
  next hfull => simp [List.filter_append, Nat.not_le.mpr hfull]
  next hroom => simp [List.filter_append, Nat.not_lt.mp hroom]

/-- A packet goes into the ring as a whole, or not at all. -/
theorem content_offer (conn : TcpTxConn) (payload : List UInt8) :
    (conn.offer payload).1.txRing.content =
      if conn.txRing.writable < payload.length then conn.txRing.content
      else conn.txRing.content ++ payload := by
  unfold offer
  split
  · rfl
  next hroom =>
    have hcontent := (conn.valid.write payload).2.2.1
    rwa [List.take_of_length_le (Nat.not_lt.mp hroom)] at hcontent

theorem snd_offer (conn : TcpTxConn) (payload : List UInt8) :
    (conn.offer payload).2 = !decide (conn.txRing.writable < payload.length) := by
  unfold offer
  split
  next hfull => simp [hfull]
  next hroom => simp [hroom]

theorem sent_offer (conn : TcpTxConn) (payload : List UInt8) :
    (conn.offer payload).1.sent = conn.sent := by
  unfold offer
  split <;> rfl

theorem Balanced.offer {conn : TcpTxConn} (h : conn.Balanced) (payload : List UInt8) :
    (conn.offer payload).1.Balanced := by
  unfold Balanced at h ⊢
  rw [fitted_offer, content_offer, sent_offer]
  split
  · exact h
  · rw [← List.append_assoc, h, List.flatten_append, List.flatten_singleton]

theorem offered_offer (conn : TcpTxConn) (payload : List UInt8) :
    (conn.offer payload).1.offered = conn.offered ++ [(payload, conn.txRing.writable)] := by
  unfold offer
  split <;> rfl

theorem fd_offer (conn : TcpTxConn) (payload : List UInt8) : (conn.offer payload).1.fd = conn.fd := by
  unfold offer
  split <;> rfl

/-- A piece that `send` takes moves from the ring to what was sent. -/
theorem sent_consume (conn : TcpTxConn) {n : ℕ} (hn : n ≤ conn.txRing.readLen) :
    (conn.consume n (hn.trans conn.txRing.readLen_le)).sent ++
        (conn.consume n (hn.trans conn.txRing.readLen_le)).txRing.content =
      conn.sent ++ conn.txRing.content := by
  change conn.sent ++ slice conn.txRing.buffer conn.txRing.head n ++ (conn.txRing.consume n).content = _
  rw [List.append_assoc, conn.valid.slice_append_consume hn]

/-- What the loop of `flushTxBuffer` has done to a connection. -/
structure Sends (conn : TcpTxConn) (result : FlushEnd × TcpTxConn) : Prop where
  sent : result.2.sent ++ result.2.txRing.content = conn.sent ++ conn.txRing.content
  fd_eq : result.2.fd = conn.fd
  offered : result.2.offered = conn.offered
  drained : result.1 = .drained → result.2.txRing.content = []
  blocked : result.1 = .blocked → result.2.txRing.content ≠ []

theorem content_eq_nil_iff (conn : TcpTxConn) :
    conn.txRing.content = [] ↔ conn.txRing.readable = 0 := by
  rw [← List.length_eq_zero_iff, conn.valid.length_content]

theorem sendLoop_sends (results : List SendResult) (conn : TcpTxConn) :
    conn.Sends (conn.sendLoop results) := by
  induction results generalizing conn with
  | nil =>
    refine ⟨rfl, rfl, rfl, ?_, ?_⟩
    · intro hend
      simp only [sendLoop] at hend
      split at hend
      next hzero => exact conn.content_eq_nil_iff.mpr hzero
      · cases hend
    · intro hend
      simp only [sendLoop] at hend
      split at hend
      · cases hend
      next hsome => exact fun hnil => hsome (conn.content_eq_nil_iff.mp hnil)
  | cons result results ih =>
    unfold sendLoop
    split
    next hzero => exact ⟨rfl, rfl, rfl, fun _ => conn.content_eq_nil_iff.mpr hzero, nofun⟩
    next hsome =>
      have hnil : conn.txRing.content ≠ [] := fun hnil => hsome (conn.content_eq_nil_iff.mp hnil)
      cases result with
      | wouldBlock => exact ⟨rfl, rfl, rfl, nofun, fun _ => hnil⟩
      | failed => exact ⟨rfl, rfl, rfl, nofun, nofun⟩
      | sent m =>
        have hmin := Nat.min_le_right m conn.txRing.readLen
        have hsent := conn.sent_consume hmin
        dsimp only
        split
        next hpart =>
          refine ⟨hsent, rfl, rfl, nofun, fun _ hempty => ?_⟩
          -- fewer bytes were taken than the ring holds
          have hcontent := (conn.valid.consume (hmin.trans conn.txRing.readLen_le)).2
          have hlen := congrArg List.length (hcontent.symm.trans hempty)
          rw [List.length_drop, conn.valid.length_content, List.length_nil] at hlen
          have hle := conn.txRing.readLen_le
          omega
        next =>
          have hnext := ih (conn.consume _ (hmin.trans conn.txRing.readLen_le))
          exact ⟨hnext.sent.trans hsent, hnext.fd_eq, hnext.offered, hnext.drained, hnext.blocked⟩

theorem Sends.balanced {conn : TcpTxConn} {result : FlushEnd × TcpTxConn} (h : conn.Sends result)
    (hconn : conn.Balanced) : result.2.Balanced := by
  unfold Balanced fitted at hconn ⊢
  rw [h.sent, h.offered]
  exact hconn

end TcpTxConn

/-- The transmit side of `TcpReactor`, with a record of the packets it has drained. -/
structure TcpTx where
  table : ConnTable TcpTxConn
  dequeued : List Packet

namespace TcpTx

inductive Act where
  /-- `acceptConnection`, for one connection. -/
  | accept (fd : Int)
  /-- The drained batch, and the dirty descriptors as the set is walked through, each
      with the results of `send`. -/
  | processTxQueue (packets : List Packet) (order : List (Int × List SendResult))
  /-- `EPOLLOUT`. -/
  | flushTxBuffer (fd : Int) (results : List SendResult)
  /-- A hangup, a failed `receive`, or the handover to TLS. -/
  | close (fd : Int)

def init : TcpTx := ⟨.empty, []⟩

def flushTxBuffer (table : ConnTable TcpTxConn) (fd : Int) (results : List SendResult) :
    ConnTable TcpTxConn :=
  match table.conns.find fd with
  | none => table
  | some conn =>
    if conn.txRing.readable = 0 then
      table
    else
      match conn.sendLoop results with
      | (.drained, conn') => (table.set fd conn').mod fd .read
      | (.blocked, conn') => (table.set fd conn').mod fd .readWrite
      | (.failed, conn') => (table.set fd conn').closeConnection fd

/-- The body of the first loop of `processTxQueue`, with `dirtyFds`. -/
def offerPacket (s : TcpTx × List Int) (pkt : Packet) : TcpTx × List Int :=
  let dequeued := s.1.dequeued ++ [pkt]
  match s.1.table.conns.find pkt.fd with
  | none => ({ s.1 with dequeued := dequeued }, s.2)
  | some conn =>
    let (conn', fits) := conn.offer pkt.payload
    (⟨s.1.table.set pkt.fd conn', dequeued⟩, if fits then s.2.insert pkt.fd else s.2)

/-- The second loop. -/
def flushAll (table : ConnTable TcpTxConn) (order : List (Int × List SendResult)) :
    ConnTable TcpTxConn :=
  order.foldl (fun table o => flushTxBuffer table o.1 o.2) table

def processTxQueue (s : TcpTx) (packets : List Packet) (order : List (Int × List SendResult)) :
    Option TcpTx :=
  let (s', dirtyFds) := packets.foldl offerPacket (s, [])
  -- an `unordered_set` is walked through in any order
  if (order.map (·.1)).Perm dirtyFds then some { s' with table := flushAll s'.table order } else none

/-- The kernel gives an accepted connection a number that is not open, so not registered. -/
def step (s : TcpTx) : Act → Option TcpTx
  | .accept fd =>
    if s.table.epoll.contains fd then none else some { s with table := s.table.add fd (.new fd) }
  | .processTxQueue packets order => s.processTxQueue packets order
  | .flushTxBuffer fd results => some { s with table := flushTxBuffer s.table fd results }
  | .close fd => some { s with table := s.table.closeConnection fd }

/-! ## The handlers, case by case -/

/-- What `flushTxBuffer` makes of the table. -/
inductive Flushes (table : ConnTable TcpTxConn) (fd : Int) : ConnTable TcpTxConn → Prop
  | idle (hempty : ∀ conn, table.conns.find fd = some conn → conn.txRing.content = []) :
      Flushes table fd table
  | drained {conn conn' : TcpTxConn} (hconn : table.conns.find fd = some conn)
      (hsends : conn.Sends (.drained, conn')) : Flushes table fd ((table.set fd conn').mod fd .read)
  | blocked {conn conn' : TcpTxConn} (hconn : table.conns.find fd = some conn)
      (hsends : conn.Sends (.blocked, conn')) :
      Flushes table fd ((table.set fd conn').mod fd .readWrite)
  | failed {conn conn' : TcpTxConn} (hconn : table.conns.find fd = some conn)
      (hsends : conn.Sends (.failed, conn')) :
      Flushes table fd ((table.set fd conn').closeConnection fd)

theorem flushes_flushTxBuffer (table : ConnTable TcpTxConn) (fd : Int) (results : List SendResult) :
    Flushes table fd (flushTxBuffer table fd results) := by
  unfold flushTxBuffer
  cases hconn : table.conns.find fd with
  | none => exact .idle fun conn hfind => absurd (hconn.symm.trans hfind) nofun
  | some conn =>
    dsimp only
    split
    next hzero =>
      refine .idle fun conn' hfind => ?_
      obtain rfl := Option.some.inj (hconn.symm.trans hfind)
      exact conn.content_eq_nil_iff.mpr hzero
    next =>
      have hsends := conn.sendLoop_sends results
      generalize conn.sendLoop results = result at hsends
      obtain ⟨ending, conn'⟩ := result
      cases ending with
      | drained => exact .drained hconn hsends
      | blocked => exact .blocked hconn hsends
      | failed => exact .failed hconn hsends

/-- What a handler makes of the reactor. -/
inductive Handles (s : TcpTx) : TcpTx → Prop
  | accept {fd : Int} (hfree : ¬ s.table.epoll.contains fd = true) :
      Handles s { s with table := s.table.add fd (.new fd) }
  | transmit {packets : List Packet} {order : List (Int × List SendResult)}
      (hperm : (order.map (·.1)).Perm (packets.foldl offerPacket (s, [])).2) :
      Handles s
        { (packets.foldl offerPacket (s, [])).1 with
          table := flushAll (packets.foldl offerPacket (s, [])).1.table order }
  | flush (fd : Int) (results : List SendResult) :
      Handles s { s with table := flushTxBuffer s.table fd results }
  | close (fd : Int) : Handles s { s with table := s.table.closeConnection fd }

theorem handles_of_step {s s' : TcpTx} {a : Act} (hstep : s.step a = some s') : Handles s s' := by
  cases a with
  | accept fd =>
    simp only [step] at hstep
    split at hstep
    · cases hstep
    next hfree =>
      cases hstep
      exact .accept hfree
  | processTxQueue packets order =>
    simp only [step, processTxQueue] at hstep
    split at hstep
    next hperm =>
      cases hstep
      exact .transmit hperm
    · cases hstep
  | flushTxBuffer fd results =>
    cases hstep
    exact .flush fd results
  | close fd =>
    cases hstep
    exact .close fd

/-! ## What the kernel has taken -/

/-- The payloads of the packets for a descriptor. -/
def payloadsFor (fd : Int) (packets : List Packet) : List (List UInt8) :=
  (packets.filter fun pkt => pkt.fd = fd).map (·.payload)

theorem payloadsFor_concat_same (pkt : Packet) (packets : List Packet) :
    payloadsFor pkt.fd (packets ++ [pkt]) = payloadsFor pkt.fd packets ++ [pkt.payload] := by
  simp [payloadsFor, List.filter_append]

theorem payloadsFor_concat_ne {fd : Int} {pkt : Packet} (h : fd ≠ pkt.fd) (packets : List Packet) :
    payloadsFor fd (packets ++ [pkt]) = payloadsFor fd packets := by
  simp [payloadsFor, List.filter_append, h.symm]

/-- A connection of `m_conns`: it has been offered all packets for its descriptor since it
    was accepted. -/
structure Live (dequeued : List Packet) (fd : Int) (conn : TcpTxConn) (interest : Interest) :
    Prop where
  balanced : conn.Balanced
  fd_eq : conn.fd = fd
  offered : conn.offered.map (·.1) <:+ payloadsFor fd dequeued

/-- A connection that was given up. -/
structure Gone (dequeued : List Packet) (conn : TcpTxConn) : Prop where
  balanced : conn.Balanced
  offered : conn.offered.map (·.1) <:+: payloadsFor conn.fd dequeued

theorem Live.gone {dequeued : List Packet} {fd : Int} {conn : TcpTxConn} {interest : Interest}
    (h : Live dequeued fd conn interest) : Gone dequeued conn :=
  ⟨h.balanced, h.fd_eq ▸ h.offered.isInfix⟩

theorem Gone.concat {dequeued : List Packet} {conn : TcpTxConn} (h : Gone dequeued conn)
    (pkt : Packet) : Gone (dequeued ++ [pkt]) conn := by
  refine ⟨h.balanced, h.offered.trans ?_⟩
  unfold payloadsFor
  rw [List.filter_append, List.map_append]
  exact (List.prefix_append _ _).isInfix

/-- Every connection, present or past, is balanced. -/
def Inv (s : TcpTx) : Prop := s.table.Holds (Live s.dequeued) (Gone s.dequeued)

theorem inv_init : Inv init := ConnTable.holds_empty

/-- A flush keeps what it finds of a connection, as far as its packets go. -/
theorem live_of_sends {dequeued : List Packet} {fd : Int} {conn : TcpTxConn}
    {result : FlushEnd × TcpTxConn} {old new : Interest} (h : conn.Sends result)
    (hlive : Live dequeued fd conn old) : Live dequeued fd result.2 new :=
  ⟨h.balanced hlive.balanced, h.fd_eq.trans hlive.fd_eq, h.offered ▸ hlive.offered⟩

theorem inv_of_flushes {table table' : ConnTable TcpTxConn} {dequeued : List Packet} {fd : Int}
    (h : table.Holds (Live dequeued) (Gone dequeued)) (hflush : Flushes table fd table') :
    table'.Holds (Live dequeued) (Gone dequeued) := by
  cases hflush with
  | idle => exact h
  | drained hconn hsends => exact h.set_mod hconn fun _ => live_of_sends hsends
  | blocked hconn hsends => exact h.set_mod hconn fun _ => live_of_sends hsends
  | failed hconn hsends =>
    obtain ⟨interest, _, hlive⟩ := (h.live fd).of_find hconn
    have hlive' : Live dequeued fd _ interest := live_of_sends hsends hlive
    exact h.set_closeConnection hlive'.gone

theorem inv_flushAll {table : ConnTable TcpTxConn} {dequeued : List Packet}
    (h : table.Holds (Live dequeued) (Gone dequeued)) (order : List (Int × List SendResult)) :
    (flushAll table order).Holds (Live dequeued) (Gone dequeued) := by
  induction order generalizing table with
  | nil => exact h
  | cons o order ih => exact ih (inv_of_flushes h (flushes_flushTxBuffer table o.1 o.2))

/-- A drained packet: its connection takes it down, the others are not concerned. -/
theorem inv_offerPacket {s : TcpTx × List Int} (h : s.1.Inv) (pkt : Packet) :
    (offerPacket s pkt).1.Inv := by
  obtain ⟨⟨table, dequeued⟩, dirtyFds⟩ := s
  have hoff : ∀ fd conn interest, fd ≠ pkt.fd → Live dequeued fd conn interest →
      Live (dequeued ++ [pkt]) fd conn interest := by
    intro fd conn interest hne hlive
    refine ⟨hlive.balanced, hlive.fd_eq, ?_⟩
    rw [payloadsFor_concat_ne hne]
    exact hlive.offered
  have hgone : ∀ conn ∈ table.gone, Gone (dequeued ++ [pkt]) conn :=
    fun conn hconn => (h.gone conn hconn).concat pkt
  unfold offerPacket
  cases h.live pkt.fd with
  | absent hnone hepoll =>
    simp only at hnone
    simp only [hnone]
    exact h.update (fun _ _ => ⟨rfl, rfl⟩) hoff (.absent hnone hepoll) hgone
  | present hconn hepoll hlive =>
    rename_i conn interest
    simp only at hconn
    simp only [hconn]
    refine h.update (ConnTable.sameOff_set table pkt.fd _) hoff ?_ hgone
    refine .present (Map.find_insert_same ..) hepoll ⟨hlive.balanced.offer _, ?_, ?_⟩
    · exact (conn.fd_offer _).trans hlive.fd_eq
    · rw [conn.offered_offer, payloadsFor_concat_same, List.map_append]
      obtain ⟨earlier, hsuffix⟩ := hlive.offered
      exact ⟨earlier, by rw [← hsuffix]; simp⟩

theorem inv_offerPackets {s : TcpTx × List Int} (h : s.1.Inv) (packets : List Packet) :
    (packets.foldl offerPacket s).1.Inv := by
  induction packets generalizing s with
  | nil => exact h
  | cons pkt packets ih => exact ih (inv_offerPacket h pkt)

theorem inv_step {s s' : TcpTx} {a : Act} (h : s.Inv) (hstep : s.step a = some s') : s'.Inv := by
  cases handles_of_step hstep with
  | @accept fd hfree => exact h.add hfree ⟨TcpTxConn.balanced_new fd, rfl, List.nil_suffix⟩
  | @transmit packets order => exact inv_flushAll (inv_offerPackets h packets) order
  | flush fd results => exact inv_of_flushes h (flushes_flushTxBuffer s.table fd results)
  | close fd => exact ConnTable.Holds.closeConnection h fun _ _ => Live.gone

/-- Of two packets the socket takes two bytes at first and two more on `EPOLLOUT`. -/
def partialSends : List Act :=
  [.accept 7,
    .processTxQueue [.make 7 .tcp [1, 2, 3] ⟨0, 9000⟩ ⟨1, 40000⟩, .make 8 .tcp [9] ⟨0, 9000⟩ ⟨1, 40000⟩,
      .make 7 .tcp [4, 5] ⟨0, 9000⟩ ⟨1, 40000⟩] [(7, [.sent 2])],
    .flushTxBuffer 7 [.sent 2]]

theorem run_partialSends :
    ∃ s conn, run step init partialSends = some s ∧ s.table.conns.find 7 = some conn ∧
      conn.sent = [1, 2, 3, 4] ∧ conn.txRing.readable = 1 := by
  have hsent : ((run step init partialSends).bind fun s => s.table.conns.find 7).map
      (fun conn => (conn.sent, conn.txRing.readable)) = some ([1, 2, 3, 4], 1) := by decide +kernel
  obtain ⟨conn, hconn, hpair⟩ := Option.map_eq_some_iff.mp hsent
  obtain ⟨s, hs, hfind⟩ := Option.bind_eq_some_iff.mp hconn
  obtain ⟨hbytes, hone⟩ := Prod.mk.inj hpair
  exact ⟨s, conn, hs, hfind, hbytes, hone⟩

end TcpTx

end NfEngine
