-- SUMMARY: The TLS reactor: handshake, receive and transmit handlers, and that each connection's bytes are written in order under OpenSSL's retry rule.
import Mathlib.Data.List.Chain
import NfEngine.Lib.Transition
import NfEngine.Protocol.ConnTable
import NfEngine.Protocol.StreamReceive

/-!
# Transmitting over TLS

A TLS connection keeps its packets in a deque. `flushTx` takes the first one out,
writes what is left of it with `SSL_write`, and goes on with the next, up to a budget;
when OpenSSL asks to be called again the packet goes back to the front. `SSL_write` may
drive the handshake to its end.

Each connection keeps a record of the payloads that were pushed on its queue, of the
bytes that `SSL_write` has accepted and of the calls of `SSL_write`. OpenSSL demands
that a call it has not carried out is repeated with the same bytes and length.
-/

namespace NfEngine

open Lib Lib.Transition

/-- A packet of the deque with its `m_txOffset`. -/
structure TxPacket where
  payload : List UInt8
  txOffset : ℕ
  offset_le : txOffset ≤ payload.length

namespace TxPacket

def ofPacket (pkt : Packet) : TxPacket := ⟨pkt.payload, 0, Nat.zero_le _⟩

/-- `Packet::updateTxOffset`, limited to the size of the payload. -/
def updateTxOffset (pkt : TxPacket) (bytes : ℕ) : TxPacket :=
  if h : pkt.payload.length < pkt.txOffset + bytes then
    { pkt with txOffset := pkt.payload.length, offset_le := Nat.le_refl _ }
  else
    { pkt with txOffset := pkt.txOffset + bytes, offset_le := Nat.not_lt.mp h }

/-- The bytes from `payload.data() + txOffset` to the end. -/
def remaining (pkt : TxPacket) : List UInt8 := pkt.payload.drop pkt.txOffset

theorem length_remaining (pkt : TxPacket) :
    pkt.remaining.length = pkt.payload.length - pkt.txOffset := List.length_drop

theorem remaining_updateTxOffset (pkt : TxPacket) {n : ℕ} (hn : n ≤ pkt.remaining.length) :
    (pkt.updateTxOffset n).remaining = pkt.remaining.drop n := by
  have hle := pkt.offset_le
  rw [length_remaining] at hn
  unfold updateTxOffset
  rw [dif_neg (by omega)]
  exact List.drop_drop.symm

/-- The loop condition of `flushTx`. -/
theorem remaining_eq_nil_iff (pkt : TxPacket) :
    pkt.remaining = [] ↔ ¬ pkt.txOffset < pkt.payload.length := by
  rw [← List.length_eq_zero_iff, length_remaining]
  omega

end TxPacket

/-- `(int)bytes`: the low 32 bits, as a signed number. -/
def intOfSize (n : ℕ) : Int :=
  if n % 2 ^ 32 < 2 ^ 31 then (n % 2 ^ 32 : ℕ) else (n % 2 ^ 32 : ℕ) - 2 ^ 32

theorem le_of_le_intOfSize {k n : ℕ} (h : (k : Int) ≤ intOfSize n) : k ≤ n := by
  unfold intOfSize at h
  split at h <;> omega

inductive SslWriteResult where
  | wrote (n : ℕ)
  | wantRead
  | wantWrite
  | fatal
  deriving DecidableEq, Repr

/-- What a call of `SSL_write` answers, and whether the handshake is finished then. -/
structure SslWrite where
  result : SslWriteResult
  finished : Bool

def SslWriteResult.want : SslWriteResult → Bool
  | .wantRead | .wantWrite => true
  | .wrote _ | .fatal => false

/-- The arguments of a call of `SSL_write`, and whether it has to be repeated. -/
structure SslCall where
  data : List UInt8
  len : Int
  want : Bool
  deriving DecidableEq, Repr

/-- OpenSSL's rule for two calls one after the other. -/
def SslCall.Retry (call next : SslCall) : Prop :=
  call.want = true → next.data = call.data ∧ next.len = call.len

/-- A connection of `m_conns`, and `SSL_is_init_finished` of it. -/
structure TlsTxConn where
  tls : TlsConnection
  finished : Bool
  txQueue : List TxPacket
  pushed : List (List UInt8)
  accepted : List UInt8
  calls : List SslCall

/-- How the loops of `flushTx` end. -/
inductive WriteEnd where
  | done
  | want
  | fatal
  deriving DecidableEq, Repr

namespace TlsTxConn

def new (tls : TlsConnection) : TlsTxConn := ⟨tls, false, [], [], [], []⟩

/-- `txQueue().push_back`. -/
def push (conn : TlsTxConn) (pkt : Packet) : TlsTxConn :=
  { conn with txQueue := conn.txQueue ++ [.ofPacket pkt], pushed := conn.pushed ++ [pkt.payload] }

/-- A call of `SSL_write` on what is left of a packet. A finished handshake stays
    finished. -/
def call (conn : TlsTxConn) (data : List UInt8) (write : SslWrite) : TlsTxConn :=
  { conn with
    finished := conn.finished || write.finished
    calls := conn.calls ++ [⟨data, intOfSize data.length, write.result.want⟩] }

def accept (conn : TlsTxConn) (data : List UInt8) : TlsTxConn :=
  { conn with accepted := conn.accepted ++ data }

/-- The inner loop of `flushTx`, on a packet that is out of the deque. OpenSSL accepts at
    least one byte, and no more than it was offered. -/
def writePacket : List SslWrite → TlsTxConn → TxPacket →
    Option (WriteEnd × TlsTxConn × List SslWrite)
  | [], conn, pkt => if pkt.txOffset < pkt.payload.length then none else some (.done, conn, [])
  | write :: writes, conn, pkt =>
    if pkt.txOffset < pkt.payload.length then
      match write.result with
      | .wrote n =>
        if 0 < n ∧ (n : Int) ≤ intOfSize pkt.remaining.length then
          writePacket writes ((conn.call pkt.remaining write).accept (pkt.remaining.take n))
            (pkt.updateTxOffset n)
        else
          none
      | .wantRead | .wantWrite =>
        let conn' := conn.call pkt.remaining write
        some (.want, { conn' with txQueue := pkt :: conn'.txQueue }, writes)
      | .fatal => some (.fatal, conn.call pkt.remaining write, writes)
    else
      some (.done, conn, write :: writes)

/-- The outer loop of `flushTx`. -/
def flushLoop : ℕ → TlsTxConn → List SslWrite → Option (WriteEnd × TlsTxConn)
  | 0, conn, _ => some (.done, conn)
  | budget + 1, conn, writes =>
    match conn.txQueue with
    | [] => some (.done, conn)
    | pkt :: queue =>
      match writePacket writes { conn with txQueue := queue } pkt with
      | none => none
      | some (.done, conn', writes') => flushLoop budget conn' writes'
      | some (.want, conn', _) => some (.want, conn')
      | some (.fatal, conn', _) => some (.fatal, conn')

/-! ## What a flush does to a connection -/

/-- What was accepted and what `queue` still holds are the payloads that were pushed, and
    a call that has to be repeated is about the first packet of `queue`. -/
structure Consistent (conn : TlsTxConn) (queue : List TxPacket) : Prop where
  bytes : conn.accepted ++ queue.flatMap TxPacket.remaining = conn.pushed.flatten
  retries : conn.calls.IsChain SslCall.Retry
  pending : ∀ call ∈ conn.calls.getLast?, call.want = true →
    call.data ≠ [] ∧ call.len = intOfSize call.data.length ∧
      ∃ pkt rest, queue = pkt :: rest ∧ pkt.remaining = call.data

variable {conn : TlsTxConn} {pkt : TxPacket} {queue : List TxPacket}

theorem consistent_new (tls : TlsConnection) : (new tls).Consistent [] :=
  ⟨rfl, .nil, nofun⟩

namespace Consistent

theorem push (h : conn.Consistent conn.txQueue) (pkt : Packet) :
    (conn.push pkt).Consistent (conn.push pkt).txQueue := by
  refine ⟨?_, h.retries, ?_⟩
  · change conn.accepted ++ (conn.txQueue ++ [TxPacket.ofPacket pkt]).flatMap TxPacket.remaining =
      (conn.pushed ++ [pkt.payload]).flatten
    rw [List.flatMap_append, ← List.append_assoc, h.bytes, List.flatten_append]
    rfl
  · intro call hcall hwant
    obtain ⟨hdata, hlen, first, rest, hqueue, hfirst⟩ := h.pending call hcall hwant
    refine ⟨hdata, hlen, first, rest ++ [.ofPacket pkt], ?_, hfirst⟩
    change conn.txQueue ++ [.ofPacket pkt] = _
    rw [hqueue, List.cons_append]

/-- A packet that is written is left out. -/
theorem tail (h : conn.Consistent (pkt :: queue)) (hdone : pkt.remaining = []) :
    conn.Consistent queue := by
  refine ⟨?_, h.retries, ?_⟩
  · have hbytes := h.bytes
    rwa [List.flatMap_cons, hdone, List.nil_append] at hbytes
  · intro call hcall hwant
    obtain ⟨hdata, _, first, rest, hqueue, hfirst⟩ := h.pending call hcall hwant
    cases hqueue
    exact absurd (hfirst.symm.trans hdone) hdata

/-- The next call of `SSL_write` obeys the rule. -/
theorem isChain_call (h : conn.Consistent (pkt :: queue)) (write : SslWrite) :
    (conn.call pkt.remaining write).calls.IsChain SslCall.Retry := by
  refine List.isChain_append.mpr ⟨h.retries, .singleton _, ?_⟩
  intro call hcall next hnext hwant
  cases hnext
  obtain ⟨_, hlen, first, rest, hqueue, hfirst⟩ := h.pending call hcall hwant
  cases hqueue
  exact ⟨hfirst, by rw [hfirst, hlen]⟩

/-- The last call of `SSL_write` was about the first packet of the queue. -/
theorem call (h : conn.Consistent (pkt :: queue)) (write : SslWrite) (hdata : pkt.remaining ≠ []) :
    (conn.call pkt.remaining write).Consistent (pkt :: queue) := by
  refine ⟨h.bytes, h.isChain_call write, ?_⟩
  intro call hcall _
  change call ∈ (conn.calls ++ [_]).getLast? at hcall
  rw [List.getLast?_concat] at hcall
  cases hcall
  exact ⟨hdata, rfl, pkt, queue, rfl, rfl⟩

/-- Bytes that OpenSSL has accepted move from the packet to the record. -/
theorem accept (h : conn.Consistent (pkt :: queue)) {n : ℕ} (hn : n ≤ pkt.remaining.length)
    (hlast : ∀ call ∈ conn.calls.getLast?, call.want = false) :
    (conn.accept (pkt.remaining.take n)).Consistent (pkt.updateTxOffset n :: queue) := by
  refine ⟨?_, h.retries, ?_⟩
  · change conn.accepted ++ pkt.remaining.take n ++ _ = conn.pushed.flatten
    rw [List.flatMap_cons, pkt.remaining_updateTxOffset hn, List.append_assoc, ← List.append_assoc _ _
      (List.flatMap _ _), List.take_append_drop]
    exact h.bytes
  · intro call hcall hwant
    exact absurd (hwant.symm.trans (hlast call hcall)) nofun

end Consistent

/-- What becomes of a connection that was consistent. A packet in progress is lost with a
    connection that is closed. -/
def Written (ending : WriteEnd) (conn : TlsTxConn) : Prop :=
  ∃ queue, conn.Consistent queue ∧ (ending ≠ .fatal → queue = conn.txQueue)

theorem writePacket_written {writes rest : List SslWrite} {ending : WriteEnd} {conn' : TlsTxConn}
    (h : conn.Consistent (pkt :: conn.txQueue))
    (hwrite : writePacket writes conn pkt = some (ending, conn', rest)) : Written ending conn' := by
  induction writes generalizing conn pkt with
  | nil =>
    simp only [writePacket] at hwrite
    split at hwrite
    · cases hwrite
    next hdone =>
      cases hwrite
      exact ⟨_, h.tail (pkt.remaining_eq_nil_iff.mpr hdone), fun _ => rfl⟩
  | cons write writes ih =>
    unfold writePacket at hwrite
    split at hwrite
    next hmore =>
      have hdata : pkt.remaining ≠ [] := fun hnil => pkt.remaining_eq_nil_iff.mp hnil hmore
      have hcall := h.call write hdata
      cases hresult : write.result with
      | wrote n =>
        simp only [hresult] at hwrite
        split at hwrite
        next hn =>
          refine ih (hcall.accept (le_of_le_intOfSize hn.2) ?_) hwrite
          intro call hlast
          change call ∈ (conn.calls ++ [_]).getLast? at hlast
          rw [List.getLast?_concat] at hlast
          cases hlast
          rw [hresult, SslWriteResult.want]
        · cases hwrite
      | wantRead =>
        simp only [hresult] at hwrite
        cases hwrite
        exact ⟨_, ⟨hcall.bytes, hcall.retries, hcall.pending⟩, fun _ => rfl⟩
      | wantWrite =>
        simp only [hresult] at hwrite
        cases hwrite
        exact ⟨_, ⟨hcall.bytes, hcall.retries, hcall.pending⟩, fun _ => rfl⟩
      | fatal =>
        simp only [hresult] at hwrite
        cases hwrite
        exact ⟨_, hcall, fun hne => absurd rfl hne⟩
    next hdone =>
      cases hwrite
      exact ⟨_, h.tail (pkt.remaining_eq_nil_iff.mpr hdone), fun _ => rfl⟩

/-- A flush keeps the connection consistent, whatever the budget and the results. -/
theorem flushLoop_written {budget : ℕ} {writes : List SslWrite} {ending : WriteEnd}
    {conn' : TlsTxConn} (h : conn.Consistent conn.txQueue)
    (hflush : flushLoop budget conn writes = some (ending, conn')) : Written ending conn' := by
  induction budget generalizing conn writes with
  | zero =>
    cases hflush
    exact ⟨_, h, fun _ => rfl⟩
  | succ budget ih =>
    unfold flushLoop at hflush
    cases hqueue : conn.txQueue with
    | nil =>
      simp only [hqueue] at hflush
      cases hflush
      exact ⟨_, h, fun _ => rfl⟩
    | cons pkt queue =>
      simp only [hqueue] at hflush
      have htaken : Consistent { conn with txQueue := queue } (pkt :: queue) := by
        rw [hqueue] at h
        exact ⟨h.bytes, h.retries, h.pending⟩
      cases hwrite : writePacket writes { conn with txQueue := queue } pkt with
      | none =>
        simp only [hwrite] at hflush
        cases hflush
      | some result =>
        obtain ⟨pktEnd, conn'', rest⟩ := result
        have hwritten := writePacket_written htaken hwrite
        simp only [hwrite] at hflush
        cases pktEnd with
        | done =>
          obtain ⟨queue', hconsistent, heq⟩ := hwritten
          obtain rfl := heq nofun
          exact ih hconsistent hflush
        | want =>
          cases hflush
          exact hwritten
        | fatal =>
          cases hflush
          exact hwritten

end TlsTxConn

/-! ## The reactor -/

/-- `TlsHandshakeStep`. -/
inductive TlsHandshakeStep where
  | done
  | wantRead
  | wantWrite
  | fail
  deriving DecidableEq, Repr

abbrev TlsTx := ConnTable TlsTxConn

namespace TlsTx

/-- The pieces that `SSL_read` returns in a call of `receive`, and how it ends. -/
structure Reads where
  pieces : List (List UInt8)
  last : SslReadEnd

inductive Act where
  /-- `processHandover`, for one item. -/
  | handover (fd : Int) (serverAddr peerAddr : SockAddr)
  /-- The drained batch, and the dirty descriptors as the set is walked through, each with
      the results of `SSL_write`. -/
  | processTxQueue (packets : List Packet) (order : List (Int × List SslWrite))
  /-- `EPOLLIN`, with what the handshake and `SSL_read` answer. -/
  | onReadable (fd : Int) (drive : TlsHandshakeStep) (reads : Reads)
  /-- `EPOLLOUT`. -/
  | onWritable (fd : Int) (drive : TlsHandshakeStep) (reads : Reads) (writes : List SslWrite)
  /-- A hangup. -/
  | close (fd : Int)

/-- The budget that the callers of `flushTx` give. -/
def flushBudget : ℕ := 256

/-- The events that `updateInterest` registers for a connection. -/
def interestOf (conn : TlsTxConn) : Interest :=
  if !conn.finished then .readWrite else if !conn.txQueue.isEmpty then .readWrite else .read

def updateInterest (t : TlsTx) (fd : Int) : TlsTx :=
  match t.conns.find fd with
  | none => t
  | some conn => t.mod fd (interestOf conn)

def flushTx (t : TlsTx) (fd : Int) (budget : ℕ) (writes : List SslWrite) : Option TlsTx :=
  match t.conns.find fd with
  | none => some t
  | some conn =>
    match conn.flushLoop budget writes with
    | none => none
    | some (.done, conn') => some (t.set fd conn')
    | some (.want, conn') => some ((t.set fd conn').mod fd .readWrite)
    | some (.fatal, conn') => some ((t.set fd conn').closeConnection fd)

/-- The body of the first loop of `processTxQueue`, with `dirtyFds`. -/
def pushPacket (s : TlsTx × List Int) (pkt : Packet) : TlsTx × List Int :=
  match s.1.conns.find pkt.fd with
  | none => s
  | some conn => (s.1.set pkt.fd (conn.push pkt), s.2.insert pkt.fd)

/-- The second loop. -/
def flushAll : List (Int × List SslWrite) → TlsTx → Option TlsTx
  | [], t => some t
  | (fd, writes) :: order, t =>
    match flushTx (updateInterest t fd) fd flushBudget writes with
    | none => none
    | some t' => flushAll order t'

def processTxQueue (t : TlsTx) (packets : List Packet) (order : List (Int × List SslWrite)) :
    Option TlsTx :=
  let (t', dirtyFds) := packets.foldl pushPacket (t, [])
  if (order.map (·.1)).Perm dirtyFds then flushAll order t' else none

section

variable (reactor : TlsReactor)

/-- `receive`; the packets go to the workers. -/
def receive (t : TlsTx) (fd : Int) (reads : Reads) : TlsTx :=
  match t.conns.find fd with
  | none => t
  | some conn =>
    match (reactor.receive conn.tls reads.pieces reads.last).2 with
    | .open rxRing =>
      let t' := t.set fd { conn with tls := { conn.tls with rxRing := rxRing } }
      if reads.last = .wantWrite then t'.mod fd .readWrite else t'
    | .closed _ | .threw _ => t.closeConnection fd

/-- `SSL_accept` returns 1 exactly when the handshake is finished. -/
def driveHandshake (t : TlsTx) (fd : Int) (conn : TlsTxConn) (reads : Reads) :
    TlsHandshakeStep → TlsTx
  | .done => receive reactor (updateInterest (t.set fd { conn with finished := true }) fd) fd reads
  | .wantRead => t.mod fd .read
  | .wantWrite => t.mod fd .readWrite
  | .fail => t.closeConnection fd

def onReadable (t : TlsTx) (fd : Int) (drive : TlsHandshakeStep) (reads : Reads) : TlsTx :=
  match t.conns.find fd with
  | none => t
  | some conn =>
    if !conn.finished then driveHandshake reactor t fd conn reads drive else receive reactor t fd reads

def onWritable (t : TlsTx) (fd : Int) (drive : TlsHandshakeStep) (reads : Reads)
    (writes : List SslWrite) : Option TlsTx :=
  match t.conns.find fd with
  | none => some t
  | some conn =>
    if !conn.finished then
      some (driveHandshake reactor t fd conn reads drive)
    else
      (flushTx t fd flushBudget writes).map fun t' => updateInterest t' fd

/-- A descriptor that was handed over is open and no longer registered. -/
def step (t : TlsTx) : Act → Option TlsTx
  | .handover fd serverAddr peerAddr =>
    if t.epoll.contains fd then
      none
    else
      some (t.add fd (.new ⟨fd, serverAddr, peerAddr, .new tlsMaxRxBufferSize⟩))
  | .processTxQueue packets order => processTxQueue t packets order
  | .onReadable fd drive reads => some (onReadable reactor t fd drive reads)
  | .onWritable fd drive reads writes => onWritable reactor t fd drive reads writes
  | .close fd => some (t.closeConnection fd)

end

/-! ## The handlers, case by case -/

/-- What a handler makes of the table. -/
inductive Handles (reactor : TlsReactor) (t : TlsTx) : TlsTx → Prop
  | idle : Handles reactor t t
  | handover {fd : Int} (hfree : ¬ t.epoll.contains fd = true) (tls : TlsConnection) :
      Handles reactor t (t.add fd (.new tls))
  | transmit {packets : List Packet} {order : List (Int × List SslWrite)} {t' : TlsTx}
      (hperm : (order.map (·.1)).Perm (packets.foldl pushPacket (t, [])).2)
      (hflush : flushAll order (packets.foldl pushPacket (t, [])).1 = some t') : Handles reactor t t'
  | drive {fd : Int} {conn : TlsTxConn} (hconn : t.conns.find fd = some conn)
      (hopen : conn.finished = false) (reads : Reads) (drive : TlsHandshakeStep) :
      Handles reactor t (driveHandshake reactor t fd conn reads drive)
  | receive (fd : Int) (reads : Reads) : Handles reactor t (receive reactor t fd reads)
  | flush {fd : Int} {writes : List SslWrite} {t' : TlsTx}
      (hflush : flushTx t fd flushBudget writes = some t') : Handles reactor t (updateInterest t' fd)
  | close (fd : Int) : Handles reactor t (t.closeConnection fd)

theorem handles_onReadable (reactor : TlsReactor) (t : TlsTx) (fd : Int) (drive : TlsHandshakeStep)
    (reads : Reads) : Handles reactor t (onReadable reactor t fd drive reads) := by
  unfold onReadable
  cases hconn : t.conns.find fd with
  | none => exact .idle
  | some conn =>
    dsimp only
    split
    next hopen => exact .drive hconn (by simpa using hopen) reads drive
    next => exact .receive fd reads

theorem handles_onWritable {reactor : TlsReactor} {t t' : TlsTx} {fd : Int} {drive : TlsHandshakeStep}
    {reads : Reads} {writes : List SslWrite}
    (hstep : onWritable reactor t fd drive reads writes = some t') : Handles reactor t t' := by
  unfold onWritable at hstep
  cases hconn : t.conns.find fd with
  | none =>
    simp only [hconn] at hstep
    cases hstep
    exact .idle
  | some conn =>
    simp only [hconn] at hstep
    split at hstep
    next hopen =>
      cases hstep
      exact .drive hconn (by simpa using hopen) reads drive
    next =>
      obtain ⟨t'', hflush, rfl⟩ := Option.map_eq_some_iff.mp hstep
      exact .flush hflush

theorem handles_of_step {reactor : TlsReactor} {t t' : TlsTx} {a : Act}
    (hstep : step reactor t a = some t') : Handles reactor t t' := by
  cases a with
  | handover fd serverAddr peerAddr =>
    simp only [step] at hstep
    split at hstep
    · cases hstep
    next hfree =>
      cases hstep
      exact .handover hfree _
  | processTxQueue packets order =>
    simp only [step, processTxQueue] at hstep
    split at hstep
    next hperm => exact .transmit hperm hstep
    · cases hstep
  | onReadable fd drive reads =>
    cases hstep
    exact handles_onReadable reactor t fd drive reads
  | onWritable fd drive reads writes => exact handles_onWritable hstep
  | close fd =>
    cases hstep
    exact .close fd

/-! ## The handlers, for any property of connections -/

section Rules

variable {P P' : Int → TlsTxConn → Interest → Prop} {G : TlsTxConn → Prop} {t t' : TlsTx} {fd : Int}

theorem holds_flushTx {budget : ℕ} {writes : List SslWrite} (h : t.Holds P G)
    (hflush : flushTx t fd budget writes = some t')
    (hP : ∀ conn ending conn' interest, conn.flushLoop budget writes = some (ending, conn') →
      t.conns.find fd = some conn → P fd conn interest →
      (ending = .done → P fd conn' interest) ∧ (ending = .want → P fd conn' .readWrite) ∧
        (ending = .fatal → G conn')) : t'.Holds P G := by
  unfold flushTx at hflush
  cases hconn : t.conns.find fd with
  | none =>
    simp only [hconn] at hflush
    cases hflush
    exact h
  | some conn =>
    simp only [hconn] at hflush
    obtain ⟨interest, _, hold⟩ := (h.live fd).of_find hconn
    cases hloop : conn.flushLoop budget writes with
    | none =>
      simp only [hloop] at hflush
      cases hflush
    | some result =>
      obtain ⟨ending, conn'⟩ := result
      simp only [hloop] at hflush
      cases ending with
      | done =>
        cases hflush
        exact h.set hconn fun i hi => (hP conn _ conn' i hloop hconn hi).1 rfl
      | want =>
        cases hflush
        exact h.set_mod hconn fun i hi => (hP conn _ conn' i hloop hconn hi).2.1 rfl
      | fatal =>
        cases hflush
        exact h.set_closeConnection ((hP conn _ conn' interest hloop hconn hold).2.2 rfl)

theorem holds_receive {reactor : TlsReactor} {reads : Reads} (h : t.Holds P G)
    (hP : ∀ conn rxRing interest, P fd conn interest →
      P fd { conn with tls := { conn.tls with rxRing := rxRing } } interest)
    (hout : ∀ conn interest, P fd conn interest → P fd conn .readWrite)
    (hG : ∀ conn interest, P fd conn interest → G conn) : (receive reactor t fd reads).Holds P G := by
  unfold receive
  cases hconn : t.conns.find fd with
  | none => exact h
  | some conn =>
    dsimp only
    split
    next rxRing _ =>
      have hset := h.set hconn fun i => hP conn rxRing i
      split
      · exact hset.mod fun conn' i _ => hout conn' i
      · exact hset
    · exact h.closeConnection hG
    · exact h.closeConnection hG

theorem sameOff_updateInterest (t : TlsTx) (fd : Int) : t.SameOff (updateInterest t fd) fd := by
  unfold updateInterest
  split
  · exact fun _ _ => ⟨rfl, rfl⟩
  · exact ConnTable.sameOff_mod t fd _

theorem at_updateInterest (h : t.At P fd)
    (hP : ∀ conn old, P fd conn old → P' fd conn (interestOf conn)) :
    (updateInterest t fd).At P' fd := by
  unfold updateInterest
  cases hconn : t.conns.find fd with
  | none =>
    cases h with
    | absent hc he => exact .absent hc he
    | present hc => exact absurd (hconn.symm.trans hc) nofun
  | some conn =>
    refine h.mod fun conn' old hfind hold => ?_
    obtain rfl := Option.some.inj (hconn.symm.trans hfind)
    exact hP conn old hold

theorem gone_updateInterest (t : TlsTx) (fd : Int) : (updateInterest t fd).gone = t.gone := by
  unfold updateInterest
  split
  · rfl
  · exact ConnTable.gone_mod

theorem holds_updateInterest (h : t.Holds P G)
    (hP : ∀ conn old, P fd conn old → P fd conn (interestOf conn)) :
    (updateInterest t fd).Holds P G := by
  refine h.update (sameOff_updateInterest t fd) (fun _ _ _ _ => id)
    (at_updateInterest (h.live fd) hP) ?_
  rw [gone_updateInterest]
  exact h.gone

end Rules

/-! ## What OpenSSL has accepted -/

/-- Every connection of the reactor is consistent, and so was every other one. -/
def Inv (t : TlsTx) : Prop :=
  t.Holds (fun _ conn _ => conn.Consistent conn.txQueue) fun conn => ∃ queue, conn.Consistent queue

theorem inv_flushTx {t t' : TlsTx} {fd : Int} {budget : ℕ} {writes : List SslWrite} (h : Inv t)
    (hflush : flushTx t fd budget writes = some t') : Inv t' := by
  refine holds_flushTx h hflush fun conn ending conn' _ hloop _ hconn => ?_
  obtain ⟨queue, hconsistent, hqueue⟩ := conn.flushLoop_written hconn hloop
  refine ⟨?_, ?_, fun _ => ⟨queue, hconsistent⟩⟩
  · rintro rfl
    exact hqueue nofun ▸ hconsistent
  · rintro rfl
    exact hqueue nofun ▸ hconsistent

theorem inv_updateInterest {t : TlsTx} (h : Inv t) (fd : Int) : Inv (updateInterest t fd) :=
  holds_updateInterest h fun _ _ => id

theorem inv_receive {reactor : TlsReactor} {t : TlsTx} (h : Inv t) (fd : Int) (reads : Reads) :
    Inv (receive reactor t fd reads) := by
  refine holds_receive h (fun conn _ _ hconn => ?_) (fun _ _ => id) fun conn _ hconn => ⟨_, hconn⟩
  exact ⟨hconn.bytes, hconn.retries, hconn.pending⟩

theorem inv_close {t : TlsTx} (h : Inv t) (fd : Int) : Inv (t.closeConnection fd) :=
  ConnTable.Holds.closeConnection h fun _ _ hconn => ⟨_, hconn⟩

theorem inv_driveHandshake {reactor : TlsReactor} {t : TlsTx} {fd : Int} {conn : TlsTxConn}
    (h : Inv t) (hconn : t.conns.find fd = some conn) (reads : Reads) (drive : TlsHandshakeStep) :
    Inv (driveHandshake reactor t fd conn reads drive) := by
  cases drive with
  | done =>
    refine inv_receive (inv_updateInterest (ConnTable.Holds.set h hconn fun _ hc => ?_) fd) fd reads
    exact ⟨hc.bytes, hc.retries, hc.pending⟩
  | wantRead => exact ConnTable.Holds.mod h fun _ _ _ => id
  | wantWrite => exact ConnTable.Holds.mod h fun _ _ _ => id
  | fail => exact inv_close h fd

theorem inv_pushPackets {s : TlsTx × List Int} (h : Inv s.1) (packets : List Packet) :
    Inv (packets.foldl pushPacket s).1 := by
  induction packets generalizing s with
  | nil => exact h
  | cons pkt packets ih =>
    refine ih ?_
    unfold pushPacket
    cases hconn : s.1.conns.find pkt.fd with
    | none => exact h
    | some conn => exact ConnTable.Holds.set h hconn fun _ hc => hc.push pkt

theorem inv_flushAll {order : List (Int × List SslWrite)} {t t' : TlsTx} (h : Inv t)
    (hflush : flushAll order t = some t') : Inv t' := by
  induction order generalizing t with
  | nil =>
    cases hflush
    exact h
  | cons o order ih =>
    unfold flushAll at hflush
    split at hflush
    · cases hflush
    next hfirst => exact ih (inv_flushTx (inv_updateInterest h o.1) hfirst) hflush

theorem inv_step {reactor : TlsReactor} {t t' : TlsTx} {a : Act} (h : Inv t)
    (hstep : step reactor t a = some t') : Inv t' := by
  cases handles_of_step hstep with
  | idle => exact h
  | handover hfree tls => exact ConnTable.Holds.add h hfree (TlsTxConn.consistent_new tls)
  | @transmit packets order _ _ hflush => exact inv_flushAll (inv_pushPackets h packets) hflush
  | drive hconn _ reads drive => exact inv_driveHandshake h hconn reads drive
  | receive fd reads => exact inv_receive h fd reads
  | @flush fd _ _ hflush => exact inv_updateInterest (inv_flushTx h hflush) fd
  | close fd => exact inv_close h fd

/-- What a connection has written, against what was pushed on its queue. -/
structure Transmitted (t : TlsTx) (conn : TlsTxConn) : Prop where
  accepted : conn.accepted <+: conn.pushed.flatten
  /-- Nothing is lost while the connection is open. -/
  queued : (∃ fd, t.conns.find fd = some conn) →
    conn.accepted ++ conn.txQueue.flatMap TxPacket.remaining = conn.pushed.flatten
  retries : conn.calls.IsChain SslCall.Retry

/-- OpenSSL accepts the payloads in the order they were pushed, without loss or
    duplication, and every call it asks for again is repeated as it was. -/
theorem transmitted_of_run (reactor : TlsReactor) (as : List Act) (t : TlsTx)
    (hrun : run (step reactor) .empty as = some t) (conn : TlsTxConn) (hconn : t.Known conn) :
    t.Transmitted conn := by
  have hinv : Inv t := run_induct (I := Inv) (fun _ _ _ h _ hstep => inv_step h hstep)
    ConnTable.holds_empty (along_true _ _) hrun
  have hlive : (∃ fd, t.conns.find fd = some conn) → conn.Consistent conn.txQueue := by
    rintro ⟨fd, hfind⟩
    obtain ⟨_, _, hc⟩ := (hinv.live fd).of_find hfind
    exact hc
  obtain ⟨queue, hc⟩ : ∃ queue, conn.Consistent queue := by
    rcases hconn with hfind | hmem
    · exact ⟨_, hlive hfind⟩
    · exact hinv.gone conn hmem
  exact ⟨⟨_, hc.bytes⟩, fun hfind => (hlive hfind).bytes, hc.retries⟩

/-- Two packets, the second pushed while the first waits for the socket; the first
    `SSL_write` finishes the handshake. -/
def retriedWrites : List Act :=
  [.handover 7 ⟨0, 9000⟩ ⟨1, 40000⟩,
    .processTxQueue [.make 7 .tls [1, 2, 3] ⟨0, 9000⟩ ⟨1, 40000⟩]
      [(7, [⟨.wrote 1, true⟩, ⟨.wantWrite, true⟩])],
    .processTxQueue [.make 7 .tls [4] ⟨0, 9000⟩ ⟨1, 40000⟩]
      [(7, [⟨.wrote 2, true⟩, ⟨.wantRead, true⟩])],
    .onWritable 7 .done ⟨[], .wantRead⟩ [⟨.wantWrite, true⟩]]

theorem transmitted_retriedWrites :
    ∃ t conn, run (step ⟨4⟩) .empty retriedWrites = some t ∧ t.conns.find 7 = some conn ∧
      conn.accepted = [1, 2, 3] ∧ conn.calls.map (·.data) = [[1, 2, 3], [2, 3], [2, 3], [4], [4]] ∧
      t.Transmitted conn := by
  have hcalls : ((run (step ⟨4⟩) .empty retriedWrites).bind fun t => t.conns.find 7).map
      (fun conn => (conn.accepted, conn.calls.map (·.data))) =
      some ([1, 2, 3], [[1, 2, 3], [2, 3], [2, 3], [4], [4]]) := by decide +kernel
  obtain ⟨conn, hconn, hbytes⟩ := Option.map_eq_some_iff.mp hcalls
  obtain ⟨t, ht, hfind⟩ := Option.bind_eq_some_iff.mp hconn
  obtain ⟨haccepted, hdata⟩ := Prod.mk.inj hbytes
  exact ⟨t, conn, ht, hfind, haccepted, hdata,
    transmitted_of_run ⟨4⟩ _ t ht conn (.inl ⟨7, hfind⟩)⟩

end TlsTx

end NfEngine
