-- SUMMARY: The event loops of the TCP and TLS reactors, and when every connection keeps exactly one owner.
import NfEngine.Lib.Transition
import NfEngine.Protocol.Descriptors

/-!
# The event loops

`TcpReactor::start` and `TlsReactor::start` running side by side. `epoll_wait`
fetches a batch of events of registered descriptors; the loop handles them one
after the other, and earlier events of the batch may close the descriptor that a
later one names. One action is one event handler, or one connection of a handler
that works through several; the outcome of the system calls is part of the
action. Other parts of the process open and close descriptors of their own.

The branch for `EPOLLERR`, `EPOLLHUP` and `EPOLLRDHUP` closes the number of its
event without looking it up, unlike the other handlers.
-/

namespace NfEngine

open Lib Lib.Transition

/-- The event bits: `EPOLLERR | EPOLLHUP | EPOLLRDHUP`, `EPOLLIN` and `EPOLLOUT`. -/
structure EpollFlags where
  err : Bool
  input : Bool
  output : Bool

inductive EpollEvent where
  | wakeup
  | listen
  | conn (fd : Int) (flags : EpollFlags)

structure EventLoops where
  net : Net
  tcpBatch : List EpollEvent
  tlsBatch : List EpollEvent

/-- What the system calls of a TCP handler answer. -/
inductive TcpOutcome where
  /-- The handler has nothing more to do. -/
  | done
  /-- `send` fails while `processTxQueue` flushes this connection. -/
  | sendFailed (fd : Int)
  | accepted (fd : Int)
  /-- The peek of `isTlsClientHello` shows a ClientHello. -/
  | clientHello (enqueued : Bool)
  /-- `recv` or `send` fails, or the framing rejects the stream. -/
  | failed

/-- What the system calls of a TLS handler answer. -/
inductive TlsOutcome where
  | done
  /-- `processHandover` takes an item; `SSL_new` succeeds or not. -/
  | handover (sslNew : Bool)
  /-- `SSL_write` fails while `processTxQueue` flushes this connection. -/
  | writeFailed (fd : Int)
  /-- The handshake, `SSL_read` or `SSL_write` fails, or the framing rejects the stream. -/
  | failed

/-- A failure in a handler that has looked the connection up in `m_conns`. -/
def Net.tcpFail (n : Net) (fd : Int) : Net :=
  if n.tcpConns.contains fd then n.tcpCloseConnection fd else n

def Net.tlsFail (n : Net) (fd : Int) : Net :=
  if n.tlsConns.contains fd then n.tlsCloseConnection fd else n

namespace EventLoops

def init : EventLoops := ⟨.init, [], []⟩

/-- `TcpReactor::processTxQueue`, as far as it closes connections. -/
def tcpProcessTxQueue (n : Net) : TcpOutcome → Option (Net × List EpollEvent)
  | .sendFailed fd => some (n.tcpFail fd, [.wakeup])
  | .done => some (n, [])
  | .accepted _ | .clientHello _ | .failed => none

/-- `TcpReactor::acceptConnection`. -/
def tcpAccept (n : Net) : TcpOutcome → Option (Net × List EpollEvent)
  | .accepted fd => (n.acceptConnection fd).map fun n' => (n', [.listen])
  | .done => some (n, [])
  | .sendFailed _ | .clientHello _ | .failed => none

/-- `TcpReactor::receive`, which looks at the socket before it looks the connection
    up. -/
def tcpReceive (n : Net) (fd : Int) : TcpOutcome → Option Net
  | .clientHello enqueued => if n.kernel.contains fd then some (n.handoverToTls fd enqueued) else none
  | .failed => some (n.tcpFail fd)
  | .done => some n
  | .sendFailed _ | .accepted _ => none

/-- `TcpReactor::flushTxBuffer`. -/
def tcpFlush (n : Net) (fd : Int) : TcpOutcome → Option Net
  | .failed => some (n.tcpFail fd)
  | .done => some n
  | .sendFailed _ | .accepted _ | .clientHello _ => none

/-- The body of the loop of `TcpReactor::start`, with what is left of the event. -/
def tcpHandle (n : Net) (outcome : TcpOutcome) : EpollEvent → Option (Net × List EpollEvent)
  | .wakeup => tcpProcessTxQueue n outcome
  | .listen => tcpAccept n outcome
  | .conn fd flags =>
    if flags.err then
      some (n.tcpCloseConnection fd, [])
    else if flags.input then
      (tcpReceive n fd outcome).map fun n' => (n', [.conn fd { flags with input := false }])
    else if flags.output then
      (tcpFlush n fd outcome).map fun n' => (n', [])
    else
      some (n, [])

/-- `TlsReactor::processWakeup`. -/
def tlsProcessWakeup (n : Net) : TlsOutcome → Option (Net × List EpollEvent)
  | .handover sslNew => (n.processHandover sslNew).map fun n' => (n', [.wakeup])
  | .writeFailed fd => some (n.tlsFail fd, [.wakeup])
  | .done => some (n, [])
  | .failed => none

/-- `TlsReactor::onReadable` and `TlsReactor::onWritable`. -/
def tlsDrive (n : Net) (fd : Int) : TlsOutcome → Option Net
  | .failed => some (n.tlsFail fd)
  | .done => some n
  | .handover _ | .writeFailed _ => none

/-- The body of the loop of `TlsReactor::start`. -/
def tlsHandle (n : Net) (outcome : TlsOutcome) : EpollEvent → Option (Net × List EpollEvent)
  | .wakeup => tlsProcessWakeup n outcome
  | .listen => none
  | .conn fd flags =>
    if flags.err then
      some (n.tlsCloseConnection fd, [])
    else if flags.input then
      (tlsDrive n fd outcome).map fun n' => (n', [.conn fd { flags with input := false }])
    else if flags.output then
      (tlsDrive n fd outcome).map fun n' => (n', [])
    else
      some (n, [])

/-- Whether the event names a descriptor that is registered with the reactor. -/
def registered (conns : Map Int ℕ) : EpollEvent → Bool
  | .conn fd _ => conns.contains fd
  | .wakeup | .listen => true

inductive Act where
  | tcpWait (batch : List EpollEvent)
  | tcp (outcome : TcpOutcome)
  | tlsWait (batch : List EpollEvent)
  | tls (outcome : TlsOutcome)
  /-- Another part of the process opens a descriptor. -/
  | openOther (fd : Int)
  | closeOther (fd : Int)

def step (s : EventLoops) : Act → Option EventLoops
  | .tcpWait batch =>
    if s.tcpBatch.isEmpty && batch.all (registered s.net.tcpConns) then
      some { s with tcpBatch := batch }
    else
      none
  | .tcp outcome =>
    match s.tcpBatch with
    | [] => none
    | e :: es => (tcpHandle s.net outcome e).map fun r =>
        { s with net := r.1, tcpBatch := r.2 ++ es }
  | .tlsWait batch =>
    if s.tlsBatch.isEmpty && batch.all (registered s.net.tlsConns) then
      some { s with tlsBatch := batch }
    else
      none
  | .tls outcome =>
    match s.tlsBatch with
    | [] => none
    | e :: es => (tlsHandle s.net outcome e).map fun r =>
        { s with net := r.1, tlsBatch := r.2 ++ es }
  | .openOther fd =>
    if s.net.kernel.contains fd then
      none
    else
      some { s with net := { s.net with kernel := s.net.kernel.insert fd .other } }
  | .closeOther fd =>
    if s.net.kernel.find fd = some .other then
      some { s with net := { s.net with kernel := s.net.kernel.erase fd } }
    else
      none

/-! ## One owner -/

end EventLoops

/-- Every accepted connection has exactly one owner or has been closed, once, by
    the reactor that owned it. -/
structure Net.SingleOwner (n : Net) : Prop where
  owned : ∀ inc < n.accepted,
    (inc ∈ n.closed ∧ ∀ h fd, ¬ n.Holds h fd inc) ∨
    (inc ∉ n.closed ∧ ∃! owner : Net.Holder × Int, n.Holds owner.1 owner.2 inc)
  queued : n.handoverQueue.Nodup
  once : n.closed.Nodup
  legit : ∀ c ∈ n.closes, ∃ inc, c.owner = some inc ∧ c.desc = some (.conn inc)

theorem Net.Custody.singleOwner {n : Net} (c : n.Custody) : n.SingleOwner where
  owned := by
    intro inc hlt
    by_cases hclosed : inc ∈ n.closed
    · refine .inl ⟨hclosed, fun h fd hh => ?_⟩
      exact ((c.closed_iff inc).mp hclosed).2 fd (c.kernel_of_holds hh)
    · refine .inr ⟨hclosed, ?_⟩
      have hopen : ∃ fd, n.kernel.find fd = some (.conn inc) := by
        by_contra hnone
        exact hclosed ((c.closed_iff inc).mpr ⟨hlt, not_exists.mp hnone⟩)
      obtain ⟨fd, hk⟩ := hopen
      obtain ⟨h, hh⟩ := c.holds_of_kernel hk
      refine ⟨(h, fd), hh, ?_⟩
      rintro ⟨h', fd'⟩ hh'
      have hfd : fd' = fd := c.fd_unique (c.kernel_of_holds hh') hk
      subst hfd
      have hsame : h' = h := c.holder_unique hh' hh
      rw [hsame]
  queued := c.queue_nodup
  once := c.closed_nodup
  legit := c.legit

namespace EventLoops

/-- An error event, and a ClientHello, is handled while its number is in the table
    of the reactor that handles it. -/
def StillHeld (s : EventLoops) : Act → Bool
  | .tcp outcome =>
    match s.tcpBatch, outcome with
    | .conn fd ⟨true, _, _⟩ :: _, _ => s.net.tcpConns.contains fd
    | .conn fd ⟨false, true, _⟩ :: _, .clientHello _ => s.net.tcpConns.contains fd
    | _, _ => true
  | .tls _ =>
    match s.tlsBatch with
    | .conn fd ⟨true, _, _⟩ :: _ => s.net.tlsConns.contains fd
    | _ => true
  | _ => true

theorem custody_tcpFail {n : Net} (c : n.Custody) (fd : Int) : (n.tcpFail fd).Custody := by
  unfold Net.tcpFail
  split
  next hin =>
    obtain ⟨inc, hinc⟩ := Map.contains_eq_true.mp hin
    exact c.tcpCloseConnection hinc
  next => exact c

theorem custody_tlsFail {n : Net} (c : n.Custody) (fd : Int) : (n.tlsFail fd).Custody := by
  unfold Net.tlsFail
  split
  next hin =>
    obtain ⟨inc, hinc⟩ := Map.contains_eq_true.mp hin
    exact c.tlsCloseConnection hinc
  next => exact c

/-- `TcpReactor::receive` on a connection that is in the table when it sees a
    ClientHello. -/
theorem custody_tcpReceive {n m : Net} (c : n.Custody) {outcome : TcpOutcome} {fd : Int}
    (hheld : (∃ enqueued, outcome = .clientHello enqueued) → ∃ inc, n.tcpConns.find fd = some inc)
    (hrecv : tcpReceive n fd outcome = some m) : m.Custody := by
  cases outcome with
  | clientHello enqueued =>
    obtain ⟨inc, hinc⟩ := hheld ⟨enqueued, rfl⟩
    simp only [tcpReceive] at hrecv
    split at hrecv <;> cases hrecv
    exact c.handoverToTls hinc enqueued
  | failed =>
    cases hrecv
    exact custody_tcpFail c fd
  | done =>
    cases hrecv
    exact c
  | sendFailed fd => cases hrecv
  | accepted fd => cases hrecv

/-- One TCP handler. -/
theorem custody_tcpHandle {n : Net} (c : n.Custody) {outcome : TcpOutcome} {e : EpollEvent}
    {r : Net × List EpollEvent}
    (herr : ∀ fd flags, e = .conn fd flags →
      flags.err = true ∨ (flags.input = true ∧ ∃ enqueued, outcome = .clientHello enqueued) →
      ∃ inc, n.tcpConns.find fd = some inc)
    (hstep : tcpHandle n outcome e = some r) : r.1.Custody := by
  cases e with
  | wakeup =>
    simp only [tcpHandle] at hstep
    cases outcome <;> cases hstep
    · exact c
    · exact custody_tcpFail c _
  | listen =>
    simp only [tcpHandle] at hstep
    cases outcome with
    | accepted fd =>
      simp only [tcpAccept, Option.map_eq_some_iff] at hstep
      obtain ⟨m, haccept, rfl⟩ := hstep
      exact c.acceptConnection haccept
    | done =>
      cases hstep
      exact c
    | sendFailed fd => cases hstep
    | clientHello enqueued => cases hstep
    | failed => cases hstep
  | conn fd flags =>
    simp only [tcpHandle] at hstep
    split at hstep
    next herr' =>
      cases hstep
      obtain ⟨inc, hinc⟩ := herr fd flags rfl (.inl herr')
      exact c.tcpCloseConnection hinc
    next =>
      split at hstep
      next hinput =>
        obtain ⟨m, hrecv, rfl⟩ := Option.map_eq_some_iff.mp hstep
        exact custody_tcpReceive c (fun hhello => herr fd flags rfl (.inr ⟨hinput, hhello⟩)) hrecv
      next =>
        split at hstep
        · obtain ⟨m, hflush, rfl⟩ := Option.map_eq_some_iff.mp hstep
          cases outcome <;> cases hflush
          · exact c
          · exact custody_tcpFail c fd
        · cases hstep
          exact c

/-- One TLS handler. -/
theorem custody_tlsHandle {n : Net} (c : n.Custody) {outcome : TlsOutcome} {e : EpollEvent}
    {r : Net × List EpollEvent}
    (herr : ∀ fd flags, e = .conn fd flags → flags.err = true →
      ∃ inc, n.tlsConns.find fd = some inc)
    (hstep : tlsHandle n outcome e = some r) : r.1.Custody := by
  have hdrive : ∀ {fd m}, tlsDrive n fd outcome = some m → m.Custody := by
    intro fd m hm
    cases outcome <;> cases hm
    · exact c
    · exact custody_tlsFail c fd
  cases e with
  | wakeup =>
    simp only [tlsHandle] at hstep
    cases outcome with
    | handover sslNew =>
      obtain ⟨m, hitem, rfl⟩ := Option.map_eq_some_iff.mp hstep
      exact c.processHandover hitem
    | writeFailed fd =>
      cases hstep
      exact custody_tlsFail c fd
    | done =>
      cases hstep
      exact c
    | failed => cases hstep
  | listen => cases hstep
  | conn fd flags =>
    simp only [tlsHandle] at hstep
    split at hstep
    next herr' =>
      cases hstep
      obtain ⟨inc, hinc⟩ := herr fd flags rfl herr'
      exact c.tlsCloseConnection hinc
    next =>
      split at hstep
      · obtain ⟨m, hm, rfl⟩ := Option.map_eq_some_iff.mp hstep
        exact hdrive hm
      · split at hstep
        · obtain ⟨m, hm, rfl⟩ := Option.map_eq_some_iff.mp hstep
          exact hdrive hm
        · cases hstep
          exact c

/-- One action of either loop, or of the rest of the process. -/
theorem custody_step {s s' : EventLoops} {a : Act} (c : s.net.Custody) (hok : s.StillHeld a = true)
    (hstep : s.step a = some s') : s'.net.Custody := by
  cases a with
  | tcpWait batch =>
    simp only [step] at hstep
    split at hstep <;> cases hstep
    exact c
  | tlsWait batch =>
    simp only [step] at hstep
    split at hstep <;> cases hstep
    exact c
  | tcp outcome =>
    cases hb : s.tcpBatch with
    | nil => simp [step, hb] at hstep
    | cons e es =>
      simp only [step, hb, Option.map_eq_some_iff] at hstep
      obtain ⟨r, hr, rfl⟩ := hstep
      refine custody_tcpHandle c ?_ hr
      rintro fd ⟨err, input, output⟩ rfl hcase
      apply Map.contains_eq_true.mp
      rcases hcase with herr | ⟨hin, enqueued, rfl⟩
      · cases herr
        simpa only [StillHeld, hb] using hok
      · cases hin
        cases err <;> simpa only [StillHeld, hb] using hok
  | tls outcome =>
    cases hb : s.tlsBatch with
    | nil => simp [step, hb] at hstep
    | cons e es =>
      simp only [step, hb, Option.map_eq_some_iff] at hstep
      obtain ⟨r, hr, rfl⟩ := hstep
      refine custody_tlsHandle c ?_ hr
      rintro fd ⟨err, input, output⟩ rfl herr
      cases herr
      apply Map.contains_eq_true.mp
      simpa only [StillHeld, hb] using hok
  | openOther fd =>
    simp only [step] at hstep
    split at hstep <;> cases hstep
    next hfree =>
    have hfree : s.net.kernel.find fd = none := Map.contains_eq_false.mp (Bool.eq_false_iff.mpr hfree)
    refine c.setOther fun fd' inc => ?_
    by_cases hfd : fd' = fd
    · subst hfd
      simp [hfree]
    · simp [hfd]
  | closeOther fd =>
    simp only [step] at hstep
    split at hstep <;> cases hstep
    next hother =>
    refine c.setOther fun fd' inc => ?_
    by_cases hfd : fd' = fd
    · subst hfd
      simp [hother]
    · simp [hfd]

/-- In every run in which error events and ClientHellos are handled only while the
    connection is in the reactor's table, every accepted connection has one owner
    and is closed at most once, by its owner. -/
theorem singleOwner_of_stillHeld {acts : List Act} {s : EventLoops}
    (hok : Along step (fun s a => s.StillHeld a = true) init acts)
    (hrun : run step init acts = some s) : s.net.SingleOwner := by
  have hcustody : s.net.Custody :=
    run_induct (fun _ _ _ c hcond hstep => custody_step c hcond hstep) Net.custody_init hok hrun
  exact hcustody.singleOwner

/-- A connection is accepted on number 7. -/
def acceptActs : List Act := [.tcpWait [.listen], .tcp (.accepted 7), .tcp .done]

/-- It is handed over to TLS, and its peer hangs up. -/
def handoverActs : List Act :=
  acceptActs ++ [.tcpWait [.conn 7 ⟨false, true, false⟩], .tcp (.clientHello true), .tcp .done,
    .tlsWait [.wakeup], .tls (.handover true), .tls .done,
    .tlsWait [.conn 7 ⟨true, false, false⟩], .tls .done]

theorem singleOwner_handover :
    ∃ s, run step init handoverActs = some s ∧ s.net.closed = [0] ∧ s.net.SingleOwner :=
  have hrun : run step init handoverActs = some _ := rfl
  ⟨_, hrun, rfl, singleOwner_of_stillHeld (by decide) hrun⟩

/-- The wakeup and a hangup of the connection are fetched in one batch. The flush
    of the first closes the connection, another thread gets the number, and the
    second closes it again. -/
def staleHangupActs : List Act :=
  acceptActs ++ [.tcpWait [.wakeup, .conn 7 ⟨true, false, false⟩], .tcp (.sendFailed 7), .tcp .done,
    .openOther 7, .tcp .done]

theorem not_singleOwner_staleHangup :
    ∃ s, run step init staleHangupActs = some s ∧
      s.net.closes.getLast? = some ⟨7, some .other, none⟩ ∧ ¬ s.net.SingleOwner := by
  refine ⟨_, rfl, rfl, fun h => ?_⟩
  obtain ⟨inc, hinc, _⟩ := h.legit ⟨7, some .other, none⟩ (List.mem_of_getLast? rfl)
  cases hinc

end EventLoops

end NfEngine
