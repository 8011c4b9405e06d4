-- SUMMARY: A plaintext TCP or IPC connection between its peer and its reactor, and when nothing the peer sent is lost at its end.
import NfEngine.Lib.Transition
import NfEngine.Protocol.StreamReceive
import NfEngine.Protocol.TcpReceive

/-!
# The end of a connection

One connection of `TcpReactor` or `IpcReactor`: the bytes that have arrived in its
socket, the end of stream behind them, the events that `epoll_wait` reports and the
handlers that run on them, one read call at a time. The peer acts between any two
steps.

`epoll_wait` reports `EPOLLIN` with `EPOLLRDHUP` once the peer has half-closed, whether
or not there are bytes to read. The loops test the hangup bits first and close the
connection on them, so that the end of stream is found by a read call only when it
arrives behind the report. What is unread when the connection ends is lost.
-/

namespace NfEngine

open Lib.Framing Lib.Transition

/-- What the loops of the two reactors differ in: the frames, the ring, and whether the
    front of the socket is searched for a ClientHello. -/
structure StreamConfig where
  hdr : FrameHeader
  capacity : ℕ
  sniffs : Bool
  capacity_pos : 0 < capacity

/-- A connection of `TcpReactor`, which has a TLS server. -/
def tcpStream : StreamConfig := ⟨tcpHeader, tcpMaxRxBufferSize, true, by decide⟩

/-- A connection of `IpcReactor`. -/
def ipcStream : StreamConfig := ⟨ipcHeader, ipcMaxRxBufferSize, false, by decide⟩

namespace StreamConfig

variable (c : StreamConfig)

abbrev format : Format UInt8 := c.hdr.format

/-- The receive loop, with the frames themselves for the packets or messages that are
    made of them. -/
def reader : FrameReader (List UInt8) := ⟨c.hdr, .ok⟩

theorem accepts_reader : c.reader.Accepts := fun f _ => ⟨f, rfl⟩

end StreamConfig

namespace StreamConn

/-- The bits of a reported event. -/
structure Events where
  /-- `EPOLLERR | EPOLLHUP` -/
  err : Bool
  rdhup : Bool
  input : Bool
  output : Bool

/-- `ev & (EPOLLERR | EPOLLHUP | EPOLLRDHUP)` -/
def Events.hangup (ev : Events) : Bool := ev.err || ev.rdhup

/-- Where the reactor stands with this connection. -/
inductive Phase where
  | waiting
  /-- An event is in the batch that `epoll_wait` has returned. -/
  | reported (ev : Events)
  /-- In the loop of `receive`; `EPOLLOUT` was reported as well, or not. -/
  | receiving (output : Bool)
  /-- Before `flushTxBuffer`. -/
  | flushing

/-- Why the reactor has given the connection up. -/
inductive Ending where
  | hangup (rdhup : Bool)
  /-- Handed over to TLS. -/
  | clientHello
  | receive (reason : CloseReason)
  | threw
  /-- `send` has failed, or the IPC reactor has sent its reply. -/
  | transmit
  deriving DecidableEq

/-- What a call of `recv` answers. -/
inductive Recv where
  | bytes (n : ℕ)
  | interrupted
  | wouldBlock
  | endOfStream
  | failed
  deriving DecidableEq

inductive Act where
  /-- Bytes of the peer arrive. -/
  | arrive (data : List UInt8)
  /-- The peer has closed its sending side. -/
  | halfClose
  /-- `epoll_wait` returns an event of the connection. -/
  | wait (err output : Bool)
  /-- The loop comes to the event. -/
  | handle
  | recv (answer : Recv)
  /-- `flushTxBuffer`, from the event or from `processTxQueue`. -/
  | transmit (closes : Bool)

end StreamConn

open StreamConn in
structure StreamConn where
  socket : List UInt8
  fin : Bool
  rxRing : ByteRingBuffer
  phase : Phase
  ended : Option Ending
  enqueued : List (List UInt8)
  /-- All bytes that have arrived. -/
  sent : List UInt8

namespace StreamConn

variable (c : StreamConfig)

def init : StreamConn := ⟨[], false, .new c.capacity, .waiting, none, [], []⟩

def close (s : StreamConn) (ending : Ending) : StreamConn := { s with ended := some ending }

/-- The bits that are ready: a half-closed socket is readable. -/
def ready (s : StreamConn) (err output : Bool) : Events :=
  ⟨err, s.fin, !s.socket.isEmpty || s.fin, output⟩

/-- The loop body for the event, up to the first read call. -/
def handleStep (s : StreamConn) : Option StreamConn :=
  match s.phase with
  | .reported ev =>
    if ev.hangup then
      some (s.close (.hangup ev.rdhup))
    else if ev.input then
      if c.sniffs && TcpReactor.isTlsClientHello s.socket then
        some (s.close .clientHello)
      else
        some { s with phase := .receiving ev.output }
    else
      some { s with phase := if ev.output then .flushing else .waiting }
  | .waiting | .receiving _ | .flushing => none

/-- A read call that returns bytes, and the frames that are complete then. -/
def readStep (s : StreamConn) (n : ℕ) : Option StreamConn :=
  if 0 < n ∧ n ≤ s.socket.length ∧ n ≤ s.rxRing.writeLen then
    match c.reader.take s.rxRing (s.socket.take n) with
    | (frames, .open rxRing) =>
      some { s with
        socket := s.socket.drop n, rxRing := rxRing, enqueued := s.enqueued ++ frames }
    | (frames, .closed reason) =>
      some ({ s with socket := s.socket.drop n, enqueued := s.enqueued ++ frames }.close
        (.receive reason))
    | (frames, .threw _) =>
      some ({ s with socket := s.socket.drop n, enqueued := s.enqueued ++ frames }.close .threw)
  else
    none

/-- One round of the loop of `receive`. -/
def recvStep (s : StreamConn) (answer : Recv) : Option StreamConn :=
  match s.phase with
  | .receiving output =>
    if s.rxRing.writeLen = 0 then
      some (s.close (.receive .ringFull))
    else
      match answer with
      | .bytes n => s.readStep c n
      | .interrupted => some s
      | .wouldBlock =>
        if s.socket = [] ∧ s.fin = false then
          some { s with phase := if output then .flushing else .waiting }
        else
          none
      | .endOfStream =>
        if s.socket = [] ∧ s.fin = true then some (s.close (.receive .endOfStream)) else none
      | .failed => some (s.close (.receive .failed))
  | .waiting | .reported _ | .flushing => none

/-- The flush of the event, or one of `processTxQueue` between two handlers. -/
def transmitStep (s : StreamConn) (closes : Bool) : Option StreamConn :=
  match s.phase with
  | .receiving _ => none
  | .flushing => some (if closes then s.close .transmit else { s with phase := .waiting })
  | .waiting | .reported _ => some (if closes then s.close .transmit else s)

def step (s : StreamConn) (a : Act) : Option StreamConn :=
  if s.ended.isSome then
    none
  else
    match a with
    | .arrive data =>
      if s.fin then none else some { s with socket := s.socket ++ data, sent := s.sent ++ data }
    | .halfClose => some { s with fin := true }
    | .wait err output =>
      match s.phase with
      | .waiting => some { s with phase := .reported (s.ready err output) }
      | .reported _ | .receiving _ | .flushing => none
    | .handle => s.handleStep c
    | .recv answer => s.recvStep c answer
    | .transmit closes => s.transmitStep closes

/-! ## What is lost -/

/-- When the connection has ended behind the half-close of the peer, every complete frame
    that fits the ring has been enqueued, and nothing readable has been discarded on
    `EPOLLRDHUP`. -/
structure Kept (s : StreamConn) : Prop where
  frames : s.ended ≠ none → s.fin = true →
    s.enqueued = (c.format.frames s.sent).filter (·.length ≤ c.capacity)
  unread : s.ended = some (.hangup true) → s.socket = []

/-- No complete frame that fits the ring is left over. -/
def NothingLeft (s : StreamConn) : Prop :=
  ∀ f ∈ c.format.frames (s.rxRing.content ++ s.socket), c.capacity < f.length

/-- The handlers that end the connection, other than on an end of stream, have nothing to
    lose. -/
def Safe (s : StreamConn) : Act → Prop
  | .handle =>
    match s.phase with
    | .reported ev =>
      (ev.rdhup = true → s.socket = []) ∧
        (ev.hangup = true ∨ ev.input = true ∧ c.sniffs = true ∧
          TcpReactor.isTlsClientHello s.socket = true → s.fin = true → s.NothingLeft c)
    | .waiting | .receiving _ | .flushing => True
  | .recv answer => s.rxRing.writeLen = 0 ∨ answer = .failed → s.fin = true → s.NothingLeft c
  | .transmit closes => closes = true → s.fin = true → s.NothingLeft c
  | .arrive _ | .halfClose | .wait _ _ => True

instance (s : StreamConn) : Decidable (s.NothingLeft c) := inferInstanceAs (Decidable (∀ f ∈ _, _))

instance decidableSafe (s : StreamConn) : ∀ a, Decidable (s.Safe c a)
  | .handle =>
    match h : s.phase with
    | .reported ev =>
      decidable_of_iff ((ev.rdhup = true → s.socket = []) ∧
        (ev.hangup = true ∨ ev.input = true ∧ c.sniffs = true ∧
          TcpReactor.isTlsClientHello s.socket = true → s.fin = true → s.NothingLeft c))
        (by simp only [Safe, h])
    | .waiting => isTrue (by simp only [Safe, h])
    | .receiving _ => isTrue (by simp only [Safe, h])
    | .flushing => isTrue (by simp only [Safe, h])
  | .recv answer =>
    inferInstanceAs (Decidable (s.rxRing.writeLen = 0 ∨ answer = .failed → s.fin = true → s.NothingLeft c))
  | .transmit closes => inferInstanceAs (Decidable (closes = true → s.fin = true → s.NothingLeft c))
  | .arrive _ => isTrue trivial
  | .halfClose => isTrue trivial
  | .wait _ _ => isTrue trivial

/-- The connection may end here, in this way. -/
structure MayEnd (s : StreamConn) (ending : Ending) : Prop where
  frames : s.fin = true → s.NothingLeft c
  unread : ending = .hangup true → s.socket = []

/-- What a step does to the stream, and whether it is safe. -/
inductive Effect (s : StreamConn) : Act → StreamConn → Prop
  | arrive (data : List UInt8) :
    Effect s (.arrive data) { s with socket := s.socket ++ data, sent := s.sent ++ data }
  | idle {a : Act} (fin : Bool) (phase : Phase) (hsafe : s.Safe c a) :
    Effect s a { s with fin := fin, phase := phase }
  | read {n : ℕ} {s' : StreamConn} (hroom : s.rxRing.writeLen ≠ 0)
      (hread : s.readStep c n = some s') : Effect s (.recv (.bytes n)) s'
  | endOfStream (hroom : s.rxRing.writeLen ≠ 0) (hsocket : s.socket = []) :
    Effect s (.recv .endOfStream) (s.close (.receive .endOfStream))
  | close {a : Act} (ending : Ending) (hsafe : s.Safe c a ↔ s.MayEnd c ending) :
    Effect s a (s.close ending)

variable {c} {s s' : StreamConn} {a : Act}

theorem effect_of_handleStep (h : s.handleStep c = some s') : Effect c s .handle s' := by
  unfold handleStep at h
  split at h
  next ev hphase =>
    have hsafe : s.Safe c .handle ↔ (ev.rdhup = true → s.socket = []) ∧
        (ev.hangup = true ∨ ev.input = true ∧ c.sniffs = true ∧
          TcpReactor.isTlsClientHello s.socket = true → s.fin = true → s.NothingLeft c) := by
      simp only [Safe, hphase]
    split at h
    next hup =>
      cases h
      refine .close _ (hsafe.trans ⟨fun hs => ⟨hs.2 (.inl hup), ?_⟩, fun hs => ⟨?_, fun _ => hs.frames⟩⟩)
      · intro heq
        exact hs.1 (Ending.hangup.inj heq)
      · intro hrdhup
        exact hs.unread (congrArg Ending.hangup hrdhup)
    next hup =>
      have hrdhup : ev.rdhup ≠ true := fun hr => hup (by rw [Events.hangup, hr, Bool.or_true])
      split at h
      next hinput =>
        split at h
        next hhello =>
          cases h
          rw [Bool.and_eq_true] at hhello
          refine .close _ (hsafe.trans ⟨fun hs => ⟨hs.2 (.inr ⟨hinput, hhello⟩), nofun⟩, fun hs => ?_⟩)
          exact ⟨fun hr => absurd hr hrdhup, fun _ => hs.frames⟩
        next hhello =>
          cases h
          refine .idle _ _ (hsafe.mpr ⟨fun hr => absurd hr hrdhup, ?_⟩)
          rintro (hr | ⟨_, hboth⟩)
          · exact absurd hr hup
          · exact absurd ((Bool.and_eq_true _ _).mpr hboth) hhello
      next hinput =>
        cases h
        refine .idle _ _ (hsafe.mpr ⟨fun hr => absurd hr hrdhup, ?_⟩)
        rintro (hr | ⟨hin, _⟩)
        · exact absurd hr hup
        · exact absurd hin hinput
  all_goals cases h

theorem effect_of_recvStep {answer : Recv} (h : s.recvStep c answer = some s') :
    Effect c s (.recv answer) s' := by
  unfold recvStep at h
  split at h
  next output _ =>
    split at h
    next hfull =>
      cases h
      exact .close _ ⟨fun hs => ⟨hs (.inl hfull), nofun⟩, fun hs _ => hs.frames⟩
    next hroom =>
      have hidle : answer ≠ .failed → s.Safe c (.recv answer) :=
        fun hne hor => (hor.elim hroom hne).elim
      cases answer with
      | bytes n => exact .read hroom h
      | interrupted =>
        cases h
        exact .idle s.fin s.phase (hidle nofun)
      | wouldBlock =>
        dsimp only at h
        split at h
        · cases h
          exact .idle _ _ (hidle nofun)
        · cases h
      | endOfStream =>
        dsimp only at h
        split at h
        next hend =>
          cases h
          exact .endOfStream hroom hend.1
        · cases h
      | failed =>
        cases h
        exact .close _ ⟨fun hs => ⟨hs (.inr rfl), nofun⟩, fun hs _ => hs.frames⟩
  all_goals cases h

theorem effect_of_transmitStep {closes : Bool} (h : s.transmitStep closes = some s') :
    Effect c s (.transmit closes) s' := by
  have hidle : closes = false → ∀ phase, Effect c s (.transmit closes) { s with phase := phase } := by
    intro hno phase
    exact .idle s.fin phase fun hyes => absurd (hno.symm.trans hyes) nofun
  have hclose : closes = true → Effect c s (.transmit closes) (s.close .transmit) := by
    intro hyes
    exact .close _ ⟨fun hs => ⟨hs hyes, nofun⟩, fun hs _ => hs.frames⟩
  unfold transmitStep at h
  cases closes with
  | false =>
    split at h <;> cases h
    · exact hidle rfl _
    · exact hidle rfl s.phase
    · exact hidle rfl s.phase
  | true => split at h <;> cases h <;> exact hclose rfl

/-- A connection that still does something is open. -/
theorem ended_eq_none_of_step (h : s.step c a = some s') : s.ended = none := by
  unfold step at h
  split at h
  · cases h
  next hopen => exact Option.not_isSome_iff_eq_none.mp hopen

theorem effect_of_step (h : s.step c a = some s') : Effect c s a s' := by
  unfold step at h
  split at h
  · cases h
  · cases a with
    | arrive data =>
      dsimp only at h
      split at h <;> cases h
      exact .arrive data
    | halfClose =>
      cases h
      exact .idle true s.phase trivial
    | wait err output =>
      dsimp only at h
      split at h <;> cases h
      exact .idle s.fin _ trivial
    | handle => exact effect_of_handleStep h
    | recv answer => exact effect_of_recvStep h
    | transmit closes => exact effect_of_transmitStep h

/-! ## The stream -/

/-- What has arrived is what was enqueued, what the ring holds and what is unread. -/
structure Inv (c : StreamConfig) (s : StreamConn) : Prop where
  valid : s.rxRing.Valid
  length_buffer : s.rxRing.buffer.length = c.capacity
  incomplete : c.format.complete s.rxRing.content = none
  frame : ∀ f ∈ s.enqueued, c.format.IsFrame f ∧ f.length ≤ c.capacity
  sent_eq : s.sent = s.enqueued.flatten ++ (s.rxRing.content ++ s.socket)

theorem inv_init (c : StreamConfig) : Inv c (init c) where
  valid := ByteRingBuffer.valid_new c.capacity_pos
  length_buffer := ByteRingBuffer.length_buffer_new _
  incomplete := by
    change c.format.complete (ByteRingBuffer.new c.capacity).content = none
    rw [ByteRingBuffer.content_new]
    exact Format.complete_nil
  frame := nofun
  sent_eq := by
    change [] = [] ++ ((ByteRingBuffer.new c.capacity).content ++ [])
    rw [ByteRingBuffer.content_new]
    rfl

namespace Inv

/-- A read call moves bytes from the socket into the ring and whole frames to the
    workers. -/
theorem readStep {n : ℕ} (h : Inv c s) (hread : s.readStep c n = some s') :
    Inv c s' ∧ s'.ended = s.ended := by
  unfold StreamConn.readStep at hread
  split at hread
  next hn =>
    obtain ⟨_, hsocket, hroom⟩ := hn
    have hdata : (s.socket.take n).length ≤ s.rxRing.writeLen := by
      rwa [List.length_take, Nat.min_eq_left hsocket]
    obtain ⟨hmsgs, rxRing, hopen, hvalid, hbuf, hcontent⟩ :=
      FrameReader.take_cuts c.accepts_reader h.valid h.length_buffer hdata
    generalize c.reader.take s.rxRing (s.socket.take n) = result at hread hmsgs hopen
    obtain ⟨frames, end_⟩ := result
    obtain rfl : end_ = .open rxRing := hopen
    cases hread
    have hframes : frames = c.format.frames (s.rxRing.content ++ s.socket.take n) :=
      (FrameReader.msgs_eq_map (fun _ => rfl) hmsgs).trans (List.map_id _)
    refine ⟨⟨hvalid, hbuf, ?_, ?_, ?_⟩, rfl⟩
    · change c.format.complete rxRing.content = none
      rw [hcontent]
      exact Format.complete_rest _
    · intro f hf
      rcases List.mem_append.mp hf with hold | hnew
      · exact h.frame f hold
      · rw [hframes] at hnew
        refine ⟨FrameHeader.isFrame_of_mem_frames hnew, ?_⟩
        have hle := Format.length_le_of_mem_frames hnew
        rw [List.length_append, h.valid.length_content] at hle
        rw [← h.length_buffer]
        exact hle.trans ((Nat.add_le_add_left hdata _).trans h.valid.writeLen_le.2)
    · -- the bytes that were read are the new frames and the new content
      have hsplit := Format.flatten_frames (F := c.format) (s.rxRing.content ++ s.socket.take n)
      calc s.sent = s.enqueued.flatten ++ ((s.rxRing.content ++ s.socket.take n) ++ s.socket.drop n) := by
            rw [h.sent_eq, List.append_assoc, List.take_append_drop]
        _ = s.enqueued.flatten ++ ((frames.flatten ++ rxRing.content) ++ s.socket.drop n) := by
            rw [hcontent, hframes]
            exact congrArg (fun xs => _ ++ (xs ++ _)) hsplit.symm
        _ = (s.enqueued ++ frames).flatten ++ (rxRing.content ++ s.socket.drop n) := by
            simp only [List.flatten_append, List.append_assoc]
  · cases hread

theorem step (h : Inv c s) (hstep : s.step c a = some s') : Inv c s' := by
  cases effect_of_step hstep with
  | arrive data =>
    refine ⟨h.valid, h.length_buffer, h.incomplete, h.frame, ?_⟩
    change s.sent ++ data = _
    rw [h.sent_eq, List.append_assoc, List.append_assoc]
  | idle => exact ⟨h.valid, h.length_buffer, h.incomplete, h.frame, h.sent_eq⟩
  | read _ hread => exact (h.readStep hread).1
  | endOfStream => exact ⟨h.valid, h.length_buffer, h.incomplete, h.frame, h.sent_eq⟩
  | close => exact ⟨h.valid, h.length_buffer, h.incomplete, h.frame, h.sent_eq⟩

theorem nothingLeft_of_socket_eq_nil (h : Inv c s) (hsocket : s.socket = []) : s.NothingLeft c := by
  unfold NothingLeft
  rw [hsocket, List.append_nil, Format.frames_of_complete_eq_none h.incomplete]
  nofun

/-- The frames that have arrived were enqueued when those left over do not fit. -/
theorem enqueued_eq_iff (h : Inv c s) :
    s.enqueued = (c.format.frames s.sent).filter (·.length ≤ c.capacity) ↔ s.NothingLeft c := by
  have hold : s.enqueued.filter (·.length ≤ c.capacity) = s.enqueued :=
    List.filter_eq_self.mpr fun f hf => decide_eq_true (h.frame f hf).2
  rw [h.sent_eq, (Format.split_flatten_append (fun f hf => (h.frame f hf).1) _).1, List.filter_append,
    hold, List.self_eq_append_right, List.filter_eq_nil_iff]
  simp only [decide_eq_true_eq, Nat.not_le, NothingLeft]

theorem kept_close_iff (h : Inv c s) {ending : Ending} :
    Kept c (s.close ending) ↔ s.MayEnd c ending := by
  constructor
  · intro hk
    refine ⟨fun hfin => h.enqueued_eq_iff.mp (hk.frames nofun hfin), ?_⟩
    intro heq
    exact hk.unread (congrArg some heq)
  · intro hm
    refine ⟨fun _ hfin => h.enqueued_eq_iff.mpr (hm.frames hfin), ?_⟩
    intro heq
    exact hm.unread (Option.some.inj heq)

end Inv

/-- A connection that has not ended has lost nothing. -/
theorem kept_of_open (h : s.ended = none) : Kept c s where
  frames hend := absurd h hend
  unread hend := absurd (h.symm.trans hend) nofun

/-- A step keeps everything exactly when it is safe. -/
theorem kept_step_iff (h : Inv c s) (hstep : s.step c a = some s') : Kept c s' ↔ s.Safe c a := by
  have hopen := ended_eq_none_of_step hstep
  cases effect_of_step hstep with
  | arrive => exact iff_of_true (kept_of_open hopen) trivial
  | idle _ _ hsafe => exact iff_of_true (kept_of_open hopen) hsafe
  | read hroom hread =>
    have hopen' := (h.readStep hread).2.trans hopen
    exact iff_of_true (kept_of_open hopen') fun hor => (hor.elim hroom nofun).elim
  | endOfStream hroom hsocket =>
    have hleft := h.nothingLeft_of_socket_eq_nil hsocket
    exact iff_of_true (h.kept_close_iff.mpr ⟨fun _ => hleft, nofun⟩)
      fun hor => (hor.elim hroom nofun).elim
  | close ending hsafe => exact h.kept_close_iff.trans hsafe.symm

/-- Nothing is lost in a run of a connection exactly when every handler that ends it,
    other than on an end of stream, finds nothing to lose. -/
theorem always_kept_iff_safe (c : StreamConfig) (as : List Act) (s : StreamConn)
    (hrun : run (step c) (init c) as = some s) :
    Always (step c) (Kept c) (init c) as ↔ Along (step c) (Safe c) (init c) as := by
  rw [always_iff_of_inv (I := Inv c) (fun _ _ _ => Inv.step) (inv_init c)]
  refine always_iff_along ?_ ⟨inv_init c, kept_of_open rfl⟩ hrun
  intro t a t' ht hstep
  rw [← kept_step_iff ht.1 hstep]
  exact and_iff_right (ht.1.step hstep)

/-- The frame is read before the peer half-closes. -/
def frameRead : List Act :=
  [.arrive [0, 1, 7], .wait false false, .handle, .recv (.bytes 3), .recv .wouldBlock,
    .halfClose, .wait false false, .handle]

/-- With a short ring: the hangup loses nothing. -/
theorem always_kept_frameRead :
    ∃ s, run (step ⟨ipcHeader, 16, false, by decide⟩) (init ⟨ipcHeader, 16, false, by decide⟩)
        frameRead = some s ∧
      Always (step ⟨ipcHeader, 16, false, by decide⟩) (Kept ⟨ipcHeader, 16, false, by decide⟩)
        (init ⟨ipcHeader, 16, false, by decide⟩) frameRead := by
  obtain ⟨s, hs⟩ := Option.isSome_iff_exists.mp (show (run (step ⟨ipcHeader, 16, false, by decide⟩)
    (init ⟨ipcHeader, 16, false, by decide⟩) frameRead).isSome from by decide +kernel)
  exact ⟨s, hs, (always_kept_iff_safe _ _ s hs).mpr (by decide +kernel)⟩

/-- A peer sends a frame and half-closes before the reactor wakes up: the event carries
    `EPOLLIN` and `EPOLLRDHUP`, and the connection is closed with the frame unread. -/
theorem frame_lost_on_halfClose :
    (∃ s, run (step tcpStream) (init tcpStream)
        [.arrive bareFrame, .halfClose, .wait false false, .handle] = some s ∧
      s.ended = some (.hangup true) ∧ tcpStream.format.frames s.sent = [bareFrame] ∧
      s.enqueued = [] ∧ s.socket = bareFrame ∧ ¬ Kept tcpStream s) ∧
    (∃ s, run (step ipcStream) (init ipcStream)
        [.arrive [0, 1, 7], .halfClose, .wait false false, .handle] = some s ∧
      s.ended = some (.hangup true) ∧ ipcStream.format.frames s.sent = [[0, 1, 7]] ∧
      s.enqueued = [] ∧ s.socket = [0, 1, 7] ∧ ¬ Kept ipcStream s) := by
  refine ⟨⟨_, rfl, rfl, by decide +kernel, rfl, rfl, ?_⟩, ⟨_, rfl, rfl, by decide +kernel, rfl, rfl, ?_⟩⟩
  · intro h
    exact absurd (h.unread rfl) nofun
  · intro h
    exact absurd (h.unread rfl) nofun

end StreamConn

end NfEngine
