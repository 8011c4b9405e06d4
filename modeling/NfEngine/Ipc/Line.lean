-- SUMMARY: IpcClient::send system call by system call, and a connection of the local socket from end to end.
import NfEngine.Ipc.RoundTrip
import NfEngine.Protocol.StreamReceive

/-!
# A connection of the local socket

`IpcClient::send` opens a connection of its own, writes one request and reads one reply.
Its two loops call `send` and `read`, which take and give as many bytes as the kernel
likes; `EINTR` repeats the call and changes nothing. A line is such a connection with both
of its ends: the client, the bytes on their way in either direction, and the receive ring
that serverd has for it.
-/

namespace NfEngine

open Lib.Bytes Lib.Framing

/-! ## The client -/

/-- Where a call of `IpcClient::send` is. -/
inductive IpcClient.Phase where
  /-- Not connected yet. -/
  | idle
  /-- In `writeAll` of the length, with the bytes it has not written. -/
  | header (left : List UInt8)
  | body (left : List UInt8)
  /-- In `readExact` of the length, with the bytes it has. -/
  | readHeader (got : List UInt8)
  | readBody (rlen : ℕ) (got : List UInt8)
  | returned (reply : List UInt8)
  | threw (error : IpcClientError)
  deriving DecidableEq, Repr

namespace IpcClient.Phase

/-- `send` up to the first `writeAll`. -/
def start (payload : List UInt8) : Option Phase :=
  match request payload with
  | .error _ => none
  | .ok _ => some (.header (beBytes 2 (payload.length % 2 ^ 16)))

def afterHeader (payload : List UInt8) : Phase :=
  if payload.isEmpty then .readHeader [] else .body payload

/-- `::send` in `writeAll` has taken `k` bytes: the bytes, and what follows. -/
def write (payload : List UInt8) (k : ℕ) : Phase → Option (List UInt8 × Phase)
  | .header left =>
    if k = 0 ∨ left.length < k then none
    else some (left.take k, if k < left.length then .header (left.drop k) else afterHeader payload)
  | .body left =>
    if k = 0 ∨ left.length < k then none
    else some (left.take k, if k < left.length then .body (left.drop k) else .readHeader [])
  | _ => none

/-- What follows the length of the reply. -/
def afterLength (rlen : ℕ) : Phase :=
  if maxBody < rlen then .threw .invalidReplyLength
  else if rlen = 0 then .returned []
  else .readBody rlen []

/-- `::read` in `readExact` has given these bytes. -/
def read (data : List UInt8) : Phase → Option Phase
  | .readHeader got =>
    if (got ++ data).length < 2 then some (.readHeader (got ++ data))
    else if (got ++ data).length = 2 then some (afterLength (beNat (got ++ data)))
    else none
  | .readBody rlen got =>
    if (got ++ data).length < rlen then some (.readBody rlen (got ++ data))
    else if (got ++ data).length = rlen then some (.returned (got ++ data))
    else none
  | _ => none

/-- `::read` returns 0. -/
def endOfStream : Phase → Option Phase
  | .readHeader _ | .readBody _ _ => some (.threw .readFailed)
  | _ => none

/-- A system call fails, and not over `EINTR`. -/
def fail : Phase → Option Phase
  | .header _ | .body _ => some (.threw .writeFailed)
  | .readHeader _ | .readBody _ _ => some (.threw .readFailed)
  | _ => none

/-- The call is over, and its descriptor closed. -/
def ended : Phase → Bool
  | .returned _ | .threw _ => true
  | _ => false

/-- What the client still has to write. -/
def unsent (payload : List UInt8) : Phase → List UInt8
  | .header left => left ++ payload
  | .body left => left
  | _ => []

/-- What the client has read, unless it has thrown. -/
def heard : Phase → Option (List UInt8)
  | .idle | .header _ | .body _ => some []
  | .readHeader got => some got
  | .readBody rlen got => some (beBytes 2 rlen ++ got)
  | .returned reply => some (beBytes 2 reply.length ++ reply)
  | .threw _ => none

variable {payload data : List UInt8} {k : ℕ} {phase phase' : Phase}

theorem unsent_afterHeader (payload : List UInt8) : (afterHeader payload).unsent payload = payload := by
  unfold afterHeader
  split
  next hempty => exact (List.isEmpty_iff.mp hempty).symm
  next => rfl

theorem heard_afterHeader (payload : List UInt8) : (afterHeader payload).heard = some [] := by
  unfold afterHeader
  split <;> rfl

/-- The client writes from the front of what it has to write, and reads nothing. -/
theorem write_eq_some (h : phase.write payload k = some (data, phase')) :
    data ++ phase'.unsent payload = phase.unsent payload ∧ phase.heard = some [] ∧
      phase'.heard = some [] := by
  cases phase with
  | header left =>
    simp only [write] at h
    split at h
    next => cases h
    next =>
      cases h
      refine ⟨?_, rfl, ?_⟩
      · split
        next => rw [unsent, unsent, ← List.append_assoc, List.take_append_drop]
        next hle => rw [unsent_afterHeader, unsent, List.take_of_length_le (Nat.not_lt.mp hle)]
      · split
        next => rfl
        next => exact heard_afterHeader payload
  | body left =>
    simp only [write] at h
    split at h
    next => cases h
    next =>
      cases h
      refine ⟨?_, rfl, ?_⟩
      · split
        next => exact List.take_append_drop _ _
        next hle => exact (List.append_nil _).trans (List.take_of_length_le (Nat.not_lt.mp hle))
      · split <;> rfl
  | idle | readHeader | readBody | returned | threw => cases h

/-- Two bytes are the length they announce. -/
theorem heard_afterLength {got bytes : List UInt8} (hlen : got.length = 2)
    (h : (afterLength (beNat got)).heard = some bytes) : bytes = got := by
  have hbytes : beBytes 2 (beNat got) = got := hlen ▸ beBytes_beNat got
  unfold afterLength at h
  split at h
  next => cases h
  next =>
    split at h
    next hzero =>
      cases h
      rw [← hbytes, hzero]
      rfl
    next =>
      cases h
      exact (List.append_nil _).trans hbytes

/-- The client has nothing to write when it reads, and keeps what it reads. -/
theorem read_eq_some (payload : List UInt8) (h : phase.read data = some phase') :
    phase.unsent payload = [] ∧ phase'.unsent payload = [] ∧
      ∀ bytes', phase'.heard = some bytes' → ∃ bytes, phase.heard = some bytes ∧ bytes' = bytes ++ data := by
  cases phase with
  | readHeader got =>
    simp only [read] at h
    split at h
    next =>
      cases h
      exact ⟨rfl, rfl, fun bytes' hheard => ⟨got, rfl, (Option.some.inj hheard).symm⟩⟩
    next =>
      split at h
      next hlen =>
        cases h
        refine ⟨rfl, ?_, fun bytes' hheard => ⟨got, rfl, heard_afterLength hlen hheard⟩⟩
        unfold afterLength
        repeat' split
        all_goals rfl
      next => cases h
  | readBody rlen got =>
    simp only [read] at h
    split at h
    next =>
      cases h
      refine ⟨rfl, rfl, fun bytes' hheard => ⟨_, rfl, ?_⟩⟩
      rw [← Option.some.inj hheard, List.append_assoc]
    next =>
      split at h
      next hlen =>
        cases h
        refine ⟨rfl, rfl, fun bytes' hheard => ⟨_, rfl, ?_⟩⟩
        rw [← Option.some.inj hheard, hlen, List.append_assoc]
      next => cases h
  | idle | header | body | returned | threw => cases h

theorem endOfStream_eq_some (h : phase.endOfStream = some phase') :
    phase' = .threw .readFailed ∧ phase.ended = false := by
  cases phase with
  | readHeader | readBody =>
    cases h
    exact ⟨rfl, rfl⟩
  | idle | header | body | returned | threw => cases h

theorem fail_eq_some (h : phase.fail = some phase') :
    (∃ error, phase' = .threw error) ∧ phase.ended = false := by
  cases phase with
  | header | body | readHeader | readBody =>
    cases h
    exact ⟨⟨_, rfl⟩, rfl⟩
  | idle | returned | threw => cases h

end IpcClient.Phase

/-! ## The line -/

/-- A connection with both of its ends. -/
structure IpcLine where
  payload : List UInt8
  client : IpcClient.Phase
  /-- The bytes on their way to serverd. -/
  up : List UInt8
  /-- The bytes on their way to the client. -/
  down : List UInt8
  /-- serverd has closed its end. -/
  hungUp : Bool
  rxRing : ByteRingBuffer

namespace IpcLine

/-- Nobody has connected yet. -/
def blank : IpcLine := ⟨[], .idle, [], [], false, .new ipcMaxRxBufferSize⟩

def connect (payload : List UInt8) : Option IpcLine :=
  (IpcClient.Phase.start payload).map fun phase => { blank with payload := payload, client := phase }

/-- A call of `::send` in the client. -/
def write (line : IpcLine) (k : ℕ) : Option IpcLine :=
  (line.client.write line.payload k).map fun (data, phase) =>
    { line with client := phase, up := line.up ++ data }

/-- A call of `::read` in the client that returns `k` bytes. -/
def read (line : IpcLine) (k : ℕ) : Option IpcLine :=
  if k = 0 ∨ line.down.length < k then none
  else
    (line.client.read (line.down.take k)).map fun phase =>
      { line with client := phase, down := line.down.drop k }

/-- The client finds the end of the stream once it has read what serverd has sent. -/
def endOfStream (line : IpcLine) : Option IpcLine :=
  if line.hungUp ∧ line.down = [] then
    line.client.endOfStream.map fun phase => { line with client := phase }
  else none

def fail (line : IpcLine) : Option IpcLine :=
  line.client.fail.map fun phase => { line with client := phase }

/-- One round of `IpcReactor::receive` in which `recv` returns `k` bytes: the messages, the
    line, and whether it stays open. The constructor of a message would throw out of the
    reactor. -/
def recv (line : IpcLine) (fd : Int) (k : ℕ) : Option (List IpcMessage × IpcLine × Bool) :=
  if k = 0 ∨ line.up.length < k ∨ line.rxRing.writeLen < k then none
  else
    match (IpcReactor.reader fd).take line.rxRing (line.up.take k) with
    | (msgs, .open rxRing) => some (msgs, { line with up := line.up.drop k, rxRing := rxRing }, true)
    | (msgs, .closed _) => some (msgs, { line with up := line.up.drop k, hungUp := true }, false)
    | (_, .threw _) => none

/-- What a step of the client does: it passes bytes on in their order, or gives up. -/
structure ClientStep (line line' : IpcLine) : Prop where
  payload : line'.payload = line.payload
  rxRing : line'.rxRing = line.rxRing
  way : line'.up ++ line'.client.unsent line'.payload <+: line.up ++ line.client.unsent line.payload
  heard : ∀ bytes', line'.client.heard = some bytes' →
    ∃ bytes, line.client.heard = some bytes ∧ bytes' ++ line'.down = bytes ++ line.down

variable {line line' : IpcLine} {k : ℕ}

theorem clientStep_write (h : line.write k = some line') : ClientStep line line' := by
  obtain ⟨⟨data, phase⟩, hwrite, rfl⟩ := Option.map_eq_some_iff.mp h
  obtain ⟨hunsent, hbefore, hafter⟩ := IpcClient.Phase.write_eq_some hwrite
  refine ⟨rfl, rfl, ?_, fun bytes' hheard => ?_⟩
  · rw [← hunsent, ← List.append_assoc]
  · cases hafter.symm.trans hheard
    exact ⟨[], hbefore, rfl⟩

theorem clientStep_read (h : line.read k = some line') : ClientStep line line' := by
  unfold read at h
  split at h
  next => cases h
  next =>
    obtain ⟨phase, hread, rfl⟩ := Option.map_eq_some_iff.mp h
    obtain ⟨hbefore, hafter, hheard⟩ := IpcClient.Phase.read_eq_some line.payload hread
    refine ⟨rfl, rfl, ?_, fun bytes' hbytes' => ?_⟩
    · rw [hbefore, hafter]
    · obtain ⟨bytes, hbytes, rfl⟩ := hheard bytes' hbytes'
      exact ⟨bytes, hbytes, by rw [List.append_assoc, List.take_append_drop]⟩

/-- A client that throws leaves the line as it is. -/
theorem clientStep_threw (error : IpcClientError) :
    ClientStep line { line with client := .threw error } :=
  ⟨rfl, rfl, (List.append_nil _).symm ▸ List.prefix_append _ _, fun bytes' hheard => by cases hheard⟩

theorem clientStep_endOfStream (h : line.endOfStream = some line') : ClientStep line line' := by
  unfold endOfStream at h
  split at h
  next =>
    obtain ⟨phase, hend, rfl⟩ := Option.map_eq_some_iff.mp h
    obtain ⟨rfl, -⟩ := IpcClient.Phase.endOfStream_eq_some hend
    exact clientStep_threw _
  next => cases h

theorem clientStep_fail (h : line.fail = some line') : ClientStep line line' := by
  obtain ⟨phase, hfail, rfl⟩ := Option.map_eq_some_iff.mp h
  obtain ⟨⟨error, rfl⟩, -⟩ := IpcClient.Phase.fail_eq_some hfail
  exact clientStep_threw error

/-! ## The way of the request -/

/-- The bytes that the client writes. -/
def request (line : IpcLine) : List UInt8 :=
  beBytes 2 (line.payload.length % 2 ^ 16) ++ line.payload

/-- What is in the ring, on its way or unsent is the request, or its beginning when the
    client has given up. -/
structure Sending (line : IpcLine) : Prop where
  valid : line.rxRing.Valid
  capacity : line.rxRing.buffer.length = ipcMaxRxBufferSize
  way : line.rxRing.content ++ (line.up ++ line.client.unsent line.payload) <+: line.request

/-- serverd has cut off the request, and nothing is left on the way. -/
structure Sent (line : IpcLine) : Prop where
  valid : line.rxRing.Valid
  capacity : line.rxRing.buffer.length = ipcMaxRxBufferSize
  way : line.rxRing.content ++ (line.up ++ line.client.unsent line.payload) = []

theorem isFrame_request (hlen : line.payload.length ≤ 65535) :
    ipcHeader.format.IsFrame line.request := by
  have hmod : line.payload.length % 2 ^ 16 = line.payload.length := Nat.mod_eq_of_lt (by omega)
  have hframe := IpcFraming.isFrame_buildFrame line.payload
  rw [IpcMessage.buildFrame_eq, Nat.min_eq_left hlen, List.take_of_length_le hlen] at hframe
  rwa [request, hmod]

theorem connect_eq_some {payload : List UInt8} (h : connect payload = some line) :
    line.payload = payload ∧ line.client.heard = some [] ∧ line.down = [] := by
  obtain ⟨phase, hstart, rfl⟩ := Option.map_eq_some_iff.mp h
  unfold IpcClient.Phase.start at hstart
  split at hstart
  next => cases hstart
  next =>
    cases hstart
    exact ⟨rfl, rfl, rfl⟩

theorem sending_connect {payload : List UInt8} (h : connect payload = some line) : line.Sending := by
  obtain ⟨phase, hstart, rfl⟩ := Option.map_eq_some_iff.mp h
  unfold IpcClient.Phase.start at hstart
  split at hstart
  next => cases hstart
  next =>
    cases hstart
    exact ⟨ByteRingBuffer.valid_new (by decide), ByteRingBuffer.length_buffer_new _,
      by rw [blank, ByteRingBuffer.content_new]; exact List.prefix_refl _⟩

theorem Sending.client (h : line.Sending) (hstep : ClientStep line line') : line'.Sending := by
  have hrequest : line'.request = line.request := by rw [request, request, hstep.payload]
  refine ⟨hstep.rxRing ▸ h.valid, hstep.rxRing ▸ h.capacity, ?_⟩
  rw [hrequest, hstep.rxRing]
  exact ((List.prefix_append_right_inj _).mpr hstep.way).trans h.way

theorem Sent.client (h : line.Sent) (hstep : ClientStep line line') : line'.Sent := by
  obtain ⟨hring, hway⟩ := List.append_eq_nil_iff.mp h.way
  refine ⟨hstep.rxRing ▸ h.valid, hstep.rxRing ▸ h.capacity, ?_⟩
  rw [hstep.rxRing, hring, List.nil_append]
  exact List.prefix_nil.mp (hway ▸ hstep.way)

/-- There is nothing more to read. -/
theorem Sent.recv_eq_none (h : line.Sent) (fd : Int) (k : ℕ) : line.recv fd k = none := by
  have hup : line.up = [] := (List.append_eq_nil_iff.mp (List.append_eq_nil_iff.mp h.way).2).1
  refine if_pos ?_
  rw [hup, List.length_nil]
  omega

/-- serverd reads some of the request and cuts nothing off, or it cuts off the request. -/
theorem Sending.recv {fd : Int} {msgs : List IpcMessage} {stays : Bool} (h : line.Sending)
    (hlen : line.payload.length ≤ 65535) (hrecv : line.recv fd k = some (msgs, line', stays)) :
    stays = true ∧ line'.payload = line.payload ∧ line'.client = line.client ∧
      line'.down = line.down ∧
      ((msgs = [] ∧ line'.Sending ∧ line.rxRing.content ++ line.up.take k ≠ line.request) ∨
        ∃ msg, msgs = [msg] ∧ msg.fd = fd ∧ msg.payload = line.request ∧ line'.Sent) := by
  unfold IpcLine.recv at hrecv
  split at hrecv
  next => cases hrecv
  next hk =>
    simp only [not_or, Nat.not_lt] at hk
    have hdata : (line.up.take k).length ≤ line.rxRing.writeLen :=
      (List.length_take_le _ _).trans hk.2.2
    obtain ⟨hmsgs, rxRing, hopen, hvalid, hcap, hcontent⟩ :=
      FrameReader.take_cuts (IpcReactor.accepts_reader fd) h.valid h.capacity hdata
    obtain ⟨rest, hrest⟩ := h.way
    -- The bytes in the ring are the beginning of the request, and what follows is `tail`.
    have hsplit : line.rxRing.content ++ line.up.take k ++
        (line.up.drop k ++ line.client.unsent line.payload ++ rest) = line.request := by
      rw [← hrest]
      simp only [List.append_assoc, ← List.append_assoc (line.up.take k), List.take_append_drop]
    have hframe := isFrame_request hlen
    rw [← hsplit] at hframe
    split at hrecv
    next hresult =>
      cases hrecv
      rw [hresult] at hmsgs hopen
      cases hopen
      refine ⟨rfl, rfl, rfl, rfl, ?_⟩
      rcases hframe.frames_or_rest with ⟨htail, hframes, hleft⟩ | ⟨htail, hframes, hleft⟩
      · rw [IpcReactor.reader, hframes] at hmsgs
        cases hmsgs with
        | cons hmake hnil =>
          cases hnil
          obtain ⟨hfd, hpayload⟩ := IpcMessage.make_eq_ok.mp hmake
          refine .inr ⟨_, rfl, hfd, ?_, hvalid, hcap, ?_⟩
          · rw [hpayload, ← hsplit, htail, List.append_nil]
          · rw [List.append_eq_nil_iff, List.append_eq_nil_iff] at htail
            obtain ⟨⟨hup, hunsent⟩, -⟩ := htail
            simp only [hcontent, IpcReactor.reader, hleft, hup, hunsent, List.nil_append]
      · rw [IpcReactor.reader, hframes] at hmsgs
        cases hmsgs
        refine .inl ⟨rfl, ⟨hvalid, hcap, rest, ?_⟩, fun hall => htail ?_⟩
        · simp only [request] at hsplit ⊢
          rw [hcontent, IpcReactor.reader, hleft, ← hsplit]
          simp only [List.append_assoc]
        · rw [← hall] at hsplit
          exact List.append_right_eq_self.mp hsplit
    next hresult =>
      rw [hresult] at hopen
      cases hopen
    next hresult =>
      rw [hresult] at hopen
      cases hopen

/-- serverd reads a request that fits the ring at once. -/
theorem recv_request (fd : Int) (h : line.Sending) (hring : line.rxRing.content = [])
    (hup : line.up = line.request) (hlen : line.payload.length ≤ 65535)
    (hroom : line.request.length ≤ line.rxRing.writeLen) :
    ∃ msg line', line.recv fd line.request.length = some ([msg], line', true) ∧ msg.fd = fd ∧
      msg.payload = line.request ∧ line'.payload = line.payload ∧ line'.client = line.client ∧
      line'.down = line.down := by
  have hall : line.up.take line.request.length = line.request := by rw [hup, List.take_length]
  have hpos : line.request.length ≠ 0 := by
    rw [request, List.length_append, length_beBytes]
    omega
  obtain ⟨-, rxRing, hopen, -⟩ := FrameReader.take_cuts (IpcReactor.accepts_reader fd) h.valid
    h.capacity (hall.symm ▸ hroom)
  obtain ⟨msgs, line', hrecv⟩ :
      ∃ msgs line', line.recv fd line.request.length = some (msgs, line', true) := by
    unfold recv
    rw [if_neg (by rw [hup]; omega)]
    split
    next => exact ⟨_, _, rfl⟩
    next hresult =>
      rw [hresult] at hopen
      cases hopen
    next hresult =>
      rw [hresult] at hopen
      cases hopen
  obtain ⟨-, hpayload, hclient, hdown, hcases⟩ := h.recv hlen hrecv
  rcases hcases with ⟨-, -, hmore⟩ | ⟨msg, rfl, hfd, hrequest, -⟩
  · exact absurd (by rw [hring, hall, List.nil_append]) hmore
  · exact ⟨msg, line', hrecv, hfd, hrequest, hpayload, hclient, hdown⟩

/-- A client that connects and writes its request, whose two parts the kernel takes whole. -/
theorem exists_waiting {payload : List UInt8} (hne : payload ≠ []) (hlen : payload.length ≤ 65535) :
    ∃ started writing waiting, connect payload = some started ∧ started.write 2 = some writing ∧
      writing.write payload.length = some waiting ∧ waiting.payload = payload ∧
      waiting.client = .readHeader [] ∧ waiting.down = [] ∧ waiting.up = waiting.request ∧
      waiting.rxRing = .new ipcMaxRxBufferSize := by
  let header := beBytes 2 (payload.length % 2 ^ 16)
  let started : IpcLine := { blank with payload := payload, client := .header header }
  let writing : IpcLine := { started with client := .body payload, up := header }
  let waiting : IpcLine := { started with client := .readHeader [], up := header ++ payload }
  refine ⟨started, writing, waiting, ?_, ?_, ?_, rfl, rfl, rfl, rfl, rfl⟩
  · have hsmall : ¬ IpcClient.maxBody < payload.length := by
      rw [IpcClient.maxBody]
      omega
    rw [connect, IpcClient.Phase.start, IpcClient.request, if_neg hsmall]
    rfl
  · simp [write, IpcClient.Phase.write, IpcClient.Phase.afterHeader, started, writing, header, hne, blank]
  · simp [write, IpcClient.Phase.write, started, writing, waiting, hne]

end IpcLine

end NfEngine
