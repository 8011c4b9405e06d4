-- SUMMARY: Messages of the local socket between mgmtd and serverd: the framed message, the client that sends one and reads the reply, and which requests serverd recognises.
import NfEngine.Protocol.Framing

/-!
# Messages between mgmtd and serverd

Both programs put a two-byte big-endian length in front of a body. `IpcMessage` is
serverd's view of a frame: its constructor validates, so a message carries the
proof that its length agrees with its header. `IpcClient` is mgmtd's side: it
writes one request and reads one reply.

The two sides choose their limits apart from each other. The client admits bodies
of up to `64 * 1024` bytes, one more than the header can announce.
-/

namespace NfEngine

open Lib.Bytes

/-! ## serverd -/

/-- `IpcMessage::HEADER_SIZE`. -/
def ipcHeaderSize : ℕ := 2

namespace IpcMessage

/-- `IpcMessage::bodyLen` on the bytes of a frame. -/
def frameBodyLen (payload : List UInt8) : ℕ :=
  if payload.length < ipcHeaderSize then 0 else beNat (slice payload 0 2)

end IpcMessage

open IpcMessage in
/-- A message that `validate` has accepted. -/
structure IpcMessage where
  fd : Int
  payload : List UInt8
  header_le : ipcHeaderSize ≤ payload.length
  length_eq : payload.length = frameBodyLen payload + ipcHeaderSize
  deriving DecidableEq, Repr

namespace IpcMessage

/-- The constructor, with the texts that `validate` throws. -/
def make (fd : Int) (frame : List UInt8) : Except String IpcMessage :=
  if hhead : frame.length < ipcHeaderSize then
    .error "IpcMessage: invalid frame"
  else if hlen : frame.length ≠ frameBodyLen frame + ipcHeaderSize then
    .error "IpcMessage: length mismatch"
  else
    .ok ⟨fd, frame, Nat.not_lt.mp hhead, not_ne_iff.mp hlen⟩

def body (msg : IpcMessage) : List UInt8 :=
  if msg.payload.length ≤ ipcHeaderSize then [] else msg.payload.drop ipcHeaderSize

def buildFrame (body : List UInt8) : List UInt8 :=
  let body := if 0xFFFF < body.length then body.take 0xFFFF else body
  let len := body.length
  UInt8.ofNat ((len >>> 8) &&& 0xFF) :: UInt8.ofNat (len &&& 0xFF) :: body

/-- A header in front of a body of the announced length is a valid frame. -/
theorem frameBodyLen_beBytes {n : ℕ} (hn : n < 2 ^ 16) (rest : List UInt8) :
    frameBodyLen (beBytes 2 n ++ rest) = n := by
  have hlen : (beBytes 2 n ++ rest).length = 2 + rest.length := by simp
  have hslice : slice (beBytes 2 n ++ rest) 0 2 = beBytes 2 n :=
    slice_left (length_beBytes ..) rest
  rw [frameBodyLen, if_neg (by rw [hlen, ipcHeaderSize]; omega), hslice, beNat_beBytes hn]

theorem body_eq_drop (msg : IpcMessage) : msg.body = msg.payload.drop ipcHeaderSize := by
  unfold body
  split
  next hle => rw [List.drop_of_length_le hle]
  next => rfl

theorem make_eq_ok {fd : Int} {frame : List UInt8} {msg : IpcMessage} :
    make fd frame = .ok msg ↔ msg.fd = fd ∧ msg.payload = frame := by
  unfold make
  constructor
  · intro h
    repeat' split at h
    all_goals cases h
    exact ⟨rfl, rfl⟩
  · rintro ⟨rfl, rfl⟩
    rw [dif_neg (Nat.not_lt.mpr msg.header_le), dif_neg (not_ne_iff.mpr msg.length_eq)]

/-- The bytes that `buildFrame` writes: a body that is too long is cut. -/
theorem buildFrame_eq (body : List UInt8) :
    buildFrame body = beBytes 2 (min body.length 65535) ++ body.take 65535 := by
  have hbody : (if 0xFFFF < body.length then body.take 0xFFFF else body) = body.take 65535 := by
    split
    · rfl
    next hle => rw [List.take_of_length_le (Nat.not_lt.mp hle)]
  have hlow : ∀ n : ℕ, n &&& 255 = n % 256 := fun n => Nat.and_two_pow_sub_one_eq_mod n 8
  have hhigh : ∀ n : ℕ, n >>> 8 = n / 256 := fun n => Nat.shiftRight_eq_div_pow n 8
  unfold buildFrame
  simp only [hbody, List.length_take, beBytes, hlow, hhigh, List.nil_append, List.cons_append,
    Nat.min_comm body.length]

end IpcMessage

/-! ## mgmtd -/

/-- What `IpcClient::send` throws. -/
inductive IpcClientError where
  | payloadTooLarge
  | socketFailed
  | pathTooLong
  | connectFailed
  | writeFailed
  | readFailed
  | invalidReplyLength
  deriving DecidableEq, Repr

def IpcClientError.what : IpcClientError → String
  | payloadTooLarge => "IpcClient: payload too large"
  | socketFailed => "IpcClient: socket() failed"
  | pathTooLong => "IpcClient: socket path too long"
  | connectFailed => "IpcClient: connect() failed"
  | writeFailed => "IpcClient: write() failed"
  | readFailed => "IpcClient: read() failed"
  | invalidReplyLength => "IpcClient: invalid reply length"

structure IpcClient where
  socketPath : String

/-- What the client meets: whether the system calls succeed, and the bytes that the
    peer writes in answer to a request before it closes. -/
structure IpcPeer where
  socket : Bool
  connect : Bool
  write : Bool
  answer : List UInt8 → List UInt8

namespace IpcClient

/-- `IpcFraming::MAX_BODY` of mgmtd. -/
def maxBody : ℕ := 64 * 1024

/-- `sizeof(sockaddr_un::sun_path)`. -/
def sunPathSize : ℕ := 108

/-- The bytes that `send` writes: `htons` of the size cut to sixteen bits, then the
    payload. -/
def request (payload : List UInt8) : Except IpcClientError (List UInt8) :=
  if maxBody < payload.length then
    .error .payloadTooLarge
  else
    .ok (beBytes 2 (payload.length % 2 ^ 16) ++ payload)

/-- The reading half of `send`, on the bytes that arrive before the end of the
    stream. -/
def readReply (stream : List UInt8) : Except IpcClientError (List UInt8) :=
  if stream.length < 2 then
    .error .readFailed
  else
    let rlen := beNat (slice stream 0 2)
    if maxBody < rlen then
      .error .invalidReplyLength
    else if 0 < rlen ∧ (stream.drop 2).length < rlen then
      .error .readFailed
    else
      .ok (slice stream 2 rlen)

def send (client : IpcClient) (peer : IpcPeer) (payload : List UInt8) :
    Except IpcClientError (List UInt8) :=
  match request payload with
  | .error e => .error e
  | .ok bytes =>
    if !peer.socket then .error .socketFailed
    else if sunPathSize ≤ client.socketPath.utf8ByteSize then .error .pathTooLong
    else if !peer.connect then .error .connectFailed
    else if !peer.write then .error .writeFailed
    else readReply (peer.answer bytes)

/-- A reply whose header announces its body is read back, whatever follows. -/
theorem readReply_beBytes {body : List UInt8} (hlen : body.length < 2 ^ 16) (rest : List UInt8) :
    readReply (beBytes 2 body.length ++ (body ++ rest)) = .ok body := by
  have hhead : slice (beBytes 2 body.length ++ (body ++ rest)) 0 2 = beBytes 2 body.length :=
    slice_left (length_beBytes ..) _
  have hdrop : (beBytes 2 body.length ++ (body ++ rest)).drop 2 = body ++ rest :=
    List.drop_left' (length_beBytes ..)
  have hbody : slice (beBytes 2 body.length ++ (body ++ rest)) 2 body.length = body := by
    rw [slice, hdrop, List.take_left]
  have hmax : ¬ maxBody < body.length := by
    unfold maxBody
    omega
  have htwo : ¬ (beBytes 2 body.length ++ (body ++ rest)).length < 2 := by
    rw [List.length_append, length_beBytes]
    omega
  have hrlen : beNat (beBytes 2 body.length) = body.length := beNat_beBytes hlen
  have hall : ¬ (0 < body.length ∧ (body ++ rest).length < body.length) := by
    rw [List.length_append]
    omega
  simp only [readReply, if_neg htwo, hhead, hrlen, if_neg hmax, hdrop, if_neg hall, hbody]

end IpcClient

/-! ## Requests that serverd recognises -/

theorem ipcHeader_bodyLen?_beBytes {n : ℕ} (hn : n < 2 ^ 16) (rest : List UInt8) :
    ipcHeader.bodyLen? (beBytes 2 n ++ rest) = some n := by
  have hframe := IpcMessage.frameBodyLen_beBytes hn rest
  have hlen : ¬ (beBytes 2 n ++ rest).length < 2 := by
    rw [List.length_append, length_beBytes]
    omega
  rw [IpcMessage.frameBodyLen, ipcHeaderSize, if_neg hlen] at hframe
  unfold FrameHeader.bodyLen?
  change (if (beBytes 2 n ++ rest).length < 2 then none else _) = _
  rw [if_neg hlen]
  exact congrArg some hframe

/-- The ring holds exactly one frame, and the message of that frame has this body. -/
def Recognised (ring : ByteRingBuffer) (fd : Int) (bytes payload : List UInt8) : Prop :=
  IpcFraming.tryExtractFrame ring = .ok bytes.length ∧
    ∃ msg, IpcMessage.make fd (ring.read bytes.length).1 = .ok msg ∧ msg.body = payload

section Request

variable {payload : List UInt8} {ring : ByteRingBuffer}

/-- What serverd's framing sees of a written request. -/
theorem tryExtractFrame_request (hring : ring.Valid)
    (hcontent : ring.content = beBytes 2 (payload.length % 2 ^ 16) ++ payload) :
    IpcFraming.tryExtractFrame ring = .ok (2 + payload.length % 2 ^ 16) := by
  have hlen : ring.readable = 2 + payload.length := by
    rw [← hring.length_content, hcontent, List.length_append, length_beBytes]
  rw [IpcFraming.tryExtractFrame, ipcHeader.tryExtractFrame_eq hring, hcontent,
    ipcHeader_bodyLen?_beBytes (Nat.mod_lt _ (by decide))]
  refine if_neg ?_
  have := Nat.mod_le payload.length (2 ^ 16)
  change ¬ ring.readable < 2 + _
  omega

/-- serverd recognises a request that the client does not reject exactly when its
    size can be announced in two bytes. -/
theorem request_recognised_iff {bytes : List UInt8} (fd : Int)
    (hreq : IpcClient.request payload = .ok bytes) (hring : ring.Valid)
    (hempty : ring.content = []) (hroom : bytes.length ≤ ring.writable) :
    Recognised (ring.write bytes).2 fd bytes payload ↔ payload.length ≤ 65535 := by
  unfold IpcClient.request at hreq
  split at hreq
  next => cases hreq
  next hmax =>
    cases hreq
    obtain ⟨_, hvalid, hcontent, _⟩ := hring.write (beBytes 2 (payload.length % 2 ^ 16) ++ payload)
    rw [hempty, List.nil_append, List.take_of_length_le hroom] at hcontent
    have hframe := tryExtractFrame_request hvalid hcontent
    have hbytes : (beBytes 2 (payload.length % 2 ^ 16) ++ payload).length = 2 + payload.length := by
      rw [List.length_append, length_beBytes]
    constructor
    · rintro ⟨hok, _⟩
      rw [hframe, hbytes] at hok
      injection hok with hok
      have := Nat.mod_lt payload.length (show 0 < 2 ^ 16 by decide)
      omega
    · intro hle
      have hmod : payload.length % 2 ^ 16 = payload.length := Nat.mod_eq_of_lt (by omega)
      rw [hmod] at hvalid hcontent hframe hbytes ⊢
      have hread : ((ring.write (beBytes 2 payload.length ++ payload)).2.read
          (beBytes 2 payload.length ++ payload).length).1 = beBytes 2 payload.length ++ payload := by
        rw [(hvalid.read _).1, hcontent, List.take_length]
      have hhead : IpcMessage.frameBodyLen (beBytes 2 payload.length ++ payload) = payload.length :=
        IpcMessage.frameBodyLen_beBytes (by omega) payload
      refine ⟨by rw [hframe, hbytes], ⟨fd, beBytes 2 payload.length ++ payload, ?_, ?_⟩, ?_, ?_⟩
      · rw [hbytes, ipcHeaderSize]
        omega
      · rw [hhead, hbytes, ipcHeaderSize, Nat.add_comm]
      · rw [hread]
        exact IpcMessage.make_eq_ok.mpr ⟨rfl, rfl⟩
      · rw [IpcMessage.body_eq_drop]
        exact List.drop_left' (length_beBytes ..)

end Request

theorem recognised_threeBytes :
    Recognised ((ByteRingBuffer.new 16).write [0, 3, 1, 2, 3]).2 7 [0, 3, 1, 2, 3] [1, 2, 3] := by
  have hreq : IpcClient.request [1, 2, 3] = .ok [0, 3, 1, 2, 3] := rfl
  exact (request_recognised_iff 7 hreq (ByteRingBuffer.valid_new (by decide)) rfl (by decide)).mpr
    (by decide)

/-- A request of `64 * 1024` bytes is not rejected, announces a body of no bytes, and
    serverd takes its header alone for the frame. -/
theorem largestRequest_not_recognised :
    ∃ payload bytes, payload.length = 65536 ∧ IpcClient.request payload = .ok bytes ∧
      IpcFraming.tryExtractFrame ((ByteRingBuffer.new 131072).write bytes).2 = .ok 2 ∧
      ¬ Recognised ((ByteRingBuffer.new 131072).write bytes).2 7 bytes payload := by
  obtain ⟨payload, hlen⟩ : ∃ payload : List UInt8, payload.length = 65536 :=
    ⟨List.replicate 65536 0, List.length_replicate ..⟩
  have hreq : IpcClient.request payload = .ok (beBytes 2 (payload.length % 2 ^ 16) ++ payload) :=
    if_neg (by rw [hlen]; decide)
  have hbytes : (beBytes 2 (payload.length % 2 ^ 16) ++ payload).length = 65538 := by
    rw [List.length_append, length_beBytes, hlen]
  obtain ⟨_, hvalid, hcontent, _⟩ := (ByteRingBuffer.valid_new (show 0 < 131072 by decide)).write
    (beBytes 2 (payload.length % 2 ^ 16) ++ payload)
  rw [ByteRingBuffer.content_new, ByteRingBuffer.writable_new, List.nil_append,
    List.take_of_length_le (by omega)] at hcontent
  have hframe := tryExtractFrame_request hvalid hcontent
  have hzero : 2 + payload.length % 2 ^ 16 = 2 := by omega
  refine ⟨payload, _, hlen, hreq, hframe.trans (by rw [hzero]), ?_⟩
  rintro ⟨hok, _⟩
  rw [hframe, hbytes, hzero] at hok
  cases hok

end NfEngine
