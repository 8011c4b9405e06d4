-- SUMMARY: The receive loop over a ring that the stream reactors share, and that it cuts a byte stream into its frames however it arrives.
import NfEngine.Protocol.Framing

/-!
# Reading frames off a stream

The receive loops of the stream reactors have one shape. A round reads into the
contiguous room of the ring, cuts off every complete frame and makes something of it;
the loop goes on until nothing is readable. They differ in the read call, in the header
of a frame, and in what becomes of a frame.

Every answer of the read calls is given from outside: the pieces of the stream, each as
long as the kernel or OpenSSL likes within the room that was offered. What the loop
makes of the frames does not depend on the pieces.
-/

namespace NfEngine

open Lib.Bytes Lib.Framing

namespace FrameHeader

/-- A frame is a header and the body whose length the header announces. -/
def format (hdr : FrameHeader) : Format UInt8 where
  announced xs := (hdr.bodyLen? xs).map (hdr.size + ·)
  pos := by
    intro xs n h
    obtain ⟨body, _, rfl⟩ := Option.map_eq_some_iff.mp h
    have := hdr.lenAt_le
    omega
  stable := by
    intro xs n h ys
    obtain ⟨body, hbody, rfl⟩ := Option.map_eq_some_iff.mp h
    have hsize := hdr.lenAt_le
    unfold bodyLen? at hbody ⊢
    split at hbody
    · cases hbody
    next hlen =>
      rw [if_neg (by rw [List.length_append]; omega), slice_append (by omega)]
      exact Option.map_eq_some_iff.mpr ⟨body, hbody, rfl⟩

variable {hdr : FrameHeader} {xs : List UInt8} {n : ℕ}

theorem announced_eq_some :
    hdr.format.announced xs = some n ↔
      hdr.size ≤ xs.length ∧ n = hdr.size + beNat (slice xs hdr.lenAt 2) := by
  change (hdr.bodyLen? xs).map (hdr.size + ·) = some n ↔ _
  unfold bodyLen?
  split
  next hshort => simp [Nat.not_le.mpr hshort]
  next hlen =>
    rw [Option.map_some, Option.some.injEq, eq_comm]
    exact ⟨fun h => ⟨Nat.not_lt.mp hlen, h⟩, fun h => h.2⟩

/-- On a valid ring the layer answers whether the content begins with a whole frame. -/
theorem tryExtractFrame_eq_complete {r : ByteRingBuffer} (h : r.Valid) :
    hdr.tryExtractFrame r =
      match hdr.format.complete r.content with
      | none => .needMoreData
      | some n => .ok n := by
  rw [hdr.tryExtractFrame_eq h]
  cases hbody : hdr.bodyLen? r.content with
  | none =>
    have hnone : hdr.format.announced r.content = none := by
      change (hdr.bodyLen? r.content).map _ = none
      rw [hbody]
      rfl
    rw [Format.complete, hnone]
    rfl
  | some body =>
    have hsome : hdr.format.announced r.content = some (hdr.size + body) := by
      change (hdr.bodyLen? r.content).map _ = _
      rw [hbody]
      rfl
    dsimp only
    split
    next hshort =>
      rw [← h.length_content] at hshort
      rw [Format.complete_eq_none_of_announced hsome hshort]
    next hfull =>
      rw [← h.length_content] at hfull
      rw [Format.complete_eq_some.mpr ⟨hsome, Nat.not_lt.mp hfull⟩]

theorem complete_of_ok {r : ByteRingBuffer} (h : r.Valid) (hok : hdr.tryExtractFrame r = .ok n) :
    hdr.format.complete r.content = some n := by
  rw [tryExtractFrame_eq_complete h] at hok
  split at hok
  next => cases hok
  next hcomplete =>
    cases hok
    exact hcomplete

/-- What is cut off is a whole frame. -/
theorem isFrame_take (h : hdr.format.complete xs = some n) : hdr.format.IsFrame (xs.take n) := by
  obtain ⟨hann, hle⟩ := Format.complete_eq_some.mp h
  obtain ⟨hsize, hn⟩ := announced_eq_some.mp hann
  have hlen : (xs.take n).length = n := by rw [List.length_take, Nat.min_eq_left hle]
  have hbound := hdr.lenAt_le
  refine announced_eq_some.mpr ⟨by omega, ?_⟩
  rw [hlen, slice_take (by omega)]
  exact hn

theorem isFrame_of_mem_frames {f : List UInt8} (h : f ∈ hdr.format.frames xs) :
    hdr.format.IsFrame f := by
  induction xs using hdr.format.frames_induct with
  | hnone xs hc =>
    rw [Format.frames_of_complete_eq_none hc] at h
    cases h
  | hsome xs n hc ih =>
    rw [Format.frames_of_complete hc] at h
    cases h with
    | head => exact isFrame_take hc
    | tail _ hmem => exact ih hmem

/-- An incomplete frame that fits the ring leaves room in it. -/
theorem length_lt_of_fits {cap : ℕ} {ys : List UInt8} (hcap : hdr.size ≤ cap)
    (hc : hdr.format.complete xs = none) (hfits : hdr.format.Fits cap (xs ++ ys)) :
    xs.length < cap := by
  rcases Nat.lt_or_ge xs.length hdr.size with hhead | hhead
  · exact hhead.trans_le hcap
  · have hsome : hdr.format.announced xs = some (hdr.size + beNat (slice xs hdr.lenAt 2)) :=
      announced_eq_some.mpr ⟨hhead, rfl⟩
    exact (Format.lt_of_complete_eq_none hc hsome).trans_le (hfits.announced_le hsome)

end FrameHeader

/-! ## The loop -/

/-- Why a receive loop closes its connection. -/
inductive CloseReason where
  | ringFull
  | framing
  | shortRead
  | endOfStream
  | failed
  deriving DecidableEq, Repr

/-- What has become of the connection. -/
inductive RxResult where
  | open (rxRing : ByteRingBuffer)
  | closed (reason : CloseReason)
  /-- The constructor of the message has thrown. -/
  | threw (what : String)

/-- A read call that has returned bytes, or after which the loop tries again. -/
inductive ReadAnswer where
  | bytes (data : List UInt8)
  | again

/-- The bytes of a list of answers. -/
def ReadAnswer.data : ReadAnswer → List UInt8
  | .bytes data => data
  | .again => []

/-- The answer of a read call that ends the loop. -/
inductive ReadEnd where
  | stop
  | close (reason : CloseReason)

/-- The frames that a loop reads, and what it makes of each. -/
structure FrameReader (π : Type) where
  hdr : FrameHeader
  make : List UInt8 → Except String π

namespace FrameReader

variable {π : Type}

/-- The inner loop. A frame is at least a header long, so the readable bytes bound its
    rounds. -/
def extractFrames (reader : FrameReader π) : ℕ → ByteRingBuffer → List π × RxResult
  | 0, rxRing => ([], .open rxRing)
  | fuel + 1, rxRing =>
    match reader.hdr.tryExtractFrame rxRing with
    | .needMoreData => ([], .open rxRing)
    | .invalidBodyLen => ([], .closed .framing)
    | .ok frameLen =>
      let (payload, rxRing') := rxRing.read frameLen
      if payload.length ≠ frameLen then
        ([], .closed .shortRead)
      else
        match reader.make payload with
        | .error what => ([], .threw what)
        | .ok msg =>
          let (msgs, result) := reader.extractFrames fuel rxRing'
          (msg :: msgs, result)

/-- `produce` of the bytes that were read, and the inner loop. -/
def take (reader : FrameReader π) (rxRing : ByteRingBuffer) (data : List UInt8) :
    List π × RxResult :=
  let filled := (rxRing.store data).produce data.length
  reader.extractFrames filled.readable filled

/-- The outer loop: the answers of its read calls, the last of which ends it. -/
def receive (reader : FrameReader π) : List ReadAnswer → ReadEnd → ByteRingBuffer → List π × RxResult
  | [], last, rxRing =>
    if rxRing.writeLen = 0 then
      ([], .closed .ringFull)
    else
      match last with
      | .stop => ([], .open rxRing)
      | .close reason => ([], .closed reason)
  | answer :: answers, last, rxRing =>
    if rxRing.writeLen = 0 then
      ([], .closed .ringFull)
    else
      match answer with
      | .again => reader.receive answers last rxRing
      | .bytes data =>
        match reader.take rxRing data with
        | (msgs, .open rxRing') =>
          let (msgs', result) := reader.receive answers last rxRing'
          (msgs ++ msgs', result)
        | (msgs, result) => (msgs, result)

/-- The handlers of several events, one after the other. -/
def receiveAll (reader : FrameReader π) :
    List (List ReadAnswer × ReadEnd) → ByteRingBuffer → List π × RxResult
  | [], rxRing => ([], .open rxRing)
  | (answers, last) :: events, rxRing =>
    match reader.receive answers last rxRing with
    | (msgs, .open rxRing') =>
      let (msgs', result) := reader.receiveAll events rxRing'
      (msgs ++ msgs', result)
    | (msgs, result) => (msgs, result)

/-- Every piece is non-empty and no longer than the room it was offered. -/
def Offered (reader : FrameReader π) : List ReadAnswer → ByteRingBuffer → Prop
  | [], _ => True
  | .again :: answers, rxRing => reader.Offered answers rxRing
  | .bytes data :: answers, rxRing =>
    data ≠ [] ∧ data.length ≤ rxRing.writeLen ∧
      ∀ rxRing', (reader.take rxRing data).2 = .open rxRing' → reader.Offered answers rxRing'

/-- The same for all events, each of which ends because nothing more is readable. -/
def OfferedAll (reader : FrameReader π) :
    List (List ReadAnswer × ReadEnd) → ByteRingBuffer → Prop
  | [], _ => True
  | (answers, last) :: events, rxRing =>
    last = .stop ∧ reader.Offered answers rxRing ∧
      ∀ rxRing', (reader.receive answers last rxRing).2 = .open rxRing' →
        reader.OfferedAll events rxRing'

/-! ## What the loop does to a stream -/

/-- The loop makes these messages of the frames of the stream and leaves its rest. -/
structure Cuts (reader : FrameReader π) (capacity : ℕ) (stream : List UInt8)
    (result : List π × RxResult) : Prop where
  msgs : List.Forall₂ (fun f msg => reader.make f = .ok msg) (reader.hdr.format.frames stream)
    result.1
  ring : ∃ rxRing, result.2 = .open rxRing ∧ rxRing.Valid ∧ rxRing.buffer.length = capacity ∧
    rxRing.content = reader.hdr.format.rest stream

/-- A loop that has cut a beginning goes on with what it left. -/
theorem Cuts.append {reader : FrameReader π} {capacity : ℕ} {stream more : List UInt8}
    {rxRing : ByteRingBuffer} {msgs : List π} {next : List π × RxResult}
    (h : reader.Cuts capacity stream (msgs, .open rxRing))
    (hnext : reader.Cuts capacity (rxRing.content ++ more) next) :
    reader.Cuts capacity (stream ++ more) (msgs ++ next.1, next.2) := by
  obtain ⟨_, hopen, _, _, hcontent⟩ := h.ring
  cases hopen
  rw [hcontent] at hnext
  constructor
  · rw [Format.frames_append]
    exact List.rel_append h.msgs hnext.msgs
  · rw [Format.rest_append]
    exact hnext.ring

variable {reader : FrameReader π} {capacity : ℕ} {rxRing : ByteRingBuffer}

/-- The constructor accepts every whole frame. -/
def Accepts (reader : FrameReader π) : Prop :=
  ∀ f, reader.hdr.format.IsFrame f → ∃ msg, reader.make f = .ok msg

/-- A constructor that never throws. -/
theorem msgs_eq_map {f : List UInt8 → π} (hmake : ∀ xs, reader.make xs = .ok (f xs))
    {fs : List (List UInt8)} {msgs : List π}
    (h : List.Forall₂ (fun xs msg => reader.make xs = .ok msg) fs msgs) : msgs = fs.map f := by
  rw [eq_comm, ← List.forall₂_eq_eq_eq, List.forall₂_map_left_iff]
  exact h.imp fun xs _ hok => Except.ok.inj ((hmake xs).symm.trans hok)

theorem cuts_of_incomplete (h : rxRing.Valid) (hcap : rxRing.buffer.length = capacity)
    (hc : reader.hdr.format.complete rxRing.content = none) :
    reader.Cuts capacity rxRing.content ([], .open rxRing) where
  msgs := by
    rw [Format.frames_of_complete_eq_none hc]
    exact .nil
  ring := ⟨rxRing, rfl, h, hcap, (Format.rest_of_complete_eq_none hc).symm⟩

theorem extractFrames_cuts (haccepts : reader.Accepts) (fuel : ℕ) (h : rxRing.Valid)
    (hcap : rxRing.buffer.length = capacity) (hfuel : rxRing.readable ≤ fuel) :
    reader.Cuts capacity rxRing.content (reader.extractFrames fuel rxRing) := by
  induction fuel generalizing rxRing with
  | zero =>
    have hnil : rxRing.content = [] :=
      List.eq_nil_of_length_eq_zero (h.length_content.trans (Nat.le_zero.mp hfuel))
    apply cuts_of_incomplete h hcap
    rw [hnil]
    exact Format.complete_nil
  | succ fuel ih =>
    unfold extractFrames
    rw [FrameHeader.tryExtractFrame_eq_complete h]
    cases hc : reader.hdr.format.complete rxRing.content with
    | none => exact cuts_of_incomplete h hcap hc
    | some n =>
      obtain ⟨hann, hle⟩ := Format.complete_eq_some.mp hc
      have hpos := reader.hdr.format.pos hann
      obtain ⟨hpayload, hvalid, hcontent, hbuf⟩ := h.read n
      obtain ⟨msg, hmsg⟩ := haccepts _ (FrameHeader.isFrame_take hc)
      have hlen : (rxRing.read n).1.length = n := by
        rw [hpayload, List.length_take, Nat.min_eq_left hle]
      have hreadable : (rxRing.read n).2.readable ≤ fuel := by
        rw [← hvalid.length_content, hcontent, List.length_drop, h.length_content]
        omega
      have hrest := ih hvalid (hbuf.trans hcap) hreadable
      rw [hcontent] at hrest
      rw [← hpayload] at hmsg
      simp only [hlen, ne_eq, not_true, if_false, hmsg]
      constructor
      · rw [Format.frames_of_complete hc]
        exact .cons (hpayload ▸ hmsg) hrest.msgs
      · rw [Format.rest_of_complete hc]
        exact hrest.ring

/-- One round of the outer loop. -/
theorem take_cuts (haccepts : reader.Accepts) {data : List UInt8} (h : rxRing.Valid)
    (hcap : rxRing.buffer.length = capacity) (hdata : data.length ≤ rxRing.writeLen) :
    reader.Cuts capacity (rxRing.content ++ data) (reader.take rxRing data) := by
  obtain ⟨hvalid, hcontent, hbuf⟩ := h.produce hdata
  have hcuts := extractFrames_cuts haccepts _ hvalid (hbuf.trans hcap) (Nat.le_refl _)
  rwa [hcontent] at hcuts

/-- The handler of one event. -/
theorem receive_cuts (haccepts : reader.Accepts) (hsize : reader.hdr.size ≤ capacity)
    {answers : List ReadAnswer} (h : rxRing.Valid) (hcap : rxRing.buffer.length = capacity)
    (hc : reader.hdr.format.complete rxRing.content = none)
    (hfits : reader.hdr.format.Fits capacity (rxRing.content ++ answers.flatMap ReadAnswer.data))
    (hoffered : reader.Offered answers rxRing) :
    reader.Cuts capacity (rxRing.content ++ answers.flatMap ReadAnswer.data)
      (reader.receive answers .stop rxRing) := by
  have hroom : rxRing.writeLen ≠ 0 := by
    have hlt := FrameHeader.length_lt_of_fits hsize hc hfits
    exact (h.writeLen_pos (hcap ▸ hlt)).ne'
  induction answers generalizing rxRing with
  | nil =>
    rw [List.flatMap_nil, List.append_nil, receive, if_neg hroom]
    exact cuts_of_incomplete h hcap hc
  | cons answer answers ih =>
    unfold receive
    rw [if_neg hroom]
    cases answer with
    | again => exact ih h hcap hc hfits hoffered hroom
    | bytes data =>
      obtain ⟨_, hlen, hnext⟩ := hoffered
      have hcuts := take_cuts haccepts h hcap hlen
      obtain ⟨rxRing', hopen, hvalid, hbuf, hcontent⟩ := hcuts.ring
      rw [List.flatMap_cons, ReadAnswer.data, ← List.append_assoc] at hfits ⊢
      -- what is still to come continues what is left in the ring
      have hc' : reader.hdr.format.complete rxRing'.content = none := by
        rw [hcontent]
        exact Format.complete_rest _
      have hfits' : reader.hdr.format.Fits capacity
          (rxRing'.content ++ answers.flatMap ReadAnswer.data) := by
        rw [hcontent]
        exact hfits.of_append
      have hroom' : rxRing'.writeLen ≠ 0 := by
        have hlt := FrameHeader.length_lt_of_fits hsize hc' hfits'
        exact (hvalid.writeLen_pos (hbuf ▸ hlt)).ne'
      have hrest := ih hvalid hbuf hc' hfits' (hnext rxRing' hopen) hroom'
      dsimp only
      generalize reader.take rxRing data = first at hcuts hopen
      obtain ⟨msgs, result⟩ := first
      obtain rfl : result = .open rxRing' := hopen
      exact hcuts.append hrest

/-- The handlers of all events. -/
theorem receiveAll_cuts (haccepts : reader.Accepts) (hsize : reader.hdr.size ≤ capacity)
    {events : List (List ReadAnswer × ReadEnd)} (h : rxRing.Valid)
    (hcap : rxRing.buffer.length = capacity)
    (hc : reader.hdr.format.complete rxRing.content = none)
    (hfits : reader.hdr.format.Fits capacity
      (rxRing.content ++ events.flatMap fun e => e.1.flatMap ReadAnswer.data))
    (hoffered : reader.OfferedAll events rxRing) :
    reader.Cuts capacity (rxRing.content ++ events.flatMap fun e => e.1.flatMap ReadAnswer.data)
      (reader.receiveAll events rxRing) := by
  induction events generalizing rxRing with
  | nil =>
    rw [List.flatMap_nil, List.append_nil]
    exact cuts_of_incomplete h hcap hc
  | cons event events ih =>
    obtain ⟨answers, last⟩ := event
    obtain ⟨rfl, hone, hnext⟩ := hoffered
    rw [List.flatMap_cons, ← List.append_assoc] at hfits ⊢
    have hcuts := receive_cuts haccepts hsize h hcap hc hfits.prefix_fits hone
    obtain ⟨rxRing', hopen, hvalid, hbuf, hcontent⟩ := hcuts.ring
    have hrest := ih hvalid hbuf (by rw [hcontent]; exact Format.complete_rest _)
      (by rw [hcontent]; exact hfits.of_append) (hnext rxRing' hopen)
    unfold receiveAll
    generalize reader.receive answers .stop rxRing = first at hcuts hopen
    obtain ⟨msgs, result⟩ := first
    obtain rfl : result = .open rxRing' := hopen
    exact hcuts.append hrest

end FrameReader

/-- A ping without a body, in the wire format of TCP and TLS. -/
def bareFrame : List UInt8 := [1, 0x90, 0, 0, 0, 0, 0, 0, 0, 0, 0, 1, 0, 0, 0, 0]

end NfEngine
