-- SUMMARY: Which login requests the parser accepts, what it reads of them, and that it undoes the client's encoding.
import NfEngine.Execution.Header
import NfEngine.Lib.Decode

/-!
# Login requests

The body of a login request is two byte strings, each with its length in two bytes in
front. `parseLoginReq` walks over it with a running offset and checks every step
against the length of the body; it accepts exactly the bodies that begin so, and what
follows the second string is ignored.
-/

namespace NfEngine

open Lib.Bytes Lib.Buffer Lib.Decode

/-- The layout that `ParsedPacketTypes.h` gives for the body of a login request. -/
def loginBody (id pw : List UInt8) : List UInt8 :=
  beBytes 2 id.length ++ id ++ (beBytes 2 pw.length ++ pw)

theorem length_loginBody (id pw : List UInt8) :
    (loginBody id pw).length = 4 + id.length + pw.length := by
  simp only [loginBody, List.length_append, length_beBytes]
  omega

namespace LoginParser

/-! ## What is accepted -/

/-- The parser reads two strings off the body. -/
theorem parseLoginReq_eq {parsed : ParsedPacket} (hoff : parsed.bodyOffset = headerSize)
    (hfits : headerSize + parsed.bodyLen ≤ parsed.payload.length) :
    parseLoginReq parsed =
      (sized 2 parsed.body).bind fun (id, rest) =>
        (sized 2 rest).map fun (pw, _) => .loginReq parsed.sessionId parsed.payload id pw := by
  have hlen : parsed.bodyLen ≤ (parsed.payload.drop headerSize).length := by
    rw [List.length_drop]
    omega
  have hbody : parsed.body = ((parsed.payload.drop headerSize).take parsed.bodyLen).drop 0 := by
    rw [ParsedPacket.body, hoff]
    rfl
  rw [hbody, sized_drop_take hlen (Nat.zero_le _)]
  simp only [parseLoginReq, Nat.zero_add]
  rw [if_neg (by omega)]
  split
  next hshort => rw [if_neg (by omega)]; rfl
  next hhead =>
    split
    next hlong => rw [if_neg (by omega)]; rfl
    next hid =>
      rw [if_pos (And.intro (by omega) (by omega)), Option.bind_some]
      dsimp only
      rw [sized_drop_take hlen (by omega)]
      split
      next => rw [if_neg (by omega)]; rfl
      next =>
        split
        next => rw [if_neg (by omega)]; rfl
        next => rw [if_pos (And.intro (by omega) (by omega))]; rfl

/-- The event of a request, for a body that begins with two strings. -/
theorem parseLoginReq_eq_some {parsed : ParsedPacket} {ev : Event} (hoff : parsed.bodyOffset = headerSize)
    (hfits : headerSize + parsed.bodyLen ≤ parsed.payload.length) :
    parseLoginReq parsed = some ev ↔
      ∃ id pw, id.length < 2 ^ 16 ∧ pw.length < 2 ^ 16 ∧ loginBody id pw <+: parsed.body ∧
        ev = .loginReq parsed.sessionId parsed.payload id pw := by
  rw [parseLoginReq_eq hoff hfits, Option.bind_eq_some_iff]
  constructor
  · rintro ⟨⟨id, rest⟩, hid, hrest⟩
    obtain ⟨⟨pw, tail⟩, hpw, hev⟩ := Option.map_eq_some_iff.mp hrest
    obtain ⟨hbody, hidLen⟩ := sized_eq_some.mp hid
    obtain ⟨hrest, hpwLen⟩ := sized_eq_some.mp hpw
    refine ⟨id, pw, hidLen, hpwLen, ⟨tail, ?_⟩, hev.symm⟩
    rw [hbody, hrest, loginBody, List.append_assoc]
  · rintro ⟨id, pw, hidLen, hpwLen, ⟨tail, hbody⟩, rfl⟩
    refine ⟨(id, beBytes 2 pw.length ++ pw ++ tail), sized_eq_some.mpr ⟨?_, hidLen⟩, ?_⟩
    · rw [← hbody, loginBody, List.append_assoc]
    · exact Option.map_eq_some_iff.mpr ⟨(pw, tail), sized_eq_some.mpr ⟨rfl, hpwLen⟩, rfl⟩

/-! ## What is read -/

/-- A range of bytes of the payload. -/
structure Span where
  off : ℕ
  len : ℕ
  deriving DecidableEq, Repr

def Span.read (payload : List UInt8) (span : Span) : List UInt8 := slice payload span.off span.len

/-- The range stays inside of the body. -/
def Span.InBody (parsed : ParsedPacket) (span : Span) : Prop :=
  headerSize ≤ span.off ∧ span.off + span.len ≤ headerSize + parsed.bodyLen

/-- `parseLoginReq` with the ranges of the payload that it reads. -/
def parseLoginReqReads (parsed : ParsedPacket) : List Span × Option Event :=
  let payload := parsed.payload
  let len := parsed.bodyLen
  if payload.length < headerSize ∨ payload.length < headerSize + len then
    ([], none)
  else if len < 2 then
    ([], none)
  else
    let idLenAt : Span := ⟨headerSize, 2⟩
    let idLen := beNat (idLenAt.read payload)
    let offset := 2
    if offset + idLen > len then
      ([idLenAt], none)
    else
      let idAt : Span := ⟨headerSize + offset, idLen⟩
      let offset := offset + idLen
      if offset + 2 > len then
        ([idLenAt, idAt], none)
      else
        let pwLenAt : Span := ⟨headerSize + offset, 2⟩
        let pwLen := beNat (pwLenAt.read payload)
        let offset := offset + 2
        if offset + pwLen > len then
          ([idLenAt, idAt, pwLenAt], none)
        else
          let pwAt : Span := ⟨headerSize + offset, pwLen⟩
          ([idLenAt, idAt, pwLenAt, pwAt],
            some (.loginReq parsed.sessionId payload (idAt.read payload) (pwAt.read payload)))

/-- Without the record of its reads it is the parser. -/
theorem parseLoginReqReads_snd (parsed : ParsedPacket) :
    (parseLoginReqReads parsed).2 = parseLoginReq parsed := by
  have hslice : ∀ off len, slice (parsed.payload.drop headerSize) off len =
      Span.read parsed.payload ⟨headerSize + off, len⟩ := by
    intro off len
    rw [slice, List.drop_drop]
    rfl
  simp only [parseLoginReqReads, parseLoginReq, hslice, Nat.add_zero]
  split
  · rfl
  · split
    · rfl
    · split
      · rfl
      · split
        · rfl
        · split
          · rfl
          · rfl

/-- Every bound is checked before the range behind it is read. -/
theorem reads_inBody (parsed : ParsedPacket) :
    ∀ span ∈ (parseLoginReqReads parsed).1, span.InBody parsed := by
  simp only [parseLoginReqReads]
  repeat' split
  all_goals
    simp only [List.forall_mem_cons, List.not_mem_nil, false_imp_iff, implies_true, and_true, Span.InBody]
    try omega

/-- The credentials in the event of a login. -/
def credentials? : Event → Option (List UInt8 × List UInt8)
  | .loginReq _ _ id pw => some (id, pw)
  | _ => none

/-- The ranges are all that is read: a payload of the same length with the same bytes there gives
    the same result. -/
theorem credentials_of_agree {parsed : ParsedPacket} {payload : List UInt8}
    (hlen : payload.length = parsed.payload.length)
    (hagree : ∀ span ∈ (parseLoginReqReads parsed).1, span.read payload = span.read parsed.payload) :
    (parseLoginReq { parsed with payload := payload }).bind credentials? =
      (parseLoginReq parsed).bind credentials? := by
  rw [← parseLoginReqReads_snd, ← parseLoginReqReads_snd]
  simp only [parseLoginReqReads, hlen] at hagree ⊢
  by_cases hfits : parsed.payload.length < headerSize ∨
      parsed.payload.length < headerSize + parsed.bodyLen
  · simp only [if_pos hfits]
  simp only [if_neg hfits] at hagree ⊢
  by_cases hhead : parsed.bodyLen < 2
  · simp only [if_pos hhead]
  simp only [if_neg hhead] at hagree ⊢
  -- the length of the first string is read on every way from here
  rw [hagree ⟨headerSize, 2⟩ (by split_ifs <;> simp)]
  by_cases hid : 2 + beNat (Span.read parsed.payload ⟨headerSize, 2⟩) > parsed.bodyLen
  · simp only [if_pos hid]
  simp only [if_neg hid] at hagree ⊢
  by_cases hmore : 2 + beNat (Span.read parsed.payload ⟨headerSize, 2⟩) + 2 > parsed.bodyLen
  · simp only [if_pos hmore]
  simp only [if_neg hmore] at hagree ⊢
  rw [hagree _ (by split_ifs <;> simp)]
  by_cases hpw : 2 + beNat (Span.read parsed.payload ⟨headerSize, 2⟩) + 2 +
      beNat (Span.read parsed.payload
        ⟨headerSize + (2 + beNat (Span.read parsed.payload ⟨headerSize, 2⟩)), 2⟩) > parsed.bodyLen
  · simp only [if_pos hpw]
  · simp only [if_neg hpw] at hagree ⊢
    simp only [List.forall_mem_cons] at hagree
    simp only [Option.bind_some, credentials?, hagree.2.1, hagree.2.2.2.1]

end LoginParser

/-! ## The client -/

namespace Client

/-- The stores of `Client::buildLoginReq`, for any account and password in the place of
    `"test"`. -/
def loginReqStores (id pw : List UInt8) : List (ℕ × List UInt8) :=
  let bodyLen := (2 + id.length + 2 + pw.length) % 2 ^ 16
  let idLen := id.length % 2 ^ 16
  let pwLen := pw.length % 2 ^ 16
  let off := 16 + 2 + idLen
  headerByteStores .loginReq (UInt8.ofNat (bodyLen >>> 8)) (UInt8.ofNat (bodyLen &&& 0xFF)) 0 ++
    [(16, [UInt8.ofNat (idLen >>> 8)]), (16 + 1, [UInt8.ofNat (idLen &&& 0xFF)]),
      (16 + 2, id.take idLen),
      (off, [UInt8.ofNat (pwLen >>> 8)]), (off + 1, [UInt8.ofNat (pwLen &&& 0xFF)]),
      (off + 2, pw.take pwLen)]

def fillLoginReq (id pw : List UInt8) : Option (List UInt8) :=
  storeAll (zeros (16 + (2 + id.length + 2 + pw.length) % 2 ^ 16)) (loginReqStores id pw)

/-- `Client::buildLoginReq`. -/
def buildLoginReq : Option (List UInt8) := fillLoginReq LoginContext.testName LoginContext.testName

/-- The client writes the documented layout, as long as the length of the body can be
    announced. -/
theorem fillLoginReq_eq {id pw : List UInt8} (hlen : 4 + id.length + pw.length ≤ 65535) :
    fillLoginReq id pw = some (buildHeader .loginReq (loginBody id pw).length 0 ++ loginBody id pw) := by
  have hbodyLen : (2 + id.length + 2 + pw.length) % 2 ^ 16 = (loginBody id pw).length := by
    rw [length_loginBody]
    omega
  have hidLen : id.length % 2 ^ 16 = id.length := Nat.mod_eq_of_lt (by omega)
  have hpwLen : pw.length % 2 ^ 16 = pw.length := Nat.mod_eq_of_lt (by omega)
  have hflat : (loginReqStores id pw).flatMap Prod.snd =
      buildHeader .loginReq (loginBody id pw).length 0 ++ loginBody id pw := by
    simp only [loginReqStores, hbodyLen, hidLen, hpwLen, List.take_length]
    rw [List.flatMap_append, flatMap_headerByteStores .loginReq (beBytes_two _).symm]
    simp [loginBody, beBytes_two]
  have hadj : Adjacent 0 (loginReqStores id pw) := by
    simp only [loginReqStores, hidLen, hpwLen, List.take_length]
    simp [headerByteStores, Adjacent]
  rw [fillLoginReq, storeAll_zeros hadj ?_, hflat]
  rw [hflat, List.length_append, length_buildHeader, hbodyLen, headerSize]

end Client

/-! ## Both together -/

/-- The parser accepts the requests whose body begins with two strings, takes these two and
    reads nothing outside of the body: other bytes elsewhere change nothing. A request that was
    encoded as documented comes back. -/
theorem LoginParser.parseLoginReq_exact :
    (∀ packet parsed, PacketParser.parse packet = some parsed →
      (∀ ev, parseLoginReq parsed = some ev ↔
        ∃ id pw, id.length < 2 ^ 16 ∧ pw.length < 2 ^ 16 ∧ loginBody id pw <+: parsed.body ∧
          ev = .loginReq parsed.sessionId parsed.payload id pw) ∧
      (parseLoginReqReads parsed).2 = parseLoginReq parsed ∧
      (∀ span ∈ (parseLoginReqReads parsed).1, span.InBody parsed) ∧
      ∀ payload : List UInt8, payload.length = parsed.payload.length →
        (∀ span ∈ (parseLoginReqReads parsed).1, span.read payload = span.read parsed.payload) →
        (parseLoginReq { parsed with payload := payload }).bind credentials? =
          (parseLoginReq parsed).bind credentials?) ∧
    ∀ id pw : List UInt8, 4 + id.length + pw.length ≤ 65535 →
      ∃ frame, Client.fillLoginReq id pw = some frame ∧
        frame = buildHeader .loginReq (loginBody id pw).length 0 ++ loginBody id pw ∧
        ∀ fd connInfo, ∃ parsed, PacketParser.parse ⟨fd, connInfo, frame⟩ = some parsed ∧
          parsed.opcode = .loginReq ∧ parseLoginReq parsed = some (.loginReq 0 frame id pw) := by
  refine ⟨?_, ?_⟩
  · intro packet parsed hparse
    obtain ⟨hoff, hfits⟩ := PacketParser.body_bounds hparse
    exact ⟨fun ev => parseLoginReq_eq_some hoff hfits, parseLoginReqReads_snd _, reads_inBody _,
      fun _ => credentials_of_agree⟩
  · intro id pw hlen
    refine ⟨_, Client.fillLoginReq_eq hlen, rfl, ?_⟩
    intro fd connInfo
    have hbodyLen : (loginBody id pw).length < 2 ^ 16 := by
      rw [length_loginBody]
      omega
    obtain ⟨parsed, hparse, hdelivers⟩ :=
      @PacketParser.parse_buildHeader .loginReq rfl 0 _ hbodyLen fd connInfo
    obtain ⟨hoff, hfits⟩ := PacketParser.body_bounds hparse
    have hbody : loginBody id pw <+: parsed.body := hdelivers.body ▸ List.prefix_rfl
    refine ⟨parsed, hparse, hdelivers.opcode, ?_⟩
    apply (parseLoginReq_eq_some hoff hfits).mpr
    refine ⟨id, pw, by omega, by omega, hbody, ?_⟩
    rw [hdelivers.sessionId, hdelivers.payload]

/-- The request that the client of the simulator sends, and what the parser reads of it. -/
theorem LoginParser.parseLoginReq_exact_test :
    ∃ frame parsed, Client.buildLoginReq = some frame ∧
      PacketParser.parse ⟨7, .zero, frame⟩ = some parsed ∧
      parseLoginReq parsed = some (.loginReq 0 frame LoginContext.testName LoginContext.testName) ∧
      ∀ span ∈ (parseLoginReqReads parsed).1, span.InBody parsed := by
  obtain ⟨frame, hfill, _, hparses⟩ :=
    parseLoginReq_exact.2 LoginContext.testName LoginContext.testName (by decide)
  obtain ⟨parsed, hparse, _, hevent⟩ := hparses 7 .zero
  obtain ⟨_, _, hreads, _⟩ := parseLoginReq_exact.1 _ _ hparse
  exact ⟨frame, parsed, hfill, hparse, hevent, hreads⟩

end NfEngine
