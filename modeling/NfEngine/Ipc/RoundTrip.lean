-- SUMMARY: Building, framing and validating a message of the local socket undo each other.
import NfEngine.Ipc.IpcReactor
import NfEngine.Protocol.StreamReceive

/-!
# Frames of the local socket, there and back

Three pieces of serverd compute the length of a frame on their own: `buildFrame` from
the body, `IpcFraming` from the front of the ring and `validate` from the bytes that
were cut off. A disagreement between the last two would throw inside the reactor.

A built frame passes the other two and gives its body back, up to the length that
two bytes can announce. What the framing layer cuts off is always a built frame.
-/

namespace NfEngine

open Lib.Bytes Lib.Framing

namespace IpcMessage

/-- `IpcMessage::bodyLen`, with the shift of the source. -/
def bodyLen (msg : IpcMessage) : UInt16 :=
  match msg.payload with
  | high :: low :: _ => (high.toUInt16 <<< 8) ||| low.toUInt16
  | _ => 0

theorem toNat_shift_or (high low : UInt8) :
    ((high.toUInt16 <<< 8) ||| low.toUInt16).toNat = beNat [high, low] := by
  have hhigh := high.toNat_lt
  have hlow := low.toNat_lt
  have hshift : (high.toUInt16 <<< 8).toNat = high.toNat * 2 ^ 8 := by
    rw [UInt16.toNat_shiftLeft, UInt8.toNat_toUInt16, Nat.shiftLeft_eq]
    exact Nat.mod_eq_of_lt (by change high.toNat * 256 < 65536; omega)
  rw [UInt16.toNat_or, hshift, UInt8.toNat_toUInt16, Nat.mul_comm, ← Nat.two_pow_add_eq_or_of_lt hlow]
  change 256 * high.toNat + low.toNat = (0 * 256 + high.toNat) * 256 + low.toNat
  omega

/-- The shift reads the length that the constructor has checked. -/
theorem toNat_bodyLen (msg : IpcMessage) : msg.bodyLen.toNat = frameBodyLen msg.payload := by
  have hhead := msg.header_le
  unfold bodyLen
  rw [frameBodyLen, if_neg (Nat.not_lt.mpr hhead)]
  rcases hpayload : msg.payload with _ | ⟨high, _ | ⟨low, rest⟩⟩
  · rw [hpayload] at hhead
    exact absurd hhead (by simp [ipcHeaderSize])
  · rw [hpayload] at hhead
    exact absurd hhead (by simp [ipcHeaderSize])
  · exact toNat_shift_or high low

/-- The body is as long as its header says. -/
theorem length_body (msg : IpcMessage) : msg.body.length = msg.bodyLen.toNat := by
  rw [body_eq_drop, List.length_drop, msg.length_eq, toNat_bodyLen, Nat.add_sub_cancel]

theorem body_ofBody (fd : Int) (body : List UInt8) : (ofBody fd body).body = body.take 65535 := by
  rw [body_eq_drop]
  change (buildFrame body).drop ipcHeaderSize = _
  rw [buildFrame_eq]
  exact List.drop_left' (length_beBytes ..)

/-- Framing the body of a message gives its bytes back. -/
theorem buildFrame_body (msg : IpcMessage) : buildFrame msg.body = msg.payload := by
  have hlen := msg.length_body
  have hfits : msg.body.length < 2 ^ 16 := hlen ▸ msg.bodyLen.toNat_lt
  have hhead : beBytes 2 msg.body.length = msg.payload.take ipcHeaderSize := by
    have hslice : slice msg.payload 0 2 = msg.payload.take ipcHeaderSize := rfl
    have htwo : (msg.payload.take ipcHeaderSize).length = 2 := List.length_take_of_le msg.header_le
    rw [hlen, toNat_bodyLen, frameBodyLen, if_neg (Nat.not_lt.mpr msg.header_le), hslice]
    nth_rewrite 1 [← htwo]
    exact beBytes_beNat _
  rw [buildFrame_eq, Nat.min_eq_left (by omega), List.take_of_length_le (by omega), hhead, body_eq_drop]
  exact List.take_append_drop _ _

end IpcMessage

namespace IpcFraming

/-- A built frame is a whole frame of the layer. -/
theorem isFrame_buildFrame (body : List UInt8) :
    ipcHeader.format.IsFrame (IpcMessage.buildFrame body) := by
  refine FrameHeader.announced_eq_some.mpr ⟨?_, ?_⟩
  · rw [IpcMessage.length_buildFrame]
    exact Nat.le_add_right _ _
  · have hlen : beNat (slice (IpcMessage.buildFrame body) 0 2) = min body.length 65535 := by
      rw [IpcMessage.buildFrame_eq, slice_left (length_beBytes ..)]
      exact beNat_beBytes (Nat.lt_of_le_of_lt (Nat.min_le_right _ _) (by decide))
    rw [IpcMessage.length_buildFrame, ← hlen]
    rfl

/-- A frame that was built is recognised and cut off, whatever follows it in the ring.
    Of what is cut off from any ring the constructor makes a message, and it is the
    frame of that message's body. -/
theorem buildFrame_roundTrip (fd : Int) :
    (∀ body, ∃ msg, IpcMessage.make fd (IpcMessage.buildFrame body) = .ok msg ∧
        msg.bodyLen.toNat = min body.length 65535 ∧ msg.body = body.take (min body.length 65535)) ∧
      (∀ (body rest : List UInt8) (ring : ByteRingBuffer), ring.Valid →
        ring.content = IpcMessage.buildFrame body ++ rest →
        tryExtractFrame ring = .ok (IpcMessage.buildFrame body).length ∧
          (ring.read (IpcMessage.buildFrame body).length).1 = IpcMessage.buildFrame body ∧
          (ring.read (IpcMessage.buildFrame body).length).2.content = rest) ∧
      ∀ (ring : ByteRingBuffer) (frameLen : ℕ), ring.Valid → tryExtractFrame ring = .ok frameLen →
        (ring.read frameLen).1.length = frameLen ∧
          ∃ msg, IpcMessage.make fd (ring.read frameLen).1 = .ok msg ∧
            IpcMessage.buildFrame msg.body = (ring.read frameLen).1 := by
  refine ⟨?_, ?_, ?_⟩
  · intro body
    have hbody : (IpcMessage.ofBody fd body).body = body.take (min body.length 65535) := by
      rw [IpcMessage.body_ofBody, List.take_eq_take_min, Nat.min_comm]
    refine ⟨.ofBody fd body, IpcMessage.make_buildFrame fd body, ?_, hbody⟩
    rw [← IpcMessage.length_body, hbody, List.length_take]
    omega
  · intro body rest ring hvalid hcontent
    have hframe := Format.complete_append (isFrame_buildFrame body).complete rest
    obtain ⟨hread, _, hrest, _⟩ := hvalid.read (IpcMessage.buildFrame body).length
    rw [hcontent] at hread hrest
    refine ⟨?_, hread.trans List.take_left, hrest.trans List.drop_left⟩
    rw [tryExtractFrame, FrameHeader.tryExtractFrame_eq_complete hvalid, hcontent, hframe]
  · intro ring frameLen hvalid hok
    have hcomplete := FrameHeader.complete_of_ok hvalid hok
    obtain ⟨hread, _⟩ := hvalid.read frameLen
    rw [hread]
    obtain ⟨msg, hmake⟩ := IpcReactor.accepts_reader fd _ (FrameHeader.isFrame_take hcomplete)
    obtain ⟨_, hpayload⟩ := IpcMessage.make_eq_ok.mp hmake
    exact ⟨List.length_take_of_le (Format.complete_eq_some.mp hcomplete).2, msg, hmake,
      msg.buildFrame_body.trans hpayload⟩

theorem buildFrame_roundTrip_threeBytes :
    tryExtractFrame ((ByteRingBuffer.new 16).write [0, 3, 1, 2, 3, 0]).2 = .ok 5 ∧
      ∃ msg, IpcMessage.make 7 (((ByteRingBuffer.new 16).write [0, 3, 1, 2, 3, 0]).2.read 5).1 = .ok msg ∧
        IpcMessage.buildFrame msg.body = [0, 3, 1, 2, 3] := by
  have hvalid := ((ByteRingBuffer.valid_new (show 0 < 16 by decide)).write [0, 3, 1, 2, 3, 0]).2.1
  obtain ⟨hok, _, _⟩ := (buildFrame_roundTrip 7).2.1 [1, 2, 3] [0] _ hvalid (by decide)
  obtain ⟨_, msg, hmake, hframe⟩ := (buildFrame_roundTrip 7).2.2 _ 5 hvalid (by decide)
  exact ⟨hok, msg, hmake, hframe.trans (by decide)⟩

end IpcFraming

end NfEngine
