import Kimserver.Codec.Proto

/-!
# Encoding and decoding one message

`CodecProto::encode` copies 15 bytes at the serialized head, whatever its length. A field that is
zero is left out of it, so the copy runs on over the end of the string; the bytes it finds there
come neither from the head nor from the body, and `decode` reads them as part of the head.

## Main definitions

* `RoundTrips`: encoding appends the serialized head and body, and decoding takes them back

## Main results

* `length_serializeHead_iff`: the heads that have 15 bytes
* `roundTrips_iff`: the messages that survive
-/

namespace Kimserver

/-- `encode` returns `OK` and appends the serialized head and body to whatever the buffer holds;
`decode` gives the message back from the appended bytes, and takes all of them. -/
def RoundTrips (pb : Protobuf) (stray : ℕ → UInt8) (m : Message) (sbuf : SocketBuffer) : Prop :=
  (encode pb stray true true m.1 m.2 sbuf).1 = .ok ∧
    (encode pb stray true true m.1 m.2 sbuf).2.contents =
      sbuf.contents ++ (serializeHead m.1 ++ pb.serializeBody m.2) ∧
    ∀ b : SocketBuffer, b.Wf →
      sbuf.contents ++ b.contents = (encode pb stray true true m.1 m.2 sbuf).2.contents →
      decode pb b = .ok m.1 m.2 (b.skipBytes b.readableLen)

section Head

variable (h : MsgHead)

/-- A field has five bytes or is left out. -/
theorem length_fixed32Field_eq {number : ℕ} (hpos : 0 < number) (hlt : number < 15) (v : UInt32) :
    (Wire.encodeFields (fixed32Field number v hpos)).length = if v = 0 then 0 else 5 := by
  split_ifs with hv
  · rw [fixed32Field, if_pos hv]
    rfl
  · exact length_fixed32Field hpos hlt hv

theorem toUInt32_len_eq_zero_iff : CInt.toUInt32 h.len = 0 ↔ h.len = 0 := by
  constructor
  · intro hzero
    have hback := CInt.toInt_toUInt32 h.inRange
    rw [hzero] at hback
    rw [← hback]
    exact CInt.toInt_of_inRange (by decide)
  · intro hzero
    rw [hzero]
    rfl

theorem length_serializeHead_eq : (serializeHead h).length =
    (if h.cmd = 0 then 0 else 5) + (if h.seq = 0 then 0 else 5) + if h.len = 0 then 0 else 5 := by
  simp only [serializeHead, headFields, Wire.encodeFields_append, List.length_append,
    ← toUInt32_len_eq_zero_iff]
  rw [length_fixed32Field_eq (by decide) (by decide), length_fixed32Field_eq (by decide)
    (by decide), length_fixed32Field_eq (by decide) (by decide)]

/-- **Only a head without a zero field has 15 bytes.** -/
theorem length_serializeHead_iff :
    (serializeHead h).length = protoMsgHeadLen ↔ h.cmd ≠ 0 ∧ h.seq ≠ 0 ∧ h.len ≠ 0 := by
  rw [length_serializeHead_eq, protoMsgHeadLen]
  split_ifs <;> simp_all

theorem length_serializeHead_le : (serializeHead h).length ≤ protoMsgHeadLen := by
  rw [length_serializeHead_eq, protoMsgHeadLen]
  split_ifs <;> decide

theorem length_headBytes (stray : ℕ → UInt8) : (headBytes stray h).length = protoMsgHeadLen := by
  have hle := length_serializeHead_le h
  rw [headBytes, List.length_append, List.length_map, List.length_range]
  omega

end Head

section Message

variable {pb : Protobuf} {m : Message} {sbuf : SocketBuffer}

/-- The bytes of a well-formed message are decoded as it is. -/
theorem WellFormed.decode_frame (h : WellFormed pb m) (hsmall : frameLen pb m < 2147483648)
    {b : SocketBuffer} (hb : b.Wf) (hcontents : b.contents = frame pb m) :
    decode pb b = .ok m.1 m.2 (b.skipBytes b.readableLen) := by
  have hlen : b.readableLen = frameLen pb m := by
    rw [← SocketBuffer.length_contents hb, hcontents, h.length_frame]
  have hexact : CInt.toInt b.readableLen = b.readableLen :=
    CInt.toInt_of_inRange (CInt.inRange_natCast (by omega))
  have halign : b.contents ++ [] = frame pb m ++ [] := by rw [hcontents]
  rcases decode_aligned hb h halign with ⟨hshort, -⟩ | ⟨hbig, -⟩ | ⟨-, hwait, -⟩ | ⟨-, -, -, hd⟩
  · unfold frameLen at hlen
    omega
  · omega
  · rw [hexact] at hwait
    omega
  · rw [hd, hlen]

/-- **The messages that survive.** A message whose head tells the size of its body is encoded and
decoded exactly where no field of the head is zero and the length of the frame is an `int`. -/
theorem roundTrips_iff (stray : ℕ → UInt8) (hb : sbuf.Wf)
    (hsize : m.1.len = (pb.serializeBody m.2).length) :
    RoundTrips pb stray m sbuf ↔
      m.1.cmd ≠ 0 ∧ m.1.seq ≠ 0 ∧ m.1.len ≠ 0 ∧ protoMsgHeadLen + m.1.len < 2147483648 := by
  obtain ⟨hok, -, hout⟩ := encode_spec pb stray m hb
  constructor
  · rintro ⟨-, happend, hdecode⟩
    rw [hout] at happend hdecode
    have hbytes := List.append_cancel_left happend
    have hlen := congrArg List.length hbytes
    have hbody : (if m.1.len ≤ 0 then [] else pb.serializeBody m.2).length =
        (pb.serializeBody m.2).length := by
      split_ifs with hempty
      · rw [List.length_nil]
        omega
      · rfl
    rw [encodeOut, List.length_append, List.length_append, length_headBytes, hbody] at hlen
    obtain ⟨hcmd, hseq, hne⟩ := (length_serializeHead_iff m.1).mp (by omega)
    refine ⟨hcmd, hseq, hne, ?_⟩
    have hwf : WellFormed pb m := ⟨hcmd, hseq, hne, hsize⟩
    -- a buffer that holds the frame and nothing else
    have hframe : SocketBuffer.contents ⟨frame pb m, 0, (frame pb m).length⟩ = frame pb m := by
      simp [SocketBuffer.contents]
    have hok := hdecode ⟨frame pb m, 0, (frame pb m).length⟩ ⟨Nat.zero_le _, le_rfl⟩ (by
      rw [hframe, hwf.encodeOut])
    by_contra hbig
    have hlong := hwf.frameLen_eq
    have halign : SocketBuffer.contents ⟨frame pb m, 0, (frame pb m).length⟩ ++ [] =
        frame pb m ++ [] := by rw [hframe]
    rcases decode_aligned ⟨Nat.zero_le _, le_rfl⟩ hwf halign with
      ⟨-, hd⟩ | ⟨-, hd⟩ | ⟨hlt, -⟩ | ⟨hlt, -⟩
    · rw [hok] at hd
      exact absurd hd (by simp)
    · rw [hok] at hd
      exact absurd hd (by simp)
    · omega
    · omega
  · rintro ⟨hcmd, hseq, hne, hsmall⟩
    have hwf : WellFormed pb m := ⟨hcmd, hseq, hne, hsize⟩
    have hlong := hwf.frameLen_eq
    refine ⟨hok, by rw [hout, hwf.encodeOut, frame], fun b hbuf hcontents => ?_⟩
    rw [hout, hwf.encodeOut] at hcontents
    exact hwf.decode_frame (by omega) hbuf (List.append_cancel_left hcontents)

end Message

/-! ## Two messages -/

/-- A request with two bytes of data survives. -/
theorem roundTrips_request :
    RoundTrips .wire (fun _ => 0) (⟨101, 7, 4, by decide⟩, { data := [104, 105] }) {} := by
  refine (roundTrips_iff (fun _ => 0) SocketBuffer.wf_empty (by decide)).mpr ?_
  exact ⟨by decide, by decide, by decide, by decide⟩

/-- **A heartbeat**, with a head that has no body behind it, has 5 bytes of memory in its place. -/
theorem not_roundTrips_heartbeat :
    ((0 : ℤ) = (Protobuf.wire.serializeBody {}).length) ∧
      ¬ RoundTrips .wire (fun _ => 0) (⟨1, 7, 0, by decide⟩, {}) {} := by
  refine ⟨by decide, fun h => ?_⟩
  have happend := congrArg List.length h.2.1
  revert happend
  decide

end Kimserver
