import Kimserver.Codec.Message
import Kimserver.Lib.Framing
import Kimserver.Util.SocketBuffer

/-!
# The protobuf codec

A message on the wire is a head of 15 bytes and a body (`codec_proto.cpp`). The head has three
fields of fixed width; the serializer leaves a field out when it is zero, so only a head
without zero fields has 15 bytes. `len` is an `int`, and so is the arithmetic on it.

## Main definitions

* `encode`, `decode`: `CodecProto::encode` and `CodecProto::decode`
* `WellFormed`: heads without zero fields whose `len` is the size of the body
* `protoFraming`: the frames of well-formed messages

## Main results

* `encode_spec`, `WellFormed.encodeOut`: encoding appends, and for a well-formed message its frame
* `decode_aligned`: what decoding does at the beginning of a frame
-/

namespace Kimserver

/-- `PROTO_MSG_HEAD_LEN`. -/
def protoMsgHeadLen : ℕ := 15

/-- The 15 bytes read at the serialized head. Behind a shorter text they are whatever lies in
memory there. -/
def headBytes (stray : ℕ → UInt8) (h : MsgHead) : Bytes :=
  serializeHead h ++
    (List.range (protoMsgHeadLen - (serializeHead h).length)).map
      fun i => stray ((serializeHead h).length + i)

/-! ## The codec -/

/-- `Codec::STATUS`. -/
inductive CodecStatus
  | ok
  | err
  | pause
  | closed
  deriving DecidableEq, Repr

/-- `CodecProto::encode` into a buffer; the flags are false where an allocation for the head or
for the body fails. -/
def encode (pb : Protobuf) (stray : ℕ → UInt8) (allocHead allocBody : Bool) (head : MsgHead)
    (body : MsgBody) (sbuf : SocketBuffer) : CodecStatus × SocketBuffer :=
  match sbuf.write allocHead (headBytes stray head) with
  | (sbuf, false) => (.err, sbuf)
  | (sbuf, true) =>
    if head.len ≤ 0 then (.ok, sbuf)
    else
      match sbuf.write allocBody (pb.serializeBody body) with
      | (sbuf, false) => (.err, sbuf.setWriteIndex (sbuf.writeIdx - protoMsgHeadLen))
      | (sbuf, true) => (.ok, sbuf)

/-- What `CodecProto::decode` returns when it decodes nothing. `undefined` is the overflow of
`int` in `PROTO_MSG_HEAD_LEN + head.len()`. -/
inductive Stop
  | pause
  | err
  | undefined
  deriving DecidableEq, Repr

/-- What `CodecProto::decode` returns. Only `ok` moves the read index. -/
inductive DecodeResult
  | ok (head : MsgHead) (body : MsgBody) (rest : SocketBuffer)
  | stop (s : Stop)

/-- `CodecProto::decode`, into a cleared head and body. -/
def decode (pb : Protobuf) (sbuf : SocketBuffer) : DecodeResult :=
  if sbuf.readableLen < protoMsgHeadLen then .stop .pause
  else
    match pb.parseHead (sbuf.contents.take protoMsgHeadLen) with
    | none => .stop .err
    | some head =>
      if head.len ≤ 0 then .ok head {} (sbuf.skipBytes protoMsgHeadLen)
      else if ¬ CInt.InRange (protoMsgHeadLen + head.len) then .stop .undefined
      else if CInt.toInt sbuf.readableLen < protoMsgHeadLen + head.len then .stop .pause
      else
        match pb.parseBody ((sbuf.contents.drop protoMsgHeadLen).take head.len.toNat) with
        | none => .stop .err
        | some body => .ok head body (sbuf.skipBytes (protoMsgHeadLen + head.len).toNat)

/-! ## Well-formed messages and their frames -/

/-- A message whose head has no zero field and tells the size of its body. -/
structure WellFormed (pb : Protobuf) (m : MsgHead × MsgBody) : Prop where
  cmd : m.1.cmd ≠ 0
  seq : m.1.seq ≠ 0
  len : m.1.len ≠ 0
  size : m.1.len = (pb.serializeBody m.2).length

instance (pb : Protobuf) (m : MsgHead × MsgBody) : Decidable (WellFormed pb m) :=
  decidable_of_iff
    (m.1.cmd ≠ 0 ∧ m.1.seq ≠ 0 ∧ m.1.len ≠ 0 ∧ m.1.len = (pb.serializeBody m.2).length)
    ⟨fun h => ⟨h.1, h.2.1, h.2.2.1, h.2.2.2⟩, fun h => ⟨h.cmd, h.seq, h.len, h.size⟩⟩

/-- The frame of a message. -/
def frame (pb : Protobuf) (m : MsgHead × MsgBody) : Bytes :=
  serializeHead m.1 ++ pb.serializeBody m.2

/-- The length of the frame of a well-formed message. -/
def frameLen (pb : Protobuf) (m : MsgHead × MsgBody) : ℕ :=
  protoMsgHeadLen + (pb.serializeBody m.2).length

/-- The first frame of a text, with exact arithmetic. -/
def nextFrame (pb : Protobuf) (b : Bytes) : Option ((MsgHead × MsgBody) × Bytes) :=
  if b.length < protoMsgHeadLen then none
  else
    match pb.parseHead (b.take protoMsgHeadLen) with
    | none => none
    | some head =>
      if b.length < protoMsgHeadLen + head.len.toNat then none
      else
        (pb.parseBody ((b.drop protoMsgHeadLen).take head.len.toNat)).map fun body =>
          ((head, body), b.drop (protoMsgHeadLen + head.len.toNat))

section Frames

variable {pb : Protobuf} {m : MsgHead × MsgBody}

/-- A field that is not left out has five bytes. -/
theorem length_fixed32Field {number : ℕ} (hpos : 0 < number) (hlt : number < 15) {v : UInt32}
    (h : v ≠ 0) : (Wire.encodeFields (fixed32Field number v hpos)).length = 5 := by
  rw [fixed32Field, if_neg h]
  simp only [Wire.encodeFields, List.flatMap_cons, List.flatMap_nil, List.append_nil,
    Wire.encodeField, Wire.Value.wireType]
  rw [Wire.varint_of_lt (by omega)]
  rfl

theorem WellFormed.length_serializeHead (h : WellFormed pb m) :
    (serializeHead m.1).length = protoMsgHeadLen := by
  have hlen : CInt.toUInt32 m.1.len ≠ 0 := by
    intro hzero
    have hlt := m.1.inRange.2
    have hpos : 0 ≤ m.1.len := h.size ▸ Int.natCast_nonneg _
    have hmod : (m.1.len % 4294967296).toNat = m.1.len.toNat := by
      rw [Int.emod_eq_of_lt hpos (by omega)]
    have hnat := congrArg UInt32.toNat hzero
    rw [CInt.toUInt32, hmod, UInt32.toNat_ofNat_of_lt' (by norm_num; omega)] at hnat
    have hne := h.len
    simp at hnat
    omega
  simp only [serializeHead, headFields, Wire.encodeFields_append, List.length_append]
  rw [length_fixed32Field (by decide) (by decide) h.cmd,
    length_fixed32Field (by decide) (by decide) h.seq,
    length_fixed32Field (by decide) (by decide) hlen]
  rfl

theorem WellFormed.length_frame (h : WellFormed pb m) : (frame pb m).length = frameLen pb m := by
  rw [frame, List.length_append, h.length_serializeHead, frameLen]

theorem WellFormed.len_pos (h : WellFormed pb m) : 0 < m.1.len := by
  have hne := h.len
  have hsize := h.size
  omega

theorem WellFormed.toNat_len (h : WellFormed pb m) :
    m.1.len.toNat = (pb.serializeBody m.2).length := by
  rw [h.size, Int.toNat_natCast]

theorem WellFormed.headBytes (h : WellFormed pb m) (stray : ℕ → UInt8) :
    headBytes stray m.1 = serializeHead m.1 := by
  rw [Kimserver.headBytes, h.length_serializeHead, Nat.sub_self, List.range_zero, List.map_nil,
    List.append_nil]

/-- What `encode` appends. -/
def encodeOut (pb : Protobuf) (stray : ℕ → UInt8) (m : MsgHead × MsgBody) : Bytes :=
  headBytes stray m.1 ++ if m.1.len ≤ 0 then [] else pb.serializeBody m.2

variable (pb) in
/-- Encoding appends its text, when the allocations succeed. -/
theorem encode_spec (stray : ℕ → UInt8) (m : MsgHead × MsgBody) {sbuf : SocketBuffer}
    (hbuf : sbuf.Wf) :
    (encode pb stray true true m.1 m.2 sbuf).1 = .ok ∧
      (encode pb stray true true m.1 m.2 sbuf).2.Wf ∧
      (encode pb stray true true m.1 m.2 sbuf).2.contents =
        sbuf.contents ++ encodeOut pb stray m := by
  obtain ⟨hok, hwf, hcontents⟩ := SocketBuffer.write_spec hbuf (headBytes stray m.1)
  obtain ⟨hok', hwf', hcontents'⟩ := SocketBuffer.write_spec hwf (pb.serializeBody m.2)
  unfold encode
  split
  · next heq =>
    rw [heq] at hok
    exact absurd hok (by simp)
  · next sbuf₁ heq =>
    rw [heq] at hwf hcontents hok' hwf' hcontents'
    unfold encodeOut
    split_ifs
    · exact ⟨rfl, hwf, by rw [hcontents, List.append_nil]⟩
    · split
      · next heq' =>
        rw [heq'] at hok'
        exact absurd hok' (by simp)
      · next sbuf₂ heq' =>
        rw [heq'] at hwf' hcontents'
        exact ⟨rfl, hwf', by rw [hcontents', hcontents, List.append_assoc]⟩

variable (pb) in
/-- Even the shortest message has a head. -/
theorem encodeOut_ne_nil (stray : ℕ → UInt8) (m : MsgHead × MsgBody) :
    encodeOut pb stray m ≠ [] := by
  intro hnil
  have hlen : protoMsgHeadLen ≤ (headBytes stray m.1).length := by
    rw [headBytes, List.length_append, List.length_map, List.length_range]
    omega
  rw [(List.append_eq_nil_iff.mp hnil).1] at hlen
  exact absurd hlen (by decide)

/-- **Encoding a well-formed message appends its frame.** -/
theorem WellFormed.encodeOut (h : WellFormed pb m) (stray : ℕ → UInt8) :
    encodeOut pb stray m = frame pb m := by
  rw [Kimserver.encodeOut, h.headBytes, if_neg (not_le.mpr h.len_pos), frame]

/-- A text that goes on as a frame begins with its head. -/
theorem take_head {x future more : Bytes} (h : WellFormed pb m)
    (hx : x ++ future = frame pb m ++ more) (hlen : protoMsgHeadLen ≤ x.length) :
    x.take protoMsgHeadLen = serializeHead m.1 := by
  have htake := congrArg (List.take protoMsgHeadLen) hx
  rwa [List.take_append_of_le_length hlen, frame, List.append_assoc,
    List.take_left' h.length_serializeHead] at htake

/-- A text that goes on as a frame and is as long as it has the frame's body behind the
head. -/
theorem take_body {x future more : Bytes} (h : WellFormed pb m)
    (hx : x ++ future = frame pb m ++ more) (hlen : frameLen pb m ≤ x.length) :
    (x.drop protoMsgHeadLen).take m.1.len.toNat = pb.serializeBody m.2 := by
  have htake := congrArg (fun l => (l.drop protoMsgHeadLen).take m.1.len.toNat) hx
  have hle : protoMsgHeadLen ≤ x.length := le_trans (Nat.le_add_right _ _) hlen
  rw [List.drop_append_of_le_length hle, List.take_append_of_le_length (by
    rw [List.length_drop, h.toNat_len]; unfold frameLen at hlen; omega), frame, List.append_assoc,
    List.drop_left' h.length_serializeHead, List.take_left' h.toNat_len.symm] at htake
  exact htake

theorem WellFormed.frameLen_eq (h : WellFormed pb m) :
    (frameLen pb m : ℤ) = protoMsgHeadLen + m.1.len := by
  rw [frameLen, Nat.cast_add, h.size]

/-- **What decoding does at the beginning of a frame.** -/
theorem decode_aligned {sbuf : SocketBuffer} (hbuf : sbuf.Wf) (h : WellFormed pb m)
    {future more : Bytes} (hx : sbuf.contents ++ future = frame pb m ++ more) :
    (sbuf.readableLen < protoMsgHeadLen ∧ decode pb sbuf = .stop .pause) ∨
    (2147483648 ≤ frameLen pb m ∧ decode pb sbuf = .stop .undefined) ∨
    (frameLen pb m < 2147483648 ∧ CInt.toInt sbuf.readableLen < frameLen pb m ∧
      decode pb sbuf = .stop .pause) ∨
    (frameLen pb m < 2147483648 ∧ (frameLen pb m : ℤ) ≤ CInt.toInt sbuf.readableLen ∧
      frameLen pb m ≤ sbuf.readableLen ∧
      decode pb sbuf = .ok m.1 m.2 (sbuf.skipBytes (frameLen pb m))) := by
  have hlen := SocketBuffer.length_contents hbuf
  by_cases hshort : sbuf.readableLen < protoMsgHeadLen
  · exact Or.inl ⟨hshort, if_pos hshort⟩
  right
  have hhead : pb.parseHead (sbuf.contents.take protoMsgHeadLen) = some m.1 := by
    rw [take_head h hx (by omega)]
    exact pb.parseHead_serialize m.1
  have hframe := h.frameLen_eq
  have hrange : CInt.InRange (frameLen pb m : ℤ) ↔ frameLen pb m < 2147483648 := by
    rw [CInt.InRange]
    omega
  unfold decode
  simp only [if_neg hshort, hhead, if_neg (not_le.mpr h.len_pos), ← hframe]
  by_cases hbig : frameLen pb m < 2147483648
  · right
    rw [if_neg (not_not.mpr (hrange.mpr hbig))]
    by_cases hwait : CInt.toInt sbuf.readableLen < frameLen pb m
    · exact Or.inl ⟨hbig, hwait, if_pos hwait⟩
    · have hle : (frameLen pb m : ℤ) ≤ CInt.toInt sbuf.readableLen := not_lt.mp hwait
      have hfit : frameLen pb m ≤ sbuf.readableLen := by
        have := CInt.toInt_natCast_le sbuf.readableLen
        omega
      refine Or.inr ⟨hbig, hle, hfit, ?_⟩
      rw [if_neg hwait, take_body h hx (by omega), pb.parseBody_serialize, Int.toNat_natCast]
  · exact Or.inl ⟨not_lt.mp hbig, if_pos fun hin => hbig (hrange.mp hin)⟩

/-! ## The framing -/

theorem nextFrame_encode (h : WellFormed pb m) (rest : Bytes) :
    nextFrame pb (frame pb m ++ rest) = some (m, rest) := by
  have hlen := h.length_frame
  have hshort : ¬ (frame pb m ++ rest).length < protoMsgHeadLen := by
    rw [List.length_append, hlen, frameLen]
    omega
  have hwait : ¬ (frame pb m ++ rest).length < protoMsgHeadLen + m.1.len.toNat := by
    rw [List.length_append, hlen, frameLen, h.toNat_len]
    omega
  have hdrop : (frame pb m ++ rest).drop (protoMsgHeadLen + m.1.len.toNat) = rest := by
    rw [h.toNat_len]
    exact List.drop_left' hlen
  have heq : (frame pb m ++ rest) ++ [] = frame pb m ++ rest := List.append_nil _
  rw [nextFrame, if_neg hshort, take_head h heq (not_lt.mp hshort), pb.parseHead_serialize]
  dsimp only
  rw [if_neg hwait, take_body h heq (by rw [List.length_append, hlen]; omega),
    pb.parseBody_serialize, hdrop]
  rfl

theorem nextFrame_partial (h : WellFormed pb m) {p : Bytes} (hp : p <+: frame pb m)
    (hne : p ≠ frame pb m) : nextFrame pb p = none := by
  obtain ⟨t, ht⟩ := hp
  have hlt : p.length < frameLen pb m := by
    rw [← h.length_frame, ← ht, List.length_append]
    have : t ≠ [] := by
      rintro rfl
      exact hne (by rw [← ht, List.append_nil])
    have := List.length_pos_of_ne_nil this
    omega
  by_cases hshort : p.length < protoMsgHeadLen
  · exact if_pos hshort
  · have heq : p ++ t = frame pb m ++ [] := by rw [ht, List.append_nil]
    rw [nextFrame, if_neg hshort, take_head h heq (not_lt.mp hshort), pb.parseHead_serialize]
    exact if_pos (by rw [h.toNat_len]; exact hlt)

/-- The frames of well-formed messages. -/
def protoFraming (pb : Protobuf) : Framing (MsgHead × MsgBody) where
  Wf := WellFormed pb
  encode := frame pb
  next := nextFrame pb
  encode_ne_nil h heq := by
    have := h.length_frame
    rw [heq, frameLen, protoMsgHeadLen, List.length_nil] at this
    omega
  next_encode h rest := nextFrame_encode h rest
  next_partial h hp hne := nextFrame_partial h hp hne
  next_lt {b m rest} h := by
    unfold nextFrame at h
    split_ifs at h with hshort
    split at h
    · exact absurd h (by simp)
    · split_ifs at h
      obtain ⟨body, -, heq⟩ := Option.map_eq_some_iff.mp h
      rw [← (Prod.mk.inj heq).2, List.length_drop]
      unfold protoMsgHeadLen at hshort ⊢
      omega

end Frames

end Kimserver
