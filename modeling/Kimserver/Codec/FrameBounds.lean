import Kimserver.Codec.Proto

/-!
# The bounds of decoding

`CodecProto::decode` where an `int` that overflows wraps around. The length in a head comes from
the peer: added to the length of the head it may become negative, and then the test for enough
bytes passes, the body parser gets more bytes than there are, and the read index moves
backwards.

## Main definitions

* `DecodeCall`, `decodeWrapping`: a call of `decode`, with the number of bytes the body parser gets
* `InBounds`: what a call leaves of the buffer, and what it reads of it
* `Fits`: a buffer whose head does not make the sum overflow, or where the overflow does no harm
* `Calls`, `handledIn`: the calls of the loop of `process_tcp_msg`

## Main results

* `inBounds_iff`: the buffers on which a call stays in bounds
* `decodeLoop_inBounds_iff`: the loops whose calls all stay in bounds, and how long they are
-/

namespace Kimserver

/-- What a call of `CodecProto::decode` does: its result, the message, the buffer after it, and
the number of bytes behind the head that the body parser was given. -/
structure DecodeCall where
  status : CodecStatus
  msg : Option Message
  sbuf : SocketBuffer
  handed : Option ℕ

/-- `CodecProto::decode`, into a cleared head and body, with the sum of an `int` modulo `2 ^ 32`.
The body parser reads memory behind the readable bytes where it is given too many. -/
def decodeWrapping (pb : Protobuf) (stray : ℕ → UInt8) (sbuf : SocketBuffer) : DecodeCall :=
  if sbuf.readableLen < protoMsgHeadLen then ⟨.pause, none, sbuf, none⟩
  else
    match pb.parseHead (sbuf.contents.take protoMsgHeadLen) with
    | none => ⟨.err, none, sbuf, none⟩
    | some head =>
      if head.len ≤ 0 then
        ⟨.ok, some (head, {}), sbuf.advanceReadIndex (protoMsgHeadLen : ℕ), none⟩
      else
        let need := CInt.toInt (protoMsgHeadLen + head.len)
        if CInt.toInt sbuf.readableLen < need then ⟨.pause, none, sbuf, none⟩
        else
          match pb.parseBody (sbuf.memory stray protoMsgHeadLen head.len.toNat) with
          | none => ⟨.err, none, sbuf, some head.len.toNat⟩
          | some body =>
            ⟨.ok, some (head, body), sbuf.advanceReadIndex need, some head.len.toNat⟩

/-- A call reads only readable bytes; `OK` takes the head and the body, if it has one, and nothing
else moves the read index. -/
structure InBounds (sbuf : SocketBuffer) (call : DecodeCall) : Prop where
  handed : ∀ n ∈ call.handed, protoMsgHeadLen + n ≤ sbuf.readableLen
  ok : call.status = .ok → ∃ head body, call.msg = some (head, body) ∧
    call.sbuf = sbuf.skipBytes (protoMsgHeadLen + (max head.len 0).toNat) ∧
    protoMsgHeadLen + (max head.len 0).toNat ≤ sbuf.readableLen
  unchanged : call.status ≠ .ok → call.sbuf = sbuf

/-- A head whose length is at least `2 ^ 31 - 15` is met only where the wrapped sum exceeds the
wrapped number of readable bytes, or where all the bytes are there and are no body. -/
def Fits (pb : Protobuf) (sbuf : SocketBuffer) : Prop :=
  protoMsgHeadLen ≤ sbuf.readableLen →
    ∀ head ∈ pb.parseHead (sbuf.contents.take protoMsgHeadLen), 2147483633 ≤ head.len →
      CInt.toInt sbuf.readableLen < protoMsgHeadLen + head.len - 4294967296 ∨
      (protoMsgHeadLen + head.len ≤ sbuf.readableLen ∧
        pb.parseBody ((sbuf.contents.drop protoMsgHeadLen).take head.len.toNat) = none)

/-- The first `turns` calls of the loop of `process_tcp_msg` satisfy `P`; the loop ends at the
first call that does not return `OK`. -/
def Calls (pb : Protobuf) (stray : ℕ → UInt8) (P : SocketBuffer → Prop) : ℕ → SocketBuffer → Prop
  | 0, _ => True
  | turns + 1, sbuf =>
    P sbuf ∧ ((decodeWrapping pb stray sbuf).status = .ok →
      Calls pb stray P turns (decodeWrapping pb stray sbuf).sbuf)

/-- How many messages the first `turns` calls of the loop yield. -/
def handledIn (pb : Protobuf) (stray : ℕ → UInt8) : ℕ → SocketBuffer → ℕ
  | 0, _ => 0
  | turns + 1, sbuf =>
    if (decodeWrapping pb stray sbuf).status = .ok then
      handledIn pb stray turns (decodeWrapping pb stray sbuf).sbuf + 1
    else 0

section Call

variable {pb : Protobuf} {sbuf : SocketBuffer} (stray : ℕ → UInt8)

/-- A length that is short enough is added exactly, and the test finds whether the bytes are
there. -/
theorem wrapped_of_short {len : ℤ} (hpos : 0 < len) (hshort : len < 2147483633)
    (henough : ¬ CInt.toInt sbuf.readableLen < CInt.toInt (protoMsgHeadLen + len)) :
    CInt.toInt (protoMsgHeadLen + len) = protoMsgHeadLen + len ∧
      protoMsgHeadLen + len.toNat ≤ sbuf.readableLen := by
  have hle := CInt.toInt_natCast_le sbuf.readableLen
  have hexact : CInt.toInt (protoMsgHeadLen + len) = protoMsgHeadLen + len := by
    refine CInt.toInt_of_inRange ⟨?_, ?_⟩ <;> simp only [protoMsgHeadLen] <;> omega
  refine ⟨hexact, ?_⟩
  rw [hexact] at henough
  omega

/-- A length at the end of the type makes the sum negative. -/
theorem wrapped_of_long {len : ℤ} (hlong : 2147483633 ≤ len) (hrange : CInt.InRange len) :
    CInt.toInt (protoMsgHeadLen + len) = protoMsgHeadLen + len - 4294967296 := by
  have hlt := hrange.2
  refine CInt.toInt_of_above ?_ ?_ <;> simp only [protoMsgHeadLen] <;> omega

/-- A read index that moved backwards is not where the message ends. -/
theorem advanceReadIndex_wrapped_ne {len : ℤ} (hpos : 0 < len) :
    sbuf.advanceReadIndex (protoMsgHeadLen + len - 4294967296) ≠
      sbuf.skipBytes (protoMsgHeadLen + (max len 0).toNat) := by
  intro heq
  have hidx := congrArg SocketBuffer.readIdx heq
  have hhead : protoMsgHeadLen = 15 := rfl
  simp only [SocketBuffer.advanceReadIndex, SocketBuffer.skipBytes, max_eq_left hpos.le] at hidx
  split_ifs at hidx
  · omega
  · omega

/-- **Where a call stays in bounds**: exactly where the sum does not overflow, or the overflow
does no harm. -/
theorem inBounds_iff (hb : sbuf.Wf) :
    InBounds sbuf (decodeWrapping pb stray sbuf) ↔ Fits pb sbuf := by
  by_cases hshort : sbuf.readableLen < protoMsgHeadLen
  · have hcall : decodeWrapping pb stray sbuf = ⟨.pause, none, sbuf, none⟩ := if_pos hshort
    rw [hcall]
    exact iff_of_true ⟨by simp, by simp, fun _ => rfl⟩ fun hlen => absurd hshort (not_lt.mpr hlen)
  have hlen : protoMsgHeadLen ≤ sbuf.readableLen := not_lt.mp hshort
  unfold Fits decodeWrapping
  rw [if_neg hshort]
  cases hparse : pb.parseHead (sbuf.contents.take protoMsgHeadLen) with
  | none => exact iff_of_true ⟨by simp, by simp, fun _ => rfl⟩ (by simp)
  | some head =>
    simp only [Option.mem_def, Option.some.injEq, forall_eq', hlen, true_implies]
    by_cases hempty : head.len ≤ 0
    · have hzero : max head.len 0 = 0 := max_eq_right hempty
      rw [if_pos hempty, SocketBuffer.advanceReadIndex_natCast]
      refine iff_of_true ⟨by simp, fun _ => ⟨head, {}, rfl, ?_, ?_⟩, by simp⟩ fun hlong => ?_
      · rw [hzero]
        rfl
      · rw [hzero]
        exact hlen
      · omega
    rw [if_neg hempty]
    have hpos : 0 < head.len := not_le.mp hempty
    have hmax : max head.len 0 = head.len := max_eq_left hpos.le
    by_cases hwait : CInt.toInt sbuf.readableLen < CInt.toInt (protoMsgHeadLen + head.len)
    · rw [if_pos hwait]
      refine iff_of_true ⟨by simp, by simp, fun _ => rfl⟩ fun hlong => Or.inl ?_
      rw [wrapped_of_long hlong head.inRange] at hwait
      exact hwait
    rw [if_neg hwait]
    by_cases hlong : 2147483633 ≤ head.len
    · -- the test has not found that bytes are missing
      rw [wrapped_of_long hlong head.inRange] at hwait ⊢
      simp only [hlong, true_implies, hwait, false_or]
      by_cases hall : (protoMsgHeadLen : ℤ) + head.len ≤ sbuf.readableLen
      · rw [SocketBuffer.memory_eq hb stray (by omega)]
        cases hbody : pb.parseBody
            ((sbuf.contents.drop protoMsgHeadLen).take head.len.toNat) with
        | none =>
          refine iff_of_true ⟨fun n hn => ?_, by simp, fun _ => rfl⟩ ⟨hall, rfl⟩
          obtain rfl := Option.some.inj hn
          omega
        | some body =>
          refine iff_of_false (fun hin => ?_) fun h => absurd h.2 (by simp)
          obtain ⟨head', body', hmsg, hmoved, -⟩ := hin.ok rfl
          obtain ⟨rfl, -⟩ := Prod.mk.inj (Option.some.inj hmsg)
          exact advanceReadIndex_wrapped_ne hpos hmoved
      · refine iff_of_false (fun hin => hall ?_) fun h => hall h.1
        have hhanded : protoMsgHeadLen + head.len.toNat ≤ sbuf.readableLen := by
          refine hin.handed _ ?_
          split <;> rfl
        omega
    · obtain ⟨hexact, hfit⟩ := wrapped_of_short hpos (not_le.mp hlong) hwait
      refine iff_of_true ⟨fun n hn => ?_, fun hok => ?_, fun herr => ?_⟩ fun h => absurd h hlong
      · have hn' : n = head.len.toNat := by
          split at hn
          · exact (Option.some.inj hn).symm
          · exact (Option.some.inj hn).symm
        rw [hn']
        exact hfit
      · split at hok
        · exact absurd hok (by simp)
        · next body hbody =>
          refine ⟨head, body, rfl, ?_, ?_⟩
          · have hcast : (protoMsgHeadLen : ℤ) + head.len =
                ((protoMsgHeadLen + head.len.toNat : ℕ) : ℤ) := by omega
            rw [hexact, hmax, hcast, SocketBuffer.advanceReadIndex_natCast]
          · rw [hmax]
            exact hfit
      · split at herr
        · rfl
        · exact absurd rfl herr

/-! ## The loop -/

theorem InBounds.wf {call : DecodeCall} (h : InBounds sbuf call) (hb : sbuf.Wf) : call.sbuf.Wf := by
  by_cases hok : call.status = .ok
  · obtain ⟨head, body, -, hmoved, hle⟩ := h.ok hok
    rw [hmoved]
    exact (SocketBuffer.skipBytes_spec hb hle).1
  · rw [h.unchanged hok]
    exact hb

/-- A call that returns `OK` takes at least the bytes of a head. -/
theorem InBounds.taken {call : DecodeCall} (h : InBounds sbuf call) (hok : call.status = .ok) :
    protoMsgHeadLen + call.sbuf.readableLen ≤ sbuf.readableLen := by
  obtain ⟨head, body, -, hmoved, hle⟩ := h.ok hok
  rw [hmoved]
  simp only [SocketBuffer.readableLen, SocketBuffer.skipBytes] at hle ⊢
  omega

theorem calls_inBounds_iff (hb : sbuf.Wf) (turns : ℕ) :
    Calls pb stray (fun b => InBounds b (decodeWrapping pb stray b)) turns sbuf ↔
      Calls pb stray (Fits pb) turns sbuf := by
  induction turns generalizing sbuf with
  | zero => exact Iff.rfl
  | succ turns ih =>
    have hcall : InBounds sbuf (decodeWrapping pb stray sbuf) ↔ Fits pb sbuf :=
      inBounds_iff stray hb
    constructor
    · rintro ⟨hin, hrest⟩
      exact ⟨hcall.mp hin, fun hok => (ih (hin.wf hb)).mp (hrest hok)⟩
    · rintro ⟨hfits, hrest⟩
      have hin := hcall.mpr hfits
      exact ⟨hin, fun hok => (ih (hin.wf hb)).mpr (hrest hok)⟩

/-- Every message takes the bytes of a head. -/
theorem handledIn_le (turns : ℕ)
    (h : Calls pb stray (fun b => InBounds b (decodeWrapping pb stray b)) turns sbuf) :
    protoMsgHeadLen * handledIn pb stray turns sbuf ≤ sbuf.readableLen := by
  induction turns generalizing sbuf with
  | zero => exact Nat.zero_le _
  | succ turns ih =>
    obtain ⟨hin, hrest⟩ := h
    unfold handledIn
    split_ifs with hok
    · have htaken := hin.taken hok
      have hmore := ih (hrest hok)
      rw [Nat.mul_add, Nat.mul_one]
      omega
    · exact Nat.zero_le _

/-- **The loops that stay inside the received bytes** are those whose buffers all fit; they handle
no more messages than there are heads in the readable bytes. -/
theorem decodeLoop_inBounds_iff (hb : sbuf.Wf) (turns : ℕ) :
    (Calls pb stray (fun b => InBounds b (decodeWrapping pb stray b)) turns sbuf ∧
      handledIn pb stray turns sbuf ≤ sbuf.readableLen / protoMsgHeadLen) ↔
      Calls pb stray (Fits pb) turns sbuf := by
  rw [← calls_inBounds_iff stray hb]
  refine and_iff_left_of_imp fun h => ?_
  rw [Nat.le_div_iff_mul_le (by decide), Nat.mul_comm]
  exact handledIn_le stray turns h

/-- A head with a short length fits. -/
theorem fits_of_short (h : ∀ head ∈ pb.parseHead (sbuf.contents.take protoMsgHeadLen),
    head.len < 2147483633) : Fits pb sbuf :=
  fun _ head hparse hlong => absurd (h head hparse) (not_lt.mpr hlong)

end Call

/-! ## Two buffers -/

/-- Two requests without a body behind one another. -/
def twoHeads : SocketBuffer where
  buffer := serializeHead ⟨101, 7, -1, by decide⟩ ++ serializeHead ⟨101, 8, -1, by decide⟩
  writeIdx := 30

theorem twoHeads_inBounds :
    Calls .wire (fun _ => 0)
        (fun b => InBounds b (decodeWrapping .wire (fun _ => 0) b)) 3 twoHeads ∧
      handledIn .wire (fun _ => 0) 3 twoHeads ≤ twoHeads.readableLen / protoMsgHeadLen := by
  have hfirst : (decodeWrapping .wire (fun _ => 0) twoHeads).sbuf =
      { twoHeads with readIdx := 15 } := by decide
  have hsecond : (decodeWrapping .wire (fun _ => 0) { twoHeads with readIdx := 15 }).sbuf =
      { twoHeads with readIdx := 30 } := by decide
  refine (decodeLoop_inBounds_iff (fun _ => 0) ⟨by decide, by decide⟩ 3).mpr ?_
  refine ⟨fits_of_short (by decide), fun _ => ?_⟩
  rw [hfirst]
  refine ⟨fits_of_short (by decide), fun _ => ?_⟩
  rw [hsecond]
  exact ⟨fits_of_short (by decide), fun _ => trivial⟩

/-- A head that announces `2 ^ 31 - 1` bytes, and no byte behind it. -/
def longHead : SocketBuffer where
  buffer := serializeHead ⟨101, 7, 2147483647, by decide⟩
  writeIdx := 15

/-- **The longest length**: the body parser is given bytes that were never received. -/
theorem longHead_handed :
    longHead.Wf ∧ (decodeWrapping .wire (fun _ => 0) longHead).handed = some 2147483647 ∧
      ¬ InBounds longHead (decodeWrapping .wire (fun _ => 0) longHead) := by
  have hparse : Protobuf.wire.parseHead (longHead.contents.take protoMsgHeadLen) =
      some ⟨101, 7, 2147483647, by decide⟩ := by decide
  have hhanded : (decodeWrapping .wire (fun _ => 0) longHead).handed = some 2147483647 := by
    unfold decodeWrapping
    rw [if_neg (by decide), hparse]
    dsimp only
    rw [if_neg (by decide), if_neg (by decide)]
    split
    · rfl
    · rfl
  refine ⟨⟨by decide, by decide⟩, hhanded, fun hin => ?_⟩
  exact absurd (hin.handed _ hhanded) (by decide)

end Kimserver
