import Kimserver.Lib.Machine
import Kimserver.Lib.Queue
import Kimserver.Util.SocketBuffer

/-!
# A socket buffer is a byte queue

The operations of `SocketBuffer` move its bytes between blocks, in front of the read index and
through a second block on the stack, and set both indices anew. What can be read is always what
was appended, less what was taken out. `_printf` prints into the free part of the block, and
prints again into a larger one when the text did not fit.

The theorem is about runs in which no allocation fails, no more bytes are skipped or taken back
than are readable, and the block stays below `2 ^ 31` bytes.

## Main definitions

* `SocketBuffer.vprintf`: printing
* `BufferOp`, `bufferMachine`: the operations, and the runs of a buffer
* `SocketBuffer.Allowed`: the domain of an operation
* `BufferOp.onQueue`: what an operation means for a queue
* `GrowLoop`: the loop of `ensure_writeable`, turn by turn

## Main results

* `SocketBuffer.vprintf_spec`: printing appends the text
* `SocketBuffer.Represents.step`: one operation
* `socketBuffer_is_queue`: all runs
-/

namespace Kimserver

namespace SocketBuffer

/-! ## Printing -/

/-- Write into the block behind the write index, which stays. -/
def overwrite (b : SocketBuffer) (out : Bytes) : SocketBuffer :=
  { b with buffer := b.buffer.take b.writeIdx ++ out ++ b.buffer.drop (b.writeIdx + out.length) }

/-- `vsnprintf` into the free part of the block: the text as far as it fits, and a NUL. -/
def vsnprintf (b : SocketBuffer) (text : Bytes) : SocketBuffer :=
  if b.writeableLen = 0 then b else b.overwrite (text.take (b.writeableLen - 1) ++ [0])

/-- The loop of `_vprintf`: the buffer after it, and the sum of what `vsnprintf` returned. -/
def vprintfLoop (alloc : Bool) (text : Bytes) : ℕ → SocketBuffer → ℕ → SocketBuffer × ℕ
  | 0, b, result => (b, result)
  | fuel + 1, b, result =>
    let b := b.vsnprintf text
    let result := result + text.length
    if text.length < b.writeableLen then ({ b with writeIdx := b.writeIdx + text.length }, result)
    else
      match b.ensureWriteable alloc (text.length * 2) with
      | (b, false) => (b, result)
      | (b, true) => vprintfLoop alloc text fuel b result

/-- `_vprintf` and `_printf`, of the text that the format gives; `none` where `vsnprintf`
fails. -/
def vprintf (alloc : Bool) (b : SocketBuffer) (text : Option Bytes) : SocketBuffer × ℕ :=
  match b.ensureWriteable alloc 64, text with
  | (b, false), _ => (b, 0)
  | (b, true), none => (b, 0)
  | (b, true), some text => vprintfLoop alloc text 2 b 0

/-! ## Operations -/

end SocketBuffer

/-- The operations on a buffer. `readFd` and `writeFd` have what `readv` and `send` give. -/
inductive BufferOp
  | write (data : Bytes)
  | writeByte (ch : UInt8)
  | printf (text : Option Bytes)
  | rollBack (len : ℕ)
  | skipBytes (len : ℕ)
  | ensureWriteable (min : ℕ)
  | compact (size : ℕ)
  | readFd (chunk : Bytes)
  | writeFd (res : SocketBuffer.SendResult)
  deriving DecidableEq

namespace SocketBuffer

/-- The buffer after `write_fd`: the bytes that it takes are skipped. -/
def afterWriteFd (b : SocketBuffer) (res : SendResult) : SocketBuffer :=
  b.skipBytes ((b.taken res).getD 0)

/-- One operation on a buffer, when no allocation fails. -/
def step (b : SocketBuffer) : BufferOp → SocketBuffer
  | .write data => (b.write true data).1
  | .writeByte ch => (b.write true [ch]).1
  | .printf text => (b.vprintf true text).1
  | .rollBack len => b.setWriteIndex (b.writeIdx - len)
  | .skipBytes len => b.skipBytes len
  | .ensureWriteable min => (b.ensureWriteable true min).1
  | .compact size => b.compact size
  | .readFd chunk => b.readFd chunk
  | .writeFd res => b.afterWriteFd res

/-- No more bytes are skipped or rolled back than are readable. -/
def InBounds (b : SocketBuffer) : BufferOp → Prop
  | .rollBack len | .skipBytes len => len ≤ b.readableLen
  | _ => True

/-- The domain of an operation: it is in bounds, and the block stays below `2 ^ 31` bytes. -/
def Allowed (b : SocketBuffer) (op : BufferOp) : Prop :=
  b.InBounds op ∧ (b.step op).capacity < 2147483648

instance (b : SocketBuffer) : DecidablePred b.InBounds
  | .rollBack len => inferInstanceAs (Decidable (len ≤ b.readableLen))
  | .skipBytes len => inferInstanceAs (Decidable (len ≤ b.readableLen))
  | .write _ | .writeByte _ | .printf _ | .ensureWriteable _ | .compact _ | .readFd _
  | .writeFd _ => inferInstanceAs (Decidable True)

instance (b : SocketBuffer) (op : BufferOp) : Decidable (b.Allowed op) :=
  inferInstanceAs (Decidable (_ ∧ _))

end SocketBuffer

/-- The runs of a buffer. -/
def bufferMachine : Machine SocketBuffer BufferOp := ⟨SocketBuffer.step⟩

/-- What an operation means for a queue of bytes. -/
def BufferOp.onQueue (q : Queue UInt8) : BufferOp → Queue UInt8
  | .write data | .readFd data | .printf (some data) => q.push data
  | .writeByte ch => q.push [ch]
  | .rollBack len => q.retract len
  | .skipBytes len | .writeFd (.accepted len) => q.consume len
  | .printf none | .ensureWriteable _ | .compact _ | .writeFd .again | .writeFd .failed => q

/-- The same operations, on a queue. -/
def byteQueue : Machine (Queue UInt8) BufferOp := ⟨BufferOp.onQueue⟩

/-- The loop of `ensure_writeable`, from the capacity at its beginning to the one at its end. -/
inductive GrowLoop (minCap : ℕ) : ℕ → ℕ → Prop
  | done {cap : ℕ} (h : minCap ≤ cap) : GrowLoop minCap cap cap
  | turn {cap end' : ℕ} (h : cap < minCap) (rest : GrowLoop minCap (cap * 2) end') :
      GrowLoop minCap cap end'

namespace SocketBuffer

variable {b : SocketBuffer}

/-! ## Growth -/

/-- The loop ends: from a capacity that is not zero, doubling reaches the capacity wanted. -/
theorem growLoop_growCap {fuel cap minCap : ℕ} (hcap : 0 < cap) (hfuel : minCap ≤ cap + fuel) :
    GrowLoop minCap cap (growCap fuel cap minCap) := by
  induction fuel generalizing cap with
  | zero =>
    apply GrowLoop.done
    exact hfuel
  | succ fuel ih =>
    unfold growCap
    split_ifs with h
    · apply GrowLoop.turn h
      apply ih
      · omega
      · omega
    · exact GrowLoop.done (not_lt.mp h)

/-- `ensure_writeable` ends, with the capacity its loop ends with. -/
theorem growLoop_ensureWriteable (h : b.Wf) {min : ℕ} (hroom : b.writeableLen < min) :
    GrowLoop (b.writeIdx + min) (if b.capacity = 0 then defaultBufferSize else b.capacity)
      (b.ensureWriteable true min).1.capacity := by
  have hgrow : GrowLoop (b.writeIdx + min)
      (if b.capacity = 0 then defaultBufferSize else b.capacity)
      (growCap (b.writeIdx + min) (if b.capacity = 0 then defaultBufferSize else b.capacity)
        (b.writeIdx + min)) := by
    apply growLoop_growCap
    · split_ifs with hzero
      · exact Nat.succ_pos 31
      · omega
    · exact Nat.le_add_left _ _
  -- The new block is as long as the loop says.
  have hcap := minCap_le_growCap b.capacity (b.writeIdx + min)
  have hlen := length_contents h
  have hread := h.read_le
  convert hgrow using 1
  have hsame : (if bufferMaxRead < b.capacity then b.compact min else b) = b := by
    rw [compact_of_lt hroom, ite_self]
  unfold ensureWriteable
  rw [if_neg (not_le.mpr hroom)]
  dsimp only
  rw [hsame, if_pos rfl]
  simp only [capacity, List.length_append, List.length_replicate, hlen] at hcap ⊢
  unfold readableLen
  omega

/-! ## Printing appends -/

/-- Memory behind the write index, and a write index that advances over some of it. -/
theorem overwrite_spec (h : b.Wf) {out : Bytes} (hout : out.length ≤ b.writeableLen) {n : ℕ}
    (hn : n ≤ out.length) :
    Wf { b.overwrite out with writeIdx := b.writeIdx + n } ∧
      contents { b.overwrite out with writeIdx := b.writeIdx + n } = b.contents ++ out.take n ∧
      (b.overwrite out).capacity = b.capacity := by
  have hwrite := h.write_le
  have hread := h.read_le
  unfold writeableLen at hout
  have hcap : (b.overwrite out).buffer.length = b.buffer.length := by
    simp only [overwrite, List.length_append, List.length_take, List.length_drop]
    omega
  refine ⟨⟨?_, ?_⟩, ?_, hcap⟩
  · dsimp only [overwrite]
    omega
  · dsimp only
    rw [hcap]
    omega
  · have htake : (b.overwrite out).buffer.take (b.writeIdx + n) =
        b.buffer.take b.writeIdx ++ out.take n := by
      simp only [overwrite, List.append_assoc]
      rw [List.take_append, List.length_take, Nat.min_eq_left hwrite, Nat.add_sub_cancel_left,
        List.take_append_of_le_length hn, List.take_of_length_le]
      rw [List.length_take]
      omega
    change ((b.overwrite out).buffer.take (b.writeIdx + n)).drop b.readIdx = _
    rw [htake]
    exact List.drop_append_of_le_length (by rw [List.length_take]; omega)

/-- What `vsnprintf` prints lies behind the readable bytes. A text that fits can be taken over
by advancing the write index. -/
theorem vsnprintf_spec (h : b.Wf) (text : Bytes) :
    (b.vsnprintf text).Wf ∧ (b.vsnprintf text).contents = b.contents ∧
      (b.vsnprintf text).writeableLen = b.writeableLen ∧
      (text.length < b.writeableLen →
        Wf { b.vsnprintf text with writeIdx := b.writeIdx + text.length } ∧
        contents { b.vsnprintf text with writeIdx := b.writeIdx + text.length } =
          b.contents ++ text) := by
  unfold vsnprintf
  split_ifs with hfull
  · exact ⟨h, rfl, rfl, fun hlt => by omega⟩
  · have hout : (text.take (b.writeableLen - 1) ++ [(0 : UInt8)]).length ≤ b.writeableLen := by
      rw [List.length_append, List.length_take, List.length_singleton]
      omega
    obtain ⟨hwf, hcontents, hcap⟩ := overwrite_spec h hout (Nat.zero_le _)
    rw [List.take_zero, List.append_nil] at hcontents
    refine ⟨hwf, hcontents, congrArg (· - b.writeIdx) hcap, fun hlt => ?_⟩
    have htext : text.take (b.writeableLen - 1) = text := List.take_of_length_le (by omega)
    rw [htext] at hout ⊢
    obtain ⟨hwf', hcontents', -⟩ := overwrite_spec h hout
      (n := text.length) (by rw [List.length_append]; omega)
    rw [List.take_left' rfl] at hcontents'
    exact ⟨hwf', hcontents'⟩

/-- A turn in which the text fits is the last one. -/
theorem vprintfLoop_of_lt (h : b.Wf) {text : Bytes} (hlt : text.length < b.writeableLen)
    (fuel result : ℕ) :
    (vprintfLoop true text (fuel + 1) b result).1.Wf ∧
      (vprintfLoop true text (fuel + 1) b result).1.contents = b.contents ++ text ∧
      (vprintfLoop true text (fuel + 1) b result).2 = result + text.length := by
  obtain ⟨-, -, hroom, hfits⟩ := vsnprintf_spec h text
  unfold vprintfLoop
  simp only [hroom, if_pos hlt]
  have hidx : (b.vsnprintf text).writeIdx = b.writeIdx := by
    unfold vsnprintf
    split_ifs <;> rfl
  rw [hidx]
  exact ⟨(hfits hlt).1, (hfits hlt).2, trivial⟩

/-- **The loop of `_vprintf`** ends in its second turn at the latest, whatever its fuel. A text
that was printed twice is counted twice in the result. -/
theorem vprintfLoop_spec (h : b.Wf) (hspace : 0 < b.writeableLen) (text : Bytes)
    (fuel result : ℕ) :
    (vprintfLoop true text (fuel + 2) b result).1.Wf ∧
      (vprintfLoop true text (fuel + 2) b result).1.contents = b.contents ++ text ∧
      (vprintfLoop true text (fuel + 2) b result).2 =
        result + (if text.length < b.writeableLen then 1 else 2) * text.length := by
  by_cases hlt : text.length < b.writeableLen
  · rw [if_pos hlt, Nat.one_mul]
    exact vprintfLoop_of_lt h hlt (fuel + 1) result
  · obtain ⟨hwf, hcontents, hroom, -⟩ := vsnprintf_spec h text
    obtain ⟨hok, hwf', hcontents', hmin⟩ := ensureWriteable_spec hwf (text.length * 2)
    -- There is room for twice the text now, and the text is not empty.
    have hfits : text.length <
        ((b.vsnprintf text).ensureWriteable true (text.length * 2)).1.writeableLen := by omega
    have hlast := vprintfLoop_of_lt hwf' hfits fuel (result + text.length)
    unfold vprintfLoop
    simp only [hroom, if_neg hlt]
    cases hgrown : (b.vsnprintf text).ensureWriteable true (text.length * 2) with
    | mk grown ok =>
      rw [hgrown] at hok hlast hcontents'
      obtain rfl : ok = true := hok
      refine ⟨hlast.1, ?_, ?_⟩
      · rw [hlast.2.1, hcontents', hcontents]
      · rw [hlast.2.2]
        omega

/-- **`_printf` appends the text.** -/
theorem vprintf_spec (h : b.Wf) (text : Option Bytes) :
    (b.vprintf true text).1.Wf ∧
      (b.vprintf true text).1.contents = b.contents ++ text.getD [] := by
  obtain ⟨hok, hwf, hcontents, hmin⟩ := ensureWriteable_spec h 64
  unfold vprintf
  cases hgrown : b.ensureWriteable true 64 with
  | mk grown ok =>
    rw [hgrown] at hok hwf hcontents hmin
    obtain rfl : ok = true := hok
    cases text with
    | none => exact ⟨hwf, hcontents.trans (List.append_nil _).symm⟩
    | some text =>
      obtain ⟨hwf', hcontents', -⟩ := vprintfLoop_spec hwf (by omega) text 0 0
      exact ⟨hwf', by rw [Option.getD_some, ← hcontents]; exact hcontents'⟩

/-! ## Taking bytes back -/

theorem rollBack_spec (h : b.Wf) {len : ℕ} (hlen : len ≤ b.readableLen) :
    (b.setWriteIndex (b.writeIdx - len)).Wf ∧
      (b.setWriteIndex (b.writeIdx - len)).contents =
        b.contents.take (b.contents.length - len) := by
  have hread := h.read_le
  have hwrite := h.write_le
  have hcontents := length_contents h
  unfold readableLen at hlen hcontents
  refine ⟨⟨?_, ?_⟩, ?_⟩
  · dsimp only [setWriteIndex]
    omega
  · dsimp only [setWriteIndex]
    omega
  · have hend : b.readIdx + (b.writeIdx - b.readIdx - len) = b.writeIdx - len := by omega
    rw [hcontents]
    unfold contents setWriteIndex
    rw [List.take_drop, List.take_take, hend, Nat.min_eq_left (Nat.sub_le _ _)]

/-! ## Runs -/

/-- A buffer that holds the bytes of a queue. -/
structure Represents (b : SocketBuffer) (q : Queue UInt8) : Prop where
  wf : b.Wf
  contents : b.contents = q.pending

theorem represents_empty : Represents {} {} := ⟨wf_empty, rfl⟩

variable {q : Queue UInt8}

theorem Represents.readableLen (h : b.Represents q) : b.readableLen = q.pending.length := by
  rw [← length_contents h.wf, h.contents]

/-- Bytes that were appended. -/
theorem Represents.push (h : b.Represents q) {b' : SocketBuffer} {data : Bytes} (hwf : b'.Wf)
    (hcontents : b'.contents = b.contents ++ data) : b'.Represents (q.push data) :=
  ⟨hwf, by rw [hcontents, Queue.pending_push, h.contents]⟩

/-- Below `2 ^ 31` bytes `write_fd` takes what `send` accepts, as far as there are bytes. -/
theorem taken_of_lt (hsmall : b.readableLen < 2147483648) (res : SendResult) :
    b.taken res = match res with
      | .accepted n => some (min n b.readableLen)
      | .again | .failed => if b.readableLen = 0 then some 0 else none := by
  have hint : CInt.toInt b.readableLen = b.readableLen := by
    apply CInt.toInt_of_inRange
    constructor <;> omega
  unfold taken
  rw [hint]
  cases res with
  | accepted n =>
    refine congrArg some ?_
    split_ifs with hzero
    · omega
    · rfl
  | again => simp only [Nat.cast_eq_zero]
  | failed => simp only [Nat.cast_eq_zero]

theorem Represents.writeFd (h : b.Represents q) (hsmall : b.readableLen < 2147483648)
    (res : SendResult) :
    (b.afterWriteFd res).Represents (BufferOp.onQueue q (.writeFd res)) := by
  have hlen := h.readableLen
  have hle : (b.taken res).getD 0 ≤ b.readableLen := by
    cases htaken : b.taken res with
    | none => exact Nat.zero_le _
    | some n => exact taken_le htaken
  obtain ⟨hwf, hcontents⟩ := skipBytes_spec h.wf hle
  refine ⟨hwf, hcontents.trans ?_⟩
  rw [h.contents, taken_of_lt hsmall]
  cases res with
  | accepted n =>
    rw [BufferOp.onQueue, Queue.pending_consume, hlen, Option.getD_some]
    rcases Nat.le_total n q.pending.length with hn | hn
    · rw [Nat.min_eq_left hn]
    · rw [Nat.min_eq_right hn, List.drop_length, List.drop_eq_nil_of_le hn]
  | again =>
    dsimp only
    split_ifs <;> exact List.drop_zero
  | failed =>
    dsimp only
    split_ifs <;> exact List.drop_zero

/-- **An operation in its domain** does to the buffer what it means for the queue. -/
theorem Represents.step (h : b.Represents q) (hsize : b.capacity < 2147483648) {op : BufferOp}
    (hop : b.InBounds op) : (b.step op).Represents (op.onQueue q) := by
  have hreadable : b.readableLen < 2147483648 := by
    have hwrite := h.wf.write_le
    unfold capacity at hsize
    unfold SocketBuffer.readableLen
    omega
  cases op with
  | write data =>
    obtain ⟨-, hwf, hcontents⟩ := write_spec h.wf data
    exact h.push hwf hcontents
  | writeByte ch =>
    obtain ⟨-, hwf, hcontents⟩ := write_spec h.wf [ch]
    exact h.push hwf hcontents
  | printf text =>
    obtain ⟨hwf, hcontents⟩ := vprintf_spec h.wf text
    cases text with
    | none => exact ⟨hwf, (hcontents.trans (List.append_nil _)).trans h.contents⟩
    | some text => exact h.push hwf hcontents
  | rollBack len =>
    obtain ⟨hwf, hcontents⟩ := rollBack_spec h.wf hop
    refine ⟨hwf, ?_⟩
    rw [BufferOp.onQueue, Queue.pending_retract q (h.readableLen ▸ hop), ← h.contents]
    exact hcontents
  | skipBytes len =>
    obtain ⟨hwf, hcontents⟩ := skipBytes_spec h.wf hop
    refine ⟨hwf, ?_⟩
    rw [BufferOp.onQueue, Queue.pending_consume, ← h.contents]
    exact hcontents
  | ensureWriteable min =>
    obtain ⟨-, hwf, hcontents, -⟩ := ensureWriteable_spec h.wf min
    exact ⟨hwf, hcontents.trans h.contents⟩
  | compact size =>
    obtain ⟨hwf, hcontents⟩ := compact_spec h.wf size
    refine ⟨hwf, (hcontents.resolve_right ?_).trans h.contents⟩
    rintro ⟨hlarge, -⟩
    omega
  | readFd chunk =>
    obtain ⟨hwf, hcontents⟩ := readFd_spec h.wf chunk
    exact h.push hwf hcontents
  | writeFd res => exact h.writeFd hreadable res

end SocketBuffer

/-- **A socket buffer is a byte queue**: in every state of every run, from an empty buffer, whose
operations are in their domain, the indices are in order, what can be read is what was appended
less what was taken out, and whatever room `ensure_writeable` is asked for next, its loop ends
and the room is there. -/
theorem socketBuffer_is_queue (ops : List BufferOp)
    (h : bufferMachine.Meets SocketBuffer.Allowed {} ops) {past : List BufferOp}
    (hpast : past <+: ops) :
    let b := bufferMachine.run {} past
    b.readIdx ≤ b.writeIdx ∧ b.writeIdx ≤ b.capacity ∧
      b.contents = (byteQueue.run {} past).pending ∧
      ∀ min, b.Allowed (.ensureWriteable min) →
        (b.ensureWriteable true min).2 = true ∧
          min ≤ (b.ensureWriteable true min).1.writeableLen ∧
          (b.writeableLen < min →
            GrowLoop (b.writeIdx + min)
              (if b.capacity = 0 then SocketBuffer.defaultBufferSize else b.capacity)
              (b.ensureWriteable true min).1.capacity) := by
  intro b
  have hinv : b.Represents (byteQueue.run {} past) ∧ b.capacity < 2147483648 := by
    refine Machine.Meets.simulates (R := fun b q => b.Represents q ∧ b.capacity < 2147483648) ?_
      ⟨SocketBuffer.represents_empty, by decide⟩ (h.of_prefix hpast)
    rintro s q op ⟨hrep, hsize⟩ ⟨hop, hsmall⟩
    exact ⟨hrep.step hsize hop, hsmall⟩
  have hwf := hinv.1.wf
  refine ⟨hwf.read_le, hwf.write_le, hinv.1.contents, fun min _ => ?_⟩
  obtain ⟨hok, -, -, hroom⟩ := SocketBuffer.ensureWriteable_spec hwf min
  exact ⟨hok, hroom, SocketBuffer.growLoop_ensureWriteable hwf⟩

/-- Bytes are read from a socket, a part of them is skipped, a text that does not fit is printed,
its last byte is taken back, and some bytes are sent. -/
def sampleBufferOps : List BufferOp :=
  [.readFd (List.replicate 40 1), .skipBytes 10, .printf (some (List.replicate 100 65)),
    .rollBack 1, .compact 0, .writeByte 0, .writeFd (.accepted 50), .ensureWriteable 20]

theorem socketBuffer_is_queue_sample :
    let b := bufferMachine.run {} sampleBufferOps
    b.readIdx ≤ b.writeIdx ∧ b.contents = List.replicate 79 65 ++ [0] := by
  have h := socketBuffer_is_queue sampleBufferOps (by decide +kernel) (List.prefix_refl _)
  refine ⟨h.1, h.2.2.1.trans ?_⟩
  decide +kernel

end Kimserver
