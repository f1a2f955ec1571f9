import Mathlib.Tactic.Linarith
import Kimserver.Util.Text

/-!
# The socket buffer

`SocketBuffer`: a growing block of memory with a read index and a write index. The readable
bytes lie between the two; reading moves the read index, writing appends at the write index
and makes room first.

## Main definitions

* `SocketBuffer`, `SocketBuffer.Wf`: the members and the order of the indices
* `SocketBuffer.contents`: the readable bytes
* `SocketBuffer.compact`, `SocketBuffer.ensureWriteable`, `SocketBuffer.write`,
  `SocketBuffer.readFd`, `SocketBuffer.writeFd`, `SocketBuffer.skipBytes`: the operations
* `SocketBuffer.recover`: the recovery of memory after a read or a write on a connection

## Main results

* `SocketBuffer.write_spec`, `SocketBuffer.readFd_spec`: appending operations append
* `SocketBuffer.skipBytes_spec`, `SocketBuffer.compact_spec`: what is dropped and what stays
-/

namespace Kimserver

/-- The members: the allocated memory, whose length is `m_buffer_len`, and the two indices. -/
structure SocketBuffer where
  buffer : Bytes := []
  readIdx : ℕ := 0
  writeIdx : ℕ := 0
  deriving DecidableEq

namespace SocketBuffer

/-- `BUFFER_MAX_READ`. -/
def bufferMaxRead : ℕ := 8192

/-- `DEFAULT_BUFFER_SIZE`. -/
def defaultBufferSize : ℕ := 32

/-- The order of the indices in the picture at the head of `socket_buffer.h`. -/
structure Wf (b : SocketBuffer) : Prop where
  read_le : b.readIdx ≤ b.writeIdx
  write_le : b.writeIdx ≤ b.buffer.length

def capacity (b : SocketBuffer) : ℕ := b.buffer.length

def readableLen (b : SocketBuffer) : ℕ := b.writeIdx - b.readIdx

def writeableLen (b : SocketBuffer) : ℕ := b.buffer.length - b.writeIdx

def isReadable (b : SocketBuffer) : Bool := b.readIdx < b.writeIdx

/-- The readable bytes. -/
def contents (b : SocketBuffer) : Bytes := (b.buffer.take b.writeIdx).drop b.readIdx

/-! ## Operations -/

/-- `compact`: the readable bytes move to a block of their own size. Their number is kept in
a `uint32_t`. -/
def compact (b : SocketBuffer) (size : ℕ) : SocketBuffer :=
  if b.writeableLen < size then b
  else
    let readableBytes := b.readableLen % 4294967296
    { buffer := b.contents.take readableBytes, readIdx := 0, writeIdx := readableBytes }

/-- The loop that doubles a capacity until it reaches `minCap`; it takes fewer than `fuel`
turns for `fuel = minCap`. -/
def growCap : ℕ → ℕ → ℕ → ℕ
  | 0, cap, _ => cap
  | fuel + 1, cap, minCap => if cap < minCap then growCap fuel (cap * 2) minCap else cap

/-- `ensure_writeable`; `alloc` is false where the allocation fails. -/
def ensureWriteable (alloc : Bool) (b : SocketBuffer) (min : ℕ) : SocketBuffer × Bool :=
  if min ≤ b.writeableLen then (b, true)
  else
    let cap := b.capacity
    let b := if bufferMaxRead < cap then b.compact min else b
    let minCap := b.writeIdx + min
    let cap := growCap minCap (if cap = 0 then defaultBufferSize else cap) minCap
    if alloc then
      ({ buffer := b.contents ++ List.replicate (cap - b.readableLen) 0
         readIdx := 0
         writeIdx := b.readableLen }, true)
    else (b, false)

/-- `memcpy` to the write index, and its advance. -/
def put (b : SocketBuffer) (data : Bytes) : SocketBuffer :=
  { b with
    buffer := b.buffer.take b.writeIdx ++ data ++ b.buffer.drop (b.writeIdx + data.length)
    writeIdx := b.writeIdx + data.length }

/-- `_write`: the buffer after it and whether all bytes were written. -/
def write (alloc : Bool) (b : SocketBuffer) (data : Bytes) : SocketBuffer × Bool :=
  match b.ensureWriteable alloc data.length with
  | (b', false) => (b', false)
  | (b', true) => (b'.put data, true)

/-- `read_fd` when `readv` returns `chunk`: what does not fit goes through a second block and
`_write`. -/
def readFd (b : SocketBuffer) (chunk : Bytes) : SocketBuffer :=
  if chunk.length ≤ b.writeableLen then b.put chunk
  else ((b.put (chunk.take b.writeableLen)).write true (chunk.drop b.writeableLen)).1

/-- `advance_read_index` and `skip_bytes`. -/
def skipBytes (b : SocketBuffer) (len : ℕ) : SocketBuffer :=
  { b with readIdx := b.readIdx + len }

/-- `advance_read_index` with an `int` that may be negative. An index below zero wraps around. -/
def advanceReadIndex (b : SocketBuffer) (step : ℤ) : SocketBuffer :=
  let i := (b.readIdx : ℤ) + step
  { b with readIdx := (if 0 ≤ i then i else i + 18446744073709551616).toNat }

/-- `len` bytes of memory at an offset behind `raw_read_buffer`. Outside the allocated block they
are whatever lies there. -/
def memory (stray : ℕ → UInt8) (b : SocketBuffer) (offset len : ℕ) : Bytes :=
  (List.range len).map fun i => (b.buffer[b.readIdx + offset + i]?).getD (stray i)

/-- `set_write_index`. -/
def setWriteIndex (b : SocketBuffer) (idx : ℕ) : SocketBuffer := { b with writeIdx := idx }

@[simp] theorem setWriteIndex_writeIdx (b : SocketBuffer) (idx : ℕ) :
    (b.setWriteIndex idx).writeIdx = idx := rfl

@[simp] theorem setWriteIndex_readIdx (b : SocketBuffer) (idx : ℕ) :
    (b.setWriteIndex idx).readIdx = b.readIdx := rfl

@[simp] theorem setWriteIndex_buffer (b : SocketBuffer) (idx : ℕ) :
    (b.setWriteIndex idx).buffer = b.buffer := rfl

/-- The result of `send`: a number of bytes taken, `EAGAIN`, or another error. -/
inductive SendResult
  | accepted (n : ℕ)
  | again
  | failed
  deriving DecidableEq

/-- `write_fd` when `send` answers with `res`: the result, the bytes that went to the socket,
and the buffer after it. The number of readable bytes is passed as an `int`; where that is
zero `send` is not called. -/
def writeFd (b : SocketBuffer) (res : SendResult) : SendResult × Bytes × SocketBuffer :=
  if CInt.toInt b.readableLen = 0 then (.accepted 0, [], b)
  else
    match res with
    | .accepted n =>
      let n := min n b.readableLen
      (.accepted n, b.contents.take n, b.skipBytes n)
    | res => (res, [], b)

/-- The recovery of `conn_read` and `conn_write`: a large buffer that is mostly free is
compacted. -/
def recover (b : SocketBuffer) : SocketBuffer :=
  if bufferMaxRead < b.capacity ∧ b.readableLen < b.capacity / 2 then b.compact (b.readableLen * 2)
  else b

/-- A read on a connection that `readv` answers with `chunk`. -/
def readChunk (b : SocketBuffer) (chunk : Bytes) : SocketBuffer := (b.readFd chunk).recover

/-- How many bytes `write_fd` takes when `send` answers with `res`, if it does not fail. -/
def taken (b : SocketBuffer) : SendResult → Option ℕ
  | .accepted n => some (if CInt.toInt b.readableLen = 0 then 0 else min n b.readableLen)
  | _ => if CInt.toInt b.readableLen = 0 then some 0 else none

/-- How many readable bytes are left when `n` bytes are taken and the memory is recovered. -/
def leftAfter (b : SocketBuffer) (n : ℕ) : ℕ :=
  if bufferMaxRead < b.capacity ∧ b.readableLen - n < b.capacity / 2 ∧
      (b.readableLen - n) * 2 ≤ b.writeableLen then
    (b.readableLen - n) % 4294967296
  else b.readableLen - n

/-- A write that `send` answers with `res` leaves no readable byte. -/
def Empties (b : SocketBuffer) (res : SendResult) : Prop :=
  ∃ n, b.taken res = some n ∧ b.leftAfter n = 0

/-- A write that `send` answers with `res` loses no byte in the recovery of memory. -/
def Keeps (b : SocketBuffer) (res : SendResult) : Prop :=
  ∀ n ∈ b.taken res, b.leftAfter n = b.readableLen - n

instance (b : SocketBuffer) (res : SendResult) : Decidable (b.Keeps res) :=
  inferInstanceAs (Decidable (∀ _ ∈ _, _))

/-! ## Growth -/

theorem le_growCap (fuel cap minCap : ℕ) (hcap : 0 < cap) (hfuel : minCap ≤ cap + fuel) :
    minCap ≤ growCap fuel cap minCap := by
  induction fuel generalizing cap with
  | zero => simpa [growCap] using hfuel
  | succ fuel ih =>
    unfold growCap
    split_ifs with h
    · exact ih (cap * 2) (by omega) (by omega)
    · omega

/-- The new capacity has room for the bytes wanted after the write index. -/
theorem minCap_le_growCap (cap minCap : ℕ) :
    minCap ≤ growCap minCap (if cap = 0 then defaultBufferSize else cap) minCap := by
  refine le_growCap minCap _ minCap ?_ (Nat.le_add_left _ _)
  split_ifs with h
  · exact Nat.succ_pos 31
  · omega

/-- In the branch that grows, `compact` has nothing to do. -/
theorem compact_of_lt {b : SocketBuffer} {size : ℕ} (h : b.writeableLen < size) :
    b.compact size = b := if_pos h

/-! ## What the operations do to the contents -/

section Contents

variable {b : SocketBuffer}

theorem length_contents (h : b.Wf) : b.contents.length = b.readableLen := by
  have := h.write_le
  rw [contents, List.length_drop, List.length_take, readableLen, Nat.min_eq_left this]

theorem isReadable_iff (b : SocketBuffer) : b.isReadable = true ↔ 0 < b.readableLen := by
  simp only [isReadable, readableLen, decide_eq_true_eq]
  omega

theorem not_isReadable_iff (b : SocketBuffer) : b.isReadable = false ↔ b.readableLen = 0 := by
  rw [← Bool.not_eq_true, isReadable_iff]
  omega

theorem wf_empty : Wf {} := ⟨le_rfl, le_rfl⟩

@[simp] theorem contents_empty : contents {} = [] := rfl

/-- Memory before the write index keeps its readable bytes when it is replaced after it. -/
theorem contents_mk_append (x y : Bytes) : contents ⟨x ++ y, 0, x.length⟩ = x := by
  simp [contents]

/-- A buffer with nothing but some bytes. -/
theorem contents_mk (x : Bytes) : contents ⟨x, 0, x.length⟩ = x := by
  have h := contents_mk_append x []
  rwa [List.append_nil] at h

theorem ensureWriteable_spec (h : b.Wf) (min : ℕ) :
    (b.ensureWriteable true min).2 = true ∧ (b.ensureWriteable true min).1.Wf ∧
      (b.ensureWriteable true min).1.contents = b.contents ∧
      min ≤ (b.ensureWriteable true min).1.writeableLen := by
  have hread := h.read_le
  have hwrite := h.write_le
  have hlen := length_contents h
  unfold ensureWriteable
  by_cases hroom : min ≤ b.writeableLen
  · rw [if_pos hroom]
    exact ⟨rfl, h, rfl, hroom⟩
  · rw [if_neg hroom, compact_of_lt (by omega)]
    simp only [ite_self, if_true]
    have hcap := minCap_le_growCap b.capacity (b.writeIdx + min)
    unfold readableLen at hlen ⊢
    refine ⟨trivial, ⟨Nat.zero_le _, ?_⟩, ?_, ?_⟩
    · simp only [List.length_append, hlen]
      omega
    · rw [← hlen]
      exact contents_mk_append _ _
    · simp only [writeableLen, List.length_append, List.length_replicate, hlen]
      omega

theorem put_spec (h : b.Wf) (data : Bytes) :
    (b.put data).Wf ∧ (b.put data).contents = b.contents ++ data := by
  have hread := h.read_le
  have hwrite := h.write_le
  refine ⟨⟨?_, ?_⟩, ?_⟩
  · simp only [put]
    omega
  · simp only [put, List.length_append, List.length_take, List.length_drop]
    omega
  · have htake : (b.buffer.take b.writeIdx ++ data ++
        b.buffer.drop (b.writeIdx + data.length)).take (b.writeIdx + data.length) =
          b.buffer.take b.writeIdx ++ data :=
      List.take_left' (by simp only [List.length_append, List.length_take]; omega)
    simp only [contents, put, htake]
    exact List.drop_append_of_le_length (by rw [List.length_take]; omega)

/-- **`_write` appends.** -/
theorem write_spec (h : b.Wf) (data : Bytes) :
    (b.write true data).2 = true ∧ (b.write true data).1.Wf ∧
      (b.write true data).1.contents = b.contents ++ data := by
  obtain ⟨hok, hwf, hcontents, -⟩ := ensureWriteable_spec h data.length
  obtain ⟨hwf', hcontents'⟩ := put_spec hwf data
  unfold write
  split
  · next heq =>
    rw [heq] at hok
    exact absurd hok (by simp)
  · next heq =>
    rw [heq] at hwf' hcontents' hcontents
    exact ⟨rfl, hwf', by rw [hcontents', hcontents]⟩

/-- **`read_fd` appends what was read.** -/
theorem readFd_spec (h : b.Wf) (chunk : Bytes) :
    (b.readFd chunk).Wf ∧ (b.readFd chunk).contents = b.contents ++ chunk := by
  unfold readFd
  split_ifs
  · exact put_spec h chunk
  · obtain ⟨hwf, hcontents⟩ := put_spec h (chunk.take b.writeableLen)
    obtain ⟨-, hwf', hcontents'⟩ := write_spec hwf (chunk.drop b.writeableLen)
    refine ⟨hwf', ?_⟩
    rw [hcontents', hcontents, List.append_assoc, List.take_append_drop]

theorem skipBytes_spec (h : b.Wf) {len : ℕ} (hlen : len ≤ b.readableLen) :
    (b.skipBytes len).Wf ∧ (b.skipBytes len).contents = b.contents.drop len := by
  have hread := h.read_le
  unfold readableLen at hlen
  refine ⟨⟨?_, h.write_le⟩, ?_⟩
  · simp only [skipBytes]
    omega
  · simp only [contents, skipBytes, List.drop_drop]

theorem advanceReadIndex_natCast (b : SocketBuffer) (len : ℕ) :
    b.advanceReadIndex len = b.skipBytes len := by
  simp only [advanceReadIndex, skipBytes]
  rw [if_pos (by omega)]
  norm_cast

/-- In the range of an `int` the read index moves by the number of bytes. -/
theorem advanceReadIndex_toInt (b : SocketBuffer) {len : ℕ} (h : len < 2147483648) :
    b.advanceReadIndex (CInt.toInt len) = b.skipBytes len := by
  rw [CInt.toInt_of_inRange (CInt.inRange_natCast h), advanceReadIndex_natCast]

/-- Memory within the readable bytes. -/
theorem memory_eq (h : b.Wf) (stray : ℕ → UInt8) {offset len : ℕ}
    (hlen : offset + len ≤ b.readableLen) :
    b.memory stray offset len = (b.contents.drop offset).take len := by
  have hwrite := h.write_le
  have hcontents := length_contents h
  unfold readableLen at hlen hcontents
  refine List.ext_getElem ?_ fun i hi hi' => ?_
  · rw [memory, List.length_map, List.length_range, List.length_take, List.length_drop, hcontents]
    omega
  · rw [memory, List.length_map, List.length_range] at hi
    simp only [memory, List.getElem_map, List.getElem_range, List.getElem_take, List.getElem_drop,
      contents]
    rw [List.getElem?_eq_getElem (by omega), Option.getD_some]
    congr 1
    omega

/-- `compact` keeps the readable bytes, up to a count below `2 ^ 32`. -/
theorem compact_spec (h : b.Wf) (size : ℕ) :
    (b.compact size).Wf ∧
      ((b.compact size).contents = b.contents ∨
        4294967296 ≤ b.readableLen ∧
          (b.compact size).contents = b.contents.take (b.readableLen % 4294967296)) := by
  have hlen := length_contents h
  unfold compact
  split_ifs with hroom
  · exact ⟨h, Or.inl rfl⟩
  · have hmod : b.readableLen % 4294967296 ≤ b.contents.length := hlen ▸ Nat.mod_le _ _
    have hcontents : contents ⟨b.contents.take (b.readableLen % 4294967296), 0,
        b.readableLen % 4294967296⟩ = b.contents.take (b.readableLen % 4294967296) := by
      simp only [contents, List.drop_zero, List.take_take, min_self]
    refine ⟨⟨Nat.zero_le _, ?_⟩, ?_⟩
    · simp only [List.length_take, Nat.min_eq_left hmod, le_refl]
    · rcases Nat.lt_or_ge b.readableLen 4294967296 with hlt | hge
      · refine Or.inl ?_
        rw [hcontents, Nat.mod_eq_of_lt hlt, ← hlen, List.take_length]
      · exact Or.inr ⟨hge, hcontents⟩

/-- The recovery keeps the readable bytes, up to a count below `2 ^ 32`. -/
theorem recover_spec (h : b.Wf) :
    b.recover.Wf ∧
      (b.recover.contents = b.contents ∨
        4294967296 ≤ b.readableLen ∧
          b.recover.contents = b.contents.take (b.readableLen % 4294967296)) := by
  unfold recover
  split_ifs
  · exact compact_spec h _
  · exact ⟨h, Or.inl rfl⟩

/-- A read appends, up to a count below `2 ^ 32`. -/
theorem readChunk_spec (h : b.Wf) (chunk : Bytes) :
    (b.readChunk chunk).Wf ∧
      ((b.readChunk chunk).contents = b.contents ++ chunk ∨
        (b.readChunk chunk).contents.length + 4294967296 ≤ b.contents.length + chunk.length) := by
  obtain ⟨hwf, hcontents⟩ := readFd_spec h chunk
  obtain ⟨hwf', hcases⟩ := recover_spec hwf
  refine ⟨hwf', ?_⟩
  rcases hcases with heq | ⟨hlarge, heq⟩
  · exact Or.inl (by rw [readChunk, heq, hcontents])
  · right
    have hlen : (b.readFd chunk).readableLen = b.contents.length + chunk.length := by
      rw [← length_contents hwf, hcontents, List.length_append]
    rw [readChunk, heq, List.length_take, hlen]
    rw [hlen] at hlarge
    omega

/-- What `write_fd` does, by the number of bytes it takes. -/
theorem writeFd_taken (b : SocketBuffer) (res : SendResult) :
    (∃ n, b.taken res = some n ∧
      b.writeFd res = (.accepted n, b.contents.take n, b.skipBytes n)) ∨
    (b.taken res = none ∧ (res = .again ∨ res = .failed) ∧ b.writeFd res = (res, [], b)) := by
  unfold writeFd taken
  by_cases hzero : CInt.toInt b.readableLen = 0
  · cases res <;> exact Or.inl ⟨0, by simp [hzero], by simp [hzero, skipBytes]⟩
  · cases res with
    | accepted n => exact Or.inl ⟨min n b.readableLen, by simp [hzero], by simp [hzero]⟩
    | again => exact Or.inr ⟨by simp [hzero], Or.inl rfl, by simp [hzero]⟩
    | failed => exact Or.inr ⟨by simp [hzero], Or.inr rfl, by simp [hzero]⟩

/-- A failing `send` is noticed when it is called with bytes. -/
theorem taken_failed (b : SocketBuffer) :
    b.taken .failed = none ↔ CInt.toInt b.readableLen ≠ 0 := by
  unfold taken
  by_cases h : CInt.toInt b.readableLen = 0
  · simp [h]
  · simp [h]

theorem taken_le {res : SendResult} {n : ℕ} (h : b.taken res = some n) : n ≤ b.readableLen := by
  unfold taken at h
  cases res <;> simp only at h <;> split_ifs at h <;>
    simp only [Option.some.injEq] at h <;> omega

theorem readableLen_recover_skipBytes (b : SocketBuffer) (n : ℕ) :
    (b.skipBytes n).recover.readableLen = b.leftAfter n := by
  have hlen : (b.skipBytes n).readableLen = b.readableLen - n := by
    simp only [skipBytes, readableLen]
    omega
  have hcap : (b.skipBytes n).capacity = b.capacity := rfl
  have hroom : (b.skipBytes n).writeableLen = b.writeableLen := rfl
  unfold recover leftAfter
  rw [hlen, hcap]
  by_cases hlarge : bufferMaxRead < b.capacity ∧ b.readableLen - n < b.capacity / 2
  · rw [if_pos hlarge]
    unfold compact
    rw [hlen, hroom]
    by_cases hfit : (b.readableLen - n) * 2 ≤ b.writeableLen
    · rw [if_neg (not_lt.mpr hfit), if_pos ⟨hlarge.1, hlarge.2, hfit⟩]
      rfl
    · rw [if_pos (not_le.mp hfit), if_neg fun h => hfit h.2.2, hlen]
  · rw [if_neg hlarge, if_neg fun h => hlarge ⟨h.1, h.2.1⟩, hlen]

/-- Buffers below `2 ^ 32` bytes lose nothing. -/
theorem keeps_of_lt {b : SocketBuffer} (h : b.readableLen < 4294967296) (res : SendResult) :
    b.Keeps res := by
  intro n _
  unfold leftAfter
  split_ifs
  · exact Nat.mod_eq_of_lt (by omega)
  · rfl

/-- What is left in the buffer after a write that loses nothing. -/
theorem contents_recover_skipBytes (h : b.Wf) {n : ℕ} (hn : n ≤ b.readableLen)
    (hkeeps : b.leftAfter n = b.readableLen - n) :
    (b.skipBytes n).recover.contents = b.contents.drop n := by
  obtain ⟨hwf, hcontents⟩ := skipBytes_spec h hn
  obtain ⟨hwf', hcases⟩ := recover_spec hwf
  rw [← hcontents]
  refine hcases.resolve_right fun ⟨hlarge, hcut⟩ => ?_
  -- the count would have lost a multiple of `2 ^ 32`
  have hleft := readableLen_recover_skipBytes b n
  have hlen := congrArg List.length hcut
  rw [length_contents hwf', hleft, hkeeps, List.length_take, length_contents hwf] at hlen
  have hskip : (b.skipBytes n).readableLen = b.readableLen - n := by
    simp only [skipBytes, readableLen]
    omega
  omega

end Contents

end SocketBuffer

end Kimserver
