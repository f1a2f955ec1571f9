import Kimserver.Util.ByteQueue

/-!
# The write index behind a text

An encoder prints lines, writes a body and a NUL, and takes the NUL back. It keeps the write index
in an `int` for that. So it matters where the texts end. They begin at the write index as long as
the block has room; when the block is replaced, the readable bytes move to its beginning.

## Main definitions

* `SocketBuffer.printLines`: lines, one after the other
* `SocketBuffer.dropNul`: the NUL is taken back
* `SocketBuffer.hasRoom`, `SocketBuffer.nulIndex`: the room for the texts, and where they end

## Main results

* `SocketBuffer.writeNul_spec`: the contents and the write index behind the NUL
* `SocketBuffer.dropNul_spec`, `SocketBuffer.dropNul_of_le`: below `2 ^ 31` the NUL is dropped,
  and from there on much more, or nothing is left of the order of the indices
* `SocketBuffer.dropNul_iff`: when what was written is left
-/

namespace Kimserver

namespace SocketBuffer

/-- Lines are printed one after the other. -/
def printLines (b : SocketBuffer) (lines : List Bytes) : SocketBuffer :=
  lines.foldl (fun b line => (b.vprintf true (some line)).1) b

/-- A body is written, and a NUL behind it. -/
def writeNul (b : SocketBuffer) (body : Bytes) : SocketBuffer :=
  ((b.write true body).1.write true [0]).1

/-- `int write_index = write_index(); set_write_index(write_index - 1)`. From `2 ^ 31` on the index
is no `int`; at `2 ^ 31` itself the subtraction overflows, and what it gives is not defined. -/
def dropNul (b : SocketBuffer) : SocketBuffer :=
  b.setWriteIndex (CInt.toSize (CInt.toInt b.writeIdx - 1))

/-- Lines, a body and a NUL fit into this room. `_printf` asks for 64 bytes, and needs one behind
its text. -/
def hasRoom (body : Bytes) : ℕ → List Bytes → Bool
  | room, [] => body.length < room
  | room, line :: lines =>
    64 ≤ room && line.length < room && hasRoom body (room - line.length) lines

/-- The write index behind lines, a body and a NUL. -/
def nulIndex (b : SocketBuffer) (lines : List Bytes) (body : Bytes) : ℕ :=
  (if hasRoom body b.writeableLen lines then b.writeIdx else b.readableLen) +
    (lines.flatten.length + body.length + 1)

/-- `malloc` gives no block of `2 ^ 63` bytes or more. -/
def InMemory (b : SocketBuffer) : Prop := b.capacity < 9223372036854775808

instance (b : SocketBuffer) : Decidable b.InMemory := inferInstanceAs (Decidable (_ < _))

variable {b : SocketBuffer} {line data body : Bytes} {lines : List Bytes}

/-! ## The read index -/

/-- The block is replaced where it has no room, and only there. -/
theorem ensureWriteable_readIdx (min : ℕ) : (b.ensureWriteable true min).1.readIdx =
    if min ≤ b.writeableLen then b.readIdx else 0 := by
  unfold ensureWriteable
  by_cases hroom : min ≤ b.writeableLen
  · rw [if_pos hroom, if_pos hroom]
  · rw [if_neg hroom, if_neg hroom]
    rfl

theorem vsnprintf_indices (b : SocketBuffer) (text : Bytes) :
    (b.vsnprintf text).readIdx = b.readIdx ∧ (b.vsnprintf text).writeIdx = b.writeIdx := by
  unfold vsnprintf
  split_ifs <;> exact ⟨rfl, rfl⟩

/-- A line that has room is printed where it is. -/
theorem vprintf_of_room (h : b.Wf) (hroom : 64 ≤ b.writeableLen)
    (hline : line.length < b.writeableLen) :
    (b.vprintf true (some line)).1.readIdx = b.readIdx ∧
      (b.vprintf true (some line)).1.writeableLen = b.writeableLen - line.length := by
  obtain ⟨hread, hwrite⟩ := vsnprintf_indices b line
  obtain ⟨-, -, hsame, -⟩ := vsnprintf_spec h line
  have hgrown : b.ensureWriteable true 64 = (b, true) := if_pos hroom
  unfold vprintf
  rw [hgrown]
  dsimp only
  unfold vprintfLoop
  simp only [hsame, if_pos hline]
  refine ⟨hread, ?_⟩
  unfold writeableLen at hsame ⊢
  dsimp only
  omega

/-- Behind the beginning of a block the loop of `_vprintf` stays there. -/
theorem vprintfLoop_readIdx (h : b.readIdx = 0) (text : Bytes) (fuel result : ℕ) :
    (vprintfLoop true text fuel b result).1.readIdx = 0 := by
  induction fuel generalizing b result with
  | zero => exact h
  | succ fuel ih =>
    have hread := (vsnprintf_indices b text).1.trans h
    have hgrown := (b.vsnprintf text).ensureWriteable_readIdx (text.length * 2)
    rw [hread, ite_self] at hgrown
    unfold vprintfLoop
    dsimp only
    split_ifs
    · exact hread
    · cases hcase : (b.vsnprintf text).ensureWriteable true (text.length * 2) with
      | mk grown ok =>
        rw [hcase] at hgrown
        cases ok with
        | false => exact hgrown
        | true => exact ih hgrown (result + text.length)

/-- A line that has no room is printed at the beginning of a block. -/
theorem vprintf_of_full (h : b.Wf)
    (hfull : ¬ (64 ≤ b.writeableLen ∧ line.length < b.writeableLen)) :
    (b.vprintf true (some line)).1.readIdx = 0 := by
  obtain ⟨hok, -⟩ := ensureWriteable_spec h 64
  unfold vprintf
  by_cases hroom : 64 ≤ b.writeableLen
  · -- the first attempt has no room, and the second one asks for twice the text
    have hgrown : b.ensureWriteable true 64 = (b, true) := if_pos hroom
    have hline : ¬ line.length < b.writeableLen := fun hline => hfull ⟨hroom, hline⟩
    obtain ⟨hwf, -, hsame, -⟩ := vsnprintf_spec h line
    have htwice := (b.vsnprintf line).ensureWriteable_readIdx (line.length * 2)
    obtain ⟨hok', -⟩ := ensureWriteable_spec hwf (line.length * 2)
    rw [hsame, if_neg (by omega)] at htwice
    rw [hgrown]
    dsimp only
    unfold vprintfLoop
    simp only [hsame, if_neg hline]
    cases hcase : (b.vsnprintf line).ensureWriteable true (line.length * 2) with
    | mk grown ok =>
      rw [hcase] at htwice hok'
      obtain rfl : ok = true := hok'
      exact vprintfLoop_readIdx htwice line 1 _
  · -- the block is replaced before the first attempt
    have hgrown := b.ensureWriteable_readIdx 64
    rw [if_neg hroom] at hgrown
    cases hcase : b.ensureWriteable true 64 with
    | mk grown ok =>
      rw [hcase] at hgrown hok
      obtain rfl : ok = true := hok
      exact vprintfLoop_readIdx hgrown line 2 0

theorem write_readIdx (h : b.Wf) (data : Bytes) : (b.write true data).1.readIdx =
    if data.length ≤ b.writeableLen then b.readIdx else 0 := by
  have hgrown := b.ensureWriteable_readIdx data.length
  obtain ⟨hok, -⟩ := ensureWriteable_spec h data.length
  rw [← hgrown]
  unfold write
  cases hcase : b.ensureWriteable true data.length with
  | mk grown ok =>
    rw [hcase] at hok
    obtain rfl : ok = true := hok
    rfl

/-- Nothing is written of no data. -/
theorem write_nil (b : SocketBuffer) : (b.write true []).1 = b := by
  have hgrown : b.ensureWriteable true 0 = (b, true) := if_pos (Nat.zero_le _)
  unfold write
  rw [List.length_nil, hgrown]
  simp only [put, List.length_nil, List.append_nil, Nat.add_zero, List.take_append_drop]

theorem write_of_room (h : b.Wf) (hroom : data.length ≤ b.writeableLen) :
    (b.write true data).1.writeableLen = b.writeableLen - data.length := by
  have hgrown : b.ensureWriteable true data.length = (b, true) := if_pos hroom
  have hle := h.write_le
  unfold write
  rw [hgrown]
  unfold writeableLen at hroom ⊢
  simp only [put, List.length_append, List.length_take, List.length_drop]
  omega

/-- A body and a NUL stay where they are if there is room for both. -/
theorem writeNul_readIdx (h : b.Wf) (body : Bytes) : (b.writeNul body).readIdx =
    if body.length < b.writeableLen then b.readIdx else 0 := by
  obtain ⟨-, hwf, -⟩ := write_spec h body
  unfold writeNul
  rw [write_readIdx hwf, write_readIdx h, List.length_singleton]
  by_cases hroom : body.length ≤ b.writeableLen
  · rw [if_pos hroom, write_of_room h hroom]
    split_ifs <;> first | rfl | omega
  · rw [if_neg hroom, ite_self, if_neg (by omega)]

/-- **The texts begin at the write index** exactly when they have room there. -/
theorem writeNul_printLines_readIdx (h : b.Wf) (lines : List Bytes) (body : Bytes) :
    ((b.printLines lines).writeNul body).readIdx =
      if hasRoom body b.writeableLen lines then b.readIdx else 0 := by
  -- a line stays in its block, or it and all that follows are at the beginning of another one
  induction lines generalizing b with
  | nil =>
    change (b.writeNul body).readIdx = _
    simp only [writeNul_readIdx h, hasRoom, decide_eq_true_eq]
  | cons line lines ih =>
    have hwf := (vprintf_spec h (some line)).1
    change (((b.vprintf true (some line)).1.printLines lines).writeNul body).readIdx = _
    by_cases hroom : 64 ≤ b.writeableLen ∧ line.length < b.writeableLen
    · obtain ⟨hread, hlen⟩ := vprintf_of_room h hroom.1 hroom.2
      rw [ih hwf, hread, hlen, hasRoom, decide_eq_true hroom.1, decide_eq_true hroom.2]
      rfl
    · have hread := vprintf_of_full h hroom
      have hnone : ¬ hasRoom body b.writeableLen (line :: lines) = true := by
        rw [hasRoom, Bool.and_eq_true, Bool.and_eq_true, decide_eq_true_eq, decide_eq_true_eq]
        exact fun hall => hroom hall.1
      rw [ih hwf, hread, ite_self, if_neg hnone]

/-! ## Behind the NUL -/

theorem printLines_spec (h : b.Wf) (lines : List Bytes) :
    (b.printLines lines).Wf ∧ (b.printLines lines).contents = b.contents ++ lines.flatten := by
  induction lines generalizing b with
  | nil => exact ⟨h, (List.append_nil _).symm⟩
  | cons line lines ih =>
    obtain ⟨hwf, hcontents⟩ := vprintf_spec h (some line)
    obtain ⟨hwf', hcontents'⟩ := ih hwf
    refine ⟨hwf', ?_⟩
    change ((b.vprintf true (some line)).1.printLines lines).contents = _
    rw [hcontents', hcontents, Option.getD_some, List.append_assoc, List.flatten_cons]

/-- **Behind the NUL**: the contents, and where they end. -/
theorem writeNul_spec (h : b.Wf) (lines : List Bytes) (body : Bytes) :
    ((b.printLines lines).writeNul body).Wf ∧
      ((b.printLines lines).writeNul body).contents =
        b.contents ++ (lines.flatten ++ body) ++ [0] ∧
      ((b.printLines lines).writeNul body).writeIdx = b.nulIndex lines body := by
  obtain ⟨hwf, hcontents⟩ := printLines_spec h lines
  obtain ⟨-, hwf', hcontents'⟩ := write_spec hwf body
  obtain ⟨-, hwf'', hcontents''⟩ := write_spec hwf' [0]
  have hall : ((b.printLines lines).writeNul body).contents =
      b.contents ++ (lines.flatten ++ body) ++ [0] := by
    unfold writeNul
    rw [hcontents'', hcontents', hcontents, List.append_assoc b.contents]
  refine ⟨hwf'', hall, ?_⟩
  -- the end is as far from the beginning as the contents are long
  have hread := writeNul_printLines_readIdx h lines body
  have hle : ((b.printLines lines).writeNul body).readIdx ≤ _ := hwf''.read_le
  have hlen := length_contents hwf''
  have hbegin := h.read_le
  change ((b.printLines lines).writeNul body).contents.length = _ at hlen
  rw [hall] at hlen
  simp only [List.length_append, List.length_singleton, length_contents h] at hlen
  change _ = ((b.printLines lines).writeNul body).readableLen at hlen
  unfold readableLen at hlen
  unfold nulIndex readableLen
  split_ifs at hread ⊢ <;> omega

/-! ## Dropping the NUL -/

theorem dropNul_writeIdx (b : SocketBuffer) :
    b.dropNul.writeIdx = CInt.toSize (CInt.toInt b.writeIdx - 1) :=
  b.setWriteIndex_writeIdx _

theorem dropNul_readIdx (b : SocketBuffer) : b.dropNul.readIdx = b.readIdx :=
  b.setWriteIndex_readIdx _

theorem dropNul_buffer (b : SocketBuffer) : b.dropNul.buffer = b.buffer :=
  b.setWriteIndex_buffer _

/-- **Below `2 ^ 31`** the NUL is dropped. -/
theorem dropNul_spec (h : b.Wf) (hread : 0 < b.readableLen) (hlt : b.writeIdx < 2147483648) :
    b.dropNul.Wf ∧ b.dropNul.contents = b.contents.take (b.contents.length - 1) := by
  have hpos : 0 < b.writeIdx := lt_of_lt_of_le hread (Nat.sub_le _ _)
  unfold dropNul
  rw [CInt.toSize_toInt_sub_one hpos hlt]
  exact rollBack_spec h hread

/-- **From `2 ^ 31` on** the indices are out of order, or `2 ^ 32` bytes are dropped. -/
theorem dropNul_of_le (h : b.Wf) (hle : 2147483648 ≤ b.writeIdx) (hmem : b.InMemory) :
    ¬ b.dropNul.Wf ∨
      ∃ n, n + 4294967296 < b.contents.length ∧ b.dropNul.contents = b.contents.take n := by
  by_cases hwf : b.dropNul.Wf
  · right
    have hidx : b.dropNul.writeIdx + 4294967296 < b.writeIdx ∨
        9223372036854775808 ≤ b.dropNul.writeIdx := by
      rw [dropNul_writeIdx]
      exact CInt.toSize_toInt_sub_one_of_le hle
    have hfirst := hwf.read_le
    have hlast := hwf.write_le
    rw [dropNul_readIdx] at hfirst
    rw [dropNul_buffer] at hlast
    -- an index that was negative as an `int` lies outside of the block
    have hcap : b.buffer.length < 9223372036854775808 := hmem
    have hshort := hidx.resolve_right (by omega)
    have hlen := length_contents h
    unfold readableLen at hlen
    have hback : b.dropNul = b.setWriteIndex (b.writeIdx - (b.writeIdx - b.dropNul.writeIdx)) := by
      rw [Nat.sub_sub_self (by omega), dropNul_writeIdx, dropNul]
    have hfit : b.writeIdx - b.dropNul.writeIdx ≤ b.readableLen := by
      unfold readableLen
      omega
    obtain ⟨-, hcontents⟩ := rollBack_spec h hfit
    refine ⟨b.contents.length - (b.writeIdx - b.dropNul.writeIdx), by omega, ?_⟩
    rw [← hcontents, ← hback]
  · exact Or.inl hwf

/-- The block is the same. -/
theorem inMemory_dropNul : b.dropNul.InMemory ↔ b.InMemory := by
  unfold InMemory capacity
  rw [dropNul_buffer]

/-- **What is left of some bytes and a NUL.** Where as much is left as was written, the bytes are
what was wanted, and the write index is an `int`. -/
theorem dropNul_iff {written wanted : Bytes} (h : b.Wf) (hcontents : b.contents = written ++ [0])
    (hmem : b.InMemory) (hlen : written.length ≤ wanted.length) :
    b.dropNul.Wf ∧ b.dropNul.contents = wanted ↔
      written = wanted ∧ b.writeIdx < 2147483648 := by
  have hread := length_contents h
  rw [hcontents, List.length_append, List.length_singleton] at hread
  have htake : b.contents.take (b.contents.length - 1) = written := by
    rw [hcontents, List.length_append, List.length_singleton, Nat.add_sub_cancel,
      List.take_left' rfl]
  rcases lt_or_ge b.writeIdx 2147483648 with hlt | hge
  · obtain ⟨hwf, hdropped⟩ := dropNul_spec h (by omega) hlt
    rw [hdropped, htake]
    exact ⟨fun hsame => ⟨hsame.2, hlt⟩, fun hsame => ⟨hwf, hsame.1⟩⟩
  · -- more is dropped than the NUL
    refine iff_of_false ?_ fun hsame => absurd hsame.2 (not_lt.mpr hge)
    rintro ⟨hwf, hsame⟩
    obtain ⟨n, hn, hdropped⟩ := (dropNul_of_le h hge hmem).resolve_left (not_not_intro hwf)
    have hshort := congrArg List.length (hdropped.symm.trans hsame)
    rw [List.length_take] at hshort
    rw [hcontents, List.length_append, List.length_singleton] at hn
    omega

end SocketBuffer

end Kimserver
