import Kimserver.Codec.Proto

/-!
# Connections

`Connection` keeps one buffer for what it received and two for what it sends: the send buffer,
and a buffer for messages that wait until a handshake is done. A write goes on with one of the
two, the waiting one first once the connection is connected.

A buffer that the source has not allocated yet is an empty buffer here.

## Main definitions

* `Connection`: state, buffers and counters
* `Connection.connRead`, `Connection.connWrite`, `Connection.connWriteMsg`,
  `Connection.connWriteWaiting`: reading and writing

* `Connection.NoSendable`: nothing is left that a write would send

## Main results

* `Connection.connWrite_cases`: what a write does
* `Connection.connWrite_drains_iff`: when a write that returns `OK` leaves nothing to send
-/

namespace Kimserver

open SocketBuffer (SendResult isReadable_iff not_isReadable_iff)

/-- `Connection::STATE`. -/
inductive ConnState
  | unknown
  | tryConnect
  | connecting
  | connected
  | closed
  | error
  deriving DecidableEq, Repr

/-- The members that reading and writing use. -/
structure Connection where
  state : ConnState := .unknown
  recvBuf : SocketBuffer := {}
  sendBuf : SocketBuffer := {}
  waitSendBuf : SocketBuffer := {}
  writeCnt : ℕ := 0
  writeBytes : ℕ := 0
  deriving DecidableEq

namespace Connection

/-- `is_invalid`. -/
def isInvalid (c : Connection) : Bool :=
  c.state = .unknown || c.state = .closed || c.state = .error

/-- The buffers keep the order of their indices. -/
structure Wf (c : Connection) : Prop where
  recv : c.recvBuf.Wf
  send : c.sendBuf.Wf
  wait : c.waitSendBuf.Wf

theorem wf_fresh (state : ConnState) : Wf { state := state } :=
  ⟨SocketBuffer.wf_empty, SocketBuffer.wf_empty, SocketBuffer.wf_empty⟩

/-- `conn_read` when `readv` returns `chunk`, which is not empty. -/
def connRead (c : Connection) (chunk : Bytes) : Connection :=
  { c with recvBuf := c.recvBuf.readChunk chunk }

/-- Whether `conn_write` takes the waiting buffer. -/
def sendsWaiting (c : Connection) : Bool :=
  c.state = .connected && 0 < c.waitSendBuf.readableLen

/-- The buffer that `conn_write` goes on with. -/
def chosenBuf (c : Connection) : SocketBuffer :=
  if c.sendsWaiting then c.waitSendBuf else c.sendBuf

/-- Replace the buffer that `conn_write` goes on with. -/
def setChosenBuf (c : Connection) (b : SocketBuffer) : Connection :=
  if c.sendsWaiting then { c with waitSendBuf := b } else { c with sendBuf := b }

/-- `conn_write`: the status, the bytes that went to the socket, and the connection. -/
def connWrite (c : Connection) (res : SendResult) : CodecStatus × Bytes × Connection :=
  if c.isInvalid then (.err, [], c)
  else if !c.chosenBuf.isReadable then (.ok, [], c)
  else
    match c.chosenBuf.writeFd res with
    | (.again, sent, _) => (.pause, sent, c)
    | (.failed, sent, _) => (.err, sent, c)
    | (.accepted n, sent, sbuf) =>
      let sbuf := sbuf.recover
      let c' := c.setChosenBuf sbuf
      (if 0 < sbuf.readableLen then .pause else .ok, sent,
        { c' with writeCnt := c'.writeCnt + 1, writeBytes := c'.writeBytes + n })

section Messages

variable (pb : Protobuf) (stray : ℕ → UInt8)

/-- `conn_write(head, body)`: encode into the send buffer and write. -/
def connWriteMsg (c : Connection) (m : MsgHead × MsgBody) (res : SendResult) :
    CodecStatus × Bytes × Connection :=
  if c.isInvalid then (.err, [], c)
  else
    match encode pb stray true true m.1 m.2 c.sendBuf with
    | (.ok, sbuf) => connWrite { c with sendBuf := sbuf } res
    | (status, sbuf) => (status, [], { c with sendBuf := sbuf })

/-- `conn_write_waiting(head, body)`: encode into the waiting buffer only. -/
def connWriteWaiting (c : Connection) (m : MsgHead × MsgBody) : CodecStatus × Connection :=
  if c.isInvalid then (.err, c)
  else
    match encode pb stray true true m.1 m.2 c.waitSendBuf with
    | (status, sbuf) => (status, { c with waitSendBuf := sbuf })

end Messages

/-- No byte is left that can be sent: none in the send buffer, and once the connection is
connected none in the waiting buffer. -/
def NoSendable (c : Connection) : Prop :=
  c.sendBuf.isReadable = false ∧ (c.state = .connected → c.waitSendBuf.isReadable = false)

instance (c : Connection) : Decidable c.NoSendable := inferInstanceAs (Decidable (_ ∧ _))

/-! ## Writing -/

section Write

variable {c : Connection} {res : SendResult}

theorem sendsWaiting_iff :
    c.sendsWaiting = true ↔ c.state = .connected ∧ 0 < c.waitSendBuf.readableLen := by
  simp [sendsWaiting]

theorem Wf.chosenBuf (h : c.Wf) : c.chosenBuf.Wf := by
  unfold Connection.chosenBuf
  split_ifs
  · exact h.wait
  · exact h.send

theorem Wf.setChosenBuf (h : c.Wf) {b : SocketBuffer} (hb : b.Wf) : (c.setChosenBuf b).Wf := by
  unfold Connection.setChosenBuf
  split_ifs
  · exact ⟨h.recv, h.send, hb⟩
  · exact ⟨h.recv, hb, h.wait⟩

@[simp] theorem setChosenBuf_state (c : Connection) (b : SocketBuffer) :
    (c.setChosenBuf b).state = c.state := by
  unfold setChosenBuf
  split_ifs <;> rfl

/-- The connection after a write that took `n` bytes. -/
def afterWrite (c : Connection) (n : ℕ) : Connection :=
  { c.setChosenBuf (c.chosenBuf.skipBytes n).recover with
    writeCnt := c.writeCnt + 1, writeBytes := c.writeBytes + n }

theorem Wf.afterWrite (h : c.Wf) {n : ℕ} (hn : n ≤ c.chosenBuf.readableLen) :
    (c.afterWrite n).Wf := by
  have hskip := (SocketBuffer.skipBytes_spec h.chosenBuf hn).1
  have hset := h.setChosenBuf (SocketBuffer.recover_spec hskip).1
  exact ⟨hset.recv, hset.send, hset.wait⟩

variable (res) in
/-- **What a write does** on a valid connection: it has nothing to send, or it takes a number
of bytes, or `send` gives none. -/
theorem connWrite_cases (hvalid : c.isInvalid = false) :
    (c.chosenBuf.isReadable = false ∧ connWrite c res = (.ok, [], c)) ∨
    (∃ n, c.chosenBuf.isReadable = true ∧ c.chosenBuf.taken res = some n ∧
      connWrite c res = (if 0 < c.chosenBuf.leftAfter n then .pause else .ok,
        c.chosenBuf.contents.take n, c.afterWrite n)) ∨
    (c.chosenBuf.isReadable = true ∧ c.chosenBuf.taken res = none ∧
      (res = .again ∧ connWrite c res = (.pause, [], c) ∨
        res = .failed ∧ connWrite c res = (.err, [], c))) := by
  have hcounters : ∀ b, (c.setChosenBuf b).writeCnt = c.writeCnt ∧
      (c.setChosenBuf b).writeBytes = c.writeBytes := by
    intro b
    unfold setChosenBuf
    split_ifs <;> exact ⟨rfl, rfl⟩
  unfold connWrite
  rw [hvalid]
  cases hread : c.chosenBuf.isReadable with
  | false => exact Or.inl ⟨rfl, rfl⟩
  | true =>
    right
    rcases SocketBuffer.writeFd_taken c.chosenBuf res with
      ⟨n, htaken, hwrite⟩ | ⟨htaken, hres, hwrite⟩
    · refine Or.inl ⟨n, rfl, htaken, ?_⟩
      simp only [hwrite, afterWrite, hcounters, SocketBuffer.readableLen_recover_skipBytes]
      rfl
    · refine Or.inr ⟨rfl, htaken, ?_⟩
      rcases hres with rfl | rfl
      · exact Or.inl ⟨rfl, by simp only [hwrite]; rfl⟩
      · exact Or.inr ⟨rfl, by simp only [hwrite]; rfl⟩

/-- A write keeps the order of the indices and the state. -/
theorem connWrite_keeps (h : c.Wf) (res : SendResult) :
    (connWrite c res).2.2.Wf ∧ (connWrite c res).2.2.state = c.state := by
  by_cases hvalid : c.isInvalid
  · rw [connWrite, if_pos hvalid]
    exact ⟨h, rfl⟩
  · rcases connWrite_cases res (Bool.eq_false_iff.mpr hvalid) with
      ⟨-, heq⟩ | ⟨n, -, htaken, heq⟩ | ⟨-, -, ⟨-, heq⟩ | ⟨-, heq⟩⟩
    · rw [heq]
      exact ⟨h, rfl⟩
    · rw [heq]
      exact ⟨h.afterWrite (SocketBuffer.taken_le htaken), setChosenBuf_state c _⟩
    · rw [heq]
      exact ⟨h, rfl⟩
    · rw [heq]
      exact ⟨h, rfl⟩

/-- **When a write that returns `OK` leaves nothing to send**: unless it empties the waiting
buffer while the send buffer has bytes. -/
theorem connWrite_drains_iff (hvalid : c.isInvalid = false) :
    ((connWrite c res).1 = .ok → (connWrite c res).2.2.NoSendable) ↔
      ¬ (c.sendsWaiting = true ∧ c.sendBuf.isReadable = true ∧ c.waitSendBuf.Empties res) := by
  rcases Bool.eq_false_or_eq_true c.sendsWaiting with hwaiting | hwaiting
  · -- the waiting buffer is written, the send buffer stays as it is
    have hchosen : c.chosenBuf = c.waitSendBuf := by rw [chosenBuf, if_pos hwaiting]
    have hset : ∀ b, c.setChosenBuf b = { c with waitSendBuf := b } := fun b => by
      rw [setChosenBuf, if_pos hwaiting]
    have hready : c.waitSendBuf.isReadable = true := by
      exact (isReadable_iff _).mpr (sendsWaiting_iff.mp hwaiting).2
    rcases connWrite_cases res hvalid with
      ⟨hread, -⟩ | ⟨n, -, htaken, heq⟩ | ⟨-, htaken, heq⟩
    · rw [hchosen, hready] at hread
      exact absurd hread (by decide)
    · rw [hchosen] at htaken
      rw [heq, afterWrite, hset, hchosen]
      have hempties : c.waitSendBuf.Empties res ↔ c.waitSendBuf.leftAfter n = 0 := by
        constructor
        · rintro ⟨k, hk, hleft⟩
          obtain rfl : n = k := Option.some.inj (htaken.symm.trans hk)
          exact hleft
        · exact fun hleft => ⟨n, htaken, hleft⟩
      have hleft := SocketBuffer.readableLen_recover_skipBytes c.waitSendBuf n
      simp only [hempties, hwaiting, true_and, NoSendable, not_isReadable_iff, hleft]
      by_cases hzero : c.waitSendBuf.leftAfter n = 0
      · rw [← not_isReadable_iff]
        simp [hzero]
      · simp [hzero, Nat.pos_of_ne_zero hzero]
    · have hnot : ¬ c.waitSendBuf.Empties res := by
        rintro ⟨k, hk, -⟩
        rw [hchosen, hk] at htaken
        exact absurd htaken (by simp)
      rcases heq with ⟨-, heq⟩ | ⟨-, heq⟩
      · simp [heq, hnot]
      · simp [heq, hnot]
  · -- the send buffer is written, and nothing waits
    have hchosen : c.chosenBuf = c.sendBuf := by
      rw [chosenBuf, if_neg (by rw [hwaiting]; decide)]
    have hset : ∀ b, c.setChosenBuf b = { c with sendBuf := b } := fun b => by
      rw [setChosenBuf, if_neg (by rw [hwaiting]; decide)]
    have hwait : c.state = .connected → c.waitSendBuf.isReadable = false := by
      intro hstate
      simp only [sendsWaiting, hstate, decide_true, Bool.true_and, decide_eq_false_iff_not,
        Nat.not_lt, Nat.le_zero] at hwaiting
      exact (not_isReadable_iff _).mpr hwaiting
    simp only [hwaiting, Bool.false_eq_true, false_and, not_false_eq_true, iff_true]
    rcases connWrite_cases res hvalid with
      ⟨hread, heq⟩ | ⟨n, -, -, heq⟩ | ⟨-, -, ⟨-, heq⟩ | ⟨-, heq⟩⟩
    · rw [heq]
      rw [hchosen] at hread
      exact fun _ => ⟨hread, hwait⟩
    · rw [heq, afterWrite, hset, hchosen]
      intro hok
      refine ⟨?_, hwait⟩
      rw [not_isReadable_iff, SocketBuffer.readableLen_recover_skipBytes]
      by_contra hne
      simp [Nat.pos_of_ne_zero hne] at hok
    · rw [heq]
      exact fun hok => absurd hok (by simp)
    · rw [heq]
      exact fun hok => absurd hok (by simp)

end Write

/-! ## Writing messages -/

section WriteMessages

variable {pb : Protobuf} {c : Connection}

def setSendBuf (c : Connection) (b : SocketBuffer) : Connection := { c with sendBuf := b }

def setWaitSendBuf (c : Connection) (b : SocketBuffer) : Connection := { c with waitSendBuf := b }

/-- The connection with a message encoded into the send buffer. -/
def afterEncode (pb : Protobuf) (stray : ℕ → UInt8) (c : Connection) (m : Message) : Connection :=
  c.setSendBuf (encode pb stray true true m.1 m.2 c.sendBuf).2

theorem Wf.setSendBuf (h : c.Wf) {b : SocketBuffer} (hb : b.Wf) : (c.setSendBuf b).Wf :=
  ⟨h.recv, hb, h.wait⟩

theorem Wf.setWaitSendBuf (h : c.Wf) {b : SocketBuffer} (hb : b.Wf) : (c.setWaitSendBuf b).Wf :=
  ⟨h.recv, h.send, hb⟩

variable (pb) in
/-- A message goes behind what the send buffer has, and the write follows. -/
theorem connWriteMsg_eq (stray : ℕ → UInt8) (h : c.Wf) (hvalid : c.isInvalid = false)
    (m : MsgHead × MsgBody) (res : SendResult) :
    ∃ sbuf : SocketBuffer, sbuf.Wf ∧ sbuf.contents = c.sendBuf.contents ++ encodeOut pb stray m ∧
      c.afterEncode pb stray m = c.setSendBuf sbuf ∧
      c.connWriteMsg pb stray m res = (c.setSendBuf sbuf).connWrite res := by
  obtain ⟨hok, hbuf, hcontents⟩ := encode_spec pb stray m h.send
  rcases hencode : encode pb stray true true m.1 m.2 c.sendBuf with ⟨status, sbuf⟩
  rw [hencode] at hok hbuf hcontents
  simp only at hok
  refine ⟨sbuf, hbuf, hcontents, by rw [afterEncode, hencode], ?_⟩
  simp only [connWriteMsg, hvalid, hencode, hok, setSendBuf, Bool.false_eq_true, if_false]

variable (pb) in
/-- A message goes behind what the waiting buffer has. -/
theorem connWriteWaiting_eq (stray : ℕ → UInt8) (h : c.Wf) (hvalid : c.isInvalid = false)
    (m : MsgHead × MsgBody) :
    ∃ sbuf : SocketBuffer, sbuf.Wf ∧
      sbuf.contents = c.waitSendBuf.contents ++ encodeOut pb stray m ∧
      c.connWriteWaiting pb stray m = (.ok, c.setWaitSendBuf sbuf) := by
  obtain ⟨hok, hbuf, hcontents⟩ := encode_spec pb stray m h.wait
  rcases hencode : encode pb stray true true m.1 m.2 c.waitSendBuf with ⟨status, sbuf⟩
  rw [hencode] at hok hbuf hcontents
  simp only at hok
  refine ⟨sbuf, hbuf, hcontents, ?_⟩
  simp only [connWriteWaiting, hvalid, hencode, hok, setWaitSendBuf, Bool.false_eq_true, if_false]

theorem connWriteWaiting_wf (stray : ℕ → UInt8) (h : c.Wf) (m : MsgHead × MsgBody) :
    (c.connWriteWaiting pb stray m).2.Wf := by
  rcases Bool.eq_false_or_eq_true c.isInvalid with hinvalid | hvalid
  · rw [connWriteWaiting, if_pos hinvalid]
    exact h
  · obtain ⟨sbuf, hbuf, -, heq⟩ := connWriteWaiting_eq pb stray h hvalid m
    rw [heq]
    exact h.setWaitSendBuf hbuf

/-- A buffer that a message was encoded into has something to read. -/
theorem isReadable_of_encodeOut {stray : ℕ → UInt8} {m : MsgHead × MsgBody}
    {sbuf : SocketBuffer} {before : Bytes} (h : sbuf.Wf)
    (hcontents : sbuf.contents = before ++ encodeOut pb stray m) : sbuf.isReadable = true := by
  rw [isReadable_iff, ← SocketBuffer.length_contents h, hcontents, List.length_append]
  have := List.length_pos_iff.mpr (encodeOut_ne_nil pb stray m)
  omega

end WriteMessages

/-! ## What is still to be sent -/

/-- The bytes that writes will send, in their order. -/
def pending (c : Connection) : Bytes :=
  if c.state = .connected then c.waitSendBuf.contents ++ c.sendBuf.contents
  else c.sendBuf.contents

/-- `c'` is `c` after `more` came behind what it sends and `sent` went to the socket. -/
structure Writes (c c' : Connection) (more sent : Bytes) : Prop where
  wf : c'.Wf
  state : c'.state = c.state
  recv : c'.recvBuf = c.recvBuf
  waiting : c.state ≠ .connected → c'.waitSendBuf = c.waitSendBuf
  pending : sent ++ c'.pending = c.pending ++ more

section Pending

variable {c : Connection} {res : SendResult}

theorem not_isReadable_iff_contents {b : SocketBuffer} (h : b.Wf) :
    b.isReadable = false ↔ b.contents = [] := by
  rw [not_isReadable_iff, ← SocketBuffer.length_contents h, List.length_eq_zero_iff]

/-- **A write sends the first of what is to be sent**, when it does not fail and loses
nothing. -/
theorem connWrite_writes (h : c.Wf) (hvalid : c.isInvalid = false) (hres : res ≠ .failed)
    (hkeeps : c.chosenBuf.Keeps res) :
    ((connWrite c res).1 = .ok ∨ (connWrite c res).1 = .pause) ∧
      Writes c (connWrite c res).2.2 [] (connWrite c res).2.1 := by
  have hsame : Writes c c [] [] := ⟨h, rfl, rfl, fun _ => rfl, (List.append_nil _).symm⟩
  rcases connWrite_cases res hvalid with
    ⟨-, heq⟩ | ⟨n, -, htaken, heq⟩ | ⟨-, -, ⟨-, heq⟩ | ⟨hfailed, -⟩⟩
  · rw [heq]
    exact ⟨Or.inl rfl, hsame⟩
  · have hn := SocketBuffer.taken_le htaken
    have hleft := SocketBuffer.contents_recover_skipBytes h.chosenBuf hn (hkeeps n htaken)
    rw [heq]
    refine ⟨?_, h.afterWrite hn, setChosenBuf_state c _, ?_, ?_, ?_⟩
    · split_ifs
      · exact Or.inr rfl
      · exact Or.inl rfl
    · unfold afterWrite setChosenBuf
      split_ifs <;> rfl
    · intro hstate
      have hnot : ¬ c.sendsWaiting = true := fun hw => hstate (sendsWaiting_iff.mp hw).1
      simp only [afterWrite, setChosenBuf, if_neg hnot]
    · have hstate : (c.afterWrite n).state = c.state := setChosenBuf_state c _
      simp only [pending, hstate, List.append_nil]
      by_cases hwaiting : c.sendsWaiting = true
      · have hconnected := (sendsWaiting_iff.mp hwaiting).1
        simp only [chosenBuf, if_pos hwaiting] at hleft ⊢
        simp only [if_pos hconnected, afterWrite, setChosenBuf, if_pos hwaiting, chosenBuf, hleft]
        rw [← List.append_assoc, List.take_append_drop]
      · simp only [chosenBuf, if_neg hwaiting] at hleft ⊢
        simp only [afterWrite, setChosenBuf, if_neg hwaiting, chosenBuf, hleft]
        split_ifs with hconnected
        · have hempty : c.waitSendBuf.contents = [] := by
            rw [← not_isReadable_iff_contents h.wait, not_isReadable_iff]
            by_contra hne
            exact hwaiting (sendsWaiting_iff.mpr ⟨hconnected, Nat.pos_of_ne_zero hne⟩)
          rw [hempty, List.nil_append, List.nil_append, List.take_append_drop]
        · exact List.take_append_drop _ _
  · rw [heq]
    exact ⟨Or.inr rfl, hsame⟩
  · exact absurd hfailed hres

/-- The buffer a write goes on with is a part of what is to be sent. -/
theorem readableLen_chosenBuf_le (h : c.Wf) : c.chosenBuf.readableLen ≤ c.pending.length := by
  rw [← SocketBuffer.length_contents h.chosenBuf]
  unfold chosenBuf pending
  split_ifs with hwaiting hconnected hconnected
  · rw [List.length_append]
    omega
  · exact absurd (sendsWaiting_iff.mp hwaiting).1 hconnected
  · rw [List.length_append]
    omega
  · exact le_rfl

end Pending

end Connection

end Kimserver
