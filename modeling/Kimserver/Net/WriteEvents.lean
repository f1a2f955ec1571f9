import Kimserver.Lib.Machine
import Kimserver.Net.Connection

/-!
# Write events

A connection asks the event loop for write events as long as a write leaves bytes behind, and
stops when a write returns `OK` (`Network::handle_write_events`). A write goes on with one of
the two buffers and its `OK` speaks of that buffer only.

## Main definitions

* `WriteState`: a connection, whether write events are asked for, and whether the last step
  stopped them because a write returned `OK`
* `handleWriteEvents`, `WriteOp`, `writeMachine`: sends, state changes and ready sockets
* `Strands`: the steps that empty the waiting buffer and leave bytes in the send buffer

## Main results

* `drained_run_iff`: the runs in which no byte is stranded
-/

namespace Kimserver

open SocketBuffer (SendResult)

/-- A connection in the event loop. -/
structure WriteState where
  conn : Connection
  writeEvent : Bool := false
  /-- the last step removed the write event because `conn_write` returned `OK` -/
  removedOk : Bool := false
  deriving DecidableEq

namespace WriteState

/-- `close_conn`. -/
def closeConn : WriteState := { conn := { state := .closed } }

/-- The state after a step that neither writes nor closes. -/
def ofConn (st : WriteState) (c : Connection) : WriteState :=
  { st with conn := c, removedOk := false }

/-- `handle_write_events`, and `close_conn` where it returns false. With the bytes that went to
the socket. -/
def handleWriteEvents : CodecStatus × Bytes × Connection → Bytes × WriteState
  | (.pause, sent, c) => (sent, { conn := c, writeEvent := true })
  | (.ok, sent, c) => (sent, { conn := c, removedOk := true })
  | (_, sent, _) => (sent, closeConn)

end WriteState

/-- What happens to a connection. -/
inductive WriteOp
  /-- `send_to` -/
  | send (m : MsgHead × MsgBody) (res : SendResult)
  /-- `conn_write_waiting` -/
  | sendWaiting (m : MsgHead × MsgBody)
  /-- `send_to_node`, when the node has a connection -/
  | sendToNode (m : MsgHead × MsgBody) (res : SendResult)
  /-- `update_conn_state` to `CONNECTED` -/
  | setConnected
  /-- `add_write_event` -/
  | addWriteEvent
  /-- `on_io_write`; while the connection tries to connect it sends the request, if the node
  still has one -/
  | writeReady (req : Option (MsgHead × MsgBody)) (res : SendResult)

section Machine

open WriteState

variable (pb : Protobuf) (stray : ℕ → UInt8)

/-- `send_to`. -/
def sendTo (st : WriteState) (m : MsgHead × MsgBody) (res : SendResult) : Bytes × WriteState :=
  handleWriteEvents (st.conn.connWriteMsg pb stray m res)

/-- `send_req_connect_to_worker`, and `close_conn` where it fails. -/
def sendReqConnectToWorker (st : WriteState) (req : Option (MsgHead × MsgBody))
    (res : SendResult) : Bytes × WriteState :=
  match req with
  | none => ([], closeConn)
  | some m =>
    let r := sendTo pb stray st m res
    if r.2.conn.state = .closed then (r.1, closeConn)
    else (r.1, { r.2 with conn := { r.2.conn with state := .connecting } })

/-- One step, with the bytes that it writes to the socket. A connection that is closed is
gone. -/
def writeStep (st : WriteState) (op : WriteOp) : Bytes × WriteState :=
  if st.conn.isInvalid then ([], st.ofConn st.conn)
  else
    match op with
    | .send m res => sendTo pb stray st m res
    | .sendWaiting m => ([], st.ofConn (st.conn.connWriteWaiting pb stray m).2)
    | .sendToNode m res =>
      if st.conn.state = .connected then sendTo pb stray st m res
      else ([], st.ofConn (st.conn.connWriteWaiting pb stray m).2)
    | .setConnected => ([], st.ofConn { st.conn with state := .connected })
    | .addWriteEvent => ([], { st.ofConn st.conn with writeEvent := true })
    | .writeReady req res =>
      if !st.writeEvent then ([], st.ofConn st.conn)
      else if st.conn.state = .tryConnect then sendReqConnectToWorker pb stray st req res
      else handleWriteEvents (st.conn.connWrite res)

/-- A connection in the event loop, as a machine. -/
def writeMachine : Machine WriteState WriteOp := ⟨fun st op => (writeStep pb stray st op).2⟩

end Machine

/-- A removed write event leaves nothing to send. -/
def Drained (st : WriteState) : Prop := st.removedOk = true → st.conn.NoSendable

instance (st : WriteState) : Decidable (Drained st) := inferInstanceAs (Decidable (_ → _))

/-- The steps that strand bytes: on a connected connection with waiting bytes, a write that
empties the waiting buffer while there are bytes for the send buffer, either in it or in the
message that is sent. -/
def Strands (st : WriteState) : WriteOp → Prop
  | .send _ res => st.conn.sendsWaiting = true ∧ st.conn.waitSendBuf.Empties res
  | .sendToNode _ res => st.conn.sendsWaiting = true ∧ st.conn.waitSendBuf.Empties res
  | .writeReady _ res =>
    st.writeEvent = true ∧ st.conn.sendsWaiting = true ∧ st.conn.sendBuf.isReadable = true ∧
      st.conn.waitSendBuf.Empties res
  | _ => False

/-! ## What one step does -/

section Step

open WriteState

variable {pb : Protobuf} {stray : ℕ → UInt8} {st : WriteState}

theorem drained_ofConn (st : WriteState) (c : Connection) : Drained (st.ofConn c) :=
  fun h => absurd h (by simp [ofConn])

theorem drained_closeConn : Drained closeConn := fun h => absurd h (by simp [closeConn])

/-- What `handle_write_events` needs from the write. -/
theorem drained_handleWriteEvents (r : CodecStatus × Bytes × Connection) :
    Drained (handleWriteEvents r).2 ↔ (r.1 = .ok → r.2.2.NoSendable) := by
  obtain ⟨status, sent, c⟩ := r
  cases status <;> simp [Drained, handleWriteEvents, closeConn]

theorem wf_handleWriteEvents {r : CodecStatus × Bytes × Connection} (h : r.2.2.Wf) :
    (handleWriteEvents r).2.conn.Wf := by
  obtain ⟨status, sent, c⟩ := r
  cases status
  · exact h
  · exact Connection.wf_fresh _
  · exact h
  · exact Connection.wf_fresh _

variable (pb stray) in
theorem sendTo_spec (hwf : st.conn.Wf) (hvalid : st.conn.isInvalid = false)
    (m : MsgHead × MsgBody) (res : SendResult) :
    (sendTo pb stray st m res).2.conn.Wf ∧
      (Drained (sendTo pb stray st m res).2 ↔
        ¬ (st.conn.sendsWaiting = true ∧ st.conn.waitSendBuf.Empties res)) := by
  obtain ⟨sbuf, hbuf, hcontents, -, heq⟩ :=
    Connection.connWriteMsg_eq pb stray hwf hvalid m res
  have hready := Connection.isReadable_of_encodeOut hbuf hcontents
  have hwf' := hwf.setSendBuf hbuf
  unfold sendTo
  rw [heq]
  refine ⟨wf_handleWriteEvents (Connection.connWrite_keeps hwf' res).1, ?_⟩
  rw [drained_handleWriteEvents,
    Connection.connWrite_drains_iff (c := st.conn.setSendBuf sbuf) hvalid]
  simp only [Connection.setSendBuf, hready, true_and]
  rfl

/-- Nothing of a connection that tries to connect waits to be sent first. -/
theorem sendsWaiting_eq_false {c : Connection} (h : c.state ≠ .connected) :
    c.sendsWaiting = false := by
  simp [Connection.sendsWaiting, h]

variable (pb stray) in
theorem sendReqConnectToWorker_spec (hwf : st.conn.Wf) (hvalid : st.conn.isInvalid = false)
    (hstate : st.conn.state = .tryConnect) (req : Option (MsgHead × MsgBody))
    (res : SendResult) :
    (sendReqConnectToWorker pb stray st req res).2.conn.Wf ∧
      Drained (sendReqConnectToWorker pb stray st req res).2 := by
  unfold sendReqConnectToWorker
  cases req with
  | none => exact ⟨Connection.wf_fresh _, drained_closeConn⟩
  | some m =>
    obtain ⟨hwf', hdrained⟩ := sendTo_spec pb stray hwf hvalid m res
    have hnot : st.conn.sendsWaiting = false :=
      sendsWaiting_eq_false (by rw [hstate]; decide)
    have hd : Drained (sendTo pb stray st m res).2 :=
      hdrained.mpr fun h => absurd (hnot.symm.trans h.1) (by decide)
    dsimp only
    split_ifs
    · exact ⟨Connection.wf_fresh _, drained_closeConn⟩
    · refine ⟨⟨hwf'.recv, hwf'.send, hwf'.wait⟩, fun hremoved => ?_⟩
      exact ⟨(hd hremoved).1, fun h => absurd h (by simp)⟩

variable (pb stray) in
/-- **One step**: it keeps the buffers in order, and it leaves nothing behind a removed write
event exactly when it does not strand bytes. -/
theorem writeStep_spec (hwf : st.conn.Wf) (op : WriteOp) :
    (writeStep pb stray st op).2.conn.Wf ∧
      (Drained (writeStep pb stray st op).2 ↔ st.conn.isInvalid = true ∨ ¬ Strands st op) := by
  unfold writeStep
  rcases Bool.eq_false_or_eq_true st.conn.isInvalid with hinvalid | hvalid
  · rw [if_pos hinvalid]
    exact ⟨hwf, iff_of_true (drained_ofConn _ _) (Or.inl hinvalid)⟩
  rw [if_neg (by rw [hvalid]; decide)]
  simp only [hvalid, Bool.false_eq_true, false_or]
  cases op with
  | send m res => exact sendTo_spec _ _ hwf hvalid m res
  | sendWaiting m =>
    exact ⟨Connection.connWriteWaiting_wf stray hwf m, iff_of_true (drained_ofConn _ _) fun h => h⟩
  | sendToNode m res =>
    by_cases hstate : st.conn.state = .connected
    · simp only [if_pos hstate]
      exact sendTo_spec _ _ hwf hvalid m res
    · simp only [if_neg hstate]
      refine ⟨Connection.connWriteWaiting_wf stray hwf m, iff_of_true (drained_ofConn _ _) fun h => ?_⟩
      exact absurd ((sendsWaiting_eq_false hstate).symm.trans h.1) (by decide)
  | setConnected =>
    exact ⟨⟨hwf.recv, hwf.send, hwf.wait⟩, iff_of_true (drained_ofConn _ _) fun h => h⟩
  | addWriteEvent =>
    exact ⟨hwf, iff_of_true (fun h => absurd h (by simp [ofConn])) fun h => h⟩
  | writeReady req res =>
    simp only [Strands]
    rcases Bool.eq_false_or_eq_true st.writeEvent with hevent | hevent
    · rw [if_neg (by rw [hevent]; decide)]
      by_cases hstate : st.conn.state = .tryConnect
      · rw [if_pos hstate]
        obtain ⟨hwf', hdrained⟩ :=
          sendReqConnectToWorker_spec pb stray hwf hvalid hstate req res
        refine ⟨hwf', iff_of_true hdrained fun h => ?_⟩
        have hnot := sendsWaiting_eq_false (c := st.conn) (by rw [hstate]; decide)
        exact absurd (hnot.symm.trans h.2.1) (by decide)
      · rw [if_neg hstate]
        refine ⟨wf_handleWriteEvents (Connection.connWrite_keeps hwf res).1, ?_⟩
        rw [drained_handleWriteEvents, Connection.connWrite_drains_iff hvalid]
        simp only [hevent, true_and]
    · rw [if_pos (by rw [hevent]; decide)]
      refine ⟨hwf, iff_of_true (drained_ofConn _ _) fun h => ?_⟩
      exact absurd (hevent.symm.trans h.1) (by decide)

/-- `handle_write_events` after a write without an error. -/
theorem handleWriteEvents_conn {r : CodecStatus × Bytes × Connection}
    (h : r.1 = .ok ∨ r.1 = .pause) :
    (handleWriteEvents r).1 = r.2.1 ∧ (handleWriteEvents r).2.conn = r.2.2 := by
  obtain ⟨status, sent, c⟩ := r
  rcases h with rfl | rfl <;> exact ⟨rfl, rfl⟩

theorem pending_afterEncode (hwf : st.conn.Wf) (m : Message) :
    (st.conn.afterEncode pb stray m).pending = st.conn.pending ++ encodeOut pb stray m := by
  have hcontents := (encode_spec pb stray m hwf.send).2.2
  unfold Connection.pending Connection.afterEncode Connection.setSendBuf
  dsimp only
  rw [hcontents]
  split_ifs
  · rw [List.append_assoc]
  · rfl

/-- A short write loses nothing. -/
theorem keeps_afterEncode (hwf : st.conn.Wf) (m : Message) (res : SendResult)
    (h : st.conn.pending.length + (encodeOut pb stray m).length < 4294967296) :
    (st.conn.afterEncode pb stray m).chosenBuf.Keeps res := by
  have hwf' : (st.conn.afterEncode pb stray m).Wf :=
    hwf.setSendBuf (encode_spec pb stray m hwf.send).2.1
  have hle := Connection.readableLen_chosenBuf_le hwf'
  rw [pending_afterEncode hwf, List.length_append] at hle
  exact SocketBuffer.keeps_of_lt (by omega) res

variable (pb stray) in
/-- **Sending** puts the message behind what is still to be sent, and sends the first of it. -/
theorem sendTo_writes (hwf : st.conn.Wf) (hvalid : st.conn.isInvalid = false)
    (m : Message) {res : SendResult} (hres : res ≠ .failed)
    (hkeeps : (st.conn.afterEncode pb stray m).chosenBuf.Keeps res) :
    Connection.Writes st.conn (sendTo pb stray st m res).2.conn (encodeOut pb stray m)
      (sendTo pb stray st m res).1 := by
  obtain ⟨sbuf, hbuf, hcontents, hafter, heq⟩ :=
    Connection.connWriteMsg_eq pb stray hwf hvalid m res
  rw [hafter] at hkeeps
  obtain ⟨hstatus, hwrites⟩ := Connection.connWrite_writes (c := st.conn.setSendBuf sbuf)
    (hwf.setSendBuf hbuf) hvalid hres hkeeps
  unfold sendTo
  rw [heq]
  obtain ⟨hsent, hconn⟩ := handleWriteEvents_conn hstatus
  rw [hsent, hconn]
  refine ⟨hwrites.wf, hwrites.state, hwrites.recv, hwrites.waiting, ?_⟩
  rw [hwrites.pending, List.append_nil, ← hafter, pending_afterEncode hwf]

end Step

/-! ## Runs -/

section Runs

variable (pb : Protobuf) (stray : ℕ → UInt8)

/-- **No byte is stranded exactly in the runs whose steps strand none**: from a fresh
connection in any state, with or without a write event, for every interleaving of sends, state
changes and ready sockets. -/
theorem drained_run_iff (state : ConnState) (writeEvent : Bool) (ops : List WriteOp) :
    (writeMachine pb stray).Meets
        (fun st op => st.conn.isInvalid = true ∨ ¬ Strands st op)
        { conn := { state := state }, writeEvent := writeEvent } ops ↔
      ∀ past, past <+: ops → Drained ((writeMachine pb stray).run
        { conn := { state := state }, writeEvent := writeEvent } past) := by
  refine Machine.Meets.iff_forall_prefix
    (I := fun st : WriteState => st.conn.Wf ∧ Drained st) (Q := fun _ => True)
    (fun st h => h.2) ?_ ?_ ?_ fun _ _ => trivial
  · rintro st op - ⟨hwf, -⟩ hcond
    obtain ⟨hwf', hiff⟩ := writeStep_spec pb stray hwf op
    exact ⟨hwf', hiff.mpr hcond⟩
  · rintro st op - ⟨hwf, -⟩ hdrained
    exact (writeStep_spec pb stray hwf op).2.mp hdrained
  · exact ⟨Connection.wf_fresh state, fun h => absurd h (by simp)⟩

/-- The first message waits for the handshake, the second is sent when it is done. -/
def handshakeSends : List WriteOp :=
  [.sendWaiting (⟨101, 1, 3, by decide⟩, { data := [97] }), .setConnected, .addWriteEvent,
    .sendToNode (⟨101, 2, 3, by decide⟩, { data := [98] }) (.accepted 18)]

/-- The socket takes the whole first message, the write event goes, and the second message
stays in the send buffer. -/
theorem drained_handshake_fails :
    ¬ Drained ((writeMachine .wire fun _ => 0).run { conn := { state := .connecting } }
      handshakeSends) := by
  decide

end Runs

end Kimserver
