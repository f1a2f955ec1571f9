import Kimserver.Net.HandshakeSafety

/-!
# Reading in the handshake

`A1` and `B0` read at most one message at a time. Such a reader is in one of two cases: the
message is not complete yet, or it is, and nothing is left of it in the socket. In the second
case the handler of the message takes the handshake to its next stage.

## Main results

* `decodeLoop_one`: the two cases
* `Inv.a1Read _ _`, `Inv.b0Read`, `Inv.b0Transfer`: the steps keep the invariant
-/

namespace Kimserver

open SocketBuffer (SendResult)

/-- The state after a read that leaves `buf` in the receive buffer. -/
def WriteState.setRecv (w : WriteState) (buf : SocketBuffer) : WriteState :=
  { w with conn := { w.conn with recvBuf := buf } }

section Read

variable {pb : Protobuf} {stray : ℕ → UInt8} {env : HandshakeEnv}
  {st : Handshake} {out back : List Message}

theorem Connection.Wf.setRecv {w : WriteState} {buf : SocketBuffer} (h : w.conn.Wf)
    (hbuf : buf.Wf) : (w.setRecv buf).conn.Wf := ⟨hbuf, h.send, h.wait⟩

/-- A read of the beginning of one message, or of all of it. -/
theorem decodeLoop_one {b : SocketBuffer} {chunk future : Bytes} {m : Message} (hm : Sound pb m)
    (hb : b.Wf) (hcontents : b.contents ++ chunk ++ future = frame pb m) :
    ∃ buf : SocketBuffer, buf.Wf ∧
      (decodeLoop pb (b.readChunk chunk) = ([], .pause, buf) ∧
          buf.contents = b.contents ++ chunk ∧ (protoFraming pb).Partial buf.contents [m] ∨
        decodeLoop pb (b.readChunk chunk) = ([m], .pause, buf) ∧ buf.contents = [] ∧
          future = []) := by
  have hlen : (b.contents ++ chunk ++ future).length < 2147483648 := by
    rw [hcontents, hm.wf.length_frame]
    exact hm.short
  rw [List.length_append, List.length_append] at hlen
  rw [← encodeAll_one] at hcontents
  obtain ⟨done, todo, hsplit, hdone, hstop, hbuf, htext, hpart⟩ :=
    decodeLoop_readChunk (b := b)
      (fun x hx => (List.mem_singleton.mp hx) ▸ ⟨hm.wf, hm.short⟩) hb hcontents (by omega)
  refine ⟨_, hbuf, ?_⟩
  cases done with
  | nil =>
    rw [List.nil_append] at hsplit
    subst hsplit
    refine Or.inl ⟨?_, ?_, hpart⟩
    · rw [← hdone, ← hstop]
    · rw [← hcontents] at htext
      exact List.append_cancel_right htext
  | cons x done =>
    obtain ⟨rfl, hrest⟩ := List.cons.inj hsplit
    obtain ⟨rfl, rfl⟩ := List.append_eq_nil_iff.mp hrest.symm
    obtain ⟨hempty, hfuture⟩ := List.append_eq_nil_iff.mp htext
    refine Or.inr ⟨?_, hempty, hfuture⟩
    rw [← hdone, ← hstop]

/-! ## `A1` reads -/

/-- Nothing is in the socket to `A1` when no answer is in the stream. -/
theorem Streams.toA_nil (h : Streams pb st out []) : st.toA = [] := by
  have hanswers := h.answers
  rw [Framing.encodeAll_nil, List.append_assoc] at hanswers
  exact (List.append_eq_nil_iff.mp (List.append_eq_nil_iff.mp hanswers).2).1

/-- `A1` has another receive buffer, after `k` bytes. -/
theorem Streams.a1Recv (h : Streams pb st out back) {buf : SocketBuffer} (k : ℕ)
    {back' : List Message} (hbuf : buf.Wf)
    (hanswers : buf.contents ++ st.toA.drop k ++ st.b1Out = (protoFraming pb).encodeAll back')
    (hpart : (protoFraming pb).Partial buf.contents back') :
    Streams pb { st with a1 := st.a1.setRecv buf, toA := st.toA.drop k } out back' where
  defined := h.defined
  a1Wf := h.a1Wf.setRecv hbuf
  b0Ok := h.b0Ok
  b1Ok := h.b1Ok
  apps := h.apps
  link := h.link
  stream := h.stream
  answers := hanswers
  partialBack := hpart
  handover := h.handover

variable (stray env) in
/-- **`A1` reads** a part of the one answer in the stream, or all that is left of it. -/
theorem Streams.a1Read {x : Message} (h : Streams pb st out [x]) (hx : Sound pb x) (k : ℕ)
    (answers : ℕ → Option ℕ) :
    ∃ buf : SocketBuffer,
      workerRead pb stray env.a1 answers st.a1 (st.toA.take k) =
          ([], { w := st.a1.setRecv buf }, .pause) ∧
        Streams pb { st with a1 := st.a1.setRecv buf, toA := st.toA.drop k } out [x] ∨
      workerRead pb stray env.a1 answers st.a1 (st.toA.take k) =
          ([x], workerTurn pb stray env.a1 answers { w := st.a1.setRecv buf } x, .pause) ∧
        Streams pb { st with a1 := st.a1.setRecv buf, toA := st.toA.drop k } out [] := by
  have hanswers : st.a1.conn.recvBuf.contents ++ st.toA.take k ++ (st.toA.drop k ++ st.b1Out) =
      frame pb x := by
    rw [← encodeAll_one, ← h.answers, List.append_assoc, ← List.append_assoc (st.toA.take k),
      List.take_append_drop, List.append_assoc]
  obtain ⟨buf, hbuf, ⟨hloop, hcontents, hpart⟩ | ⟨hloop, hcontents, hfuture⟩⟩ :=
    decodeLoop_one hx h.a1Wf.recv hanswers
  · refine ⟨buf, Or.inl ⟨?_, h.a1Recv k hbuf ?_ hpart⟩⟩
    · simp only [workerRead, Connection.connRead, hloop]
      rfl
    · rw [hcontents, List.append_assoc, hanswers, encodeAll_one]
  · refine ⟨buf, Or.inr ⟨?_, h.a1Recv k hbuf ?_ ?_⟩⟩
    · simp only [workerRead, Connection.connRead, hloop]
      rfl
    · rw [hcontents, List.append_assoc, hfuture]
      rfl
    · rw [hcontents]
      rfl

/-- The state after `A1` read, when its handlers left `r` and the loop paused. -/
def Handshake.a1Reads (st : Handshake) (k : ℕ) (w : WriteState) (sent : Bytes) : Handshake :=
  { st with
    a1 := w, toA := st.toA.drop k, toB := st.toB ++ sent, written := st.written ++ sent }

theorem handshakeStep_a1Read {k : ℕ} {answers : ℕ → Option ℕ} {msgs : List Message}
    {s : WorkerLoop} (hskip : ¬ (st.a1.conn.isInvalid = true ∨ k = 0 ∨ st.toA.length < k))
    (hread : workerRead pb stray env.a1 answers st.a1 (st.toA.take k) = (msgs, s, .pause)) :
    handshakeStep pb stray env st (.a1Read k answers) = st.a1Reads k s.w s.sent := by
  simp [handshakeStep, if_neg hskip, hread, afterRead, Handshake.a1Reads]

variable (pb stray) in
/-- A bad answer is not followed by anything. -/
theorem workerTurn_bad {wenv : WorkerEnv} (answers : ℕ → Option ℕ) (w : WriteState) {x : Message}
    (hcmd : x.1.cmd = cmdRspConnectToWorker ∨ x.1.cmd = cmdRspTellWorker)
    (hrsp : checkRsp x = false ∨
      x.1.cmd = cmdRspTellWorker ∧ wenv.parses x.2.data = false) :
    (workerTurn pb stray wenv answers { w := w } x).w = w ∧
      (workerTurn pb stray wenv answers { w := w } x).sent = [] := by
  have hprocess : processWorkerMsg pb stray wenv w x (taking (answers 0)) = (.error, [], w) := by
    rcases hrsp with hrsp | ⟨htell, hparse⟩
    · rcases hcmd with hc | hc
      · simp [processWorkerMsg, hc, onRspConnectToWorker, hrsp]
      · simp [processWorkerMsg, hc, onRspTellWorker, hrsp, cmdRspTellWorker,
          cmdRspConnectToWorker, cmdReqTellWorker]
    · simp [processWorkerMsg, htell, onRspTellWorker, hparse, cmdRspTellWorker,
        cmdRspConnectToWorker, cmdReqTellWorker]
  unfold workerTurn
  dsimp only
  rw [hprocess]
  exact ⟨rfl, rfl⟩

variable (pb stray env) in
/-- The good answer of `B0` is followed by the request to `B1`. -/
theorem workerTurn_okAck (answers : ℕ → Option ℕ) (w : WriteState) :
    (workerTurn pb stray env.a1 answers { w := w } (okAck pb env)).w =
        (sendTo pb stray w (tellMessage pb env) (taking (answers 0))).2 ∧
      (workerTurn pb stray env.a1 answers { w := w } (okAck pb env)).sent =
        (sendTo pb stray w (tellMessage pb env) (taking (answers 0))).1 := by
  have hcmd : (okAck pb env).1.cmd = cmdRspConnectToWorker := rfl
  have hrsp : checkRsp (okAck pb env) = true := rfl
  obtain ⟨status, hstatus, hprocess⟩ : ∃ status, status ≠ .running ∧
      processWorkerMsg pb stray env.a1 w (okAck pb env) (taking (answers 0)) =
        (status, sendTo pb stray w (tellMessage pb env) (taking (answers 0))) := by
    simp only [processWorkerMsg, hcmd, if_true, onRspConnectToWorker, hrsp, Bool.not_true,
      Bool.false_eq_true, if_false]
    refine ⟨_, ?_, rfl⟩
    split_ifs <;> decide
  unfold workerTurn
  dsimp only
  rw [hprocess]
  simp [hstatus]

variable (pb stray) in
/-- The good answer of `B1` makes the connection a connected one. -/
theorem workerTurn_tellAck (answers : ℕ → Option ℕ) (w : WriteState)
    (hparse : env.a1.parses env.b1.node = true) :
    (workerTurn pb stray env.a1 answers { w := w } (tellAck pb env)).w.conn =
        { w.conn with state := .connected } ∧
      (workerTurn pb stray env.a1 answers { w := w } (tellAck pb env)).sent = [] := by
  have hcmd : (tellAck pb env).1.cmd = cmdRspTellWorker := rfl
  have hrsp : checkRsp (tellAck pb env) = true := rfl
  have hdata : (tellAck pb env).2.data = env.b1.node := rfl
  have hprocess : processWorkerMsg pb stray env.a1 w (tellAck pb env) (taking (answers 0)) =
      (.running, [], w.ofConn { w.conn with state := .connected }) := by
    simp [processWorkerMsg, hcmd, onRspTellWorker, hrsp, hdata, hparse, cmdRspTellWorker,
      cmdRspConnectToWorker, cmdReqTellWorker]
  unfold workerTurn
  dsimp only
  rw [hprocess]
  exact ⟨rfl, rfl⟩

/-- When the readers have read all frames of `A1`, nothing of them is anywhere else. -/
theorem Streams.all_read (h : Streams pb st out back) (hopen : st.a1.conn.state ≠ .closed)
    (hout : (protoFraming pb).encodeAll out =
      st.b0Bytes ++ (protoFraming pb).encodeAll st.b1Msgs) :
    st.b1Buf = [] ∧ st.toB = [] ∧ st.a1.conn.pending = [] := by
  have hlink := h.link_eq hopen
  rw [h.stream, hout, List.append_assoc, List.append_assoc, List.append_assoc] at hlink
  rw [← List.append_assoc] at hlink
  have hnil := List.append_right_eq_self.mp hlink
  obtain ⟨hbuf, hrest⟩ := List.append_eq_nil_iff.mp hnil
  exact ⟨hbuf, List.append_eq_nil_iff.mp hrest⟩

theorem connecting_ne_closed {c : Connection} (h : c.state = .connecting) : c.state ≠ .closed := by
  rw [h]
  decide

theorem valid_of_connecting {c : Connection} (h : c.state = .connecting) :
    c.isInvalid = false := by
  simp [Connection.isInvalid, h]

variable (stray) in
/-- `A1` decodes the good answer of `B0` and sends its request to `B1`. -/
theorem Streams.a1Tells (h : Streams pb st [connectMessage pb env] []) (hsound : env.Sound pb)
    (ha : st.a1.conn.state = .connecting) (hphase : st.b0Phase ≠ .reading)
    (hbytes : st.b0Bytes = frame pb (connectMessage pb env)) (hmsgs : st.b1Msgs = [])
    (htold : st.told = false) (n : Option ℕ) :
    Inv pb env { st with a1 := (sendTo pb stray st.a1 (tellMessage pb env) (taking n)).2,
                         toB := st.toB ++ (sendTo pb stray st.a1 (tellMessage pb env) (taking n)).1,
                         written := st.written ++
                           (sendTo pb stray st.a1 (tellMessage pb env) (taking n)).1 }
      [connectMessage pb env, tellMessage pb env] [] := by
  have hopen := connecting_ne_closed ha
  obtain ⟨hbuf, -, hpending⟩ := h.all_read hopen (by
    rw [encodeAll_one, hbytes, hmsgs, Framing.encodeAll_nil, List.append_nil])
  have hframe := hsound.tell.wf.encodeOut stray
  have hshort := hsound.tell.short
  have hw := sendTo_writes pb stray h.a1Wf (valid_of_connecting ha)
    (tellMessage pb env) (taking_ne_failed n) (keeps_afterEncode h.a1Wf _ _ (by
      rw [hpending, hframe, hsound.tell.wf.length_frame, List.length_nil]
      omega))
  rw [hframe, ← encodeAll_one] at hw
  refine ⟨h.a1Writes hopen hw, .telling (hw.state.trans ha) hphase hbytes hmsgs htold ?_⟩
  show (protoFraming pb).Partial st.b1Buf _
  rw [hbuf]
  exact Framing.Partial.nil fun m hm => (List.mem_singleton.mp hm) ▸ hsound.tell.wf

/-- `A1` decodes the good answer of `B1`: the messages that wait come into the stream. -/
theorem Streams.a1Joins (h : Streams pb st [connectMessage pb env, tellMessage pb env] [])
    (ha : st.a1.conn.state = .connecting) (hphase : st.b0Phase ≠ .reading)
    (hbytes : st.b0Bytes = frame pb (connectMessage pb env))
    (hmsgs : st.b1Msgs = [tellMessage pb env]) (htold : st.told = true) {w : WriteState}
    (hw : w.conn = { st.a1.conn with state := .connected }) :
    Inv pb env { st with a1 := w }
      (connectMessage pb env :: tellMessage pb env :: st.accepted) [] := by
  have hopen := connecting_ne_closed ha
  have hnot : st.a1.conn.state ≠ .connected := by
    rw [ha]
    decide
  obtain ⟨hbuf, -, hpending⟩ := h.all_read hopen (by
    rw [encodeAll_pair, hbytes, hmsgs, encodeAll_one])
  have hwritten := h.link_eq hopen
  rw [hpending, List.append_nil] at hwritten
  have hsend : st.a1.conn.sendBuf.contents = [] := (pending_of_ne hnot).symm.trans hpending
  refine ⟨h.setA1 ?_ (by rw [hw]) ⟨(protoFraming pb).encodeAll st.accepted, ?_, fun _ => ⟨?_, ?_⟩⟩,
    .joined (by rw [hw]) hphase hbytes htold hmsgs (List.nil_append _).symm ?_⟩
  · rw [hw]
    exact ⟨h.a1Wf.recv, h.a1Wf.send, h.a1Wf.wait⟩
  · rw [hwritten, ← Framing.encodeAll_append]
    rfl
  · rw [hw, Connection.pending, if_pos rfl, hsend, List.append_nil]
    exact (h.waiting hopen hnot).symm
  · rw [hw]
    exact fun hne => absurd rfl hne
  · show (protoFraming pb).Partial st.b1Buf _
    rw [hbuf]
    exact Framing.Partial.nil fun m hm => (h.apps m hm).sound.wf

/-- At most one answer is in the stream to `A1`. -/
theorem Inv.back_cases (h : Inv pb env st out back) (hsound : env.Sound pb) :
    back = [] ∨ ∃ x, back = [x] ∧ Sound pb x := by
  cases h.stage with
  | idle => exact Or.inl rfl
  | connecting => exact Or.inl rfl
  | refused _ _ _ _ _ _ hback =>
    rcases hback with rfl | rfl
    · exact Or.inr ⟨_, rfl, hsound.noAck⟩
    · exact Or.inl rfl
  | answered => exact Or.inr ⟨_, rfl, hsound.okAck⟩
  | telling => exact Or.inl rfl
  | replied _ _ _ _ _ hback =>
    rcases hback with rfl | rfl | ⟨rfl, -⟩
    · exact Or.inl rfl
    · exact Or.inr ⟨_, rfl, hsound.tellNoAck⟩
    · exact Or.inr ⟨_, rfl, hsound.tellAck⟩
  | joined => exact Or.inl rfl

variable (stray) in
/-- `A1` decodes the answer in the stream. -/
theorem Inv.a1Decodes {x : Message} (h : Inv pb env st out [x]) (hsound : env.Sound pb)
    (answers : ℕ → Option ℕ) {w : WriteState} {bytes : Bytes}
    (hstate : w.conn.state = st.a1.conn.state)
    (hstreams : Streams pb { st with a1 := w, toA := bytes } out []) :
    ∃ out' back', Inv pb env
      { st with a1 := (workerTurn pb stray env.a1 answers { w := w } x).w,
                toA := bytes,
                toB := st.toB ++ (workerTurn pb stray env.a1 answers { w := w } x).sent,
                written := st.written ++
                  (workerTurn pb stray env.a1 answers { w := w } x).sent }
      out' back' := by
  generalize hback : [x] = back at h
  cases h.stage with
  | idle => exact absurd hback (by simp)
  | connecting => exact absurd hback (by simp)
  | refused ha hphase hb0 hbytes hmsgs htold hx =>
    -- a refusal closes the handshake
    rcases hx with rfl | rfl
    · obtain rfl := (List.cons.inj hback).1
      obtain ⟨hw, hsent⟩ := workerTurn_bad (x := noAck pb env) pb stray answers w
        (Or.inl rfl) (Or.inl rfl)
      rw [hw, hsent, List.append_nil, List.append_nil]
      exact ⟨_, _, hstreams, .refused (hstate.trans ha) hphase hb0 hbytes hmsgs htold
        (Or.inr rfl)⟩
    · exact absurd hback (by simp)
  | answered ha hphase hbytes hmsgs htold =>
    obtain rfl := (List.cons.inj hback).1
    -- the connect was accepted: tell
    obtain ⟨hw, hsent⟩ := workerTurn_okAck pb stray env answers w
    rw [hw, hsent]
    have hnext := hstreams.a1Tells stray hsound (hstate.trans ha) hphase hbytes hmsgs
      htold (answers 0)
    exact ⟨_, _, hnext⟩
  | telling => exact absurd hback (by simp)
  | joined => exact absurd hback (by simp)
  | replied ha hphase hbytes hmsgs hb1 hx =>
    -- an answer that is not the expected one changes nothing
    have hrefused (hw : (workerTurn pb stray env.a1 answers { w := w } x).w = w ∧
        (workerTurn pb stray env.a1 answers { w := w } x).sent = []) :
        Inv pb env
          { st with a1 := (workerTurn pb stray env.a1 answers { w := w } x).w,
                    toA := bytes,
                    toB := st.toB ++ (workerTurn pb stray env.a1 answers { w := w } x).sent,
                    written := st.written ++
                      (workerTurn pb stray env.a1 answers { w := w } x).sent }
          [connectMessage pb env, tellMessage pb env] [] := by
      rw [hw.1, hw.2, List.append_nil, List.append_nil]
      exact ⟨hstreams, .replied (hstate.trans ha) hphase hbytes hmsgs hb1 (Or.inl rfl)⟩
    rcases hx with rfl | rfl | ⟨rfl, htold⟩
    · exact absurd hback (by simp)
    · obtain rfl := (List.cons.inj hback).1
      exact ⟨_, _, hrefused (workerTurn_bad _ _ _ _ (Or.inr rfl) (Or.inl rfl))⟩
    · obtain rfl := (List.cons.inj hback).1
      rcases Bool.eq_false_or_eq_true (env.a1.parses env.b1.node) with hparse | hparse
      · obtain ⟨hw, hsent⟩ := workerTurn_tellAck pb stray answers w hparse
        rw [hsent, List.append_nil, List.append_nil]
        have hnext := hstreams.a1Joins (hstate.trans ha) hphase hbytes hmsgs htold hw
        exact ⟨_, _, hnext⟩
      · exact ⟨_, _, hrefused (workerTurn_bad _ _ _ _ (Or.inr rfl) (Or.inr ⟨rfl, hparse⟩))⟩

/-- **A read event at `A1`.** -/
theorem Inv.a1Read (h : Inv pb env st out back) (hsound : env.Sound pb) (k : ℕ)
    (answers : ℕ → Option ℕ) :
    ∃ out' back', Inv pb env (handshakeStep pb stray env st (.a1Read k answers)) out' back' := by
  by_cases hskip : st.a1.conn.isInvalid = true ∨ k = 0 ∨ st.toA.length < k
  · simp only [handshakeStep, if_pos hskip]
    exact ⟨out, back, h⟩
  rcases h.back_cases hsound with rfl | ⟨x, rfl, hx⟩
  · refine absurd ?_ hskip
    rw [h.streams.toA_nil, List.length_nil]
    omega
  obtain ⟨buf, ⟨hread, hstreams⟩ | ⟨hread, hstreams⟩⟩ :=
    h.streams.a1Read stray env hx k answers
  · rw [handshakeStep_a1Read hskip hread]
    refine ⟨out, [x], ?_, h.stage.congr rfl rfl rfl rfl rfl rfl rfl rfl⟩
    simpa [Handshake.a1Reads] using hstreams
  · rw [handshakeStep_a1Read hskip hread]
    exact h.a1Decodes stray hsound answers (w := st.a1.setRecv buf) rfl hstreams

/-! ## `B0` reads -/

variable (stray) in
/-- A connection that has nothing to send sends the first bytes of a frame. -/
theorem sendTo_takes {w : WriteState} (hw : Writeable w) (hpending : w.conn.pending = [])
    {m : Message} (hm : WellFormed pb m) (hlt : frameLen pb m < 4294967296) (n : ℕ) :
    (sendTo pb stray w m (.accepted n)).1 = (frame pb m).take n ∧
      Connection.Writes w.conn (sendTo pb stray w m (.accepted n)).2.conn (frame pb m)
        ((frame pb m).take n) := by
  have hframe := hm.encodeOut stray
  have hlen := hm.length_frame
  have hne : SendResult.accepted n ≠ .failed := by simp
  have hwrites := sendTo_writes pb stray hw.wf hw.valid m hne (keeps_afterEncode hw.wf _ _ (by
      rw [hpending, hframe, hlen, List.length_nil]
      omega))
  rw [hframe] at hwrites
  suffices hsent : (sendTo pb stray w m (.accepted n)).1 = (frame pb m).take n by
    exact ⟨hsent, hsent ▸ hwrites⟩
  obtain ⟨sbuf, hbuf, hcontents, -, heq⟩ :=
    Connection.connWriteMsg_eq pb stray hw.wf hw.valid m (.accepted n)
  have hready := Connection.isReadable_of_encodeOut hbuf hcontents
  -- nothing waits, so the frame is all there is in the buffer that is written
  have hempty : w.conn.waitSendBuf.contents = [] ∧ w.conn.sendBuf.contents = [] := by
    rw [Connection.pending, if_pos hw.connected] at hpending
    exact List.append_eq_nil_iff.mp hpending
  rw [hempty.2, List.nil_append, hframe] at hcontents
  have hwait : w.conn.waitSendBuf.readableLen = 0 := by
    rw [← SocketBuffer.length_contents hw.wf.wait, hempty.1, List.length_nil]
  have hchosen : (w.conn.setSendBuf sbuf).chosenBuf = sbuf := by
    refine if_neg fun hwaiting => ?_
    have hpos := (Connection.sendsWaiting_iff.mp hwaiting).2
    rw [show (w.conn.setSendBuf sbuf).waitSendBuf = w.conn.waitSendBuf from rfl, hwait] at hpos
    exact absurd hpos (by decide)
  have hreadable : sbuf.readableLen = frameLen pb m := by
    rw [← SocketBuffer.length_contents hbuf, hcontents, hlen]
  have htaken : sbuf.taken (.accepted n) = some (min n (frameLen pb m)) := by
    have hpos := (SocketBuffer.isReadable_iff sbuf).mp hready
    rw [hreadable] at hpos
    have hint : CInt.toInt (frameLen pb m : ℕ) ≠ 0 := by
      intro hzero
      have hcast : CInt.toInt (frameLen pb m : ℕ) = CInt.toInt ((0 : ℕ) : ℤ) := hzero
      have := CInt.toInt_natCast_injective hlt (by norm_num) hcast
      omega
    unfold SocketBuffer.taken
    dsimp only
    rw [hreadable, if_neg hint]
  unfold sendTo
  rw [heq]
  have hkeeps : (w.conn.setSendBuf sbuf).chosenBuf.Keeps (.accepted n) := by
    rw [hchosen]
    exact SocketBuffer.keeps_of_lt (by omega) _
  obtain ⟨hstatus, -⟩ := Connection.connWrite_writes (c := w.conn.setSendBuf sbuf)
    (hw.wf.setSendBuf hbuf) hw.valid (by simp) hkeeps
  rw [(handleWriteEvents_conn hstatus).1]
  rcases Connection.connWrite_cases (c := w.conn.setSendBuf sbuf) (.accepted n)
    hw.valid with ⟨hread, -⟩ | ⟨k, -, hk, hwrite⟩ | ⟨-, hnone, -⟩
  · rw [hchosen, hready] at hread
    exact absurd hread (by decide)
  · rw [hchosen, htaken] at hk
    obtain rfl := Option.some.inj hk
    rw [hwrite, hchosen, hcontents, ← hlen]
    exact List.take_eq_take_min.symm
  · rw [hchosen, htaken] at hnone
    exact absurd hnone (by simp)

variable (stray) in
/-- And all of it, when the socket takes it. -/
theorem sendTo_whole {w : WriteState} (hw : Writeable w) (hpending : w.conn.pending = [])
    {m : Message} (hm : Sound pb m) :
    (sendTo pb stray w m (.accepted 2147483648)).1 = frame pb m ∧
      Connection.Writes w.conn (sendTo pb stray w m (.accepted 2147483648)).2.conn (frame pb m)
        (frame pb m) := by
  have hshort := hm.short
  have hall : (frame pb m).take 2147483648 = frame pb m := by
    refine List.take_of_length_le ?_
    rw [hm.wf.length_frame]
    omega
  have htakes := sendTo_takes stray hw hpending hm.wf (by omega) 2147483648
  rwa [hall] at htakes

variable (stray) in
/-- `B0` handles the request: it closes the connection after the good answer, and goes on
reading after the bad one. -/
theorem managerTurn_connect {w : WriteState} (hsound : env.Sound pb) (hw : Writeable w)
    (hpending : w.conn.pending = []) :
    managerTurn pb stray (managerEnv env) wholeAnswer (.reading w 0 []) (connectMessage pb env) =
        .closed (frame pb (okAck pb env)) ∨
      ∃ w' : WriteState, managerTurn pb stray (managerEnv env) wholeAnswer (.reading w 0 [])
          (connectMessage pb env) = .reading w' 1 (frame pb (noAck pb env)) ∧
        Connection.Writes w.conn w'.conn (frame pb (noAck pb env)) (frame pb (noAck pb env)) := by
  have hcmd : (connectMessage pb env).1.cmd = cmdReqConnectToWorker := rfl
  have hindex : strToInt (connectMessage pb env).2.data = .ok env.workerIndex :=
    strToInt_toDecimal env.inRange
  have hopen {m : Message} (hwrites : Connection.Writes w.conn
      (sendTo pb stray w m (.accepted 2147483648)).2.conn (frame pb m) (frame pb m)) :
      (sendTo pb stray w m (.accepted 2147483648)).2.conn.state ≠ .closed := by
    rw [hwrites.state, hw.connected]
    decide
  by_cases hvalid : env.workerIndex = 0 ∨ env.workerCnt < env.workerIndex
  · right
    obtain ⟨hsent, hwrites⟩ := sendTo_whole stray hw hpending hsound.noAck
    have hprocess : processManagerMsg pb stray (managerEnv env) w (connectMessage pb env)
        (wholeAnswer 0) = .ok (.error, sendTo pb stray w (noAck pb env) (.accepted 2147483648)) := by
      simp only [processManagerMsg, if_pos hcmd, onReqConnectToWorker, hindex, managerEnv,
        if_pos hvalid]
      rfl
    refine ⟨(sendTo pb stray w (noAck pb env) (.accepted 2147483648)).2, ?_, hwrites⟩
    simp only [managerTurn, hprocess, if_neg (hopen hwrites), hsent, List.nil_append]
  · left
    obtain ⟨hsent, hwrites⟩ := sendTo_whole stray hw hpending hsound.okAck
    have hprocess : processManagerMsg pb stray (managerEnv env) w (connectMessage pb env)
        (wholeAnswer 0) =
        .ok (.completed, sendTo pb stray w (okAck pb env) (.accepted 2147483648)) := by
      have hack : sendAck pb stray w (connectMessage pb env) errOk (text "ok") []
          (.accepted 2147483648) =
          (true, sendTo pb stray w (okAck pb env) (.accepted 2147483648)) := by
        unfold sendAck
        exact Prod.ext (decide_eq_true (hopen hwrites)) rfl
      simp only [processManagerMsg, if_pos hcmd, onReqConnectToWorker, hindex, managerEnv,
        if_neg hvalid, wholeAnswer, ackWith, hack, if_true]
    simp only [managerTurn, hprocess, if_neg (hopen hwrites), hsent, List.nil_append]

/-- The socket to `B0` has nothing when all that `A1` has in its stream was read. -/
theorem Streams.toB_nil (h : Streams pb st out back)
    (hout : (protoFraming pb).encodeAll out =
      st.b0Bytes ++ (protoFraming pb).encodeAll st.b1Msgs) : st.toB = [] := by
  obtain ⟨rest, hrest, -⟩ := h.link
  rw [h.stream, hout, List.append_assoc, List.append_assoc] at hrest
  exact (List.append_eq_nil_iff.mp (List.append_eq_nil_iff.mp
    (List.append_right_eq_self.mp hrest)).2).1

/-- The streams after `B0` read `k` bytes and sent `sent`. -/
theorem Streams.b0Reads (h : Streams pb st out []) (k : ℕ) {w : WriteState} (sent : Bytes)
    (phase : ManagerPhase) (back' : List Message) (hphase : st.b0Phase ≠ .closed)
    (hmsgs : st.b1Msgs = []) (hw : Writeable w) (hpending : w.conn.pending = [])
    (hsent : sent = (protoFraming pb).encodeAll back')
    (hback : ∀ m ∈ back', Sound pb m) :
    Streams pb { st with toB := st.toB.drop k, b0Bytes := st.b0Bytes ++ st.toB.take k, b0 := w,
                         b0Phase := phase, toA := st.toA ++ sent } out back' := by
  obtain ⟨-, hb1⟩ := h.handover.1 hphase
  have hbuf : st.b1Buf = [] := by
    unfold Handshake.b1Buf
    rw [hb1]
  have hout : st.b1Out = [] := by
    unfold Handshake.b1Out
    rw [hb1]
  have hanswers := h.answers
  rw [Framing.encodeAll_nil, List.append_assoc] at hanswers
  have hrecv := (List.append_eq_nil_iff.mp hanswers).1
  refine ⟨h.defined, h.a1Wf, ⟨hw.wf, hw.connected, hpending⟩, h.b1Ok, h.apps, h.link, ?_, ?_, ?_,
    fun _ => h.handover.1 hphase, h.handover.2⟩
  · show st.written = st.b0Bytes ++ st.toB.take k ++ (protoFraming pb).encodeAll st.b1Msgs ++
      st.b1Buf ++ st.toB.drop k
    rw [h.stream, hmsgs, hbuf]
    simp
  · show st.a1.conn.recvBuf.contents ++ (st.toA ++ sent) ++ st.b1Out = _
    rw [hrecv, h.toA_nil, hout, hsent]
    simp
  · show (protoFraming pb).Partial st.a1.conn.recvBuf.contents back'
    rw [hrecv]
    exact Framing.Partial.nil fun m hm => (hback m hm).wf

variable (stray) in
/-- `B0` reads in the only stage where there is something to read. -/
theorem Inv.b0Connecting (h : Inv pb env st [connectMessage pb env] []) (hsound : env.Sound pb)
    (k : ℕ) (ha : st.a1.conn.state = .connecting) (hphase : st.b0Phase = .reading)
    (hb0 : st.b0.conn.recvBuf.contents = st.b0Bytes) (hmsgs : st.b1Msgs = [])
    (htold : st.told = false) :
    ∃ back', Inv pb env (Kimserver.b0Read pb stray env st k) [connectMessage pb env] back' := by
  have hne : st.b0Phase ≠ .closed := by
    rw [hphase]
    decide
  obtain ⟨-, hb1⟩ := h.streams.handover.1 hne
  obtain ⟨hwf, hconnected, hpending⟩ := h.streams.b0Ok
  -- what `A1` has sent was read, or it is in the socket
  have hcontents : st.b0.conn.recvBuf.contents ++ st.toB.take k ++
      (st.toB.drop k ++ st.a1.conn.pending) = frame pb (connectMessage pb env) := by
    have hlink := h.streams.link_eq (connecting_ne_closed ha)
    have hbuf : st.b1Buf = [] := by
      unfold Handshake.b1Buf
      rw [hb1]
    rw [h.streams.stream, hmsgs, hbuf, encodeAll_one] at hlink
    rw [← hlink, hb0, List.append_assoc, ← List.append_assoc (st.toB.take k),
      List.take_append_drop]
    simp
  obtain ⟨buf, hbuf, ⟨hloop, htext, hpart⟩ | ⟨hloop, htext, hfuture⟩⟩ :=
    decodeLoop_one hsound.connect hwf.recv hcontents
  · -- the request is not complete
    have hw : Writeable (st.b0.setRecv buf) := ⟨hwf.setRecv hbuf, hconnected⟩
    have hstreams := h.streams.b0Reads k [] .reading [] hne hmsgs hw hpending rfl fun m hm => absurd hm List.not_mem_nil
    refine ⟨[], ?_⟩
    simp only [Kimserver.b0Read, Connection.connRead, hloop, Machine.run_nil]
    refine ⟨?_, ?_⟩
    · rw [← hphase] at hstreams
      exact hstreams
    · refine .connecting ha hphase ?_ ?_ hmsgs htold
      · exact htext.trans (by rw [hb0])
      · show (protoFraming pb).Partial (st.b0Bytes ++ st.toB.take k) _
        rw [← hb0, ← htext]
        exact hpart
  · have hw : Writeable (st.b0.setRecv buf) := ⟨hwf.setRecv hbuf, hconnected⟩
    -- the request is complete, and nothing of `A1` is left in the socket
    have hall : st.b0Bytes ++ st.toB.take k = frame pb (connectMessage pb env) := by
      rw [← hcontents, hfuture, hb0, List.append_nil]
    have hrun (l : ManagerLoop) (hl : managerTurn pb stray (managerEnv env) wholeAnswer
        (.reading (st.b0.setRecv buf) 0 []) (connectMessage pb env) = l) :
        (managerMachine pb stray (managerEnv env) wholeAnswer).run
          (.reading (st.b0.setRecv buf) 0 []) [connectMessage pb env] = l := hl
    rcases managerTurn_connect stray hsound hw hpending with hturn | ⟨w', hturn, hwrites⟩
    · refine ⟨[okAck pb env], ?_⟩
      have hrun' := hrun _ hturn
      unfold WriteState.setRecv at hrun'
      simp only [Kimserver.b0Read, Connection.connRead, hloop, hrun']
      have hstreams := h.streams.b0Reads (w := st.b0) k (frame pb (okAck pb env)) .answered
        [okAck pb env] hne hmsgs ⟨hwf, hconnected⟩ hpending (encodeAll_one _).symm
        fun m hm => (List.mem_singleton.mp hm) ▸ hsound.okAck
      exact ⟨hstreams, .answered ha nofun hall hmsgs htold⟩
    · refine ⟨[noAck pb env], ?_⟩
      have hrun' := hrun _ hturn
      unfold WriteState.setRecv at hrun'
      simp only [Kimserver.b0Read, Connection.connRead, hloop, hrun']
      have hw' : Writeable w' := ⟨hwrites.wf, hwrites.state.trans hconnected⟩
      have hpending' : w'.conn.pending = [] := by
        have hsame := hwrites.pending
        rw [show (st.b0.setRecv buf).conn.pending = [] from hpending, List.nil_append] at hsame
        exact List.append_right_eq_self.mp hsame
      have hstreams := h.streams.b0Reads (w := w') k (frame pb (noAck pb env)) .reading
        [noAck pb env] hne hmsgs hw' hpending'
        (encodeAll_one _).symm fun m hm => (List.mem_singleton.mp hm) ▸ hsound.noAck
      rw [← hphase] at hstreams
      refine ⟨hstreams, .refused ha hphase ?_ hall hmsgs htold (Or.inl rfl)⟩
      show w'.conn.recvBuf.contents = []
      rw [hwrites.recv]
      exact htext

/-- **A read event at `B0`.** -/
theorem Inv.b0Read (h : Inv pb env st out back) (hsound : env.Sound pb) (k : ℕ) :
    ∃ out' back', Inv pb env (handshakeStep pb stray env st (.b0Read k)) out' back' := by
  by_cases hskip : st.b0Phase ≠ .reading ∨ k = 0 ∨ st.toB.length < k
  · simp only [handshakeStep, if_pos hskip]
    exact ⟨out, back, h⟩
  simp only [handshakeStep, if_neg hskip]
  have hphase : st.b0Phase = .reading := not_not.mp fun hne => hskip (Or.inl hne)
  have hnothing (hnil : st.toB = []) : False := by
    refine hskip (Or.inr ?_)
    rw [hnil, List.length_nil]
    omega
  have hstage := h.stage
  cases hstage with
  | idle _ _ _ hbytes hmsgs =>
    exact (hnothing (h.streams.toB_nil (by rw [hbytes, hmsgs]; rfl))).elim
  | connecting ha _ hb0 _ hmsgs htold =>
    obtain ⟨back', hnext⟩ := h.b0Connecting stray hsound k ha hphase hb0 hmsgs htold
    exact ⟨_, back', hnext⟩
  | refused _ _ _ hbytes hmsgs =>
    refine (hnothing (h.streams.toB_nil ?_)).elim
    rw [hbytes, hmsgs, encodeAll_one, Framing.encodeAll_nil, List.append_nil]
  | answered _ hne => exact absurd hphase hne
  | telling _ hne => exact absurd hphase hne
  | replied _ hne => exact absurd hphase hne
  | joined _ hne => exact absurd hphase hne

/-- `B0` transfers the descriptor. -/
theorem Inv.b0Transfer (h : Inv pb env st out back) :
    ∃ out' back', Inv pb env (handshakeStep pb stray env st .b0Transfer) out' back' := by
  by_cases hphase : st.b0Phase = .answered
  · simp only [handshakeStep, if_pos hphase]
    have hne : st.b0Phase ≠ .closed := by
      rw [hphase]
      decide
    have hnot (hreading : st.b0Phase = .reading) : False := by
      rw [hphase] at hreading
      exact absurd hreading (by decide)
    have hs := h.streams
    refine ⟨out, back, ⟨hs.defined, hs.a1Wf, hs.b0Ok, hs.b1Ok, hs.apps, hs.link, hs.stream,
      hs.answers, hs.partialBack, fun hclosed => absurd rfl hclosed,
      fun _ => (hs.handover.1 hne).2⟩, ?_⟩
    cases h.stage with
    | idle _ hreading => exact (hnot hreading).elim
    | connecting _ hreading => exact (hnot hreading).elim
    | refused _ hreading => exact (hnot hreading).elim
    | answered ha _ hbytes hmsgs htold => exact .answered ha nofun hbytes hmsgs htold
    | telling ha _ hbytes hmsgs htold hpart => exact .telling ha nofun hbytes hmsgs htold hpart
    | replied ha _ hbytes hmsgs hb1 hback => exact .replied ha nofun hbytes hmsgs hb1 hback
    | joined ha _ hbytes htold hmsgs haccepted hpart =>
      exact .joined ha nofun hbytes htold hmsgs haccepted hpart
  · simp only [handshakeStep, if_neg hphase]
    exact ⟨out, back, h⟩

end Read

end Kimserver
