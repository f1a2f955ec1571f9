import Kimserver.Net.HandshakeReads

/-!
# Runs of the handshake

The worker `B1` answers the request to it, and then reads the messages of the application. With
its steps the invariant holds in every state of a run.

## Main results

* `handshake_safe`: the handshake is safe in every run whose steps meet the condition
* `handshake_safe_message`: a run from the first message to its arrival
* `handshake_long_fails`: a frame of `2 ^ 31` bytes
-/

namespace Kimserver

open SocketBuffer (SendResult)

section Worker

variable {pb : Protobuf} {stray : ℕ → UInt8} {env : HandshakeEnv}
  {st : Handshake} {out back : List Message}

/-! ## `B1` -/

/-- `B1` reads the descriptor. -/
theorem Inv.b1Accept (h : Inv pb env st out back) :
    ∃ out' back', Inv pb env (handshakeStep pb stray env st .b1Accept) out' back' := by
  by_cases hchannel : st.channel = true
  · simp only [handshakeStep, if_pos hchannel]
    have hs := h.streams
    have hb1 := hs.handover.2 hchannel
    have hbuf : st.b1Buf = [] := by
      unfold Handshake.b1Buf
      rw [hb1]
    have hout : st.b1Out = [] := by
      unfold Handshake.b1Out
      rw [hb1]
    have hstream := hs.stream
    rw [hbuf] at hstream
    have hanswers := hs.answers
    rw [hout] at hanswers
    refine ⟨out, back, ⟨hs.defined, hs.a1Wf, hs.b0Ok, ?_, hs.apps, hs.link, hstream,
      hanswers, hs.partialBack, fun hopen => ?_, fun hfalse => absurd hfalse (by simp)⟩,
      h.stage.congr rfl rfl rfl rfl hbuf.symm rfl rfl rfl⟩
    · intro w hw
      obtain rfl := Option.some.inj hw
      exact ⟨Connection.wf_fresh _, rfl⟩
    · have hfalse := (hs.handover.1 hopen).1
      exact absurd (hchannel.symm.trans hfalse) (by decide)
  · simp only [handshakeStep, if_neg hchannel]
    exact ⟨out, back, h⟩

/-- `B1` has a connection only after the transfer. -/
theorem Streams.phase_closed (h : Streams pb st out back) {w : WriteState} (hb1 : st.b1 = some w) :
    st.b0Phase = .closed ∧ st.channel ≠ true := by
  constructor
  · by_contra hopen
    rw [(h.handover.1 hopen).2] at hb1
    exact absurd hb1 (by simp)
  · intro hchannel
    rw [h.handover.2 hchannel] at hb1
    exact absurd hb1 (by simp)

theorem Handshake.b1Buf_some {w : WriteState} (hb1 : st.b1 = some w) :
    st.b1Buf = w.conn.recvBuf.contents := by
  unfold Handshake.b1Buf
  rw [hb1]

theorem Handshake.b1Out_some {w : WriteState} (hb1 : st.b1 = some w) :
    st.b1Out = w.conn.pending := by
  unfold Handshake.b1Out
  rw [hb1]

/-- `B1` puts messages into its stream and sends the first of what it has to send. -/
theorem Streams.b1Sends (h : Streams pb st out back) {w w' : WriteState} (hb1 : st.b1 = some w)
    {more : List Message} {sent : Bytes} (told : Bool)
    (hw : Connection.Writes w.conn w'.conn ((protoFraming pb).encodeAll more) sent)
    (hpart : (protoFraming pb).Partial st.a1.conn.recvBuf.contents (back ++ more)) :
    Streams pb { st with b1 := some w', toA := st.toA ++ sent, told := told } out
      (back ++ more) := by
  obtain ⟨hphase, hchannel⟩ := h.phase_closed hb1
  have hok := h.b1Ok w hb1
  refine ⟨h.defined, h.a1Wf, h.b0Ok, ?_, h.apps, h.link, ?_, ?_, hpart,
    fun hopen => absurd hphase hopen, fun htrue => absurd htrue hchannel⟩
  · intro x hx
    obtain rfl := Option.some.inj hx
    exact ⟨hw.wf, hw.state.trans hok.2⟩
  · have hstream := h.stream
    rw [Handshake.b1Buf_some hb1, ← hw.recv] at hstream
    exact hstream
  · show st.a1.conn.recvBuf.contents ++ (st.toA ++ sent) ++ w'.conn.pending = _
    rw [List.append_assoc, List.append_assoc, hw.pending, Framing.encodeAll_append, ← h.answers,
      Handshake.b1Out_some hb1]
    simp

/-- `B1` reads `k` bytes and decodes `done`. -/
theorem Streams.b1Reads (h : Streams pb st out back) {w : WriteState} (hb1 : st.b1 = some w)
    (k : ℕ) {buf : SocketBuffer} {done : List Message} (hbuf : buf.Wf)
    (hread : w.conn.recvBuf.contents ++ st.toB.take k =
      (protoFraming pb).encodeAll done ++ buf.contents) :
    Streams pb { st with b1 := some (w.setRecv buf), toB := st.toB.drop k,
                         b1Msgs := st.b1Msgs ++ done } out back := by
  obtain ⟨hphase, hchannel⟩ := h.phase_closed hb1
  have hok := h.b1Ok w hb1
  refine ⟨h.defined, h.a1Wf, h.b0Ok, ?_, h.apps, h.link, ?_, ?_, h.partialBack,
    fun hopen => absurd hphase hopen, fun htrue => absurd htrue hchannel⟩
  · intro x hx
    obtain rfl := Option.some.inj hx
    exact ⟨hok.1.setRecv hbuf, hok.2⟩
  · show st.written = st.b0Bytes ++ (protoFraming pb).encodeAll (st.b1Msgs ++ done) ++
      buf.contents ++ st.toB.drop k
    rw [h.stream, Handshake.b1Buf_some hb1, Framing.encodeAll_append,
      ← List.take_append_drop k st.toB, List.take_append_drop]
    have hassoc := congrArg (· ++ st.toB.drop k) hread
    simp only [List.append_assoc, List.take_append_drop] at hassoc ⊢
    rw [hassoc]
  · have hanswers := h.answers
    rw [Handshake.b1Out_some hb1] at hanswers
    exact hanswers

theorem handshakeStep_b1Read {w : WriteState} (hb1 : st.b1 = some w) {k : ℕ}
    {answers : ℕ → Option ℕ} {msgs : List Message} {s : WorkerLoop}
    (hskip : ¬ (w.conn.isInvalid = true ∨ k = 0 ∨ st.toB.length < k))
    (hread : workerRead pb stray env.b1 answers w (st.toB.take k) = (msgs, s, .pause)) :
    handshakeStep pb stray env st (.b1Read k answers) =
      { st with b1 := some s.w, toB := st.toB.drop k, toA := st.toA ++ s.sent,
                b1Msgs := st.b1Msgs ++ msgs, told := st.told || s.told } := by
  simp [handshakeStep, hb1, if_neg hskip, hread, afterRead]

variable (stray) in
/-- Messages of an application are no system commands. -/
theorem foldl_appMessages (wenv : WorkerEnv) (answers : ℕ → Option ℕ) {ms : List Message}
    (hms : ∀ m ∈ ms, AppMessage pb m) (s : WorkerLoop) :
    (ms.foldl (workerTurn pb stray wenv answers) s).w = s.w ∧
      (ms.foldl (workerTurn pb stray wenv answers) s).sent = s.sent ∧
      (ms.foldl (workerTurn pb stray wenv answers) s).told = s.told := by
  induction ms generalizing s with
  | nil => exact ⟨rfl, rfl, rfl⟩
  | cons m ms ih =>
    have hm := hms m List.mem_cons_self
    have hprocess : processWorkerMsg pb stray wenv s.w m (taking (answers s.handled)) =
        (.unknown, [], s.w) := by
      simp only [processWorkerMsg, if_neg hm.notRspConnect, if_neg hm.notReqTell,
        if_neg hm.notRspTell]
    have hturn : workerTurn pb stray wenv answers s m = { s with handled := s.handled + 1 } := by
      unfold workerTurn
      dsimp only
      rw [hprocess]
      simp [hm.notReqTell]
    rw [List.foldl_cons, hturn]
    exact ih (fun x hx => hms x (List.mem_cons_of_mem _ hx)) _

theorem setState_same {c : Connection} {state : ConnState} (h : c.state = state) :
    { c with state := state } = c := by
  subst h
  rfl

variable (stray) in
/-- `B1` answers its request. -/
theorem workerTurn_tell {w : WriteState} (hsound : env.Sound pb) (hw : Writeable w)
    (hpending : w.conn.pending = []) (answers : ℕ → Option ℕ) :
    ∃ ack, Connection.Writes w.conn
        (workerTurn pb stray env.b1 answers { w := w } (tellMessage pb env)).w.conn
        ((protoFraming pb).encodeAll [ack])
        (workerTurn pb stray env.b1 answers { w := w } (tellMessage pb env)).sent ∧
      (ack = tellNoAck pb env ∨ ack = tellAck pb env ∧
        (workerTurn pb stray env.b1 answers { w := w } (tellMessage pb env)).told = true) := by
  have hcmd : (tellMessage pb env).1.cmd = cmdReqTellWorker := rfl
  -- an answer is written as a whole: nothing is pending
  have hwrites {ack : Message} (hack : Sound pb ack) :
      Connection.Writes w.conn (sendTo pb stray w ack (taking (answers 0))).2.conn
        ((protoFraming pb).encodeAll [ack]) (sendTo pb stray w ack (taking (answers 0))).1 := by
    have hframe := hack.wf.encodeOut stray
    have hshort := hack.short
    have hsend := sendTo_writes pb stray hw.wf hw.valid ack
      (taking_ne_failed (answers 0)) (keeps_afterEncode hw.wf _ _ (by
        rw [hpending, hframe, hack.wf.length_frame, List.length_nil]
        omega))
    rwa [hframe, ← encodeAll_one] at hsend
  rcases Bool.eq_false_or_eq_true (env.b1.parses (tellMessage pb env).2.data) with hparse | hparse
  · refine ⟨tellAck pb env, ?_⟩
    have hack := hwrites hsound.tellAck
    have hstate := hack.state.trans hw.connected
    have hopen : (sendTo pb stray w (tellAck pb env) (taking (answers 0))).2.conn.state ≠ .closed := by
      rw [hstate]
      decide
    have hsend : sendAck pb stray w (tellMessage pb env) errOk (text "ok") env.b1.node
        (taking (answers 0)) = (true, sendTo pb stray w (tellAck pb env) (taking (answers 0))) := by
      unfold sendAck
      exact Prod.ext (decide_eq_true hopen) rfl
    have hprocess : processWorkerMsg pb stray env.b1 w (tellMessage pb env) (taking (answers 0)) =
        (.ok, (sendTo pb stray w (tellAck pb env) (taking (answers 0))).1,
          (sendTo pb stray w (tellAck pb env) (taking (answers 0))).2.ofConn
            (sendTo pb stray w (tellAck pb env) (taking (answers 0))).2.conn) := by
      have hne : cmdReqTellWorker ≠ cmdRspConnectToWorker := by decide
      simp only [processWorkerMsg, hcmd, if_neg hne, if_true, onReqTellWorker, hparse,
        Bool.not_true, Bool.false_eq_true, if_false, hsend, setState_same hstate]
    unfold workerTurn
    dsimp only
    rw [hprocess]
    exact ⟨hack, Or.inr ⟨rfl, by simp [hcmd]⟩⟩
  · refine ⟨tellNoAck pb env, ?_, Or.inl rfl⟩
    have hprocess : processWorkerMsg pb stray env.b1 w (tellMessage pb env) (taking (answers 0)) =
        (.error, sendTo pb stray w (tellNoAck pb env) (taking (answers 0))) := by
      have hne : cmdReqTellWorker ≠ cmdRspConnectToWorker := by decide
      simp only [processWorkerMsg, hcmd, if_neg hne, if_true, onReqTellWorker, hparse,
        Bool.not_false, ackError, sendAck]
      rfl
    unfold workerTurn
    dsimp only
    rw [hprocess]
    exact hwrites hsound.tellNoAck

/-- **A write event at `B1`.** -/
theorem Inv.b1Write (h : Inv pb env st out back) (hsound : env.Sound pb) (n : Option ℕ) :
    ∃ out' back', Inv pb env (handshakeStep pb stray env st (.b1Write n)) out' back' := by
  cases hb1 : st.b1 with
  | none =>
    simp only [handshakeStep, hb1]
    exact ⟨out, back, h⟩
  | some w =>
    obtain ⟨hwf, hstate⟩ := h.streams.b1Ok w hb1
    have hw : Writeable w := ⟨hwf, hstate⟩
    -- at most one answer is in the stream, so the memory that is recovered is small
    have hshort : w.conn.pending.length < 4294967296 := by
      have hlen := congrArg List.length h.streams.answers
      rw [Handshake.b1Out_some hb1, List.length_append] at hlen
      rcases h.back_cases hsound with rfl | ⟨x, rfl, hx⟩
      · rw [Framing.encodeAll_nil, List.length_nil] at hlen
        omega
      · have hframe := hx.short
        rw [encodeAll_one, hx.wf.length_frame] at hlen
        omega
    have hkeeps : w.conn.chosenBuf.Keeps (taking n) := SocketBuffer.keeps_of_lt
      (lt_of_le_of_lt (Connection.readableLen_chosenBuf_le hwf) hshort) _
    have hwrites : Connection.Writes w.conn
        (writeStep pb stray w (.writeReady none (taking n))).2.conn []
        (writeStep pb stray w (.writeReady none (taking n))).1 := by
      have hnot : w.conn.state ≠ .tryConnect := by
        rw [hstate]
        decide
      simp only [writeStep, hw.valid, Bool.false_eq_true, if_false, if_neg hnot]
      split_ifs
      · exact ⟨hwf, rfl, rfl, fun _ => rfl, (List.append_nil _).symm⟩
      · obtain ⟨hstatus, hwrites⟩ :=
          Connection.connWrite_writes hwf hw.valid (taking_ne_failed n) hkeeps
        obtain ⟨hsent, hconn⟩ := handleWriteEvents_conn hstatus
        rwa [← hsent, ← hconn] at hwrites
    rw [← Framing.encodeAll_nil (protoFraming pb)] at hwrites
    have hstreams := h.streams.b1Sends hb1 st.told hwrites
      (by rw [List.append_nil]; exact h.streams.partialBack)
    rw [List.append_nil] at hstreams
    simp only [handshakeStep, hb1]
    refine ⟨out, back, hstreams, h.stage.congr rfl rfl rfl rfl ?_ rfl rfl rfl⟩
    rw [Handshake.b1Buf_some hb1, Handshake.b1Buf_some rfl, hwrites.recv]

variable (stray) in
/-- `B1` reads before it has answered its request. -/
theorem Inv.b1Telling (h : Inv pb env st [connectMessage pb env, tellMessage pb env] [])
    (hsound : env.Sound pb) {w : WriteState} (hb1 : st.b1 = some w) {k : ℕ}
    (answers : ℕ → Option ℕ) (ha : st.a1.conn.state = .connecting)
    (hphase : st.b0Phase ≠ .reading) (hbytes : st.b0Bytes = frame pb (connectMessage pb env))
    (hmsgs : st.b1Msgs = []) (htold : st.told = false)
    (hskip : ¬ (w.conn.isInvalid = true ∨ k = 0 ∨ st.toB.length < k)) :
    ∃ back', Inv pb env (handshakeStep pb stray env st (.b1Read k answers))
      [connectMessage pb env, tellMessage pb env] back' := by
  obtain ⟨hwf, hstate⟩ := h.streams.b1Ok w hb1
  -- the request of `A1` is in the buffer of `B1`, in the socket, and still to be sent
  have hcontents : w.conn.recvBuf.contents ++ st.toB.take k ++
      (st.toB.drop k ++ st.a1.conn.pending) = frame pb (tellMessage pb env) := by
    have hlink := h.streams.link_eq (connecting_ne_closed ha)
    rw [h.streams.stream, hmsgs, hbytes, Handshake.b1Buf_some hb1, encodeAll_pair,
      Framing.encodeAll_nil, List.append_nil, List.append_assoc, List.append_assoc] at hlink
    rw [← List.append_cancel_left hlink, List.append_assoc, ← List.append_assoc (st.toB.take k),
      List.take_append_drop]
  obtain ⟨buf, hbuf, ⟨hloop, htext, hpart⟩ | ⟨hloop, htext, hfuture⟩⟩ :=
    decodeLoop_one hsound.tell hwf.recv hcontents
  · have hstep : handshakeStep pb stray env st (.b1Read k answers) =
        { st with b1 := some (w.setRecv buf), toB := st.toB.drop k, b1Msgs := st.b1Msgs ++ [] } := by
      have hworker : workerRead pb stray env.b1 answers w (st.toB.take k) =
          ([], { w := w.setRecv buf }, .pause) := by
        simp only [workerRead, Connection.connRead, hloop]
        rfl
      rw [handshakeStep_b1Read hb1 hskip hworker]
      simp
    rw [hstep]
    refine ⟨[], h.streams.b1Reads hb1 k hbuf htext.symm, .telling ha hphase hbytes ?_ htold hpart⟩
    rw [hmsgs]
    rfl
  · have hstep : handshakeStep pb stray env st (.b1Read k answers) =
        { st with
          b1 := some (workerTurn pb stray env.b1 answers { w := w.setRecv buf }
            (tellMessage pb env)).w
          toB := st.toB.drop k
          toA := st.toA ++ (workerTurn pb stray env.b1 answers { w := w.setRecv buf }
            (tellMessage pb env)).sent
          b1Msgs := st.b1Msgs ++ [tellMessage pb env]
          told := st.told || (workerTurn pb stray env.b1 answers { w := w.setRecv buf }
            (tellMessage pb env)).told } := by
      refine handshakeStep_b1Read hb1 hskip ?_
      simp only [workerRead, Connection.connRead, hloop]
      rfl
    rw [hstep]
    have hread : w.conn.recvBuf.contents ++ st.toB.take k =
        (protoFraming pb).encodeAll [tellMessage pb env] ++ buf.contents := by
      rw [htext, encodeAll_one, List.append_nil, ← hcontents, hfuture, List.append_nil]
    have hreads := h.streams.b1Reads hb1 k hbuf hread
    -- no answer was in the stream, so nothing is to be sent before this one
    have hnil := h.streams.answers
    rw [Framing.encodeAll_nil, List.append_assoc] at hnil
    obtain ⟨hrecv, hnil⟩ := List.append_eq_nil_iff.mp hnil
    have hpending : w.conn.pending = [] := by
      rw [← Handshake.b1Out_some hb1]
      exact (List.append_eq_nil_iff.mp hnil).2
    obtain ⟨ack, hwrites, hack⟩ := workerTurn_tell (w := w.setRecv buf) stray hsound
      ⟨hwf.setRecv hbuf, hstate⟩ hpending answers
    have hackSound : Sound pb ack := by
      rcases hack with rfl | ⟨rfl, -⟩
      · exact hsound.tellNoAck
      · exact hsound.tellAck
    have hsends := hreads.b1Sends rfl (st.told || (workerTurn pb stray env.b1 answers
      { w := w.setRecv buf } (tellMessage pb env)).told) hwrites (by
        show (protoFraming pb).Partial st.a1.conn.recvBuf.contents [ack]
        rw [hrecv]
        exact Framing.Partial.nil fun m hm => (List.mem_singleton.mp hm) ▸ hackSound.wf)
    refine ⟨[ack], hsends, .replied ha hphase hbytes ?_ ?_ ?_⟩
    · rw [hmsgs]
      rfl
    · rw [Handshake.b1Buf_some rfl, hwrites.recv]
      exact htext
    · rcases hack with rfl | ⟨rfl, htrue⟩
      · exact Or.inr (Or.inl rfl)
      · refine Or.inr (Or.inr ⟨rfl, ?_⟩)
        rw [htrue, Bool.or_true]

variable (stray) in
/-- `B1` reads messages of the application. -/
theorem Inv.b1Joined {done todo : List Message} (h : Inv pb env st
      (connectMessage pb env :: tellMessage pb env :: st.accepted) [])
    {w : WriteState} (hb1 : st.b1 = some w) {k : ℕ} (answers : ℕ → Option ℕ)
    (hsmall : w.conn.recvBuf.contents.length + k < 2147483648)
    (ha : st.a1.conn.state = .connected) (hphase : st.b0Phase ≠ .reading)
    (hbytes : st.b0Bytes = frame pb (connectMessage pb env)) (htold : st.told = true)
    (hmsgs : st.b1Msgs = tellMessage pb env :: done) (haccepted : st.accepted = done ++ todo)
    (hskip : ¬ (w.conn.isInvalid = true ∨ k = 0 ∨ st.toB.length < k)) :
    Inv pb env (handshakeStep pb stray env st (.b1Read k answers))
      (connectMessage pb env :: tellMessage pb env :: st.accepted) [] := by
  obtain ⟨hwf, hstate⟩ := h.streams.b1Ok w hb1
  have hopen : st.a1.conn.state ≠ .closed := by
    rw [ha]
    decide
  -- only application messages are left
  have htodo : ∀ m ∈ todo, AppMessage pb m := by
    intro m hm
    refine h.streams.apps m ?_
    rw [haccepted]
    exact List.mem_append_right _ hm
  -- what is in the buffer and behind it is the rest of the stream
  have hcontents : w.conn.recvBuf.contents ++ st.toB.take k ++
      (st.toB.drop k ++ st.a1.conn.pending) = (protoFraming pb).encodeAll todo := by
    have hlink := h.streams.link_eq hopen
    rw [h.streams.stream, hmsgs, hbytes, Handshake.b1Buf_some hb1, haccepted, encodeAll_cons,
      encodeAll_cons, encodeAll_cons, Framing.encodeAll_append] at hlink
    simp only [List.append_assoc, List.append_cancel_left_eq] at hlink
    rw [← hlink, List.append_assoc, ← List.append_assoc (st.toB.take k), List.take_append_drop]
  have hchunk : (st.toB.take k).length ≤ k := List.length_take_le _ _
  obtain ⟨done', todo', hsplit, hdone, hstop, hbuf, htext, hpart⟩ :=
    decodeLoop_readChunk (fun m hm => ⟨(htodo m hm).sound.wf, (htodo m hm).sound.short⟩) hwf.recv
      hcontents (by omega)
  generalize hloop : decodeLoop pb (w.conn.recvBuf.readChunk (st.toB.take k)) = r at *
  obtain ⟨msgs, stop, buf⟩ := r
  dsimp only at hdone hstop hbuf htext hpart
  subst hdone hstop
  -- they change nothing here
  obtain ⟨hloopW, hloopSent, hloopTold⟩ := foldl_appMessages stray env.b1 answers
    (fun m hm => htodo m (by rw [hsplit]; exact List.mem_append_left _ hm))
    { w := w.setRecv buf }
  have hstep : handshakeStep pb stray env st (.b1Read k answers) =
      { st with b1 := some (w.setRecv buf), toB := st.toB.drop k,
                b1Msgs := st.b1Msgs ++ msgs } := by
    have hworker : workerRead pb stray env.b1 answers w (st.toB.take k) =
        (msgs, msgs.foldl (workerTurn pb stray env.b1 answers) { w := w.setRecv buf },
          .pause) := by
      simp only [workerRead, Connection.connRead, hloop]
      rfl
    rw [handshakeStep_b1Read hb1 hskip hworker, hloopW, hloopSent, hloopTold]
    simp
  rw [hstep]
  have hread : w.conn.recvBuf.contents ++ st.toB.take k =
      (protoFraming pb).encodeAll msgs ++ buf.contents := by
    refine List.append_cancel_right (hcontents.trans ?_)
    rw [hsplit, Framing.encodeAll_append, ← htext, List.append_assoc]
  have hall : st.accepted = (done ++ msgs) ++ todo' := by
    rw [haccepted, hsplit, List.append_assoc]
  refine ⟨h.streams.b1Reads hb1 k hbuf hread,
    .joined ha hphase hbytes htold ?_ hall hpart⟩
  rw [hmsgs]
  rfl

/-- **A read event at `B1`.** -/
theorem Inv.b1Read (h : Inv pb env st out back) (k : ℕ) (answers : ℕ → Option ℕ)
    (hfits : HandshakeFits pb stray env st (.b1Read k answers)) :
    ∃ out' back', Inv pb env (handshakeStep pb stray env st (.b1Read k answers)) out' back' := by
  obtain ⟨hsound, hsmall⟩ := hfits
  cases hb1 : st.b1 with
  | none =>
    simp only [handshakeStep, hb1]
    exact ⟨out, back, h⟩
  | some w =>
    by_cases hskip : w.conn.isInvalid = true ∨ k = 0 ∨ st.toB.length < k
    · simp only [handshakeStep, hb1, if_pos hskip]
      exact ⟨out, back, h⟩
    have hclosed := (h.streams.phase_closed hb1).1
    have hnot (hreading : st.b0Phase = .reading) : False := by
      rw [hclosed] at hreading
      exact absurd hreading (by decide)
    have hnothing (hnil : st.toB = []) : False := by
      refine hskip (Or.inr ?_)
      rw [hnil, List.length_nil]
      omega
    have hstage := h.stage
    cases hstage with
    | idle _ hphase => exact (hnot hphase).elim
    | connecting _ hphase => exact (hnot hphase).elim
    | refused _ hphase => exact (hnot hphase).elim
    | answered _ _ hbytes hmsgs =>
      refine (hnothing (h.streams.toB_nil ?_)).elim
      rw [hbytes, hmsgs, encodeAll_one, Framing.encodeAll_nil, List.append_nil]
    | telling ha hphase hbytes hmsgs htold =>
      obtain ⟨back', hnext⟩ := h.b1Telling stray hsound hb1 answers ha hphase hbytes
        hmsgs htold hskip
      exact ⟨_, back', hnext⟩
    | replied _ _ hbytes hmsgs =>
      refine (hnothing (h.streams.toB_nil ?_)).elim
      rw [hbytes, hmsgs, encodeAll_pair, encodeAll_one]
    | joined ha hphase hbytes htold hmsgs haccepted =>
      have hnext := h.b1Joined stray hb1 answers (hsmall w hb1) ha hphase hbytes htold
        hmsgs haccepted hskip
      exact ⟨_, _, hnext⟩

/-! ## Runs -/

/-- **One step keeps the invariant.** -/
theorem Inv.step (h : Inv pb env st out back) (op : HandshakeOp)
    (hfits : HandshakeFits pb stray env st op) :
    ∃ out' back', Inv pb env (handshakeStep pb stray env st op) out' back' := by
  cases op with
  | sendToNode m n => exact h.sendToNode m n hfits
  | a1Write n => exact h.a1Write n hfits
  | a1Read k answers => exact h.a1Read hfits.1 k answers
  | b0Read k => exact h.b0Read hfits.1 k
  | b0Transfer => exact h.b0Transfer
  | b1Accept => exact h.b1Accept
  | b1Read k answers => exact h.b1Read k answers hfits
  | b1Write n => exact h.b1Write hfits.1 n

/-- The invariant holds before the first step. -/
theorem Inv.start : Inv pb env {} [] [] where
  streams :=
    { defined := rfl
      a1Wf := Connection.wf_fresh _
      b0Ok := ⟨Connection.wf_fresh _, rfl, rfl⟩
      b1Ok := fun _ hw => absurd hw (by simp)
      apps := fun _ hm => absurd hm List.not_mem_nil
      link := ⟨[], rfl, fun _ => ⟨rfl, fun _ => rfl⟩⟩
      stream := rfl
      answers := rfl
      partialBack := rfl
      handover := ⟨fun _ => ⟨rfl, rfl⟩, fun hfalse => absurd hfalse (by simp)⟩ }
  stage := .idle (Or.inl rfl) rfl rfl rfl rfl rfl

end Worker

/-- The invariant holds in every state of a run whose steps meet the condition. -/
theorem Inv.run {pb : Protobuf} {stray : ℕ → UInt8} {env : HandshakeEnv} {ops : List HandshakeOp}
    (h : (handshakeMachine pb stray env).Meets (HandshakeFits pb stray env) {} ops)
    {past : List HandshakeOp} (hpast : past <+: ops) :
    ∃ out back, Inv pb env ((handshakeMachine pb stray env).run {} past) out back := by
  have hstep (st : Handshake) (op : HandshakeOp) (hst : ∃ out back, Inv pb env st out back)
      (hfits : HandshakeFits pb stray env st op) :
      ∃ out back, Inv pb env ((handshakeMachine pb stray env).step st op) out back := by
    obtain ⟨out, back, hinv⟩ := hst
    exact hinv.step op hfits
  exact h.invariant_prefix hstep ⟨[], [], Inv.start⟩ hpast

/-- **The handshake is safe** in every state of a run whose steps meet the condition, whatever
the order of the steps, the pieces that are read and the pieces that the sockets take. -/
theorem handshake_safe (pb : Protobuf) (stray : ℕ → UInt8) (env : HandshakeEnv)
    {ops : List HandshakeOp}
    (h : (handshakeMachine pb stray env).Meets (HandshakeFits pb stray env) {} ops) :
    ∀ past, past <+: ops → ((handshakeMachine pb stray env).run {} past).Safe pb env := by
  intro past hpast
  obtain ⟨out, back, hinv⟩ := Inv.run h hpast
  exact hinv.safe

/-! ## Two runs -/

/-- Two nodes; a description is a text that is not empty. -/
def twoNodes : HandshakeEnv where
  connectSeq := 1
  workerIndex := 2
  a1 := { tellSeq := 2, node := [97], parses := fun b => b ≠ [] }
  workerCnt := 2
  b1 := { tellSeq := 1, node := [98], parses := fun b => b ≠ [] }

/-- A run up to the answer of `B1`, in pieces. -/
def joinOps : List HandshakeOp :=
  [.a1Write (some 100), .b0Read 10, .b0Read 8, .b0Transfer, .b1Accept,
    .a1Read 21 (fun _ => some 7), .a1Write (some 100), .b1Read 7 (fun _ => none),
    .b1Read 11 (fun _ => some 3), .b1Write (some 100), .a1Read 24 (fun _ => none)]

/-- A message that waits from the first step on, and its way to `B1`. -/
theorem handshake_safe_message :
    ((handshakeMachine .wire (fun _ => 0) twoNodes).run {}
      (.sendToNode (⟨101, 3, 4, by decide⟩, { data := [104, 105] }) none ::
        joinOps ++ [.a1Write (some 5), .a1Write none, .a1Write (some 100),
          .b1Read 19 (fun _ => none)])).Safe .wire twoNodes :=
  handshake_safe .wire (fun _ => 0) twoNodes (by decide +kernel) _ (List.prefix_refl _)

section LongMessage

variable {pb : Protobuf} {stray : ℕ → UInt8} {env : HandshakeEnv} {st : Handshake} {m : Message}

theorem length_take_head (hm : WellFormed pb m) :
    ((frame pb m).take protoMsgHeadLen).length = protoMsgHeadLen := by
  rw [List.length_take, hm.length_frame]
  exact Nat.min_eq_left (Nat.le_add_right _ _)

/-- The head of a frame of at least `2 ^ 31` bytes takes a reader out of what the language
defines. -/
theorem decodeLoop_long (hm : WellFormed pb m) (hbig : 2147483648 ≤ frameLen pb m)
    {b : SocketBuffer} (hb : b.Wf) (hempty : b.contents = []) :
    (decodeLoop pb (b.readChunk ((frame pb m).take protoMsgHeadLen))).2.1 = .undefined := by
  have hhead := length_take_head hm
  obtain ⟨hwf, hread⟩ := SocketBuffer.readChunk_spec hb ((frame pb m).take protoMsgHeadLen)
  rw [hempty, List.nil_append, List.length_nil, hhead] at hread
  have hcontents := hread.resolve_right (by unfold protoMsgHeadLen; omega)
  have hreadable := SocketBuffer.length_contents hwf
  rw [hcontents, hhead] at hreadable
  have hx : (b.readChunk ((frame pb m).take protoMsgHeadLen)).contents ++
      (frame pb m).drop protoMsgHeadLen = frame pb m ++ [] := by
    rw [hcontents, List.take_append_drop, List.append_nil]
  rcases decode_aligned hwf hm hx with ⟨hshort, -⟩ | ⟨-, hstop⟩ | ⟨hlt, -⟩ | ⟨hlt, -⟩
  · exact absurd hshort (not_lt.mpr hreadable.le)
  · rw [decodeLoop_stop hstop]
  · exact absurd (lt_of_lt_of_le hlt hbig) (lt_irrefl _)
  · exact absurd (lt_of_lt_of_le hlt hbig) (lt_irrefl _)

theorem b1Read_undefined {w : WriteState} (hb1 : st.b1 = some w) {k : ℕ} (answers : ℕ → Option ℕ)
    (hskip : ¬ (w.conn.isInvalid = true ∨ k = 0 ∨ st.toB.length < k))
    (hloop : (decodeLoop pb (w.conn.recvBuf.readChunk (st.toB.take k))).2.1 = .undefined) :
    (handshakeStep pb stray env st (.b1Read k answers)).undefined = true := by
  simp only [handshakeStep, hb1, if_neg hskip, workerRead, Connection.connRead, hloop,
    decide_true, Bool.or_true]

variable (stray) in
/-- When nothing is on its way, a long message is accepted, its head goes to the socket, and the
read of `B1` is not defined. -/
theorem Inv.long_undefined {out back : List Message} (hinv : Inv pb env st out back)
    (hstate : st.a1.conn.state = .connected) (hpending : st.a1.conn.pending = [])
    (hsocket : st.toB = []) (hbuf : st.b1Buf = []) (hsome : st.b1.isSome = true)
    (hm : WellFormed pb m) (hbig : 2147483648 ≤ frameLen pb m)
    (hlt : frameLen pb m < 4294967296) (answers : ℕ → Option ℕ) :
    (handshakeStep pb stray env
      (handshakeStep pb stray env st (.sendToNode m (some protoMsgHeadLen)))
      (.b1Read protoMsgHeadLen answers)).undefined = true := by
  obtain ⟨w, hb1⟩ := Option.isSome_iff_exists.mp hsome
  obtain ⟨hwf, hwstate⟩ := hinv.streams.b1Ok w hb1
  have hw : Writeable w := ⟨hwf, hwstate⟩
  have ha1 : Writeable st.a1 := ⟨hinv.streams.a1Wf, hstate⟩
  have hhead := length_take_head hm
  have hsent := (sendTo_takes stray ha1 hpending hm hlt protoMsgHeadLen).1
  have hnext : (handshakeStep pb stray env st (.sendToNode m (some protoMsgHeadLen))).b1 =
        some w ∧
      (handshakeStep pb stray env st (.sendToNode m (some protoMsgHeadLen))).toB =
        (frame pb m).take protoMsgHeadLen := by
    simp only [handshakeStep, ha1.valid, Bool.false_eq_true, if_false, Handshake.a1Writes,
      writeStep, hstate, if_true, taking, hsent, hsocket, List.nil_append]
    exact ⟨hb1, trivial⟩
  refine b1Read_undefined hnext.1 answers ?_ ?_
  · rw [hw.valid, hnext.2, hhead]
    decide
  · rw [hnext.2, List.take_take, Nat.min_self]
    exact decodeLoop_long hm hbig hwf.recv ((Handshake.b1Buf_some hb1).symm.trans hbuf)

end LongMessage

/-- A message whose frame has `2 ^ 31` bytes. -/
def longMessage : Message := (⟨101, 7, 2147483633, by decide⟩, zeros 2147483627)

theorem wellFormed_longMessage : WellFormed .wire longMessage := wellFormed_zeros

theorem frameLen_longMessage : frameLen .wire longMessage = 2147483648 := by
  have hlen := wellFormed_longMessage.frameLen_eq
  rw [show longMessage.1.len = 2147483633 from rfl] at hlen
  exact_mod_cast hlen

/-- The parties after `joinOps`. -/
def joined : Handshake := (handshakeMachine .wire (fun _ => 0) twoNodes).run {} joinOps

/-- The long message is accepted, 15 bytes of it go to the socket, and `B1` reads them. -/
theorem handshake_long_fails :
    ¬ ((handshakeMachine .wire (fun _ => 0) twoNodes).run joined
      [.sendToNode longMessage (some protoMsgHeadLen),
        .b1Read protoMsgHeadLen (fun _ => none)]).Safe .wire twoNodes := by
  obtain ⟨out, back, hinv⟩ : ∃ out back, Inv .wire twoNodes joined out back :=
    Inv.run (by decide +kernel) (List.prefix_refl joinOps)
  have hundefined := hinv.long_undefined (fun _ => 0) (by decide +kernel)
    (by decide +kernel) (by decide +kernel) (by decide +kernel) (by decide +kernel)
    wellFormed_longMessage frameLen_longMessage.ge
    (lt_of_eq_of_lt frameLen_longMessage (by norm_num)) (fun _ => none)
  intro hsafe
  rw [Machine.run_cons, Machine.run_cons, Machine.run_nil] at hsafe
  exact absurd (hsafe.defined.symm.trans hundefined) (by decide)

end Kimserver
