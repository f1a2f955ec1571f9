import Kimserver.Net.Handshake

/-!
# Safety of the handshake

The frames of `A1` form one stream, of which the socket has a part, `B0` has read the first
frame and `B1` the rest; the answers form a stream in the other direction. An invariant ties the
two streams to the stage of the handshake: as long as `B1` has not processed the request to it,
the stream of `A1` ends with the requests.

## Main definitions

* `HandshakeFits`: the condition on the steps
* `Stage`, `Inv`: the invariant

## Main results

* `handshake_safe`: the handshake is safe in every run whose steps meet the condition
-/

namespace Kimserver

open SocketBuffer (SendResult)

/-! ## The condition on the steps -/

section Condition

variable (pb : Protobuf) (stray : ℕ → UInt8) (env : HandshakeEnv)

/-- A message whose frame can be decoded. -/
structure Sound (m : Message) : Prop where
  wf : WellFormed pb m
  short : frameLen pb m < 2147483648

/-- A message of an application: sound, and no command of the handshake. -/
structure AppMessage (m : Message) : Prop where
  sound : Sound pb m
  notRspConnect : m.1.cmd ≠ cmdRspConnectToWorker
  notReqTell : m.1.cmd ≠ cmdReqTellWorker
  notRspTell : m.1.cmd ≠ cmdRspTellWorker

/-- The good answer of `B0`. -/
def okAck : Message := ackMessage pb (connectMessage pb env) errOk (text "ok") []

/-- The bad answer of `B0`. -/
def noAck : Message :=
  ackMessage pb (connectMessage pb env) errInvalidWorkerIndex (text "invalid worker index!") []

/-- The good answer of `B1`. -/
def tellAck : Message := ackMessage pb (tellMessage pb env) errOk (text "ok") env.b1.node

/-- The bad answer of `B1`. -/
def tellNoAck : Message :=
  ackMessage pb (tellMessage pb env) errInvalidMsgData (text "parse request failed!") []

/-- The messages of the handshake are sound. -/
structure HandshakeEnv.Sound : Prop where
  connect : Kimserver.Sound pb (connectMessage pb env)
  tell : Kimserver.Sound pb (tellMessage pb env)
  okAck : Kimserver.Sound pb (okAck pb env)
  noAck : Kimserver.Sound pb (noAck pb env)
  tellAck : Kimserver.Sound pb (tellAck pb env)
  tellNoAck : Kimserver.Sound pb (tellNoAck pb env)

/-- The condition on a step: messages are sound, writes lose nothing in the recovery of memory,
and the buffer of `B1` stays below `2 ^ 31` bytes. -/
def HandshakeFits (st : Handshake) (op : HandshakeOp) : Prop :=
  env.Sound pb ∧
    match op with
    | .sendToNode m n =>
      AppMessage pb m ∧ (st.a1.conn.state = .connected →
        (st.a1.conn.afterEncode pb stray m).chosenBuf.Keeps (taking n))
    | .a1Write n => st.a1.conn.chosenBuf.Keeps (taking n)
    | .b1Read k _ => ∀ w ∈ st.b1, w.conn.recvBuf.contents.length + k < 2147483648
    | _ => True

instance (m : Message) : Decidable (Sound pb m) :=
  decidable_of_iff (WellFormed pb m ∧ frameLen pb m < 2147483648)
    ⟨fun h => ⟨h.1, h.2⟩, fun h => ⟨h.wf, h.short⟩⟩

instance (m : Message) : Decidable (AppMessage pb m) :=
  decidable_of_iff (Sound pb m ∧ m.1.cmd ≠ cmdRspConnectToWorker ∧ m.1.cmd ≠ cmdReqTellWorker ∧
      m.1.cmd ≠ cmdRspTellWorker)
    ⟨fun h => ⟨h.1, h.2.1, h.2.2.1, h.2.2.2⟩,
      fun h => ⟨h.sound, h.notRspConnect, h.notReqTell, h.notRspTell⟩⟩

instance : Decidable (env.Sound pb) :=
  decidable_of_iff (Sound pb (connectMessage pb env) ∧ Sound pb (tellMessage pb env) ∧
      Sound pb (okAck pb env) ∧ Sound pb (noAck pb env) ∧ Sound pb (tellAck pb env) ∧
      Sound pb (tellNoAck pb env))
    ⟨fun h => ⟨h.1, h.2.1, h.2.2.1, h.2.2.2.1, h.2.2.2.2.1, h.2.2.2.2.2⟩,
      fun h => ⟨h.connect, h.tell, h.okAck, h.noAck, h.tellAck, h.tellNoAck⟩⟩

instance (st : Handshake) : ∀ op, Decidable (HandshakeFits pb stray env st op)
  | .sendToNode _ _ => inferInstanceAs (Decidable (_ ∧ _ ∧ (_ → _)))
  | .a1Write _ => inferInstanceAs (Decidable (_ ∧ _))
  | .a1Read _ _ => inferInstanceAs (Decidable (_ ∧ True))
  | .b0Read _ => inferInstanceAs (Decidable (_ ∧ True))
  | .b0Transfer => inferInstanceAs (Decidable (_ ∧ True))
  | .b1Accept => inferInstanceAs (Decidable (_ ∧ True))
  | .b1Read _ _ => inferInstanceAs (Decidable (_ ∧ _))
  | .b1Write _ => inferInstanceAs (Decidable (_ ∧ True))

end Condition

/-! ## The invariant -/

/-- What `B1` has read and not decoded. -/
def Handshake.b1Buf (st : Handshake) : Bytes :=
  match st.b1 with
  | some w => w.conn.recvBuf.contents
  | none => []

/-- What `B1` has still to send. -/
def Handshake.b1Out (st : Handshake) : Bytes :=
  match st.b1 with
  | some w => w.conn.pending
  | none => []

section Invariant

variable (pb : Protobuf) (env : HandshakeEnv)

/-- The stages of the handshake, with the messages of `A1` whose frames are in its stream and
the answers that `A1` has not decoded. -/
inductive Stage (st : Handshake) : List Message → List Message → Prop
  | idle (ha : st.a1.conn.state = .tryConnect ∨ st.a1.conn.state = .closed)
      (hphase : st.b0Phase = .reading) (hb0 : st.b0.conn.recvBuf.contents = [])
      (hbytes : st.b0Bytes = []) (hmsgs : st.b1Msgs = []) (htold : st.told = false) :
      Stage st [] []
  | connecting (ha : st.a1.conn.state = .connecting) (hphase : st.b0Phase = .reading)
      (hb0 : st.b0.conn.recvBuf.contents = st.b0Bytes)
      (hpart : (protoFraming pb).Partial st.b0Bytes [connectMessage pb env])
      (hmsgs : st.b1Msgs = []) (htold : st.told = false) :
      Stage st [connectMessage pb env] []
  | refused {back : List Message} (ha : st.a1.conn.state = .connecting)
      (hphase : st.b0Phase = .reading) (hb0 : st.b0.conn.recvBuf.contents = [])
      (hbytes : st.b0Bytes = frame pb (connectMessage pb env)) (hmsgs : st.b1Msgs = [])
      (htold : st.told = false) (hback : back = [noAck pb env] ∨ back = []) :
      Stage st [connectMessage pb env] back
  | answered (ha : st.a1.conn.state = .connecting) (hphase : st.b0Phase ≠ .reading)
      (hbytes : st.b0Bytes = frame pb (connectMessage pb env)) (hmsgs : st.b1Msgs = [])
      (htold : st.told = false) :
      Stage st [connectMessage pb env] [okAck pb env]
  | telling (ha : st.a1.conn.state = .connecting) (hphase : st.b0Phase ≠ .reading)
      (hbytes : st.b0Bytes = frame pb (connectMessage pb env)) (hmsgs : st.b1Msgs = [])
      (htold : st.told = false)
      (hpart : (protoFraming pb).Partial st.b1Buf [tellMessage pb env]) :
      Stage st [connectMessage pb env, tellMessage pb env] []
  | replied {back : List Message} (ha : st.a1.conn.state = .connecting)
      (hphase : st.b0Phase ≠ .reading)
      (hbytes : st.b0Bytes = frame pb (connectMessage pb env))
      (hmsgs : st.b1Msgs = [tellMessage pb env]) (hb1 : st.b1Buf = [])
      (hback : back = [] ∨ back = [tellNoAck pb env] ∨
        back = [tellAck pb env] ∧ st.told = true) :
      Stage st [connectMessage pb env, tellMessage pb env] back
  | joined {done todo : List Message} (ha : st.a1.conn.state = .connected)
      (hphase : st.b0Phase ≠ .reading)
      (hbytes : st.b0Bytes = frame pb (connectMessage pb env)) (htold : st.told = true)
      (hmsgs : st.b1Msgs = tellMessage pb env :: done) (haccepted : st.accepted = done ++ todo)
      (hpart : (protoFraming pb).Partial st.b1Buf todo) :
      Stage st (connectMessage pb env :: tellMessage pb env :: st.accepted) []

/-- The streams in both directions: `A1` has the messages `out` in its stream and has not decoded
the answers `back`. -/
structure Streams (st : Handshake) (out back : List Message) : Prop where
  defined : st.undefined = false
  a1Wf : st.a1.conn.Wf
  b0Ok : st.b0.conn.Wf ∧ st.b0.conn.state = .connected ∧ st.b0.conn.pending = []
  b1Ok : ∀ w ∈ st.b1, w.conn.Wf ∧ w.conn.state = .connected
  apps : ∀ m ∈ st.accepted, AppMessage pb m
  /-- what `A1` wrote and what it still has to send are its frames -/
  link : ∃ rest, st.written ++ rest = (protoFraming pb).encodeAll out ∧
    (st.a1.conn.state ≠ .closed → rest = st.a1.conn.pending ∧
      (st.a1.conn.state ≠ .connected →
        st.a1.conn.waitSendBuf.contents = (protoFraming pb).encodeAll st.accepted))
  /-- what `A1` wrote was read or is in the socket -/
  stream : st.written =
    st.b0Bytes ++ (protoFraming pb).encodeAll st.b1Msgs ++ st.b1Buf ++ st.toB
  /-- the answers that `A1` has not decoded -/
  answers : st.a1.conn.recvBuf.contents ++ st.toA ++ st.b1Out = (protoFraming pb).encodeAll back
  partialBack : (protoFraming pb).Partial st.a1.conn.recvBuf.contents back
  /-- the descriptor is transferred once -/
  handover : (st.b0Phase ≠ .closed → st.channel = false ∧ st.b1 = none) ∧
    (st.channel = true → st.b1 = none)

/-- The invariant. -/
structure Inv (st : Handshake) (out back : List Message) : Prop where
  streams : Streams pb st out back
  stage : Stage pb env st out back

end Invariant

section Steps

variable {pb : Protobuf} {stray : ℕ → UInt8} {env : HandshakeEnv}
  {st : Handshake} {out back : List Message}

theorem encodeAll_pair (m m' : Message) :
    (protoFraming pb).encodeAll [m, m'] = frame pb m ++ frame pb m' := by
  simp [Framing.encodeAll, protoFraming]

theorem encodeAll_one (m : Message) : (protoFraming pb).encodeAll [m] = frame pb m := by
  simp [Framing.encodeAll, protoFraming]

/-- The stage depends on no bytes in buffers that are written from. -/
theorem Stage.congr {st' : Handshake} (h : Stage pb env st out back)
    (ha : st'.a1.conn.state = st.a1.conn.state) (hphase : st'.b0Phase = st.b0Phase)
    (hb0 : st'.b0.conn.recvBuf = st.b0.conn.recvBuf) (hbytes : st'.b0Bytes = st.b0Bytes)
    (hb1 : st'.b1Buf = st.b1Buf) (hmsgs : st'.b1Msgs = st.b1Msgs) (htold : st'.told = st.told)
    (haccepted : st'.accepted = st.accepted) : Stage pb env st' out back := by
  cases h with
  | idle h₁ h₂ h₃ h₄ h₅ h₆ =>
    exact .idle (by rwa [ha]) (by rwa [hphase]) (by rwa [hb0]) (by rwa [hbytes]) (by rwa [hmsgs])
      (by rwa [htold])
  | connecting h₁ h₂ h₃ h₄ h₅ h₆ =>
    exact .connecting (by rwa [ha]) (by rwa [hphase]) (by rwa [hb0, hbytes]) (by rwa [hbytes])
      (by rwa [hmsgs]) (by rwa [htold])
  | refused h₁ h₂ h₃ h₄ h₅ h₆ h₇ =>
    exact .refused (by rwa [ha]) (by rwa [hphase]) (by rwa [hb0]) (by rwa [hbytes])
      (by rwa [hmsgs]) (by rwa [htold]) h₇
  | answered h₁ h₂ h₃ h₄ h₅ =>
    exact .answered (by rwa [ha]) (by rwa [hphase]) (by rwa [hbytes]) (by rwa [hmsgs])
      (by rwa [htold])
  | telling h₁ h₂ h₃ h₄ h₅ h₆ =>
    exact .telling (by rwa [ha]) (by rwa [hphase]) (by rwa [hbytes]) (by rwa [hmsgs])
      (by rwa [htold]) (by rwa [hb1])
  | replied h₁ h₂ h₃ h₄ h₅ h₆ =>
    exact .replied (by rwa [ha]) (by rwa [hphase]) (by rwa [hbytes]) (by rwa [hmsgs])
      (by rwa [hb1]) (by rwa [htold])
  | joined h₁ h₂ h₃ h₄ h₅ h₆ h₇ =>
    rw [← haccepted]
    exact .joined (by rwa [ha]) (by rwa [hphase]) (by rwa [hbytes]) (by rwa [htold])
      (by rwa [hmsgs]) (by rwa [haccepted]) (by rwa [hb1])

/-- **The invariant is safe.** -/
theorem Inv.safe (h : Inv pb env st out back) : st.Safe pb env := by
  obtain ⟨rest, hrest, -⟩ := h.streams.link
  have hwritten : st.written <+: (protoFraming pb).encodeAll out := ⟨rest, hrest⟩
  cases h.stage with
  | idle ha hphase hb0 hbytes hmsgs htold =>
    have hnil : st.written = [] := List.prefix_nil.mp hwritten
    refine ⟨h.streams.defined, ?_, fun _ => ?_, ?_, ?_⟩
    · rw [hbytes]
      exact List.nil_prefix
    · rw [hnil]
      exact List.nil_prefix
    · rw [hnil]
      exact List.nil_prefix
    · rw [hmsgs]
      exact List.nil_prefix
  | connecting ha hphase hb0 hpart hmsgs htold =>
    rw [encodeAll_one] at hwritten
    refine ⟨h.streams.defined, hpart.1, fun _ => hwritten.trans (List.prefix_append _ _), ?_, ?_⟩
    · exact hwritten.trans (List.prefix_append _ _)
    · rw [hmsgs]
      exact List.nil_prefix
  | refused ha hphase hb0 hbytes hmsgs htold hback =>
    rw [encodeAll_one] at hwritten
    refine ⟨h.streams.defined, by rw [hbytes], fun _ => hwritten.trans (List.prefix_append _ _), ?_, ?_⟩
    · exact hwritten.trans (List.prefix_append _ _)
    · rw [hmsgs]
      exact List.nil_prefix
  | answered ha hphase hbytes hmsgs htold =>
    rw [encodeAll_one] at hwritten
    refine ⟨h.streams.defined, by rw [hbytes], fun _ => hwritten.trans (List.prefix_append _ _), ?_, ?_⟩
    · exact hwritten.trans (List.prefix_append _ _)
    · rw [hmsgs]
      exact List.nil_prefix
  | telling ha hphase hbytes hmsgs htold hpart =>
    rw [encodeAll_pair] at hwritten
    refine ⟨h.streams.defined, by rw [hbytes], fun _ => hwritten, ?_, ?_⟩
    · rw [framesOf, encodeAll_cons, encodeAll_cons, ← List.append_assoc]
      exact hwritten.trans (List.prefix_append _ _)
    · rw [hmsgs]
      exact List.nil_prefix
  | replied ha hphase hbytes hmsgs hb1 hback =>
    rw [encodeAll_pair] at hwritten
    refine ⟨h.streams.defined, by rw [hbytes], fun _ => hwritten, ?_, ?_⟩
    · rw [framesOf, encodeAll_cons, encodeAll_cons, ← List.append_assoc]
      exact hwritten.trans (List.prefix_append _ _)
    · rw [hmsgs]
      exact ⟨st.accepted, rfl⟩
  | joined ha hphase hbytes htold hmsgs haccepted hpart =>
    refine ⟨h.streams.defined, by rw [hbytes], fun hfalse => ?_, hwritten, ?_⟩
    · exact absurd (htold.symm.trans hfalse) (by decide)
    · rw [hmsgs, haccepted]
      exact (List.prefix_cons_inj _).mpr (List.prefix_append _ _)

/-! ## The streams after a step -/

theorem taking_ne_failed (n : Option ℕ) : taking n ≠ .failed := by
  cases n <;> simp [taking]

theorem state_ne_of_valid {c : Connection} (h : c.isInvalid = false) : c.state ≠ .closed := by
  intro hclosed
  simp [Connection.isInvalid, hclosed] at h

theorem pending_of_ne {c : Connection} (h : c.state ≠ .connected) :
    c.pending = c.sendBuf.contents := if_neg h

theorem Streams.link_eq (h : Streams pb st out back) (hopen : st.a1.conn.state ≠ .closed) :
    st.written ++ st.a1.conn.pending = (protoFraming pb).encodeAll out := by
  obtain ⟨rest, hrest, hlink⟩ := h.link
  rw [← (hlink hopen).1, hrest]

theorem Streams.waiting (h : Streams pb st out back) (hopen : st.a1.conn.state ≠ .closed)
    (hstate : st.a1.conn.state ≠ .connected) :
    st.a1.conn.waitSendBuf.contents = (protoFraming pb).encodeAll st.accepted := by
  obtain ⟨rest, -, hlink⟩ := h.link
  exact (hlink hopen).2 hstate

theorem Streams.stream_append (h : Streams pb st out back) (sent : Bytes) :
    st.written ++ sent = st.b0Bytes ++ (protoFraming pb).encodeAll st.b1Msgs ++ st.b1Buf ++
      (st.toB ++ sent) := by
  rw [← List.append_assoc, ← h.stream]

/-- `A1` puts messages into its stream and sends the first of what it has to send. -/
theorem Streams.a1Writes (h : Streams pb st out back) (hopen : st.a1.conn.state ≠ .closed)
    {more : List Message} {w : WriteState} {sent : Bytes}
    (hw : Connection.Writes st.a1.conn w.conn ((protoFraming pb).encodeAll more) sent) :
    Streams pb { st with a1 := w, toB := st.toB ++ sent, written := st.written ++ sent }
      (out ++ more) back where
  defined := h.defined
  a1Wf := hw.wf
  b0Ok := h.b0Ok
  b1Ok := h.b1Ok
  apps := h.apps
  link := by
    refine ⟨w.conn.pending, ?_, fun _ => ⟨rfl, fun hstate => ?_⟩⟩
    · show st.written ++ sent ++ _ = _
      rw [List.append_assoc, hw.pending, ← List.append_assoc, h.link_eq hopen,
        Framing.encodeAll_append]
    · have hstate' : st.a1.conn.state ≠ .connected := fun hc => hstate (hw.state.trans hc)
      show w.conn.waitSendBuf.contents = _
      rw [hw.waiting hstate']
      exact h.waiting hopen hstate'
  stream := h.stream_append sent
  answers := by
    show w.conn.recvBuf.contents ++ _ ++ _ = _
    rw [hw.recv]
    exact h.answers
  partialBack := by
    show (protoFraming pb).Partial w.conn.recvBuf.contents back
    rw [hw.recv]
    exact h.partialBack
  handover := h.handover

/-- `A1` has another connection that sends the same. -/
theorem Streams.setA1 (h : Streams pb st out back) {w : WriteState} {out' : List Message}
    (hwf : w.conn.Wf) (hrecv : w.conn.recvBuf = st.a1.conn.recvBuf)
    (hlink : ∃ rest, st.written ++ rest = (protoFraming pb).encodeAll out' ∧
      (w.conn.state ≠ .closed → rest = w.conn.pending ∧ (w.conn.state ≠ .connected →
        w.conn.waitSendBuf.contents = (protoFraming pb).encodeAll st.accepted))) :
    Streams pb { st with a1 := w } out' back where
  defined := h.defined
  a1Wf := hwf
  b0Ok := h.b0Ok
  b1Ok := h.b1Ok
  apps := h.apps
  link := hlink
  stream := h.stream
  answers := by
    show w.conn.recvBuf.contents ++ _ ++ _ = _
    rw [hrecv]
    exact h.answers
  partialBack := by
    show (protoFraming pb).Partial w.conn.recvBuf.contents back
    rw [hrecv]
    exact h.partialBack
  handover := h.handover

/-- A message of the application is accepted. -/
theorem Streams.accept (h : Streams pb st out back) {m : Message} (hm : AppMessage pb m)
    (hlink : ∃ rest, st.written ++ rest = (protoFraming pb).encodeAll out ∧
      (st.a1.conn.state ≠ .closed → rest = st.a1.conn.pending ∧ (st.a1.conn.state ≠ .connected →
        st.a1.conn.waitSendBuf.contents = (protoFraming pb).encodeAll (st.accepted ++ [m])))) :
    Streams pb { st with accepted := st.accepted ++ [m] } out back where
  defined := h.defined
  a1Wf := h.a1Wf
  b0Ok := h.b0Ok
  b1Ok := h.b1Ok
  apps := by
    intro x hx
    rcases List.mem_append.mp hx with hx | hx
    · exact h.apps x hx
    · rw [List.mem_singleton.mp hx]
      exact hm
  link := hlink
  stream := h.stream
  answers := h.answers
  partialBack := h.partialBack
  handover := h.handover

/-! ## `A1` writes -/

/-- Only a connected `A1` has all its messages in the stream. -/
theorem Inv.of_connected (h : Inv pb env st out back) (hstate : st.a1.conn.state = .connected) :
    out = connectMessage pb env :: tellMessage pb env :: st.accepted ∧ back = [] ∧
      ∃ done todo, st.b0Phase ≠ .reading ∧
        st.b0Bytes = frame pb (connectMessage pb env) ∧ st.told = true ∧
        st.b1Msgs = tellMessage pb env :: done ∧ st.accepted = done ++ todo ∧
        (protoFraming pb).Partial st.b1Buf todo := by
  cases h.stage with
  | joined ha hphase hbytes htold hmsgs haccepted hpart =>
    exact ⟨rfl, rfl, _, _, hphase, hbytes, htold, hmsgs, haccepted, hpart⟩
  | idle ha => rcases ha with ha | ha <;> exact absurd (hstate.symm.trans ha) (by decide)
  | connecting ha => exact absurd (hstate.symm.trans ha) (by decide)
  | refused ha => exact absurd (hstate.symm.trans ha) (by decide)
  | answered ha => exact absurd (hstate.symm.trans ha) (by decide)
  | telling ha => exact absurd (hstate.symm.trans ha) (by decide)
  | replied ha => exact absurd (hstate.symm.trans ha) (by decide)

/-- The stage in which `A1` tries to connect. -/
theorem Inv.of_tryConnect (h : Inv pb env st out back) (hstate : st.a1.conn.state = .tryConnect) :
    out = [] ∧ back = [] ∧ st.written = [] ∧ st.a1.conn.pending = [] ∧
      st.b0Phase = .reading ∧ st.b0.conn.recvBuf.contents = [] ∧ st.b0Bytes = [] ∧
      st.b1Msgs = [] ∧ st.told = false := by
  cases h.stage with
  | idle ha hphase hb0 hbytes hmsgs htold =>
    have hlink := h.streams.link_eq (by rw [hstate]; decide)
    obtain ⟨hwritten, hpending⟩ := List.append_eq_nil_iff.mp hlink
    exact ⟨rfl, rfl, hwritten, hpending, hphase, hb0, hbytes, hmsgs, htold⟩
  | connecting ha => exact absurd (hstate.symm.trans ha) (by decide)
  | refused ha => exact absurd (hstate.symm.trans ha) (by decide)
  | answered ha => exact absurd (hstate.symm.trans ha) (by decide)
  | telling ha => exact absurd (hstate.symm.trans ha) (by decide)
  | replied ha => exact absurd (hstate.symm.trans ha) (by decide)
  | joined ha => exact absurd (hstate.symm.trans ha) (by decide)

/-- A beginning of the first of some messages is a beginning of the first of more. -/
theorem Partial.append {rest : Bytes} {todo : List Message} {m : Message}
    (hm : WellFormed pb m) (h : (protoFraming pb).Partial rest todo) :
    (protoFraming pb).Partial rest (todo ++ [m]) := by
  cases todo with
  | nil =>
    rw [show rest = [] from h]
    refine Framing.Partial.nil fun x hx => ?_
    rw [List.nil_append] at hx
    exact (List.mem_singleton.mp hx) ▸ hm
  | cons x todo => exact h

/-- A connected `A1` sends a message of the application. -/
theorem Inv.sendConnected (h : Inv pb env st out back) {m : Message} (hm : AppMessage pb m)
    (hstate : st.a1.conn.state = .connected) {w : WriteState} {sent : Bytes}
    (hw : Connection.Writes st.a1.conn w.conn ((protoFraming pb).encodeAll [m]) sent) :
    Inv pb env { st with a1 := w, toB := st.toB ++ sent, written := st.written ++ sent,
                         accepted := st.accepted ++ [m] }
      (connectMessage pb env :: tellMessage pb env :: (st.accepted ++ [m])) [] := by
  have hopen : st.a1.conn.state ≠ .closed := by
    rw [hstate]
    decide
  have hstate' : w.conn.state = .connected := hw.state.trans hstate
  obtain ⟨rfl, rfl, done, todo, hphase, hbytes, htold, hmsgs, haccepted, hpart⟩ :=
    h.of_connected hstate
  have hwrites := h.streams.a1Writes hopen hw
  obtain ⟨rest, hrest, hlink⟩ := hwrites.link
  refine ⟨hwrites.accept hm ⟨rest, hrest, fun hopen' => ?_⟩, ?_⟩
  · exact ⟨(hlink hopen').1, fun hnot => absurd hstate' hnot⟩
  · have hall : st.accepted ++ [m] = done ++ (todo ++ [m]) := by
      rw [haccepted, List.append_assoc]
    exact Stage.joined hstate' hphase hbytes htold hmsgs hall (Partial.append hm.sound.wf hpart)

/-- Before that, a message of the application waits. -/
theorem Inv.sendWaiting (h : Inv pb env st out back) {m : Message} (hm : AppMessage pb m)
    (hstate : st.a1.conn.state ≠ .connected) (hopen : st.a1.conn.state ≠ .closed)
    {sbuf : SocketBuffer} (hbuf : sbuf.Wf)
    (hcontents : sbuf.contents = st.a1.conn.waitSendBuf.contents ++ frame pb m) :
    Inv pb env { st with a1 := st.a1.ofConn (st.a1.conn.setWaitSendBuf sbuf),
                         accepted := st.accepted ++ [m] } out back := by
  have hsame : (st.a1.conn.setWaitSendBuf sbuf).pending = st.a1.conn.pending :=
    (pending_of_ne (c := st.a1.conn.setWaitSendBuf sbuf) hstate).trans
      (pending_of_ne hstate).symm
  -- the message is accepted with the old buffer, and the new buffer has it
  have hwaiting : sbuf.contents = (protoFraming pb).encodeAll (st.accepted ++ [m]) := by
    rw [hcontents, h.streams.waiting hopen hstate, Framing.encodeAll_append, encodeAll_one]
  obtain ⟨h₁, h₂, h₃, h₄, h₅, h₆, h₇, h₈, h₉, h₁₀⟩ := h.streams
  refine ⟨⟨h₁, h₂.setWaitSendBuf hbuf, h₃, h₄, ?_, ?_, h₇, h₈, h₉, h₁₀⟩, ?_⟩
  · intro x hx
    rcases List.mem_append.mp hx with hx | hx
    · exact h₅ x hx
    · rw [List.mem_singleton.mp hx]
      exact hm
  · obtain ⟨rest, hrest, hlink⟩ := h₆
    exact ⟨rest, hrest, fun _ => ⟨(hlink hopen).1.trans hsame.symm, fun _ => hwaiting⟩⟩
  · cases h.stage with
    | idle s₁ s₂ s₃ s₄ s₅ s₆ => exact .idle s₁ s₂ s₃ s₄ s₅ s₆
    | connecting s₁ s₂ s₃ s₄ s₅ s₆ => exact .connecting s₁ s₂ s₃ s₄ s₅ s₆
    | refused s₁ s₂ s₃ s₄ s₅ s₆ s₇ => exact .refused s₁ s₂ s₃ s₄ s₅ s₆ s₇
    | answered s₁ s₂ s₃ s₄ s₅ => exact .answered s₁ s₂ s₃ s₄ s₅
    | telling s₁ s₂ s₃ s₄ s₅ s₆ => exact .telling s₁ s₂ s₃ s₄ s₅ s₆
    | replied s₁ s₂ s₃ s₄ s₅ s₆ => exact .replied s₁ s₂ s₃ s₄ s₅ s₆
    | joined ha => exact absurd ha hstate

/-- **An application call.** -/
theorem Inv.sendToNode (h : Inv pb env st out back) (m : Message) (n : Option ℕ)
    (hfits : HandshakeFits pb stray env st (.sendToNode m n)) :
    ∃ out' back', Inv pb env (handshakeStep pb stray env st (.sendToNode m n)) out' back' := by
  obtain ⟨-, hm, hkeeps⟩ := hfits
  unfold handshakeStep
  rcases Bool.eq_false_or_eq_true st.a1.conn.isInvalid with hinvalid | hvalid
  · simp only [hinvalid, if_true]
    exact ⟨out, back, h⟩
  have hopen := state_ne_of_valid hvalid
  have hframe := hm.sound.wf.encodeOut stray
  simp only [hvalid, Bool.false_eq_true, if_false, Handshake.a1Writes, writeStep]
  by_cases hstate : st.a1.conn.state = .connected
  · have hw := sendTo_writes pb stray h.streams.a1Wf hvalid m
      (taking_ne_failed n) (hkeeps hstate)
    rw [hframe, ← encodeAll_one] at hw
    simp only [if_pos hstate]
    exact ⟨_, _, h.sendConnected hm hstate hw⟩
  · obtain ⟨sbuf, hbuf, hcontents, heq⟩ :=
      Connection.connWriteWaiting_eq pb stray h.streams.a1Wf hvalid m
    rw [hframe] at hcontents
    simp only [if_neg hstate, heq, List.append_nil]
    exact ⟨out, back, h.sendWaiting hm hstate hopen hbuf hcontents⟩

/-- Nothing changes when `A1` changes nothing but its write event. -/
theorem Inv.a1Same (h : Inv pb env st out back) {w : WriteState} (hw : w.conn = st.a1.conn) :
    Inv pb env { st with a1 := w } out back := by
  refine ⟨h.streams.setA1 (hw ▸ h.streams.a1Wf) (by rw [hw]) (by rw [hw]; exact h.streams.link), ?_⟩
  exact h.stage.congr (by rw [hw]) rfl rfl rfl rfl rfl rfl rfl

/-- `A1` sends its first request. -/
theorem Inv.sendConnect (h : Inv pb env st out back) (hconnect : Sound pb (connectMessage pb env))
    (hstate : st.a1.conn.state = .tryConnect) {w : WriteState} {sent : Bytes}
    (hw : Connection.Writes st.a1.conn w.conn
      ((protoFraming pb).encodeAll [connectMessage pb env]) sent) :
    Inv pb env
      { st with a1 := { w with conn := { w.conn with state := .connecting } },
                toB := st.toB ++ sent, written := st.written ++ sent }
      [connectMessage pb env] [] := by
  obtain ⟨rfl, rfl, -, -, hphase, hb0, hbytes, hmsgs, htold⟩ := h.of_tryConnect hstate
  have hopen : st.a1.conn.state ≠ .closed := by
    rw [hstate]
    decide
  have hnot : w.conn.state ≠ .connected := by
    rw [hw.state, hstate]
    decide
  have hwrites := h.streams.a1Writes hopen hw
  have hopen' : w.conn.state ≠ .closed := by
    rw [hw.state]
    exact hopen
  refine ⟨hwrites.setA1 ⟨hw.wf.recv, hw.wf.send, hw.wf.wait⟩ rfl ?_, ?_⟩
  · refine ⟨w.conn.pending, hwrites.link_eq hopen', fun _ => ⟨?_, fun _ => ?_⟩⟩
    · exact pending_of_ne hnot
    · exact hwrites.waiting hopen' hnot
  · refine .connecting rfl hphase (hb0.trans hbytes.symm) ?_ hmsgs htold
    show (protoFraming pb).Partial st.b0Bytes _
    rw [hbytes]
    exact Framing.Partial.nil fun m hm => (List.mem_singleton.mp hm) ▸ hconnect.wf

/-- `A1` gives up before its first request. -/
theorem Inv.giveUp (h : Inv pb env st out back) (hstate : st.a1.conn.state = .tryConnect) :
    Inv pb env { st with a1 := .closeConn } [] [] := by
  obtain ⟨rfl, rfl, hwritten, -, hphase, hb0, hbytes, hmsgs, htold⟩ := h.of_tryConnect hstate
  obtain ⟨h₁, -, h₃, h₄, h₅, -, h₇, h₈, h₉, h₁₀⟩ := h.streams
  refine ⟨⟨h₁, Connection.wf_fresh _, h₃, h₄, h₅, ⟨[], ?_, fun hopen => absurd rfl hopen⟩, h₇, ?_,
    rfl, h₁₀⟩, .idle (Or.inr rfl) hphase hb0 hbytes hmsgs htold⟩
  · show st.written ++ [] = _
    rw [hwritten]
    rfl
  · rw [List.append_assoc] at h₈
    exact (List.append_eq_nil_iff.mp h₈).2

/-- **A write event at `A1`.** -/
theorem Inv.a1Write (h : Inv pb env st out back) (n : Option ℕ)
    (hfits : HandshakeFits pb stray env st (.a1Write n)) :
    ∃ out' back', Inv pb env (handshakeStep pb stray env st (.a1Write n)) out' back' := by
  obtain ⟨hsound, hkeeps⟩ := hfits
  have hwf := h.streams.a1Wf
  unfold handshakeStep Handshake.a1Writes
  dsimp only
  unfold writeStep
  rcases Bool.eq_false_or_eq_true st.a1.conn.isInvalid with hinvalid | hvalid
  · simp only [hinvalid, if_true, List.append_nil]
    exact ⟨out, back, h.a1Same rfl⟩
  have hopen := state_ne_of_valid hvalid
  simp only [hvalid, Bool.false_eq_true, if_false]
  rcases Bool.eq_false_or_eq_true st.a1.writeEvent with hevent | hevent
  · simp only [hevent, Bool.not_true, Bool.false_eq_true, if_false]
    by_cases hstate : st.a1.conn.state = .tryConnect
    · simp only [if_pos hstate, sendReqConnectToWorker]
      by_cases hindex : env.workerIndex = -1
      · simp only [if_pos hindex, List.append_nil]
        exact ⟨[], [], h.giveUp hstate⟩
      · simp only [if_neg hindex]
        have hpending := (h.of_tryConnect hstate).2.2.2.1
        have hframe := hsound.connect.wf.encodeOut stray
        have hshort := hsound.connect.short
        have hw := sendTo_writes pb stray hwf hvalid
          (connectMessage pb env) (taking_ne_failed n)
          (keeps_afterEncode hwf _ _ (by
            rw [hpending, hframe, hsound.connect.wf.length_frame, List.length_nil]
            omega))
        rw [hframe, ← encodeAll_one] at hw
        have hstate' : ¬ (sendTo pb stray st.a1 (connectMessage pb env) (taking n)).2.conn.state
            = .closed := by
          rw [hw.state, hstate]
          decide
        simp only [if_neg hstate']
        exact ⟨_, _, h.sendConnect hsound.connect hstate hw⟩
    · simp only [if_neg hstate]
      obtain ⟨hstatus, hwrites⟩ := Connection.connWrite_writes hwf hvalid (taking_ne_failed n) hkeeps
      obtain ⟨hsent, hconn⟩ := handleWriteEvents_conn hstatus
      rw [← hsent, ← hconn] at hwrites
      rw [← Framing.encodeAll_nil (protoFraming pb)] at hwrites
      have hstreams := h.streams.a1Writes hopen hwrites
      rw [List.append_nil] at hstreams
      exact ⟨out, back, hstreams, h.stage.congr hwrites.state rfl rfl rfl rfl rfl rfl rfl⟩
  · simp only [hevent, Bool.not_false, if_true, List.append_nil]
    exact ⟨out, back, h.a1Same rfl⟩

end Steps

end Kimserver
