import Kimserver.Net.SysCmd

/-!
# The manager and its messages

The loop of `process_tcp_msg` in a manager: every message that was decoded goes to the system
commands, and a message they do not know goes to the module manager, which a manager does not
have.

## Main definitions

* `Fault`: the ends of the loop that are no return
* `ManagerLoop`, `managerMachine`: the loop, message by message
* `processTcpMsg`: the function, by what `conn_read` and `fetch_data` decode
* `ackOf`, `Survivable`: what a manager answers, and the messages it survives

## Main results

* `processTcpMsg_finishes_iff`: when the function returns
-/

namespace Kimserver

open SocketBuffer (SendResult)

/-- How the loop can end without returning: `str_to_int` throws, the module manager is null, or
the connection was deleted by a handler. -/
inductive Fault
  | stoi (e : StoiError)
  | nullModuleMgr
  | useAfterFree
  deriving DecidableEq, Repr

/-- The loop between two messages. -/
inductive ManagerLoop
  /-- the connection, how many messages were handled, and the bytes sent -/
  | reading (w : WriteState) (handled : ℕ) (sent : Bytes)
  /-- a handler returned `COMPLETED`, the connection was closed, and the function returned -/
  | closed (sent : Bytes)
  | fault (f : Fault)

section Loop

variable (pb : Protobuf) (stray : ℕ → UInt8) (env : ManagerEnv) (answers : ℕ → SendResult)

/-- One turn of the loop; `send` gives the answer `answers k` in the turn `k`. -/
def managerTurn : ManagerLoop → Message → ManagerLoop
  | .reading w k sent, m =>
    match processManagerMsg pb stray env w m (answers k) with
    | .error e => .fault (.stoi e)
    | .ok (status, bytes, w) =>
      -- the connection is read again after every handler
      if w.conn.state = .closed then .fault .useAfterFree
      else
        match status with
        | .unknown => .fault .nullModuleMgr
        | .completed => .closed (sent ++ bytes)
        | .running => .reading { w with writeEvent := true } (k + 1) (sent ++ bytes)
        | _ => .reading w (k + 1) (sent ++ bytes)
  | s, _ => s

def managerMachine : Machine ManagerLoop Message := ⟨managerTurn pb stray env answers⟩

/-- `process_tcp_msg` in a manager, when `conn_read` and `fetch_data` decode `msgs` and then
return `last`. -/
def processTcpMsg (w : WriteState) (msgs : List Message) (last : CodecStatus) :
    Except Fault Bool :=
  match (managerMachine pb stray env answers).run (.reading w 0 []) msgs with
  | .fault f => .error f
  | .closed _ => .ok true
  | .reading _ _ _ => .ok (decide (last ≠ .err ∧ last ≠ .closed))

/-- The answer of a manager, if it gives one. -/
def ackOf (m : Message) : Option Message :=
  if m.1.cmd = cmdReqConnectToWorker then
    match strToInt m.2.data with
    | .error _ => none
    | .ok index =>
      if index = 0 ∨ env.workerCnt < index then
        some (ackMessage pb m errInvalidWorkerIndex (text "invalid worker index!") [])
      else some (ackMessage pb m errOk (text "ok") [])
  else if m.1.cmd = cmdReqSyncZkNodes then
    match strToInt m.2.data with
    | .error _ => none
    | .ok version => some (ackMessage pb m errOk (text "ok") (env.syncAnswer version))
  else if m.1.cmd = cmdReqUpdatePayload then
    (env.parsePayload m.2.data).map fun index =>
      if env.hasWorker index then ackMessage pb m errOk (text "ok") []
      else ackMessage pb m errInvalidWorkerIndex (text "can not find worker index!") []
  else none

/-- The commands of a manager. -/
def managerCmds : List UInt32 :=
  [cmdReqConnectToWorker, cmdRspAddZkNode, cmdRspDelZkNode, cmdRspRegisterNode,
    cmdReqSyncZkNodes, cmdReqUpdatePayload]

/-- The two commands whose data is read as a number. -/
def readsNumber (cmd : UInt32) : Bool := cmd = cmdReqConnectToWorker || cmd = cmdReqSyncZkNodes

/-- A command of a manager, with data that is a number where one is read. -/
def Handles (m : Message) : Prop :=
  m.1.cmd ∈ managerCmds ∧ (readsNumber m.1.cmd = true → (strToInt m.2.data).isOk = true)

/-- `send` fails for a message that is written: it is called with bytes and answers with an
error. -/
def SendFails (w : WriteState) (m : Message) (res : SendResult) : Prop :=
  res = .failed ∧ CInt.toInt (if w.conn.sendsWaiting then w.conn.waitSendBuf.readableLen
    else w.conn.sendBuf.readableLen + (encodeOut pb stray m).length : ℕ) ≠ 0

/-- The messages a manager survives: it handles them, and their answer is sent. -/
def Survivable : ManagerLoop → Message → Prop
  | .reading w k _, m =>
    Handles m ∧ ∀ ack ∈ ackOf pb env m, ¬ SendFails pb stray w ack (answers k)
  | _, _ => True

instance (m : Message) : Decidable (Handles m) := inferInstanceAs (Decidable (_ ∧ _))

instance (w : WriteState) (m : Message) (res : SendResult) :
    Decidable (SendFails pb stray w m res) := inferInstanceAs (Decidable (_ ∧ _))

instance : ∀ s m, Decidable (Survivable pb stray env answers s m)
  | .reading _ _ _, _ => inferInstanceAs (Decidable (_ ∧ _))
  | .closed _, _ => inferInstanceAs (Decidable True)
  | .fault _, _ => inferInstanceAs (Decidable True)

end Loop

/-! ## What a handler does -/

section Handler

variable {pb : Protobuf} {stray : ℕ → UInt8} {env : ManagerEnv} {w : WriteState}

/-- A connection that can be written to. -/
structure Writeable (w : WriteState) : Prop where
  wf : w.conn.Wf
  connected : w.conn.state = .connected

theorem Writeable.valid (h : Writeable w) : w.conn.isInvalid = false := by
  simp [Connection.isInvalid, h.connected]

variable (pb stray) in
/-- Sending closes the connection exactly when `send` fails. -/
theorem sendTo_closed_iff (h : Writeable w) (m : Message) (res : SendResult) :
    ((sendTo pb stray w m res).2.conn.state = .closed ↔ SendFails pb stray w m res) ∧
      (¬ SendFails pb stray w m res → Writeable (sendTo pb stray w m res).2) := by
  obtain ⟨sbuf, hbuf, hcontents, -, heq⟩ :=
    Connection.connWriteMsg_eq pb stray h.wf h.valid m res
  have hready := Connection.isReadable_of_encodeOut hbuf hcontents
  have hlen : sbuf.readableLen = w.conn.sendBuf.readableLen + (encodeOut pb stray m).length := by
    rw [← SocketBuffer.length_contents hbuf, hcontents, List.length_append,
      SocketBuffer.length_contents h.wf.send]
  have hwf := h.wf.setSendBuf hbuf
  have hchosen : (w.conn.setSendBuf sbuf).chosenBuf.readableLen =
      if w.conn.sendsWaiting then w.conn.waitSendBuf.readableLen
      else w.conn.sendBuf.readableLen + (encodeOut pb stray m).length := by
    show (if w.conn.sendsWaiting then w.conn.waitSendBuf else sbuf).readableLen = _
    split_ifs
    · rfl
    · exact hlen
  have hreadable : (w.conn.setSendBuf sbuf).chosenBuf.isReadable = true := by
    rw [SocketBuffer.isReadable_iff, hchosen]
    split_ifs with hwaiting
    · exact (Connection.sendsWaiting_iff.mp hwaiting).2
    · rw [← hlen]
      exact (SocketBuffer.isReadable_iff _).mp hready
  have hfails : SendFails pb stray w m res ↔
      res = .failed ∧ (w.conn.setSendBuf sbuf).chosenBuf.taken .failed = none := by
    rw [SocketBuffer.taken_failed, hchosen]
    rfl
  have hkeeps := Connection.connWrite_keeps hwf res
  unfold sendTo
  rw [heq, hfails]
  rcases Connection.connWrite_cases (c := w.conn.setSendBuf sbuf) res h.valid with
    ⟨hread, -⟩ | ⟨n, -, htaken, hwrite⟩ | ⟨-, htaken, ⟨hres, hwrite⟩ | ⟨hres, hwrite⟩⟩
  · rw [hreadable] at hread
    exact absurd hread (by decide)
  · -- bytes were taken, and the connection stays
    have hnot : ¬ (res = .failed ∧ (w.conn.setSendBuf sbuf).chosenBuf.taken .failed = none) := by
      rintro ⟨rfl, hnone⟩
      rw [hnone] at htaken
      exact absurd htaken (by simp)
    have hwriteable : Writeable
        (WriteState.handleWriteEvents ((w.conn.setSendBuf sbuf).connWrite res)).2 := by
      rw [hwrite] at hkeeps ⊢
      split_ifs
      · exact ⟨hkeeps.1, hkeeps.2.trans h.connected⟩
      · exact ⟨hkeeps.1, hkeeps.2.trans h.connected⟩
    refine ⟨iff_of_false ?_ hnot, fun _ => hwriteable⟩
    rw [hwriteable.connected]
    decide
  · have hwriteable : Writeable
        (WriteState.handleWriteEvents ((w.conn.setSendBuf sbuf).connWrite res)).2 := by
      rw [hwrite] at hkeeps ⊢
      exact ⟨hkeeps.1, hkeeps.2.trans h.connected⟩
    refine ⟨iff_of_false ?_ ?_, fun _ => hwriteable⟩
    · rw [hwriteable.connected]
      decide
    · rw [hres]
      exact fun hfailed => absurd hfailed.1 (by decide)
  · rw [hres] at htaken
    refine ⟨iff_of_true ?_ ⟨hres, htaken⟩, fun hnot => absurd ⟨hres, htaken⟩ hnot⟩
    rw [hwrite]
    rfl

variable (pb stray) in
theorem ackWith_eq (status : CmdStatus) (req : Message) (data : Bytes) (res : SendResult) :
    ∃ status', (status' = status ∨ status' = .error) ∧
      ackWith pb stray status w req data res =
        (status', sendTo pb stray w (ackMessage pb req errOk (text "ok") data) res) := by
  unfold ackWith sendAck
  by_cases hclosed : (sendTo pb stray w (ackMessage pb req errOk (text "ok") data) res).2.conn.state
      = .closed
  · exact ⟨.error, Or.inr rfl, by simp [hclosed]⟩
  · exact ⟨status, Or.inl rfl, by simp [hclosed]⟩

theorem exists_ok {ε α : Type} {r : Except ε α} (h : r.isOk = true) : ∃ a, r = .ok a := by
  cases r with
  | error e => exact absurd h (by simp [Except.isOk, Except.toBool])
  | ok a => exact ⟨a, rfl⟩

/-- The connection after an answer, if there is one. -/
def answered (pb : Protobuf) (stray : ℕ → UInt8) (w : WriteState) (res : SendResult) :
    Option Message → Bytes × WriteState
  | none => ([], w)
  | some ack => sendTo pb stray w ack res

variable (pb stray env) in
/-- **A handled message** is answered with the answer of `ackOf`, on the same connection. -/
theorem processManagerMsg_handles {m : Message} (res : SendResult) (h : Handles m) :
    ∃ status, status ≠ .unknown ∧ processManagerMsg pb stray env w m res =
      .ok (status, answered pb stray w res (ackOf pb env m)) := by
  obtain ⟨hcmd, hnumber⟩ := h
  have hrsp : ∃ status, status ≠ .unknown ∧ onRspZkNode w m = (status, [], w) := by
    unfold onRspZkNode
    split_ifs
    · exact ⟨.ok, by decide, rfl⟩
    · exact ⟨.error, by decide, rfl⟩
  simp only [managerCmds, List.mem_cons, List.not_mem_nil, or_false] at hcmd
  rcases hcmd with hc | hc | hc | hc | hc | hc
  · obtain ⟨index, hindex⟩ := exists_ok (hnumber (by rw [hc]; decide))
    simp only [processManagerMsg, ackOf, hc, if_true, onReqConnectToWorker, hindex]
    split_ifs
    · exact ⟨.error, by decide, rfl⟩
    · obtain ⟨status, hstatus, heq⟩ := ackWith_eq (w := w) pb stray
        .completed m [] res
      exact ⟨status, by rcases hstatus with rfl | rfl <;> decide, by rw [heq]; rfl⟩
    · obtain ⟨status, hstatus, heq⟩ := ackWith_eq (w := w) pb stray
        .error m [] res
      exact ⟨status, by rcases hstatus with rfl | rfl <;> decide, by rw [heq]; rfl⟩
  · obtain ⟨status, hstatus, heq⟩ := hrsp
    refine ⟨status, hstatus, ?_⟩
    simp only [processManagerMsg, ackOf, hc, heq]
    rfl
  · obtain ⟨status, hstatus, heq⟩ := hrsp
    refine ⟨status, hstatus, ?_⟩
    simp only [processManagerMsg, ackOf, hc, heq]
    rfl
  · obtain ⟨status, hstatus, heq⟩ := hrsp
    refine ⟨status, hstatus, ?_⟩
    simp only [processManagerMsg, ackOf, hc, heq]
    rfl
  · obtain ⟨version, hversion⟩ := exists_ok (hnumber (by rw [hc]; decide))
    obtain ⟨status, hstatus, heq⟩ := ackWith_eq (w := w) pb stray
      .ok m (env.syncAnswer version) res
    refine ⟨status, by rcases hstatus with rfl | rfl <;> decide, ?_⟩
    simp only [processManagerMsg, ackOf, hc, SysCmd.onReqSyncZkNodes, hversion, heq]
    rfl
  · simp only [processManagerMsg, ackOf, hc, onReqUpdatePayload]
    cases env.parsePayload m.2.data with
    | none => exact ⟨.error, by decide, rfl⟩
    | some index =>
      dsimp only [Option.map_some]
      by_cases hworker : env.hasWorker index = true
      · obtain ⟨status, hstatus, heq⟩ := ackWith_eq (w := w) pb stray .ok m [] res
        refine ⟨status, by rcases hstatus with rfl | rfl <;> decide, ?_⟩
        simp only [if_pos hworker, heq]
        rfl
      · refine ⟨.error, by decide, ?_⟩
        simp only [if_neg hworker]
        rfl

variable (pb stray env) in
/-- A message that is not handled ends the loop with a fault. -/
theorem managerTurn_not_handles (answers : ℕ → SendResult) (k : ℕ) (sent : Bytes) {m : Message}
    (hw : Writeable w) (h : ¬ Handles m) :
    ∃ f, managerTurn pb stray env answers (.reading w k sent) m = .fault f := by
  by_cases hcmd : m.1.cmd ∈ managerCmds
  · -- the command is known, so its data is no number
    have hnumber : readsNumber m.1.cmd = true ∧ ∃ e, strToInt m.2.data = .error e := by
      rw [Handles, not_and, Classical.not_imp] at h
      obtain ⟨hreads, hnot⟩ := h hcmd
      refine ⟨hreads, ?_⟩
      cases hdata : strToInt m.2.data with
      | error e => exact ⟨e, rfl⟩
      | ok n =>
        rw [hdata] at hnot
        exact absurd rfl hnot
    obtain ⟨hreads, e, hdata⟩ := hnumber
    simp only [readsNumber, Bool.or_eq_true, decide_eq_true_eq] at hreads
    refine ⟨.stoi e, ?_⟩
    rcases hreads with hc | hc
    · simp only [managerTurn, processManagerMsg, hc, if_true, onReqConnectToWorker, hdata]
    · simp only [managerTurn, processManagerMsg, hc, SysCmd.onReqSyncZkNodes, hdata]
      rfl
  · refine ⟨.nullModuleMgr, ?_⟩
    simp only [managerCmds, List.mem_cons, List.not_mem_nil, or_false, not_or] at hcmd
    obtain ⟨h₁, h₂, h₃, h₄, h₅, h₆⟩ := hcmd
    simp only [managerTurn, processManagerMsg, if_neg h₁, if_neg h₂, if_neg h₃, if_neg h₄,
      if_neg h₅, if_neg h₆, hw.connected]
    rfl

/-- A handled message ends in a fault exactly when its handler closed the connection. -/
theorem managerTurn_of_handled {answers : ℕ → SendResult} {k : ℕ} (sent : Bytes) {m : Message}
    {status : CmdStatus} {r : Bytes × WriteState} (hstatus : status ≠ .unknown)
    (h : processManagerMsg pb stray env w m (answers k) = .ok (status, r)) :
    (r.2.conn.state = .closed →
      managerTurn pb stray env answers (.reading w k sent) m = .fault .useAfterFree) ∧
    (Writeable r.2 →
      (∀ f, managerTurn pb stray env answers (.reading w k sent) m ≠ .fault f) ∧
      ∀ w' k' sent', managerTurn pb stray env answers (.reading w k sent) m = .reading w' k' sent' →
        Writeable w') := by
  constructor
  · intro hclosed
    simp only [managerTurn, h, if_pos hclosed]
  · intro hw
    have hopen : r.2.conn.state ≠ .closed := by
      rw [hw.connected]
      decide
    simp only [managerTurn, h, if_neg hopen]
    cases status with
    | unknown => exact absurd rfl hstatus
    | completed => exact ⟨fun f => by simp, fun w' k' sent' heq => absurd heq (by simp)⟩
    | running =>
      refine ⟨fun f => by simp, fun w' k' sent' heq => ?_⟩
      obtain ⟨rfl, -, -⟩ := ManagerLoop.reading.inj heq
      exact ⟨hw.wf, hw.connected⟩
    | ok =>
      refine ⟨fun f => by simp, fun w' k' sent' heq => ?_⟩
      obtain ⟨rfl, -, -⟩ := ManagerLoop.reading.inj heq
      exact hw
    | error =>
      refine ⟨fun f => by simp, fun w' k' sent' heq => ?_⟩
      obtain ⟨rfl, -, -⟩ := ManagerLoop.reading.inj heq
      exact hw

/-- **One turn**: it ends in a fault exactly when the message is not survivable. -/
theorem managerTurn_spec {answers : ℕ → SendResult} {k : ℕ} {sent : Bytes} (hw : Writeable w)
    (m : Message) :
    (Survivable pb stray env answers (.reading w k sent) m ↔
      ∀ f, managerTurn pb stray env answers (.reading w k sent) m ≠ .fault f) ∧
    ∀ w' k' sent', managerTurn pb stray env answers (.reading w k sent) m = .reading w' k' sent' →
      Writeable w' := by
  by_cases hm : Handles m
  · obtain ⟨status, hstatus, hprocess⟩ :=
      processManagerMsg_handles (w := w) pb stray env (answers k) hm
    obtain ⟨hclosed, hopen⟩ := managerTurn_of_handled sent hstatus hprocess
    cases hack : ackOf pb env m with
    | none =>
      rw [hack] at hopen
      obtain ⟨hfault, hnext⟩ := hopen hw
      refine ⟨iff_of_true ⟨hm, fun ack heq => ?_⟩ hfault, hnext⟩
      exact absurd (hack.symm.trans heq) (by simp)
    | some ack =>
      rw [hack] at hclosed hopen
      obtain ⟨hiff, hkeeps⟩ := sendTo_closed_iff pb stray hw ack (answers k)
      by_cases hfails : SendFails pb stray w ack (answers k)
      · have hfault := hclosed (hiff.mpr hfails)
        refine ⟨iff_of_false (fun h => h.2 ack hack hfails) fun h => h _ hfault, ?_⟩
        rw [hfault]
        exact fun w' k' sent' heq => absurd heq (by simp)
      · obtain ⟨hfault, hnext⟩ := hopen (hkeeps hfails)
        refine ⟨iff_of_true ⟨hm, fun ack' heq => ?_⟩ hfault, hnext⟩
        rw [← Option.some.inj (hack.symm.trans heq)]
        exact hfails
  · obtain ⟨f, hfault⟩ :=
      managerTurn_not_handles pb stray env answers k sent hw hm
    rw [hfault]
    refine ⟨iff_of_false (fun h => hm h.1) fun h => h f rfl, fun w' k' sent' heq => ?_⟩
    exact absurd heq (by simp)

end Handler

/-! ## The loop -/

section Run

variable {pb : Protobuf} {stray : ℕ → UInt8} {env : ManagerEnv} {answers : ℕ → SendResult}

/-- The loop is at a connection that can be written to, or it has returned. -/
def Alive : ManagerLoop → Prop
  | .reading w _ _ => Writeable w
  | .closed _ => True
  | .fault _ => False

theorem run_fault (f : Fault) (msgs : List Message) :
    (managerMachine pb stray env answers).run (.fault f) msgs = .fault f := by
  induction msgs with
  | nil => rfl
  | cons m msgs ih => exact ih

/-- A fault that is reached is never left. -/
theorem ne_fault_of_prefix {s : ManagerLoop} {msgs past : List Message}
    (h : ∀ f, (managerMachine pb stray env answers).run s msgs ≠ .fault f)
    (hpast : past <+: msgs) (f : Fault) :
    (managerMachine pb stray env answers).run s past ≠ .fault f := by
  obtain ⟨rest, rfl⟩ := hpast
  intro hfault
  refine h f ?_
  rw [Machine.run_append, hfault, run_fault]

theorem processTcpMsg_eq_ok_iff (w : WriteState) (msgs : List Message) (last : CodecStatus) :
    (∃ b, processTcpMsg pb stray env answers w msgs last = .ok b) ↔
      ∀ f, (managerMachine pb stray env answers).run (.reading w 0 []) msgs ≠ .fault f := by
  unfold processTcpMsg
  cases (managerMachine pb stray env answers).run (.reading w 0 []) msgs with
  | reading w' k sent => exact iff_of_true ⟨_, rfl⟩ fun f => by simp
  | closed sent => exact iff_of_true ⟨_, rfl⟩ fun f => by simp
  | fault f => exact iff_of_false (by simp) fun h => h f rfl

/-- **The manager survives exactly the survivable messages**: `process_tcp_msg` returns if and
only if every message up to the one that hands the connection over is a command of the manager,
with a number where one is read, and its answer is sent. -/
theorem processTcpMsg_finishes_iff (hw : Writeable w) (msgs : List Message) (last : CodecStatus) :
    (∃ b, processTcpMsg pb stray env answers w msgs last = .ok b) ↔
      (managerMachine pb stray env answers).Meets (Survivable pb stray env answers)
        (.reading w 0 []) msgs := by
  rw [processTcpMsg_eq_ok_iff]
  have hexact := Machine.Meets.iff_forall_prefix (M := managerMachine pb stray env answers)
    (C := Survivable pb stray env answers) (I := Alive) (P := fun s => ∀ f, s ≠ .fault f)
    (Q := fun _ => True) (s := .reading w 0 []) ?_ ?_ ?_ hw fun _ (_ : _ ∈ msgs) => trivial
  · rw [hexact]
    exact ⟨fun h past hpast f => ne_fault_of_prefix h hpast f, fun h => h msgs (List.prefix_refl _)⟩
  · intro s hs f hfault
    rw [hfault] at hs
    exact hs
  · rintro s m - hs hcond
    cases s with
    | reading w k sent =>
      obtain ⟨hiff, hnext⟩ := managerTurn_spec hs m
      have hfault := hiff.mp hcond
      show Alive (managerTurn pb stray env answers (.reading w k sent) m)
      cases hturn : managerTurn pb stray env answers (.reading w k sent) m with
      | reading w' k' sent' => exact hnext w' k' sent' hturn
      | closed sent' => trivial
      | fault f => exact absurd hturn (hfault f)
    | closed sent => trivial
    | fault f => exact hs
  · rintro s m - hs hnot
    cases s with
    | reading w k sent => exact (managerTurn_spec hs m).1.mpr hnot
    | closed sent => trivial
    | fault f => trivial

end Run

/-! ## Two runs -/

/-- A manager of two workers. -/
def twoWorkers : ManagerEnv where
  workerCnt := 2
  transfer index := index = 1 || index = 2
  syncAnswer _ := []
  parsePayload _ := none
  hasWorker index := index = 1 || index = 2

/-- A connection that was just accepted. -/
def acceptedConn : WriteState := { conn := { state := .connected } }

theorem writeable_acceptedConn : Writeable acceptedConn := ⟨Connection.wf_fresh _, rfl⟩

/-- A worker of another node asks for the descriptor of worker 2 after an answer came in. -/
theorem processTcpMsg_connect :
    ∃ b, processTcpMsg .wire (fun _ => 0) twoWorkers (fun _ => .accepted 100) acceptedConn
      [(⟨42, 5, 0, by decide⟩, {}), (⟨21, 6, 3, by decide⟩, { data := [50] })] .pause = .ok b := by
  exact (processTcpMsg_finishes_iff writeable_acceptedConn _ _).mpr (by decide)

/-- One message with an unknown command, and one with data that is no number. -/
theorem processTcpMsg_faults :
    processTcpMsg .wire (fun _ => 0) twoWorkers (fun _ => .accepted 100) acceptedConn
        [(⟨1001, 1, 0, by decide⟩, {})] .pause = .error .nullModuleMgr ∧
      processTcpMsg .wire (fun _ => 0) twoWorkers (fun _ => .accepted 100) acceptedConn
        [(⟨21, 1, 3, by decide⟩, { data := [120] })] .pause =
          .error (.stoi .invalidArgument) := by
  constructor
  · rfl
  · rfl

end Kimserver
