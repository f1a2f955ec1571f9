import Kimserver.Net.Manager
import Kimserver.Net.Receive

/-!
# The handshake between nodes

A worker `A1` that has a message for a worker `B1` of another node connects to that node's
manager `B0`, which hands the descriptor over to `B1` (`Network::auto_send`):

1. `A1` connects to `B0` and sends `CMD_REQ_CONNECT_TO_WORKER`
2. `B0` answers with `CMD_RSP_CONNECT_TO_WORKER` and transfers the descriptor to `B1`
3. `A1` sends `CMD_REQ_TELL_WORKER` to `B1`
4. `B1` answers with `CMD_RSP_TELL_WORKER`
5. `A1` sends the messages that were waiting

All three share one socket. A step is taken by one party; how many bytes it reads and how many
the socket takes is part of the step. `send` may take some bytes or none, and the transfer of
the descriptor and the answer of `B0` do not fail.

## Main definitions

* `HandshakeEnv`: what the parties find around them
* `Handshake`: the parties, the two directions of the socket, and what happened so far
* `workerRead`: `process_tcp_msg` in a worker
* `handshakeStep`, `handshakeMachine`: the steps
* `Handshake.Safe`: the safety of the handshake
-/

namespace Kimserver

open SocketBuffer (SendResult)

/-- What the parties find around them. -/
structure HandshakeEnv where
  /-- the sequence number that `A1` takes for its request -/
  connectSeq : UInt32
  /-- `get_node_worker_index` at `A1` -/
  workerIndex : ℤ
  a1 : WorkerEnv
  /-- the number of workers at `B0` -/
  workerCnt : ℕ
  b1 : WorkerEnv
  inRange : CInt.InRange workerIndex := by decide

/-- What `send` does that does not fail: it takes a number of bytes, or answers `EAGAIN`. -/
def taking : Option ℕ → SendResult
  | some n => .accepted n
  | none => .again

/-- `B0` between the accepted connection and its end. -/
inductive ManagerPhase
  | reading
  /-- the request is answered, the descriptor is not transferred yet -/
  | answered
  | closed
  deriving DecidableEq

/-- The parties, the socket, and the history. -/
structure Handshake where
  a1 : WriteState := { conn := { state := .tryConnect }, writeEvent := true }
  b0 : WriteState := { conn := { state := .connected } }
  b0Phase : ManagerPhase := .reading
  /-- the descriptor is on its way to `B1` -/
  channel : Bool := false
  b1 : Option WriteState := none
  /-- the bytes in the socket from `A1` -/
  toB : Bytes := []
  /-- the bytes in the socket to `A1` -/
  toA : Bytes := []
  /-- all bytes `A1` wrote -/
  written : Bytes := []
  /-- all bytes `B0` read -/
  b0Bytes : Bytes := []
  /-- the messages `A1` accepted for the node -/
  accepted : List Message := []
  /-- the messages `B1` decoded -/
  b1Msgs : List Message := []
  /-- `B1` has processed `CMD_REQ_TELL_WORKER` -/
  told : Bool := false
  /-- some party left what the language defines -/
  undefined : Bool := false
  deriving DecidableEq

/-- The steps of the parties. -/
inductive HandshakeOp
  /-- an application call at `A1` -/
  | sendToNode (m : Message) (n : Option ℕ)
  /-- `A1` gets a write event -/
  | a1Write (n : Option ℕ)
  /-- `A1` reads `k` bytes; `answers` are for what its handlers send -/
  | a1Read (k : ℕ) (answers : ℕ → Option ℕ)
  /-- `B0` reads `k` bytes -/
  | b0Read (k : ℕ)
  /-- `B0` transfers the descriptor and closes its connection -/
  | b0Transfer
  /-- `B1` reads the descriptor -/
  | b1Accept
  /-- `B1` reads `k` bytes -/
  | b1Read (k : ℕ) (answers : ℕ → Option ℕ)
  /-- `B1` gets a write event -/
  | b1Write (n : Option ℕ)

section Model

variable (pb : Protobuf) (stray : ℕ → UInt8)

/-! ## A worker reads -/

/-- The loop of a worker between two messages. -/
structure WorkerLoop where
  w : WriteState
  handled : ℕ := 0
  sent : Bytes := []
  told : Bool := false

/-- One turn of the loop. Messages the system commands do not know go to the modules. -/
def workerTurn (env : WorkerEnv) (answers : ℕ → Option ℕ) (s : WorkerLoop) (m : Message) :
    WorkerLoop :=
  let r := processWorkerMsg pb stray env s.w m (taking (answers s.handled))
  { w := if r.1 = .running then { r.2.2 with writeEvent := true } else r.2.2
    handled := s.handled + 1
    sent := s.sent ++ r.2.1
    told := s.told || (decide (m.1.cmd = cmdReqTellWorker) && decide (r.1 = .ok)) }

/-- `process_tcp_msg` in a worker that reads `chunk`: the messages, the loop after them, and
what ended it. Decoding reads only the receive buffer and the handlers do not, so the messages
can be decoded first. -/
def workerRead (env : WorkerEnv) (answers : ℕ → Option ℕ) (w : WriteState) (chunk : Bytes) :
    List Message × WorkerLoop × Stop :=
  let r := decodeLoop pb (w.conn.connRead chunk).recvBuf
  let s := r.1.foldl (workerTurn pb stray env answers)
    { w := { w with conn := { w.conn with recvBuf := r.2.2 } } }
  (r.1, s, r.2.1)

/-- The worker after the loop: the connection is closed when `decode` failed. -/
def afterRead (s : WorkerLoop) : Stop → WriteState
  | .err => .closeConn
  | _ => s.w

/-! ## The parties -/

variable (env : HandshakeEnv)

/-- `CMD_REQ_CONNECT_TO_WORKER`. -/
def connectMessage : Message :=
  reqMessage pb cmdReqConnectToWorker env.connectSeq (toDecimal env.workerIndex)

/-- `CMD_REQ_TELL_WORKER`. -/
def tellMessage : Message := reqMessage pb cmdReqTellWorker env.a1.tellSeq env.a1.node

/-- `B0` as a manager. Descriptors arrive. -/
def managerEnv : ManagerEnv where
  workerCnt := env.workerCnt
  transfer _ := true
  syncAnswer _ := []
  parsePayload _ := none
  hasWorker _ := false

/-- The socket takes what `B0` answers. -/
def wholeAnswer : ℕ → SendResult := fun _ => .accepted 2147483648

/-- `A1` writes: its state after the operation, and the bytes that went to the socket. -/
def Handshake.a1Writes (st : Handshake) (op : WriteOp) : Handshake :=
  let r := writeStep pb stray st.a1 op
  { st with a1 := r.2, toB := st.toB ++ r.1, written := st.written ++ r.1 }

/-- `B0` reads. -/
def b0Read (st : Handshake) (k : ℕ) : Handshake :=
  let r := decodeLoop pb (st.b0.conn.connRead (st.toB.take k)).recvBuf
  let st := { st with toB := st.toB.drop k, b0Bytes := st.b0Bytes ++ st.toB.take k }
  match (managerMachine pb stray (managerEnv env) wholeAnswer).run
      (.reading { st.b0 with conn := { st.b0.conn with recvBuf := r.2.2 } } 0 []) r.1 with
  | .fault _ => { st with undefined := true }
  | .closed sent => { st with b0Phase := .answered, toA := st.toA ++ sent }
  | .reading w _ sent =>
    match r.2.1 with
    | .pause => { st with b0 := w, toA := st.toA ++ sent }
    | .err => { st with b0Phase := .closed, toA := st.toA ++ sent }
    | .undefined => { st with undefined := true }

/-- One step. A step that cannot be taken changes nothing. -/
def handshakeStep (st : Handshake) : HandshakeOp → Handshake
  | .sendToNode m n =>
    if st.a1.conn.isInvalid then st
    else { st.a1Writes pb stray (.sendToNode m (taking n)) with accepted := st.accepted ++ [m] }
  | .a1Write n =>
    st.a1Writes pb stray (.writeReady
      (if env.workerIndex = -1 then none else some (connectMessage pb env)) (taking n))
  | .a1Read k answers =>
    if st.a1.conn.isInvalid ∨ k = 0 ∨ st.toA.length < k then st
    else
      let r := workerRead pb stray env.a1 answers st.a1 (st.toA.take k)
      { st with
        a1 := afterRead r.2.1 r.2.2
        toA := st.toA.drop k
        toB := st.toB ++ r.2.1.sent
        written := st.written ++ r.2.1.sent
        undefined := st.undefined || decide (r.2.2 = .undefined) }
  | .b0Read k =>
    if st.b0Phase ≠ .reading ∨ k = 0 ∨ st.toB.length < k then st
    else b0Read pb stray env st k
  | .b0Transfer =>
    if st.b0Phase = .answered then { st with b0Phase := .closed, channel := true } else st
  | .b1Accept =>
    if st.channel then
      { st with channel := false, b1 := some { conn := { state := .connected } } }
    else st
  | .b1Read k answers =>
    match st.b1 with
    | none => st
    | some w =>
      if w.conn.isInvalid ∨ k = 0 ∨ st.toB.length < k then st
      else
        let r := workerRead pb stray env.b1 answers w (st.toB.take k)
        { st with
          b1 := some (afterRead r.2.1 r.2.2)
          toB := st.toB.drop k
          toA := st.toA ++ r.2.1.sent
          b1Msgs := st.b1Msgs ++ r.1
          told := st.told || r.2.1.told
          undefined := st.undefined || decide (r.2.2 = .undefined) }
  | .b1Write n =>
    match st.b1 with
    | none => st
    | some w =>
      let r := writeStep pb stray w (.writeReady none (taking n))
      { st with b1 := some r.2, toA := st.toA ++ r.1 }

/-- The handshake, as a machine. -/
def handshakeMachine : Machine Handshake HandshakeOp := ⟨handshakeStep pb stray env⟩

/-! ## Safety -/

/-- The frames of `A1`: the two requests of the handshake, then the messages it accepted. -/
def framesOf (st : Handshake) : List Message :=
  connectMessage pb env :: tellMessage pb env :: st.accepted

/-- **Safety of the handshake.** -/
structure Handshake.Safe (st : Handshake) : Prop where
  /-- the behaviour of all parties is defined -/
  defined : st.undefined = false
  /-- `B0` consumes only the frame of the request to it -/
  b0Only : st.b0Bytes <+: frame pb (connectMessage pb env)
  /-- no byte of an application frame is written before `B1` has processed the request to it -/
  untilTold : st.told = false →
    st.written <+: frame pb (connectMessage pb env) ++ frame pb (tellMessage pb env)
  /-- no frame is cut by another one -/
  uncut : st.written <+: (protoFraming pb).encodeAll (framesOf pb env st)
  /-- `B1` decodes its request, and then messages that `A1` accepted, in order and each once -/
  prefixAccepted : st.b1Msgs <+: tellMessage pb env :: st.accepted

end Model

end Kimserver
