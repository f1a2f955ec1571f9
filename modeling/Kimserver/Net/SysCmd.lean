import Kimserver.Net.WriteEvents

/-!
# System commands

Processes talk to each other in messages that `SysCmd` handles before any module sees them
(`sys_cmd.cpp`). A handler reads the request, answers on the same connection, and returns a
status that tells the loop of `process_tcp_msg` what to do next.

What a handler only passes on (a registry, a node description, a payload) is a parameter.

## Main definitions

* `reqMessage`, `ackMessage`: the messages of `send_req` and `send_ack`
* `checkRsp`: whether an answer is good
* `onReqConnectToWorker`, `onRspConnectToWorker`, `onReqTellWorker`, `onRspTellWorker`: the
  handshake between nodes
* `processManagerMsg`, `processWorkerMsg`: the commands of the two roles
-/

namespace Kimserver

open SocketBuffer (SendResult)

/-! ## Commands, errors and messages -/

/-- `CMD_REQ_CONNECT_TO_WORKER`. -/
def cmdReqConnectToWorker : UInt32 := 21

/-- `CMD_RSP_CONNECT_TO_WORKER`. -/
def cmdRspConnectToWorker : UInt32 := 22

/-- `CMD_REQ_TELL_WORKER`. -/
def cmdReqTellWorker : UInt32 := 23

/-- `CMD_RSP_TELL_WORKER`. -/
def cmdRspTellWorker : UInt32 := 24

/-- `CMD_RSP_ADD_ZK_NODE`. -/
def cmdRspAddZkNode : UInt32 := 42

/-- `CMD_RSP_DEL_ZK_NODE`. -/
def cmdRspDelZkNode : UInt32 := 44

/-- `CMD_REQ_SYNC_ZK_NODES`. -/
def cmdReqSyncZkNodes : UInt32 := 45

/-- `CMD_RSP_REGISTER_NODE`. -/
def cmdRspRegisterNode : UInt32 := 48

/-- `CMD_REQ_UPDATE_PAYLOAD`. -/
def cmdReqUpdatePayload : UInt32 := 49

/-- `ERR_OK`. -/
def errOk : Int32 := 0

/-- `ERR_INVALID_MSG_DATA`. -/
def errInvalidMsgData : Int32 := 2

/-- `ERR_INVALID_WORKER_INDEX`. -/
def errInvalidWorkerIndex : Int32 := 3

/-- `Cmd::STATUS`. -/
inductive CmdStatus
  | unknown
  | ok
  | running
  | completed
  | error
  deriving DecidableEq, Repr

section Messages

variable (pb : Protobuf)

/-- A message whose `len` is set to the size of its body. -/
def sizedMessage (cmd seq : UInt32) (body : MsgBody) : Message :=
  (⟨cmd, seq, CInt.toInt (pb.serializeBody body).length, CInt.inRange_toInt _⟩, body)

/-- The message of `send_req`. -/
def reqMessage (cmd seq : UInt32) (data : Bytes) : Message :=
  sizedMessage pb cmd seq { data := data }

/-- The message of `send_ack`. -/
def ackMessage (req : Message) (err : Int32) (errstr data : Bytes) : Message :=
  sizedMessage pb (req.1.cmd + 1) req.1.seq { msgType := .rspResult err errstr, data := data }

end Messages

/-- `check_rsp`. -/
def checkRsp (req : Message) : Bool :=
  match req.2.msgType with
  | .rspResult code _ => code = errOk
  | _ => false

/-! ## Handlers -/

section Handlers

variable (pb : Protobuf) (stray : ℕ → UInt8)

/-- `send_ack`, and whether it returns true. A connection that it closes is gone. -/
def sendAck (w : WriteState) (req : Message) (err : Int32) (errstr data : Bytes)
    (res : SendResult) : Bool × Bytes × WriteState :=
  let r := sendTo pb stray w (ackMessage pb req err errstr data) res
  (decide (r.2.conn.state ≠ .closed), r)

/-- A handler that answers `ok` and goes on with `status` when the answer was sent. -/
def ackWith (status : CmdStatus) (w : WriteState) (req : Message) (data : Bytes)
    (res : SendResult) : CmdStatus × Bytes × WriteState :=
  match sendAck pb stray w req errOk (text "ok") data res with
  | (true, r) => (status, r)
  | (false, r) => (.error, r)

/-- A handler that answers with an error. -/
def ackError (w : WriteState) (req : Message) (err : Int32) (errstr : Bytes)
    (res : SendResult) : CmdStatus × Bytes × WriteState :=
  (.error, (sendAck pb stray w req err errstr [] res).2)

/-- `on_req_connect_to_worker`. There are `workerCnt` workers, and `transfer` tells whether the
descriptor reaches the worker of an index. -/
def onReqConnectToWorker (workerCnt : ℕ) (transfer : ℤ → Bool) (w : WriteState) (req : Message)
    (res : SendResult) : Except StoiError (CmdStatus × Bytes × WriteState) :=
  match strToInt req.2.data with
  | .error e => .error e
  | .ok workerIndex =>
    if workerIndex = 0 ∨ workerCnt < workerIndex then
      .ok (ackError pb stray w req errInvalidWorkerIndex (text "invalid worker index!") res)
    else
      .ok (ackWith pb stray (if transfer workerIndex then .completed else .error) w req [] res)

/-- `on_rsp_connect_to_worker`; `node` describes this worker. -/
def onRspConnectToWorker (seq : UInt32) (node : Bytes) (w : WriteState) (req : Message)
    (res : SendResult) : CmdStatus × Bytes × WriteState :=
  if !checkRsp req then (.error, [], w)
  else
    let r := sendTo pb stray w (reqMessage pb cmdReqTellWorker seq node) res
    (if r.2.conn.state = .closed then .error else .ok, r)

/-- `on_req_tell_worker`; `parses` tells which texts are node descriptions. -/
def onReqTellWorker (parses : Bytes → Bool) (node : Bytes) (w : WriteState) (req : Message)
    (res : SendResult) : CmdStatus × Bytes × WriteState :=
  if !parses req.2.data then
    ackError pb stray w req errInvalidMsgData (text "parse request failed!") res
  else
    match sendAck pb stray w req errOk (text "ok") node res with
    | (true, sent, w) => (.ok, sent, w.ofConn { w.conn with state := .connected })
    | (false, sent, w) => (.error, sent, w)

/-- `on_rsp_tell_worker`. -/
def onRspTellWorker (parses : Bytes → Bool) (w : WriteState) (req : Message) :
    CmdStatus × Bytes × WriteState :=
  if !checkRsp req then (.error, [], w)
  else if !parses req.2.data then (.error, [], w)
  else (.running, [], w.ofConn { w.conn with state := .connected })

/-- `on_rsp_add_zk_node`, `on_rsp_del_zk_node` and `on_rsp_reg_zk_node`. -/
def onRspZkNode (w : WriteState) (req : Message) : CmdStatus × Bytes × WriteState :=
  (if checkRsp req then .ok else .error, [], w)

/-- `on_req_sync_zk_nodes`; `answer` is the serialized registry for a version. -/
def SysCmd.onReqSyncZkNodes (answer : ℤ → Bytes) (w : WriteState) (req : Message)
    (res : SendResult) :
    Except StoiError (CmdStatus × Bytes × WriteState) :=
  match strToInt req.2.data with
  | .error e => .error e
  | .ok version => .ok (ackWith pb stray .ok w req (answer version) res)

/-- `on_req_update_payload`; `parsePayload` gives the worker index of a payload. -/
def onReqUpdatePayload (parsePayload : Bytes → Option ℤ) (hasWorker : ℤ → Bool)
    (w : WriteState) (req : Message) (res : SendResult) : CmdStatus × Bytes × WriteState :=
  match parsePayload req.2.data with
  | none => (.error, [], w)
  | some workerIndex =>
    if hasWorker workerIndex then ackWith pb stray .ok w req [] res
    else
      ackError pb stray w req errInvalidWorkerIndex (text "can not find worker index!") res

end Handlers

/-! ## The two roles -/

/-- What the handlers of a manager find around them. -/
structure ManagerEnv where
  workerCnt : ℕ
  transfer : ℤ → Bool
  syncAnswer : ℤ → Bytes
  parsePayload : Bytes → Option ℤ
  hasWorker : ℤ → Bool

/-- `process_manager_msg`. -/
def processManagerMsg (pb : Protobuf) (stray : ℕ → UInt8) (env : ManagerEnv) (w : WriteState)
    (req : Message) (res : SendResult) : Except StoiError (CmdStatus × Bytes × WriteState) :=
  if req.1.cmd = cmdReqConnectToWorker then
    onReqConnectToWorker pb stray env.workerCnt env.transfer w req res
  else if req.1.cmd = cmdRspAddZkNode then .ok (onRspZkNode w req)
  else if req.1.cmd = cmdRspDelZkNode then .ok (onRspZkNode w req)
  else if req.1.cmd = cmdRspRegisterNode then .ok (onRspZkNode w req)
  else if req.1.cmd = cmdReqSyncZkNodes then SysCmd.onReqSyncZkNodes pb stray env.syncAnswer w req res
  else if req.1.cmd = cmdReqUpdatePayload then
    .ok (onReqUpdatePayload pb stray env.parsePayload env.hasWorker w req res)
  else .ok (.unknown, [], w)

/-- What the handshake handlers of a worker find around them. -/
structure WorkerEnv where
  tellSeq : UInt32
  node : Bytes
  parses : Bytes → Bool

/-- `process_worker_msg`, as far as the commands of the handshake go. -/
def processWorkerMsg (pb : Protobuf) (stray : ℕ → UInt8) (env : WorkerEnv) (w : WriteState)
    (req : Message) (res : SendResult) : CmdStatus × Bytes × WriteState :=
  if req.1.cmd = cmdRspConnectToWorker then
    onRspConnectToWorker pb stray env.tellSeq env.node w req res
  else if req.1.cmd = cmdReqTellWorker then onReqTellWorker pb stray env.parses env.node w req res
  else if req.1.cmd = cmdRspTellWorker then onRspTellWorker env.parses w req
  else (.unknown, [], w)

end Kimserver
