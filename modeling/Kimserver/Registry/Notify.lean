import Kimserver.Lib.Replica
import Kimserver.Nodes.Registry

/-!
# Notifications of the registry

The manager changes its registry when results arrive from zookeeper (`zk_client.cpp`), and
tells its workers about the changes it accepted (`sys_cmd.cpp`). A worker repeats them.

A record or a message that the source parses is given here by the result of the parser:
`none` where it fails. On the control channel the parser gives back what was serialized.

## Main definitions

* `ZkEvent`, `onZkEvent`: the results of zookeeper tasks, and how the manager handles them
* `Notification`, `onNotification`: the messages to the workers, and how a worker handles them
* `notifications`: manager, control channel and worker

## Main results

* `onZkEvent_replays`: the notifications of an event repeat what the manager did
* `worker_agrees`: a worker that handled all notifications has the registry of its manager
-/

namespace Kimserver

/-- `register_node` of `nodes.proto`. -/
structure RegisterNode where
  version : UInt32 := 0
  myZkPath : Bytes := []
  nodes : List ZkNode := []
  deriving DecidableEq

/-! ## The manager -/

/-- The result of a zookeeper task: an error code, zero for success, and what the parser makes
of the value. -/
structure ZkResult (α : Type) where
  error : ℤ
  value : Option α

/-- The tasks whose results change the registry. A child list comes with the order in which
the iteration over `m_zk_nodes` visits the records. -/
inductive ZkEvent
  | register (res : ZkResult (Bytes × List (Option ZkNode)))
  | nodeDeleted (path : Bytes)
  | getData (res : ZkResult ZkNode)
  | dataChange (res : ZkResult ZkNode)
  | childChange (path : Bytes) (res : ZkResult (List Bytes)) (iteration : List (Bytes × ZkNode))

/-- The messages a manager sends to its workers about the registry. -/
inductive Notification
  | addZkNode (zn : ZkNode)
  | delZkNode (path : Bytes)
  | registerNode (rn : RegisterNode)
  deriving DecidableEq

/-- The records of a list that were parsed and accepted. -/
def acceptNodes (cfg : NodesConf) (s : Nodes) : List (Option ZkNode) → Nodes × List ZkNode
  | [] => (s, [])
  | none :: rest => acceptNodes cfg s rest
  | some zn :: rest =>
    match s.addZkNode cfg zn with
    | (s', false) => acceptNodes cfg s' rest
    | (s', true) =>
      let (s'', accepted) := acceptNodes cfg s' rest
      (s'', zn :: accepted)

/-- `on_zk_register`. -/
def onZkRegister (cfg : NodesConf) (s : Nodes) (res : ZkResult (Bytes × List (Option ZkNode))) :
    Nodes × List Notification :=
  if res.error ≠ 0 then (s, [])
  else
    match res.value with
    | none => (s, [])
    | some (myZkPath, nodes) =>
      let (s', accepted) := acceptNodes cfg (s.clear.setMyZkNodePath myZkPath) nodes
      (s', [.registerNode { myZkPath := myZkPath, nodes := accepted }])

/-- `on_zk_node_deleted`. -/
def onZkNodeDeleted (s : Nodes) (path : Bytes) : Nodes × List Notification :=
  match s.delZkNode path with
  | (s', false) => (s', [])
  | (s', true) => (s', [.delZkNode path])

/-- `on_zk_get_data` and `on_zk_data_change`, which have one body. -/
def onZkData (cfg : NodesConf) (s : Nodes) (res : ZkResult ZkNode) : Nodes × List Notification :=
  if res.error ≠ 0 then (s, [])
  else
    match res.value with
    | none => (s, [])
    | some node =>
      match s.addZkNode cfg node with
      | (s', false) => (s', [])
      | (s', true) => (s', [.addZkNode node])

/-- `on_zk_get_data`. -/
def onZkGetData (cfg : NodesConf) (s : Nodes) (res : ZkResult ZkNode) :
    Nodes × List Notification := onZkData cfg s res

/-- `on_zk_data_change`. -/
def onZkDataChange (cfg : NodesConf) (s : Nodes) (res : ZkResult ZkNode) :
    Nodes × List Notification := onZkData cfg s res

/-- The order of `std::less<std::string>`, as the order relation of a sort. -/
def textLe (a b : Bytes) : Prop := ¬ b < a

instance : DecidableRel textLe := fun a b => inferInstanceAs (Decidable (¬ b < a))

/-- `std::set_difference` of sorted lists. -/
def setDifference : List Bytes → List Bytes → List Bytes
  | [], _ => []
  | a :: first, second =>
    match second.dropWhile (· < a) with
    | [] => a :: setDifference first []
    | b :: rest =>
      if a < b then a :: setDifference first (b :: rest) else setDifference first rest

/-- `diff_cmp`. -/
def diffCmp (first second : List Bytes) : List Bytes :=
  setDifference (first.insertionSort textLe) (second.insertionSort textLe)

/-- `get_zk_diff_nodes`: the paths to add and the paths to delete. -/
def getZkDiffNodes (iteration : List (Bytes × ZkNode)) (type : Bytes) (paths : List Bytes) :
    List Bytes × List Bytes :=
  let vec := (iteration.filter fun e => type = e.2.type).map Prod.fst
  (diffCmp paths vec, diffCmp vec paths)

/-- `path.substr(path.find_last_of("/") + 1)`. -/
def lastName (path : Bytes) : Bytes := (path.reverse.takeWhile (· ≠ 47)).reverse

/-- `on_zk_node_deleted` for each path of a list. -/
def delPaths (s : Nodes) : List Bytes → Nodes × List Notification
  | [] => (s, [])
  | path :: paths =>
    let (s', sent) := onZkNodeDeleted s path
    let (s'', rest) := delPaths s' paths
    (s'', sent ++ rest)

/-- The paths that `on_zk_child_change` finds new and gone. For the new ones it asks zookeeper
for their data, which arrives as a result of its own. -/
def childDiff (path : Bytes) (children : List Bytes) (iteration : List (Bytes × ZkNode)) :
    List Bytes × List Bytes :=
  getZkDiffNodes iteration (lastName path)
    (children.map fun child => formatStr (cStr path ++ [47] ++ cStr child))

/-- `on_zk_child_change`. -/
def onZkChildChange (s : Nodes) (path : Bytes) (res : ZkResult (List Bytes))
    (iteration : List (Bytes × ZkNode)) : Nodes × List Notification :=
  if res.error ≠ 0 then (s, [])
  else delPaths s (childDiff path (res.value.getD []) iteration).2

/-- The manager's handler of one result. -/
def onZkEvent (cfg : NodesConf) (s : Nodes) : ZkEvent → Nodes × List Notification
  | .register res => onZkRegister cfg s res
  | .nodeDeleted path => onZkNodeDeleted s path
  | .getData res => onZkGetData cfg s res
  | .dataChange res => onZkDataChange cfg s res
  | .childChange path res iteration => onZkChildChange s path res iteration

/-! ## The worker -/

/-- The result codes of an acknowledgement. -/
inductive AckCode
  | ok
  | failed
  | invalidMsgData
  deriving DecidableEq, Repr

/-- The acknowledgement a handler sends. -/
structure Ack where
  code : AckCode
  msg : Bytes
  deriving DecidableEq

def ackOk : Ack := ⟨.ok, text "ok"⟩

/-- `on_req_add_zk_node`, given the parsed message. -/
def onReqAddZkNode (cfg : NodesConf) (s : Nodes) : Option ZkNode → Nodes × Ack
  | none => (s, ⟨.invalidMsgData, text "parse request failed!"⟩)
  | some zn =>
    match s.addZkNode cfg zn with
    | (s', false) => (s', ⟨.failed, text "add zk node failed!"⟩)
    | (s', true) => (s', ackOk)

/-- `on_req_del_zk_node`. -/
def onReqDelZkNode (s : Nodes) (zkPath : Bytes) : Nodes × Ack :=
  if zkPath = [] then (s, ⟨.invalidMsgData, text "parse request failed!"⟩)
  else ((s.delZkNode zkPath).1, ackOk)

/-- The records of a message replace the registry. -/
def resetNodes (cfg : NodesConf) (s : Nodes) (rn : RegisterNode) : Nodes :=
  (s.clear.setMyZkNodePath rn.myZkPath).addAll cfg rn.nodes

/-- `on_req_reg_zk_node`, given the parsed message. -/
def onReqRegZkNode (cfg : NodesConf) (s : Nodes) : Option RegisterNode → Nodes × Ack
  | none => (s, ⟨.invalidMsgData, text "parse request data failed!"⟩)
  | some rn => (resetNodes cfg s rn, ackOk)

/-- The worker's handler of one notification. -/
def onNotification (cfg : NodesConf) (s : Nodes) : Notification → Nodes × Ack
  | .addZkNode zn => onReqAddZkNode cfg s (some zn)
  | .delZkNode path => onReqDelZkNode s path
  | .registerNode rn => onReqRegZkNode cfg s (some rn)

/-- The manager leads, the worker follows. -/
def notifications (cfg : NodesConf) : Replication Nodes ZkEvent Notification where
  lead := onZkEvent cfg
  apply s n := (onNotification cfg s n).1

/-! ## What the manager sends repeats what it did -/

section Replay

variable {cfg : NodesConf}

/-- Only accepted records are sent, and the rejected ones changed nothing. -/
theorem acceptNodes_replays (s : Nodes) (nodes : List (Option ZkNode)) :
    s.addAll cfg (acceptNodes cfg s nodes).2 = (acceptNodes cfg s nodes).1 := by
  induction nodes generalizing s with
  | nil => rfl
  | cons node nodes ih =>
    cases node with
    | none => exact ih s
    | some zn =>
      cases hadd : s.addZkNode cfg zn with
      | mk s' accepted =>
        cases accepted with
        | false =>
          have hs : s' = s := by
            have hrej : (s.addZkNode cfg zn).1 = s := Nodes.addZkNode_rejected (by rw [hadd])
            rwa [hadd] at hrej
          simp only [acceptNodes, hadd, hs]
          exact ih s
        | true =>
          simp only [acceptNodes, hadd, Nodes.addAll_cons]
          exact ih s'

theorem acceptNodes_registered {s : Nodes} (h : s.Registered) (nodes : List (Option ZkNode)) :
    (acceptNodes cfg s nodes).1.Registered := by
  induction nodes generalizing s with
  | nil => exact h
  | cons node nodes ih =>
    cases node with
    | none => exact ih h
    | some zn =>
      have hadd := h.addZkNode cfg zn
      simp only [acceptNodes]
      split
      · next heq => exact ih (by rwa [heq] at hadd)
      · next heq => exact ih (by rwa [heq] at hadd)

/-- A path with a registered record is not empty, so the worker does not refuse it. -/
theorem Nodes.Registered.path_ne_nil {s : Nodes} (h : s.Registered) {path : Bytes}
    (hdel : (s.delZkNode path).2 = true) : path ≠ [] := by
  cases hz : s.zkNodes.lookup path with
  | none =>
    rw [Nodes.delZkNode_none hz] at hdel
    exact absurd hdel (by simp)
  | some z =>
    have hvalid := h.valid hz
    rw [← h.keyed hz]
    intro hnil
    simp [isValidZkNode, hnil] at hvalid

theorem onZkNodeDeleted_replays (cfg : NodesConf) {s : Nodes} (h : s.Registered) (path : Bytes) :
    (notifications cfg).applyAll s (onZkNodeDeleted s path).2 = (onZkNodeDeleted s path).1 ∧
      (onZkNodeDeleted s path).1.Registered := by
  have hreg := h.delZkNode path
  have hne : (s.delZkNode path).2 = true → path ≠ [] := h.path_ne_nil
  unfold onZkNodeDeleted
  split
  · next s' heq =>
    rw [heq] at hreg
    refine ⟨?_, hreg⟩
    cases hz : s.zkNodes.lookup path with
    | none =>
      rw [Nodes.delZkNode_none hz] at heq
      exact congrArg Prod.fst heq
    | some z =>
      rw [Nodes.delZkNode_some hz] at heq
      exact absurd (congrArg Prod.snd heq) (by simp)
  · next s' heq =>
    rw [heq] at hreg hne
    refine ⟨?_, hreg⟩
    change (onReqDelZkNode s path).1 = s'
    rw [onReqDelZkNode, if_neg (hne rfl), heq]

theorem delPaths_replays {s : Nodes} (h : s.Registered) (paths : List Bytes) :
    (notifications cfg).applyAll s (delPaths s paths).2 = (delPaths s paths).1 ∧
      (delPaths s paths).1.Registered := by
  induction paths generalizing s with
  | nil => exact ⟨rfl, h⟩
  | cons path paths ih =>
    obtain ⟨hone, hreg⟩ := onZkNodeDeleted_replays cfg h path
    obtain ⟨hrest, hreg'⟩ := ih hreg
    refine ⟨?_, hreg'⟩
    simp only [delPaths, Replication.applyAll_append, hone, hrest]

theorem onZkData_replays {s : Nodes} (h : s.Registered) (res : ZkResult ZkNode) :
    (notifications cfg).applyAll s (onZkData cfg s res).2 = (onZkData cfg s res).1 ∧
      (onZkData cfg s res).1.Registered := by
  unfold onZkData
  split_ifs
  · exact ⟨rfl, h⟩
  · split
    · exact ⟨rfl, h⟩
    · next node hnode =>
      have hreg := h.addZkNode cfg node
      split
      · next s' heq =>
        have hs : (s.addZkNode cfg node).1 = s := Nodes.addZkNode_rejected (by rw [heq])
        rw [heq] at hs
        exact ⟨hs.symm, by rwa [heq] at hreg⟩
      · next s' heq =>
        refine ⟨?_, by rwa [heq] at hreg⟩
        change (onReqAddZkNode cfg s (some node)).1 = s'
        simp only [onReqAddZkNode, heq]

theorem onZkRegister_replays {s : Nodes} (h : s.Registered)
    (res : ZkResult (Bytes × List (Option ZkNode))) :
    (notifications cfg).applyAll s (onZkRegister cfg s res).2 = (onZkRegister cfg s res).1 ∧
      (onZkRegister cfg s res).1.Registered := by
  unfold onZkRegister
  split_ifs
  · exact ⟨rfl, h⟩
  · split
    · exact ⟨rfl, h⟩
    · exact ⟨acceptNodes_replays _ _, acceptNodes_registered (Nodes.registered_empty _ _) _⟩

/-- **The notifications of an event repeat what the manager did.** -/
theorem onZkEvent_replays (cfg : NodesConf) : (notifications cfg).Replays Nodes.Registered := by
  have hboth : ∀ {s : Nodes} (e : ZkEvent), s.Registered →
      (notifications cfg).applyAll s (onZkEvent cfg s e).2 = (onZkEvent cfg s e).1 ∧
        (onZkEvent cfg s e).1.Registered := by
    intro s e h
    cases e with
    | register res => exact onZkRegister_replays h res
    | nodeDeleted path => exact onZkNodeDeleted_replays _ h path
    | getData res => exact onZkData_replays h res
    | dataChange res => exact onZkData_replays h res
    | childChange path res iteration =>
      unfold onZkEvent onZkChildChange
      dsimp only
      split_ifs
      · exact ⟨rfl, h⟩
      · exact delPaths_replays h _
  exact ⟨fun e h => (hboth e h).2, fun e h => (hboth e h).1⟩

end Replay

/-- The registries of a manager and a worker that just started, with an empty channel. -/
def freshRegistries : Replication.State Nodes Notification := ⟨{}, [], {}⟩

/-- **A worker that handled all notifications has the registry of its manager**: after every
run of zookeeper results and deliveries that leaves the channel empty, the two registries are
equal in all their members. -/
theorem worker_agrees (cfg : NodesConf) (es : List (Replication.Event ZkEvent))
    (hq : ((notifications cfg).machine.run freshRegistries es).queue = []) :
    ((notifications cfg).machine.run freshRegistries es).follower =
      ((notifications cfg).machine.run freshRegistries es).leader :=
  (onZkEvent_replays cfg).caught_up (Nodes.registered_empty 0 []) es hq

/-- A registration with an invalid and a valid record, told to the worker. -/
theorem worker_agrees_registered :
    ((notifications sampleConf).machine.run freshRegistries
        [.lead (.register ⟨0, some (text "/kimserver/gate/0", [some default,
          some (sampleZkNode 1)])⟩), .deliver]).follower =
      ((notifications sampleConf).machine.run freshRegistries
        [.lead (.register ⟨0, some (text "/kimserver/gate/0", [some default,
          some (sampleZkNode 1)])⟩), .deliver]).leader :=
  worker_agrees sampleConf _ (by decide)

end Kimserver
