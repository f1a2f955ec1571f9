import Kimserver.Lib.OrderedMap
import Kimserver.Lib.Double
import Kimserver.Lib.Machine
import Kimserver.Util.Text

/-!
# The registry of nodes

The class `Nodes` of `nodes.cpp`: the registered zookeeper nodes, the worker nodes made from
them, and one ring of virtual nodes for each node type. A manager and each of its workers
hold one registry.

The ring holds pointers to nodes that are never written after their construction; the model
keeps the node itself.

## Main definitions

* `ZkNode`, `Node`, `Nodes`: `zk_node`, `node_t` and the members of `Nodes`
* `Nodes.addNode`, `Nodes.delNode`, `Nodes.checkZkNodeHost`, `Nodes.addZkNode`,
  `Nodes.delZkNode`, `Nodes.clear`: the operations, each with its result
* `NodesOp`, `nodesMachine`: the operations as the events of a machine

## Main results

* `Nodes.addNode_fresh`, `Nodes.delNode_ring`: what the two inner operations do
* `Nodes.addZkNode_rejected`: a rejected registration changes nothing
-/

namespace Kimserver

/-- `zk_node` of `nodes.proto`. -/
structure ZkNode where
  path : Bytes
  type : Bytes
  host : Bytes
  port : UInt32
  workerCnt : UInt32
  activeTime : Double
  deriving DecidableEq, Repr, Inhabited

/-- `node_t`. -/
structure Node where
  id : Bytes
  type : Bytes
  host : Bytes
  port : ℤ
  workerIndex : ℤ
  vnodes : List UInt32
  deriving DecidableEq, Repr, Inhabited

/-- What the constructor fixes, and the digest of the crypto library. -/
structure NodesConf where
  vnodeCnt : ℕ := 200
  md5 : Bytes → Bytes

/-- The members of `Nodes`. -/
structure Nodes where
  version : UInt32 := 0
  myZkNode : Bytes := []
  hostZkPaths : FiniteMap Bytes Bytes := ∅
  zkNodes : FiniteMap Bytes ZkNode := ∅
  nodes : FiniteMap Bytes Node := ∅
  vnodes : FiniteMap Bytes (FiniteMap UInt32 Node) := ∅
  deriving DecidableEq

/-! ## Keys -/

/-- `port` as the `int` it is printed and stored as. -/
def ZkNode.intPort (z : ZkNode) : ℤ := CInt.toInt z.port.toNat

/-- The key of `z` in `m_host_zk_paths`. -/
def ZkNode.hostKey (z : ZkNode) : Bytes := formatHost z.host z.intPort

/-- The node id of the worker `i` of `z`; the counter `i` is a `size_t`. -/
def ZkNode.nodeId (z : ZkNode) (i : ℕ) : Bytes := formatNodesId z.host z.intPort (CInt.toInt i)

/-- The node ids of the workers `1, …, n` of `z`. -/
def ZkNode.nodeIds (z : ZkNode) (n : ℕ) : List Bytes :=
  (List.range n).map fun i => z.nodeId (i + 1)

theorem ZkNode.mem_nodeIds {z : ZkNode} {n : ℕ} {id : Bytes} :
    id ∈ z.nodeIds n ↔ ∃ i, 1 ≤ i ∧ i ≤ n ∧ id = z.nodeId i := by
  simp only [ZkNode.nodeIds, List.mem_map, List.mem_range]
  constructor
  · rintro ⟨i, hi, rfl⟩
    exact ⟨i + 1, by omega, by omega, rfl⟩
  · rintro ⟨i, h₁, h₂, rfl⟩
    exact ⟨i - 1, by omega, by rw [Nat.sub_add_cancel h₁]⟩

theorem ZkNode.nodeIds_succ (z : ZkNode) (n : ℕ) :
    z.nodeIds (n + 1) = z.nodeIds n ++ [z.nodeId (n + 1)] := by
  simp only [ZkNode.nodeIds, List.range_succ, List.map_append, List.map_cons, List.map_nil]

/-- `is_valid_zk_node`. -/
def isValidZkNode (z : ZkNode) : Bool :=
  !(z.path = [] || z.host = [] || z.port = 0 || z.type = [] || z.workerCnt = 0 ||
    z.activeTime.isZero)

/-! ## Virtual nodes -/

/-- The point `j` of a digest: four bytes, least significant first. -/
def digestPoint (s : Bytes) (j : ℕ) : UInt32 :=
  ((s.getD (3 + j * 4) 0).toUInt32 <<< 24) ||| ((s.getD (2 + j * 4) 0).toUInt32 <<< 16) |||
    ((s.getD (1 + j * 4) 0).toUInt32 <<< 8) ||| (s.getD (j * 4) 0).toUInt32

/-- `gen_vnodes`. -/
def genVnodes (cfg : NodesConf) (nodeId : Bytes) : List UInt32 :=
  (List.range (cfg.vnodeCnt / 4)).flatMap fun i =>
    let s := cfg.md5 (formatStr
      (toDecimal ((cfg.vnodeCnt : ℤ) - i) ++ [64] ++ cStr nodeId ++ [35] ++ toDecimal i))
    (List.range 4).map (digestPoint s)

/-- The `node_t` that `add_node` allocates. -/
def newNode (cfg : NodesConf) (nodeType host : Bytes) (port worker : ℤ) : Node where
  id := formatNodesId host port worker
  type := nodeType
  host := host
  port := port
  workerIndex := worker
  vnodes := genVnodes cfg (formatNodesId host port worker)

namespace Nodes

/-- `m_vnodes[type]`. -/
def ring (s : Nodes) (type : Bytes) : FiniteMap UInt32 Node := (s.vnodes.lookup type).getD ∅

/-! ## Worker nodes -/

/-- `add_node`. -/
def addNode (cfg : NodesConf) (s : Nodes) (nodeType host : Bytes) (port worker : ℤ) :
    Nodes × Bool :=
  let nodeId := formatNodesId host port worker
  if (s.nodes.lookup nodeId).isSome then (s, true)
  else
    let node := newNode cfg nodeType host port worker
    let vnode2node := FiniteMap.addAbsent (s.ring nodeType) node.vnodes node
    let s' := { s with version := s.version + 1, vnodes := s.vnodes.insert nodeType vnode2node }
    if vnode2node.keys.card = (s.ring nodeType).keys.card then (s', false)
    else ({ s' with nodes := s.nodes.insert nodeId node }, true)

/-- `del_node`. -/
def delNode (s : Nodes) (nodeId : Bytes) : Nodes × Bool :=
  match s.nodes.lookup nodeId with
  | none => (s, false)
  | some node =>
    ({ s with
        version := s.version + 1
        vnodes := match s.vnodes.lookup node.type with
          | none => s.vnodes
          | some vnode2node =>
            s.vnodes.insert node.type (FiniteMap.eraseAll vnode2node node.vnodes)
        nodes := s.nodes.erase nodeId }, true)

/-- `add_node` for the workers `1, …, n` of `z`. -/
def addNodes (cfg : NodesConf) (s : Nodes) (z : ZkNode) (n : ℕ) : Nodes :=
  (List.range n).foldl (fun s i =>
    (s.addNode cfg z.type z.host z.intPort (CInt.toInt ((i + 1 : ℕ) : ℤ))).1) s

/-- `del_node` for the workers `1, …, n` of `z`. -/
def delNodes (s : Nodes) (z : ZkNode) (n : ℕ) : Nodes :=
  (List.range n).foldl (fun s i => (s.delNode (z.nodeId (i + 1))).1) s

/-! ## Zookeeper nodes -/

/-- `del_zk_node`. -/
def delZkNode (s : Nodes) (path : Bytes) : Nodes × Bool :=
  match s.zkNodes.lookup path with
  | none => (s, false)
  | some z =>
    let s' := s.delNodes z z.workerCnt.toNat
    ({ s' with
        hostZkPaths := s'.hostZkPaths.erase z.hostKey
        zkNodes := s'.zkNodes.erase path }, true)

/-- `check_zk_node_host`. -/
def checkZkNodeHost (s : Nodes) (cur : ZkNode) : Nodes × Bool :=
  match s.hostZkPaths.lookup cur.hostKey with
  | none => (s, true)
  | some path =>
    match s.zkNodes.lookup path with
    | none => ({ s with hostZkPaths := s.hostZkPaths.erase cur.hostKey }, true)
    | some old =>
      if cur.path = old.path then (s, true)
      else if cur.activeTime.le old.activeTime then (s, false)
      else ((s.delZkNode old.path).1, true)

/-- The update of the maps in `add_zk_node`, once the host was checked. In the update of a
registered path `old` is a reference into `m_zk_nodes`: after the assignment it reads the new
record, and so do the bounds and the ids of the loop that deletes. -/
def storeZkNode (cfg : NodesConf) (s : Nodes) (z : ZkNode) : Nodes :=
  match s.zkNodes.lookup z.path with
  | none => addNodes cfg { s with zkNodes := s.zkNodes.insert z.path z } z z.workerCnt.toNat
  | some old =>
    if old ≠ z then
      let s' := { s with zkNodes := s.zkNodes.insert z.path z }
      addNodes cfg (s'.delNodes z (z.workerCnt.toNat - 1)) z z.workerCnt.toNat
    else s

/-- `add_zk_node`. -/
def addZkNode (cfg : NodesConf) (s : Nodes) (z : ZkNode) : Nodes × Bool :=
  if isValidZkNode z = false then (s, false)
  else
    match s.checkZkNodeHost z with
    | (s', false) => (s', false)
    | (s', true) =>
      let s'' := storeZkNode cfg s' z
      ({ s'' with hostZkPaths := s''.hostZkPaths.insert z.hostKey z.path }, true)

/-- `clear`: the version stays. -/
def clear (s : Nodes) : Nodes := { version := s.version }

/-- `set_my_zk_node_path`. -/
def setMyZkNodePath (s : Nodes) (path : Bytes) : Nodes := { s with myZkNode := path }

end Nodes

/-- The operations on a registry. -/
inductive NodesOp
  | addZkNode (z : ZkNode)
  | delZkNode (path : Bytes)
  | setMyZkNodePath (path : Bytes)
  | clear
  deriving DecidableEq

/-- A registry taking operations; the results are dropped. -/
def nodesMachine (cfg : NodesConf) : Machine Nodes NodesOp where
  step s
    | .addZkNode z => (s.addZkNode cfg z).1
    | .delZkNode path => (s.delZkNode path).1
    | .setMyZkNodePath path => s.setMyZkNodePath path
    | .clear => s.clear

namespace Nodes

/-! ## What the inner operations do -/

theorem addNode_known {cfg : NodesConf} {s : Nodes} {nodeType host : Bytes} {port worker : ℤ}
    (h : (s.nodes.lookup (formatNodesId host port worker)).isSome) :
    s.addNode cfg nodeType host port worker = (s, true) := by
  simp only [addNode, h, if_true]

/-- A new node with a point that is free in the ring is added. -/
theorem addNode_fresh {cfg : NodesConf} {s : Nodes} {nodeType host : Bytes} {port worker : ℤ}
    (h : s.nodes.lookup (formatNodesId host port worker) = none) {v : UInt32}
    (hv : v ∈ genVnodes cfg (formatNodesId host port worker))
    (hfree : (s.ring nodeType).lookup v = none) :
    s.addNode cfg nodeType host port worker =
      ({ s with
          version := s.version + 1
          vnodes := s.vnodes.insert nodeType
            (FiniteMap.addAbsent (s.ring nodeType) (newNode cfg nodeType host port worker).vnodes
              (newNode cfg nodeType host port worker))
          nodes := s.nodes.insert (formatNodesId host port worker)
            (newNode cfg nodeType host port worker) }, true) := by
  have hlt := FiniteMap.card_addAbsent_lt (newNode cfg nodeType host port worker)
    (show v ∈ (newNode cfg nodeType host port worker).vnodes from hv) hfree
  simp only [addNode, h, Option.isSome_none, Bool.false_eq_true, if_false, if_neg hlt.ne']

/-- The lookup in the nodes after an addition: at most the new node is added. -/
theorem addNode_lookup (cfg : NodesConf) (s : Nodes) (nodeType host : Bytes) (port worker : ℤ)
    (id : Bytes) :
    (s.addNode cfg nodeType host port worker).1.nodes.lookup id = s.nodes.lookup id ∨
      id = formatNodesId host port worker ∧ s.nodes.lookup id = none ∧
        (s.addNode cfg nodeType host port worker).1.nodes.lookup id =
          some (newNode cfg nodeType host port worker) := by
  unfold addNode
  dsimp only
  split_ifs with hknown hsize
  · exact Or.inl rfl
  · exact Or.inl rfl
  · by_cases hid : id = formatNodesId host port worker
    · subst hid
      exact Or.inr ⟨rfl, by simpa using hknown, by simp⟩
    · exact Or.inl (by simp [hid])

/-- The rings after an addition: a point is as before, or points at the new node. -/
theorem addNode_ring (cfg : NodesConf) (s : Nodes) (nodeType host : Bytes) (port worker : ℤ)
    (type : Bytes) (v : UInt32) :
    ((s.addNode cfg nodeType host port worker).1.ring type).lookup v = (s.ring type).lookup v ∨
      type = nodeType ∧ v ∈ (newNode cfg nodeType host port worker).vnodes ∧
        ((s.addNode cfg nodeType host port worker).1.ring type).lookup v =
          some (newNode cfg nodeType host port worker) ∧
        (s.addNode cfg nodeType host port worker).1.nodes.lookup
          (formatNodesId host port worker) = some (newNode cfg nodeType host port worker) := by
  unfold addNode
  dsimp only
  split_ifs with hknown hsize
  · exact Or.inl rfl
  · rw [FiniteMap.addAbsent_eq_self hsize]
    refine Or.inl ?_
    simp only [ring, FiniteMap.lookup_insert]
    split_ifs with htype
    · rw [htype, Option.getD_some]
    · rfl
  · by_cases htype : type = nodeType
    · subst htype
      have hring : ∀ (r : FiniteMap UInt32 Node) (n : FiniteMap Bytes Node),
          ring { s with version := s.version + 1, vnodes := s.vnodes.insert type r, nodes := n }
            type = r := fun r n => by simp [ring]
      rw [hring, FiniteMap.lookup_addAbsent]
      cases hv : (s.ring type).lookup v with
      | some node => exact Or.inl rfl
      | none =>
        by_cases hmem : v ∈ (newNode cfg type host port worker).vnodes
        · exact Or.inr ⟨rfl, hmem, by simp [hmem], by simp⟩
        · exact Or.inl (by simp [hmem])
    · exact Or.inl (by simp [ring, htype])

theorem delNode_none {s : Nodes} {nodeId : Bytes} (h : s.nodes.lookup nodeId = none) :
    s.delNode nodeId = (s, false) := by
  simp only [delNode, h]

/-! ## Frames: the inner operations keep the zookeeper side -/

section Frames

variable (cfg : NodesConf) (s : Nodes) (nodeType host nodeId : Bytes) (port worker : ℤ)
  (z : ZkNode) (n : ℕ)

@[simp] theorem addNode_zkNodes :
    (s.addNode cfg nodeType host port worker).1.zkNodes = s.zkNodes := by
  unfold addNode; dsimp only; split_ifs <;> rfl

@[simp] theorem addNode_hostZkPaths :
    (s.addNode cfg nodeType host port worker).1.hostZkPaths = s.hostZkPaths := by
  unfold addNode; dsimp only; split_ifs <;> rfl

@[simp] theorem addNode_myZkNode :
    (s.addNode cfg nodeType host port worker).1.myZkNode = s.myZkNode := by
  unfold addNode; dsimp only; split_ifs <;> rfl

@[simp] theorem delNode_zkNodes : (s.delNode nodeId).1.zkNodes = s.zkNodes := by
  unfold delNode; split <;> rfl

@[simp] theorem delNode_hostZkPaths : (s.delNode nodeId).1.hostZkPaths = s.hostZkPaths := by
  unfold delNode; split <;> rfl

@[simp] theorem delNode_myZkNode : (s.delNode nodeId).1.myZkNode = s.myZkNode := by
  unfold delNode; split <;> rfl

/-- The lookup in the nodes after a deletion. -/
@[simp] theorem delNode_lookup (id : Bytes) :
    (s.delNode nodeId).1.nodes.lookup id = if id = nodeId then none else s.nodes.lookup id := by
  unfold delNode
  split
  · next h =>
    split_ifs with hid
    · rw [hid, h]
    · rfl
  · exact FiniteMap.lookup_erase _ _ _

/-- The rings after a deletion: the points of the node's own list are erased. -/
theorem delNode_ring {s : Nodes} {nodeId : Bytes} {node : Node}
    (h : s.nodes.lookup nodeId = some node) (type : Bytes) (v : UInt32) :
    ((s.delNode nodeId).1.ring type).lookup v =
      if type = node.type ∧ v ∈ node.vnodes then none else (s.ring type).lookup v := by
  simp only [delNode, h, ring]
  cases hring : s.vnodes.lookup node.type with
  | none =>
    split_ifs with hand
    · rw [hand.1, hring, Option.getD_none, Finmap.lookup_empty]
    · rfl
  | some r =>
    dsimp only
    rw [FiniteMap.lookup_insert]
    by_cases htype : type = node.type
    · subst htype
      rw [hring]
      simp only [if_true, true_and, Option.getD_some, FiniteMap.lookup_eraseAll]
    · simp only [htype, if_false, false_and]

@[simp] theorem addNodes_zero : addNodes cfg s z 0 = s := rfl

theorem addNodes_succ :
    addNodes cfg s z (n + 1) =
      ((addNodes cfg s z n).addNode cfg z.type z.host z.intPort
        (CInt.toInt ((n + 1 : ℕ) : ℤ))).1 := by
  simp only [addNodes, List.range_succ, List.foldl_append, List.foldl_cons, List.foldl_nil]

@[simp] theorem delNodes_zero : delNodes s z 0 = s := rfl

theorem delNodes_succ :
    delNodes s z (n + 1) = ((delNodes s z n).delNode (z.nodeId (n + 1))).1 := by
  simp only [delNodes, List.range_succ, List.foldl_append, List.foldl_cons, List.foldl_nil]

/-- What every `add_node` preserves, the loop preserves. -/
theorem addNodes_invariant {P : Nodes → Prop} (hs : P s)
    (hstep : ∀ s i, P s → P (s.addNode cfg z.type z.host z.intPort (CInt.toInt i)).1) :
    P (addNodes cfg s z n) := by
  induction n with
  | zero => exact hs
  | succ n ih => rw [addNodes_succ]; exact hstep _ _ ih

/-- What every `del_node` preserves, the loop preserves. -/
theorem delNodes_invariant {P : Nodes → Prop} (hs : P s)
    (hstep : ∀ s nodeId, P s → P (s.delNode nodeId).1) : P (delNodes s z n) := by
  induction n with
  | zero => exact hs
  | succ n ih => rw [delNodes_succ]; exact hstep _ _ ih

@[simp] theorem addNodes_zkNodes : (addNodes cfg s z n).zkNodes = s.zkNodes :=
  addNodes_invariant (P := fun t => t.zkNodes = s.zkNodes) cfg s z n rfl
    fun _ _ h => (addNode_zkNodes ..).trans h

@[simp] theorem addNodes_hostZkPaths : (addNodes cfg s z n).hostZkPaths = s.hostZkPaths :=
  addNodes_invariant (P := fun t => t.hostZkPaths = s.hostZkPaths) cfg s z n rfl
    fun _ _ h => (addNode_hostZkPaths ..).trans h

@[simp] theorem addNodes_myZkNode : (addNodes cfg s z n).myZkNode = s.myZkNode :=
  addNodes_invariant (P := fun t => t.myZkNode = s.myZkNode) cfg s z n rfl
    fun _ _ h => (addNode_myZkNode ..).trans h

@[simp] theorem delNodes_zkNodes : (delNodes s z n).zkNodes = s.zkNodes :=
  delNodes_invariant (P := fun t => t.zkNodes = s.zkNodes) s z n rfl
    fun _ _ h => (delNode_zkNodes ..).trans h

@[simp] theorem delNodes_hostZkPaths : (delNodes s z n).hostZkPaths = s.hostZkPaths :=
  delNodes_invariant (P := fun t => t.hostZkPaths = s.hostZkPaths) s z n rfl
    fun _ _ h => (delNode_hostZkPaths ..).trans h

@[simp] theorem delNodes_myZkNode : (delNodes s z n).myZkNode = s.myZkNode :=
  delNodes_invariant (P := fun t => t.myZkNode = s.myZkNode) s z n rfl
    fun _ _ h => (delNode_myZkNode ..).trans h

/-- The loop of deletions removes the ids of the workers `1, …, n`. -/
theorem delNodes_lookup (id : Bytes) :
    (delNodes s z n).nodes.lookup id =
      if id ∈ z.nodeIds n then none else s.nodes.lookup id := by
  induction n with
  | zero => rfl
  | succ n ih =>
    rw [delNodes_succ, delNode_lookup, ih, ZkNode.nodeIds_succ]
    by_cases hlast : id = z.nodeId (n + 1) <;> simp [hlast]

end Frames

/-! ## The zookeeper operations -/

theorem delZkNode_none {s : Nodes} {path : Bytes} (h : s.zkNodes.lookup path = none) :
    s.delZkNode path = (s, false) := by
  simp only [delZkNode, h]

theorem delZkNode_some {s : Nodes} {path : Bytes} {z : ZkNode}
    (h : s.zkNodes.lookup path = some z) :
    s.delZkNode path =
      ({ s.delNodes z z.workerCnt.toNat with
          hostZkPaths := s.hostZkPaths.erase z.hostKey
          zkNodes := s.zkNodes.erase path }, true) := by
  simp only [delZkNode, h, delNodes_hostZkPaths, delNodes_zkNodes]

theorem checkZkNodeHost_rejected {s : Nodes} {z : ZkNode} (h : (s.checkZkNodeHost z).2 = false) :
    (s.checkZkNodeHost z).1 = s := by
  unfold checkZkNodeHost at h ⊢
  split
  · rfl
  · next hhost =>
    rw [hhost] at h
    dsimp only at h
    split
    · next hzk => rw [hzk] at h; exact absurd h (by simp)
    · next hzk =>
      rw [hzk] at h
      dsimp only at h
      split_ifs at h ⊢
      rfl

/-- **A rejected registration changes nothing.** -/
theorem addZkNode_rejected {cfg : NodesConf} {s : Nodes} {z : ZkNode}
    (h : (s.addZkNode cfg z).2 = false) : (s.addZkNode cfg z).1 = s := by
  unfold addZkNode at h ⊢
  split_ifs at h ⊢
  · rfl
  · have hchk := checkZkNodeHost_rejected (s := s) (z := z)
    split
    · next heq => rw [heq] at hchk; exact hchk rfl
    · next heq => rw [heq] at h; exact absurd h (by simp)

@[simp] theorem storeZkNode_zkNodes (cfg : NodesConf) (s : Nodes) (z : ZkNode) :
    (storeZkNode cfg s z).zkNodes = s.zkNodes.insert z.path z := by
  unfold storeZkNode
  split
  · simp
  · next old hold =>
    split_ifs with h
    · simp
    · have : old = z := not_not.mp h
      subst this
      refine Finmap.ext_lookup fun x => ?_
      rw [FiniteMap.lookup_insert]
      split_ifs with hx
      · rw [hx, hold]
      · rfl

@[simp] theorem storeZkNode_hostZkPaths (cfg : NodesConf) (s : Nodes) (z : ZkNode) :
    (storeZkNode cfg s z).hostZkPaths = s.hostZkPaths := by
  unfold storeZkNode
  split
  · simp
  · split_ifs <;> simp

@[simp] theorem storeZkNode_myZkNode (cfg : NodesConf) (s : Nodes) (z : ZkNode) :
    (storeZkNode cfg s z).myZkNode = s.myZkNode := by
  unfold storeZkNode
  split
  · simp
  · split_ifs <;> simp

/-- An accepted registration: the host was free, or freed, and the record is stored. -/
theorem addZkNode_accepted {cfg : NodesConf} {s : Nodes} {z : ZkNode}
    (hvalid : isValidZkNode z = true) (hchk : (s.checkZkNodeHost z).2 = true) :
    s.addZkNode cfg z =
      ({ storeZkNode cfg (s.checkZkNodeHost z).1 z with
          hostZkPaths := (s.checkZkNodeHost z).1.hostZkPaths.insert z.hostKey z.path }, true) := by
  unfold addZkNode
  rw [if_neg (by simp [hvalid])]
  split
  · next heq => rw [heq] at hchk; exact absurd hchk (by simp)
  · next heq => rw [heq]; simp

end Nodes

/-! ## A sample record -/

/-- One digest for each node, of the texts that `gen_vnodes` hashes for two workers. -/
def sampleConf : NodesConf where
  vnodeCnt := 4
  md5 s :=
    if s = text "4@10.0.0.1:80.1#0" then
      [124, 145, 193, 134, 25, 113, 242, 191, 245, 32, 204, 50, 160, 82, 56, 24]
    else if s = text "4@10.0.0.1:80.2#0" then
      [159, 193, 41, 212, 44, 28, 216, 60, 119, 74, 214, 31, 226, 116, 124, 136]
    else []

/-- A record with a number of workers, refreshed at time 1. -/
def sampleZkNode (workerCnt : UInt32) : ZkNode where
  path := text "/kimserver/logic/0000000001"
  type := text "logic"
  host := text "10.0.0.1"
  port := 80
  workerCnt := workerCnt
  activeTime := ⟨0x3FF0000000000000⟩

end Kimserver
