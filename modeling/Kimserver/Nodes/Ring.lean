import Kimserver.Nodes.Registry

/-!
# The ring of virtual nodes

Each node type has a ring, a map from 32-bit points to nodes. In every reachable state, and
for every digest function, a ring of a type points only at registered nodes of this type, each
from one of its own points.

## Main definitions

* `Nodes.RingSound`: the invariant of the nodes and the rings

## Main results

* `Nodes.RingSound.addZkNode`, `Nodes.RingSound.delZkNode`: the operations keep it
* `Nodes.ringSound_run`: it holds after every run
* `Nodes.RingSound.point_free`: a point that no registered node generates is free
-/

namespace Kimserver

namespace Nodes

/-- The nodes are stored under their ids with their own points, and every entry of a ring
points at a registered node of the ring's type from one of the node's points. -/
structure RingSound (cfg : NodesConf) (s : Nodes) : Prop where
  made : ∀ {id node}, s.nodes.lookup id = some node → node.id = id ∧ node.vnodes = genVnodes cfg id
  points : ∀ {type v node}, (s.ring type).lookup v = some node →
    s.nodes.lookup node.id = some node ∧ node.type = type ∧ v ∈ node.vnodes

theorem ringSound_empty (cfg : NodesConf) (version : UInt32) (myZkNode : Bytes) :
    RingSound cfg { version := version, myZkNode := myZkNode } where
  made h := by simp at h
  points h := by simp [ring] at h

/-- The invariant reads the nodes and the rings only. -/
theorem RingSound.congr {cfg : NodesConf} {s t : Nodes} (h : RingSound cfg s)
    (hnodes : t.nodes = s.nodes) (hvnodes : t.vnodes = s.vnodes) : RingSound cfg t where
  made hn := h.made (hnodes ▸ hn)
  points hn := by
    have := h.points (show (s.ring _).lookup _ = some _ by rwa [ring, ← hvnodes])
    rwa [hnodes]

/-- A point that no registered node generates is free in every ring. -/
theorem RingSound.point_free {cfg : NodesConf} {s : Nodes} (h : RingSound cfg s) {v : UInt32}
    (hv : ∀ id node, s.nodes.lookup id = some node → v ∉ genVnodes cfg id) (type : Bytes) :
    (s.ring type).lookup v = none := by
  cases hr : (s.ring type).lookup v with
  | none => rfl
  | some node =>
    obtain ⟨hnode, -, hmem⟩ := h.points hr
    rw [(h.made hnode).2] at hmem
    exact absurd hmem (hv _ _ hnode)

theorem RingSound.addNode {cfg : NodesConf} {s : Nodes} (h : RingSound cfg s)
    (nodeType host : Bytes) (port worker : ℤ) :
    RingSound cfg (s.addNode cfg nodeType host port worker).1 := by
  refine ⟨fun {id node} hn => ?_, fun {type v node} hr => ?_⟩
  · rcases addNode_lookup cfg s nodeType host port worker id with heq | ⟨rfl, -, heq⟩
    · exact h.made (heq ▸ hn)
    · rw [heq] at hn
      obtain rfl := Option.some.inj hn
      exact ⟨rfl, rfl⟩
  · rcases addNode_ring cfg s nodeType host port worker type v with heq | ⟨rfl, hv, heq, hnew⟩
    · obtain ⟨hnode, hrest⟩ := h.points (heq ▸ hr)
      refine ⟨?_, hrest⟩
      rcases addNode_lookup cfg s nodeType host port worker node.id with hid | ⟨-, hnone, -⟩
      · rw [hid, hnode]
      · rw [hnone] at hnode
        exact absurd hnode (by simp)
    · rw [heq] at hr
      obtain rfl := Option.some.inj hr
      exact ⟨hnew, rfl, hv⟩

theorem RingSound.delNode {cfg : NodesConf} {s : Nodes} (h : RingSound cfg s) (nodeId : Bytes) :
    RingSound cfg (s.delNode nodeId).1 := by
  cases hn : s.nodes.lookup nodeId with
  | none => rwa [delNode_none hn]
  | some node =>
    refine ⟨fun {id n} hid => ?_, fun {type v n} hr => ?_⟩
    · rw [delNode_lookup] at hid
      split_ifs at hid
      exact h.made hid
    · -- an entry that is left was there before, and is none of the points erased
      rw [delNode_ring hn] at hr
      split_ifs at hr with hnot
      obtain ⟨hnode, htype, hv⟩ := h.points hr
      rw [delNode_lookup, if_neg]
      · exact ⟨hnode, htype, hv⟩
      · intro hid
        rw [hid, hn] at hnode
        obtain rfl := Option.some.inj hnode
        exact hnot ⟨htype.symm, hv⟩

/-! ## The zookeeper operations -/

section Operations

variable {cfg : NodesConf} {s : Nodes}

theorem RingSound.addNodes (h : RingSound cfg s) (z : ZkNode) (n : ℕ) :
    RingSound cfg (Nodes.addNodes cfg s z n) :=
  addNodes_invariant cfg s z n h fun _ _ hs => hs.addNode ..

theorem RingSound.delNodes (h : RingSound cfg s) (z : ZkNode) (n : ℕ) :
    RingSound cfg (Nodes.delNodes s z n) :=
  delNodes_invariant s z n h fun _ _ hs => hs.delNode _

theorem RingSound.delZkNode (h : RingSound cfg s) (path : Bytes) :
    RingSound cfg (s.delZkNode path).1 := by
  unfold Nodes.delZkNode
  split
  · exact h
  · exact (h.delNodes ..).congr rfl rfl

theorem RingSound.checkZkNodeHost (h : RingSound cfg s) (z : ZkNode) :
    RingSound cfg (s.checkZkNodeHost z).1 := by
  unfold Nodes.checkZkNodeHost
  split
  · exact h
  · split
    · exact h.congr rfl rfl
    · split_ifs
      · exact h
      · exact h
      · exact h.delZkNode _

theorem RingSound.storeZkNode (h : RingSound cfg s) (z : ZkNode) :
    RingSound cfg (Nodes.storeZkNode cfg s z) := by
  unfold Nodes.storeZkNode
  split
  · exact RingSound.addNodes (s := { s with zkNodes := s.zkNodes.insert z.path z })
      (h.congr rfl rfl) z _
  · split_ifs
    · have hdel := RingSound.delNodes (s := { s with zkNodes := s.zkNodes.insert z.path z })
        (h.congr rfl rfl) z (z.workerCnt.toNat - 1)
      exact hdel.addNodes z _
    · exact h

theorem RingSound.addZkNode (h : RingSound cfg s) (z : ZkNode) :
    RingSound cfg (s.addZkNode cfg z).1 := by
  have hchk := h.checkZkNodeHost z
  unfold Nodes.addZkNode
  split_ifs
  · exact h
  · split
    · next heq => rwa [heq] at hchk
    · next heq =>
      rw [heq] at hchk
      exact (hchk.storeZkNode z).congr rfl rfl

end Operations

/-- **The rings point at registered nodes after every run of operations.** -/
theorem ringSound_run (cfg : NodesConf) (ops : List NodesOp) :
    RingSound cfg ((nodesMachine cfg).run {} ops) := by
  refine (nodesMachine cfg).run_invariant (fun s op h => ?_) (ringSound_empty cfg 0 []) ops
  cases op with
  | addZkNode z => exact h.addZkNode z
  | delZkNode path => exact h.delZkNode path
  | setMyZkNodePath path => exact h.congr rfl rfl
  | clear => exact ringSound_empty cfg _ _

end Nodes

end Kimserver
