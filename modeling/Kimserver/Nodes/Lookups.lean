import Kimserver.Nodes.Routing

/-!
# Lookups when nodes come and go

An addition inserts the points of the new node that are free in the ring of its type, so it
moves objects to the new node only. A deletion erases the points of the node's own list, and a
point of this list may be in the ring for another node that came first: the owner of such a
point loses it. The lookups of the other nodes are safe in the runs in which every addition
finds all the points of the new node free, or none.

## Main definitions

* `NodesCall`, `callMachine`: the assignments that the operations of a registry are made of
* `NodesCall.Clean`: an addition that finds all the points of the node free, or none
* `Nodes.Exclusive`: every registered node owns all its points
* `Nodes.Unknown`: neither the path, the host nor a node of a record is registered
* `Nodes.Undisturbed`: nodes come and go without moving the objects of other nodes

## Main results

* `Nodes.addNode_getNodeInHash`: an addition moves objects to the new node only
* `callMachine_run`: every run of the operations is a run of the assignments
* `Nodes.Exclusive.ring_iff`: rings that are owned exclusively are determined by the nodes
* `Nodes.undisturbed_run`: after clean additions a deletion moves the node's own objects only
-/

namespace Kimserver

namespace Nodes

/-- The lookup is the search of the ring. -/
theorem getNodeInHash_eq_next (ha : HashAlgorithm) (s : Nodes) (nodeType obj : Bytes) :
    s.getNodeInHash ha nodeType obj = (s.ring nodeType).next (hash ha obj) :=
  getNodeInHash_eq ha s nodeType obj

/-! ## Additions -/

section AddNode

variable (cfg : NodesConf) (s : Nodes) (nodeType host : Bytes) (port worker : ℤ)

/-- An addition that fails leaves every ring as it was. -/
theorem addNode_false_ring (h : (s.addNode cfg nodeType host port worker).2 = false)
    (type : Bytes) : (s.addNode cfg nodeType host port worker).1.ring type = s.ring type := by
  unfold addNode at h ⊢
  dsimp only at h ⊢
  split_ifs at h ⊢ with hknown hsize
  rw [FiniteMap.addAbsent_eq_self hsize]
  simp only [ring, FiniteMap.lookup_insert]
  split_ifs with htype
  · rw [htype, Option.getD_some]
  · rfl

/-- The new entries of a ring all point at the new node. -/
theorem addNode_ring_or (type : Bytes) (v : UInt32) :
    ((s.addNode cfg nodeType host port worker).1.ring type).lookup v = (s.ring type).lookup v ∨
      (s.ring type).lookup v = none ∧
        ((s.addNode cfg nodeType host port worker).1.ring type).lookup v =
          some (newNode cfg nodeType host port worker) := by
  cases hknown : s.nodes.lookup (formatNodesId host port worker) with
  | some node => exact Or.inl (by rw [addNode_known (by rw [hknown]; rfl)])
  | none =>
    rw [addNode_ring_unknown hknown]
    cases (s.ring type).lookup v with
    | some node => exact Or.inl rfl
    | none =>
      rw [Option.none_or]
      split_ifs
      · exact Or.inr ⟨rfl, rfl⟩
      · exact Or.inl rfl

/-- The ring of another type is left alone. -/
theorem addNode_ring_ne {type : Bytes} (h : type ≠ nodeType) :
    (s.addNode cfg nodeType host port worker).1.ring type = s.ring type := by
  refine Finmap.ext_lookup fun v => ?_
  rcases addNode_ring cfg s nodeType host port worker type v with heq | ⟨htype, -⟩
  · exact heq
  · exact absurd htype h

/-- An addition of an unknown id that succeeds registers the new node. -/
theorem addNode_true_lookup (hunknown : s.nodes.lookup (formatNodesId host port worker) = none)
    (h : (s.addNode cfg nodeType host port worker).2 = true) :
    (s.addNode cfg nodeType host port worker).1.nodes.lookup (formatNodesId host port worker) =
      some (newNode cfg nodeType host port worker) := by
  unfold addNode at h ⊢
  simp only [hunknown, Option.isSome_none, Bool.false_eq_true, if_false] at h ⊢
  split_ifs at h ⊢
  simp

/-- **An addition moves objects to the new node only**: in every state and for every digest
function, a lookup of the type finds the node it found before, or the node that was added; a
lookup of another type, and every lookup after an addition that failed, finds what it found. -/
theorem addNode_getNodeInHash (ha : HashAlgorithm) :
    (∀ obj, (s.addNode cfg nodeType host port worker).1.getNodeInHash ha nodeType obj =
        s.getNodeInHash ha nodeType obj ∨
      s.nodes.lookup (formatNodesId host port worker) = none ∧
        (s.addNode cfg nodeType host port worker).1.nodes.lookup
          (formatNodesId host port worker) = some (newNode cfg nodeType host port worker) ∧
        (s.addNode cfg nodeType host port worker).1.getNodeInHash ha nodeType obj =
          some (newNode cfg nodeType host port worker)) ∧
    (∀ type obj, type ≠ nodeType →
      (s.addNode cfg nodeType host port worker).1.getNodeInHash ha type obj =
        s.getNodeInHash ha type obj) ∧
    ((s.addNode cfg nodeType host port worker).2 = false →
      ∀ type obj, (s.addNode cfg nodeType host port worker).1.getNodeInHash ha type obj =
        s.getNodeInHash ha type obj) := by
  simp only [getNodeInHash_eq_next]
  refine ⟨fun obj => ?_, fun type obj htype => ?_, fun hfalse type obj => ?_⟩
  · cases hknown : s.nodes.lookup (formatNodesId host port worker) with
    | some node =>
      left
      rw [addNode_known (by rw [hknown]; rfl)]
    | none =>
      cases hres : (s.addNode cfg nodeType host port worker).2 with
      | false =>
        left
        rw [addNode_false_ring cfg s nodeType host port worker hres]
      | true =>
        have hnew := addNode_true_lookup cfg s nodeType host port worker hknown hres
        rcases FiniteMap.next_eq_or (addNode_ring_or cfg s nodeType host port worker nodeType)
          (hash ha obj) with hsame | hmoved
        · exact Or.inl hsame
        · exact Or.inr ⟨rfl, hnew, hmoved⟩
  · rw [addNode_ring_ne cfg s nodeType host port worker htype]
  · rw [addNode_false_ring cfg s nodeType host port worker hfalse]

end AddNode

/-! ## Exclusive owners -/

/-- Every registered node has points and owns them all. -/
structure Exclusive (cfg : NodesConf) (s : Nodes) : Prop extends RingSound cfg s where
  pointed : ∀ {id node}, s.nodes.lookup id = some node → node.vnodes ≠ []
  owns : ∀ {id node v}, s.nodes.lookup id = some node → v ∈ node.vnodes →
    (s.ring node.type).lookup v = some node

theorem exclusive_empty (cfg : NodesConf) (version : UInt32) (myZkNode : Bytes) :
    Exclusive cfg { version := version, myZkNode := myZkNode } where
  toRingSound := ringSound_empty cfg version myZkNode
  pointed h := by simp at h
  owns h := by simp at h

section Exclusive

variable {cfg : NodesConf} {s t : Nodes}

theorem Exclusive.congr (h : Exclusive cfg s) (hnodes : t.nodes = s.nodes)
    (hvnodes : t.vnodes = s.vnodes) : Exclusive cfg t where
  toRingSound := h.toRingSound.congr hnodes hvnodes
  pointed hn := h.pointed (hnodes ▸ hn)
  owns hn hv := by
    rw [ring, hvnodes]
    exact h.owns (hnodes ▸ hn) hv

/-- The entries of the rings, read off the nodes. -/
theorem Exclusive.ring_iff (h : Exclusive cfg s) {type : Bytes} {v : UInt32} {node : Node} :
    (s.ring type).lookup v = some node ↔
      s.nodes.lookup node.id = some node ∧ node.type = type ∧ v ∈ node.vnodes := by
  constructor
  · exact fun hr => h.points hr
  · rintro ⟨hnode, rfl, hv⟩
    exact h.owns hnode hv

/-- **Rings that are owned exclusively are determined by the nodes.** -/
theorem Exclusive.ring_eq (hs : Exclusive cfg s) (ht : Exclusive cfg t)
    (hnodes : t.nodes = s.nodes) (type : Bytes) : t.ring type = s.ring type := by
  refine Finmap.ext_lookup fun v => Option.ext fun node => ?_
  rw [ht.ring_iff, hs.ring_iff, hnodes]

/-- A node is registered only if one of its points is free. -/
theorem exists_free_of_registered {nodeType host : Bytes} {port worker : ℤ}
    (hunknown : s.nodes.lookup (formatNodesId host port worker) = none)
    (hnew : (s.addNode cfg nodeType host port worker).1.nodes.lookup
      (formatNodesId host port worker) = some (newNode cfg nodeType host port worker)) :
    ∃ v ∈ genVnodes cfg (formatNodesId host port worker),
      (s.ring nodeType).lookup v = none := by
  by_contra htaken
  push Not at htaken
  have hsame : FiniteMap.addAbsent (s.ring nodeType)
      (newNode cfg nodeType host port worker).vnodes (newNode cfg nodeType host port worker) =
        s.ring nodeType := by
    refine Finmap.ext_lookup fun v => ?_
    rw [FiniteMap.lookup_addAbsent]
    split_ifs with hv
    · obtain ⟨node, hnode⟩ := Option.ne_none_iff_exists'.mp (htaken v hv)
      rw [hnode, Option.some_or]
    · rw [Option.or_none]
  unfold addNode at hnew
  simp only [hunknown, Option.isSome_none, Bool.false_eq_true, if_false, hsame, if_true] at hnew
  exact absurd hnew (by simp)

/-- An addition keeps the owners exclusive when the new node's points are all free, or none. -/
theorem Exclusive.addNode (h : Exclusive cfg s) {nodeType host : Bytes} {port worker : ℤ}
    (hclean : s.nodes.lookup (formatNodesId host port worker) = none →
      (∀ v ∈ genVnodes cfg (formatNodesId host port worker), (s.ring nodeType).lookup v = none) ∨
      ∀ v ∈ genVnodes cfg (formatNodesId host port worker),
        (s.ring nodeType).lookup v ≠ none) :
    Exclusive cfg (s.addNode cfg nodeType host port worker).1 := by
  -- a registered node is the old one or the new one, and the new one found its points free
  have hcases : ∀ {id node},
      (s.addNode cfg nodeType host port worker).1.nodes.lookup id = some node →
      s.nodes.lookup id = some node ∨ node = newNode cfg nodeType host port worker ∧
        s.nodes.lookup (formatNodesId host port worker) = none ∧
        (∃ v, v ∈ node.vnodes) ∧ ∀ v ∈ node.vnodes, (s.ring nodeType).lookup v = none := by
    intro id node hn
    rcases addNode_lookup cfg s nodeType host port worker id with heq | ⟨rfl, hunknown, hnew⟩
    · exact Or.inl (heq ▸ hn)
    · rw [hnew, Option.some.injEq] at hn
      obtain ⟨v, hv, hfree⟩ := exists_free_of_registered hunknown hnew
      rcases hclean hunknown with hall | hnone
      · subst hn
        exact Or.inr ⟨rfl, hunknown, ⟨v, hv⟩, hall⟩
      · exact absurd hfree (hnone v hv)
  refine ⟨h.toRingSound.addNode .., fun {id node} hn => ?_, fun {id node v} hn hv => ?_⟩
  · rcases hcases hn with hold | ⟨-, -, ⟨v, hv⟩, -⟩
    · exact h.pointed hold
    · exact List.ne_nil_of_mem hv
  · rcases hcases hn with hold | ⟨rfl, hunknown, -, hfree⟩
    · have howned := h.owns hold hv
      rcases addNode_ring_or cfg s nodeType host port worker node.type v with heq | ⟨hnone, -⟩
      · rw [heq, howned]
      · rw [hnone] at howned
        exact absurd howned (by simp)
    · have htype : (newNode cfg nodeType host port worker).type = nodeType := rfl
      rw [htype, addNode_ring_unknown hunknown, hfree v hv, Option.none_or, if_pos ⟨rfl, hv⟩]

theorem Exclusive.delNode (h : Exclusive cfg s) (nodeId : Bytes) :
    Exclusive cfg (s.delNode nodeId).1 := by
  cases hn : s.nodes.lookup nodeId with
  | none => rwa [delNode_none hn]
  | some n =>
    refine ⟨h.toRingSound.delNode nodeId, fun {id node} hid => ?_, fun {id node v} hid hv => ?_⟩
    · rw [delNode_lookup] at hid
      split_ifs at hid
      exact h.pointed hid
    · rw [delNode_lookup] at hid
      split_ifs at hid with hne
      rw [delNode_ring hn, if_neg, h.owns hid hv]
      rintro ⟨htype, hmem⟩
      -- the two nodes would own one point of one ring
      have hown := h.owns hid hv
      rw [htype, h.owns hn hmem, Option.some.injEq] at hown
      rw [← (h.made hid).1, ← hown, (h.made hn).1] at hne
      exact hne rfl

/-- The ring before a deletion has the entries of the ring after it, and those of the node. -/
theorem Exclusive.delNode_ring_or (h : Exclusive cfg s) {nodeId : Bytes} {n : Node}
    (hn : s.nodes.lookup nodeId = some n) (type : Bytes) (v : UInt32) :
    (s.ring type).lookup v = ((s.delNode nodeId).1.ring type).lookup v ∨
      ((s.delNode nodeId).1.ring type).lookup v = none ∧ (s.ring type).lookup v = some n := by
  rw [delNode_ring hn]
  split_ifs with herased
  · obtain ⟨rfl, hv⟩ := herased
    exact Or.inr ⟨rfl, h.owns hn hv⟩
  · exact Or.inl rfl

/-- A deletion moves the objects of the deleted node only. -/
theorem Exclusive.delNode_getNodeInHash (h : Exclusive cfg s) {nodeId : Bytes} {n m : Node}
    (hn : s.nodes.lookup nodeId = some n) {ha : HashAlgorithm} {type obj : Bytes}
    (hget : s.getNodeInHash ha type obj = some m) (hne : m ≠ n) :
    (s.delNode nodeId).1.getNodeInHash ha type obj = some m := by
  rw [getNodeInHash_eq_next] at hget ⊢
  rcases FiniteMap.next_eq_or (h.delNode_ring_or hn type) (hash ha obj) with hsame | hown
  · rw [← hsame, hget]
  · rw [hget, Option.some.injEq] at hown
    exact absurd hown hne

/-- The lookups of the type of a registered node find a node. -/
theorem Exclusive.getNodeInHash_ne_none (h : Exclusive cfg s) {nodeId : Bytes} {n : Node}
    (hn : s.nodes.lookup nodeId = some n) (ha : HashAlgorithm) (obj : Bytes) :
    s.getNodeInHash ha n.type obj ≠ none := by
  obtain ⟨v, hv⟩ := List.exists_mem_of_ne_nil _ (h.pointed hn)
  have hown := h.owns hn hv
  rw [getNodeInHash_eq_next, Ne, FiniteMap.next_eq_none]
  intro hempty
  have hmem : v ∈ (s.ring n.type).keys := by
    rw [Finmap.mem_keys, ← Finmap.lookup_isSome, hown, Option.isSome_some]
  rw [hempty] at hmem
  exact absurd hmem (Finset.notMem_empty v)

end Exclusive

end Nodes

/-! ## The assignments of a registry -/

/-- What the operations of a registry are made of: calls of `add_node` and `del_node`, the
assignments to the other members, and `clear`. -/
inductive NodesCall
  | addNode (nodeType host : Bytes) (port worker : ℤ)
  | delNode (nodeId : Bytes)
  | records (hostZkPaths : FiniteMap Bytes Bytes) (zkNodes : FiniteMap Bytes ZkNode)
      (myZkNode : Bytes)
  | clear

/-- A registry taking assignments. -/
def callMachine (cfg : NodesConf) : Machine Nodes NodesCall where
  step s
    | .addNode nodeType host port worker => (s.addNode cfg nodeType host port worker).1
    | .delNode nodeId => (s.delNode nodeId).1
    | .records hostZkPaths zkNodes myZkNode =>
      { s with hostZkPaths := hostZkPaths, zkNodes := zkNodes, myZkNode := myZkNode }
    | .clear => s.clear

/-- The additions that leave no point of the new node with another owner: its points are all
free in the ring of its type, or all taken, and then it is refused. -/
def NodesCall.Clean (cfg : NodesConf) (s : Nodes) : NodesCall → Prop
  | .addNode nodeType host port worker =>
    s.nodes.lookup (formatNodesId host port worker) = none →
      (∀ v ∈ genVnodes cfg (formatNodesId host port worker), (s.ring nodeType).lookup v = none) ∨
      ∀ v ∈ genVnodes cfg (formatNodesId host port worker), (s.ring nodeType).lookup v ≠ none
  | _ => True

instance (cfg : NodesConf) (s : Nodes) : ∀ call, Decidable (NodesCall.Clean cfg s call)
  | .addNode nodeType host port worker =>
    -- the points are those of a list, not all numbers
    haveI : Decidable (∀ v ∈ genVnodes cfg (formatNodesId host port worker),
        (s.ring nodeType).lookup v = none) := List.decidableBAll _ _
    haveI : Decidable (∀ v ∈ genVnodes cfg (formatNodesId host port worker),
        (s.ring nodeType).lookup v ≠ none) := List.decidableBAll _ _
    inferInstanceAs (Decidable (_ → _ ∨ _))
  | .delNode _ => inferInstanceAs (Decidable True)
  | .records .. => inferInstanceAs (Decidable True)
  | .clear => inferInstanceAs (Decidable True)

/-- The calls of `add_node` for the workers `1, …, n` of `z`. -/
def ZkNode.addCalls (z : ZkNode) (n : ℕ) : List NodesCall :=
  (List.range n).map fun i => .addNode z.type z.host z.intPort (CInt.toInt ((i + 1 : ℕ) : ℤ))

section Calls

variable (cfg : NodesConf) (s : Nodes)

theorem run_addCalls (z : ZkNode) (n : ℕ) :
    (callMachine cfg).run s (z.addCalls n) = Nodes.addNodes cfg s z n := by
  simp only [Machine.run, ZkNode.addCalls, List.foldl_map, Nodes.addNodes, callMachine]

/-- The state `t` is reached from `s` by assignments. -/
def Assigned (s t : Nodes) : Prop := ∃ calls, (callMachine cfg).run s calls = t

variable {cfg s}

theorem Assigned.refl : Assigned cfg s s := ⟨[], rfl⟩

theorem Assigned.trans {t u : Nodes} (h : Assigned cfg s t) (h' : Assigned cfg t u) :
    Assigned cfg s u := by
  obtain ⟨calls, rfl⟩ := h
  obtain ⟨calls', rfl⟩ := h'
  exact ⟨calls ++ calls', Machine.run_append _ s calls calls'⟩

theorem Assigned.records (hostZkPaths : FiniteMap Bytes Bytes) (zkNodes : FiniteMap Bytes ZkNode)
    (myZkNode : Bytes) :
    Assigned cfg s
      { s with hostZkPaths := hostZkPaths, zkNodes := zkNodes, myZkNode := myZkNode } :=
  ⟨[.records hostZkPaths zkNodes myZkNode], rfl⟩

theorem Assigned.addNodes (z : ZkNode) (n : ℕ) : Assigned cfg s (Nodes.addNodes cfg s z n) :=
  ⟨z.addCalls n, run_addCalls cfg s z n⟩

theorem Assigned.delNodes (z : ZkNode) (n : ℕ) : Assigned cfg s (Nodes.delNodes s z n) :=
  Nodes.delNodes_invariant (P := Assigned cfg s) s z n Assigned.refl
    fun _ nodeId h => h.trans ⟨[.delNode nodeId], rfl⟩

theorem Assigned.delZkNode (path : Bytes) : Assigned cfg s (s.delZkNode path).1 := by
  unfold Nodes.delZkNode
  split
  · exact Assigned.refl
  · exact (Assigned.delNodes ..).trans (Assigned.records _ _ _)

theorem Assigned.checkZkNodeHost (z : ZkNode) : Assigned cfg s (s.checkZkNodeHost z).1 := by
  unfold Nodes.checkZkNodeHost
  split
  · exact Assigned.refl
  · split
    · exact Assigned.records _ s.zkNodes s.myZkNode
    · split_ifs
      · exact Assigned.refl
      · exact Assigned.refl
      · exact Assigned.delZkNode _

theorem Assigned.storeZkNode (z : ZkNode) : Assigned cfg s (Nodes.storeZkNode cfg s z) := by
  have hstored : Assigned cfg s { s with zkNodes := s.zkNodes.insert z.path z } :=
    Assigned.records s.hostZkPaths (s.zkNodes.insert z.path z) s.myZkNode
  unfold Nodes.storeZkNode
  split
  · exact hstored.trans (Assigned.addNodes ..)
  · split_ifs
    · exact (hstored.trans (Assigned.delNodes ..)).trans (Assigned.addNodes ..)
    · exact Assigned.refl

theorem Assigned.addZkNode (z : ZkNode) : Assigned cfg s (s.addZkNode cfg z).1 := by
  have hchk : Assigned cfg s (s.checkZkNodeHost z).1 := Assigned.checkZkNodeHost z
  unfold Nodes.addZkNode
  split_ifs
  · exact Assigned.refl
  · split
    · next heq => rwa [heq] at hchk
    · next heq =>
      rw [heq] at hchk
      exact (hchk.trans (Assigned.storeZkNode z)).trans (Assigned.records _ _ _)

/-- **Every run of the operations is a run of the assignments.** -/
theorem callMachine_run (cfg : NodesConf) (ops : List NodesOp) :
    ∃ calls, (callMachine cfg).run {} calls = (nodesMachine cfg).run {} ops := by
  refine (nodesMachine cfg).run_invariant (P := Assigned cfg {}) (fun s op h => ?_)
    Assigned.refl ops
  cases op with
  | addZkNode z => exact h.trans (Assigned.addZkNode z)
  | delZkNode path => exact h.trans (Assigned.delZkNode path)
  | setMyZkNodePath path => exact h.trans (Assigned.records s.hostZkPaths s.zkNodes path)
  | clear => exact h.trans ⟨[.clear], rfl⟩

end Calls

namespace Nodes

/-- Neither the path, the host nor a node of `z` is registered. -/
structure Unknown (s : Nodes) (z : ZkNode) : Prop where
  path : s.zkNodes.lookup z.path = none
  host : s.hostZkPaths.lookup z.hostKey = none
  nodes : ∀ id ∈ z.nodeIds z.workerCnt.toNat, s.nodes.lookup id = none

/-- The nodes of a registry come and go without disturbing the objects of other nodes. -/
structure Undisturbed (cfg : NodesConf) (s : Nodes) : Prop where
  others : ∀ {nodeId n}, s.nodes.lookup nodeId = some n → ∀ {ha type obj m},
    s.getNodeInHash ha type obj = some m → m ≠ n →
      (s.delNode nodeId).1.getNodeInHash ha type obj = some m
  restored : ∀ {z}, s.Unknown z →
    (callMachine cfg).Meets (NodesCall.Clean cfg)
      { s with zkNodes := s.zkNodes.insert z.path z } (z.addCalls z.workerCnt.toNat) →
    ∀ ha type obj, ((s.addZkNode cfg z).1.delZkNode z.path).1.getNodeInHash ha type obj =
      s.getNodeInHash ha type obj
  found : ∀ {nodeId n}, s.nodes.lookup nodeId = some n → ∀ ha obj,
    s.getNodeInHash ha n.type obj ≠ none

section Runs

variable {cfg : NodesConf} {s : Nodes}

/-- What a clean call does keeps the owners exclusive. -/
theorem Exclusive.step (h : Exclusive cfg s) {call : NodesCall}
    (hclean : NodesCall.Clean cfg s call) : Exclusive cfg ((callMachine cfg).step s call) := by
  cases call with
  | addNode nodeType host port worker => exact h.addNode hclean
  | delNode nodeId => exact h.delNode nodeId
  | records hostZkPaths zkNodes myZkNode => exact h.congr rfl rfl
  | clear => exact exclusive_empty cfg _ _

theorem Exclusive.run (h : Exclusive cfg s) {calls : List NodesCall}
    (hclean : (callMachine cfg).Meets (NodesCall.Clean cfg) s calls) :
    Exclusive cfg ((callMachine cfg).run s calls) :=
  Machine.Meets.invariant (fun _ _ hs hc => hs.step hc) h hclean

theorem Exclusive.delNodes (h : Exclusive cfg s) (z : ZkNode) (n : ℕ) :
    Exclusive cfg (Nodes.delNodes s z n) :=
  delNodes_invariant s z n h fun _ _ hs => hs.delNode _

/-- The additions for a record leave the other ids alone. -/
theorem addNodes_lookup_ne (z : ZkNode) (n : ℕ) {id : Bytes} (hid : id ∉ z.nodeIds n) :
    (Nodes.addNodes cfg s z n).nodes.lookup id = s.nodes.lookup id := by
  induction n with
  | zero => rfl
  | succ n ih =>
    rw [ZkNode.nodeIds_succ, List.mem_append, List.mem_singleton, not_or] at hid
    rw [addNodes_succ]
    rcases addNode_lookup cfg (Nodes.addNodes cfg s z n) z.type z.host z.intPort
      (CInt.toInt ((n + 1 : ℕ) : ℤ)) id with heq | ⟨hlast, -⟩
    · rw [heq, ih hid.1]
    · exact absurd hlast hid.2

/-- A record that is registered and deleted again leaves the nodes as they were, and the
owners exclusive. -/
theorem Exclusive.addZkNode_delZkNode (h : Exclusive cfg s) {z : ZkNode} (hz : s.Unknown z)
    (hclean : (callMachine cfg).Meets (NodesCall.Clean cfg)
      { s with zkNodes := s.zkNodes.insert z.path z } (z.addCalls z.workerCnt.toNat)) :
    Exclusive cfg ((s.addZkNode cfg z).1.delZkNode z.path).1 ∧
      ((s.addZkNode cfg z).1.delZkNode z.path).1.nodes = s.nodes := by
  cases hvalid : isValidZkNode z with
  | false =>
    have hsame : (s.addZkNode cfg z).1 = s := by
      unfold addZkNode
      rw [if_pos hvalid]
    rw [hsame, delZkNode_none hz.path]
    exact ⟨h, rfl⟩
  | true =>
    have hadded : Exclusive cfg
        (Nodes.addNodes cfg { s with zkNodes := s.zkNodes.insert z.path z } z
          z.workerCnt.toNat) := by
      rw [← run_addCalls]
      exact Exclusive.run (s := { s with zkNodes := s.zkNodes.insert z.path z })
        (h.congr rfl rfl) hclean
    have hhosted : Exclusive cfg
        { Nodes.addNodes cfg { s with zkNodes := s.zkNodes.insert z.path z } z
            z.workerCnt.toNat with
          hostZkPaths := s.hostZkPaths.insert z.hostKey z.path } := hadded.congr rfl rfl
    rw [addZkNode_new hvalid hz.host hz.path]
    rw [delZkNode_some (z := z) (by rw [addNodes_zkNodes]; simp)]
    refine ⟨(hhosted.delNodes z z.workerCnt.toNat).congr rfl rfl,
      Finmap.ext_lookup fun id => ?_⟩
    dsimp only
    rw [delNodes_lookup]
    split_ifs with hid
    · exact (hz.nodes id hid).symm
    · exact addNodes_lookup_ne z _ hid

/-- **After clean additions nodes come and go without disturbing other nodes**: for every digest
function, in every state reached by assignments whose additions find the points of their node
all free or all taken. -/
theorem undisturbed_run (cfg : NodesConf) {calls : List NodesCall}
    (hclean : (callMachine cfg).Meets (NodesCall.Clean cfg) {} calls) :
    Undisturbed cfg ((callMachine cfg).run {} calls) := by
  have h : Exclusive cfg ((callMachine cfg).run {} calls) :=
    Exclusive.run (exclusive_empty cfg 0 []) hclean
  refine ⟨fun hn _ _ _ _ hget hne => h.delNode_getNodeInHash hn hget hne, ?_,
    fun hn ha obj => h.getNodeInHash_ne_none hn ha obj⟩
  intro z hz hadd ha type obj
  obtain ⟨hback, hnodes⟩ := h.addZkNode_delZkNode hz hadd
  rw [getNodeInHash_eq_next, getNodeInHash_eq_next, h.ring_eq hback hnodes]

end Runs

/-- The calls that register the two sample records, of one worker each. -/
def sampleCalls : List NodesCall := (sampleZkNode 1).addCalls 1 ++ otherZkNode.addCalls 1

/-- Two nodes without a common point come and go undisturbed. -/
theorem undisturbed_apart : Undisturbed apartConf ((callMachine apartConf).run {} sampleCalls) :=
  undisturbed_run apartConf (by decide +kernel)

/-- Digests that give the first sample node the point 0 only, and the second one this and three
other points. -/
def coveredConf : NodesConf where
  vnodeCnt := 4
  md5 s :=
    if s = text "4@10.0.0.1:80.1#0" then [0, 0, 0, 0, 0, 0, 0, 0, 0, 0, 0, 0, 0, 0, 0, 0]
    else [0, 0, 0, 0, 4, 0, 0, 0, 5, 0, 0, 0, 6, 0, 0, 0]

/-- The second sample node erases the only point of the first: an object of the first is lost,
deleting the second record does not restore the lookup, and a type with a registered node looks
empty. -/
theorem covered_disturbed :
    let s := (nodesMachine coveredConf).run {} [.addZkNode (sampleZkNode 1)]
    let t := (s.addZkNode coveredConf otherZkNode).1
    (s.getNodeInHash .fnv1a_64 (text "logic") (text "user")).map Node.id =
        some (text "10.0.0.1:80.1") ∧
      (t.getNodeInHash .fnv1a_64 (text "logic") (text "user")).map Node.id =
        some (text "10.0.0.1:80.1") ∧
      (t.nodes.lookup (text "10.0.0.2:80.1")).isSome ∧
      (t.delNode (text "10.0.0.2:80.1")).1.getNodeInHash .fnv1a_64 (text "logic") (text "user") =
        none ∧
      ((t.delNode (text "10.0.0.2:80.1")).1.nodes.lookup (text "10.0.0.1:80.1")).isSome ∧
      (t.delZkNode otherZkNode.path).1.getNodeInHash .fnv1a_64 (text "logic") (text "user") =
        none := by
  decide +kernel

end Nodes

end Kimserver
