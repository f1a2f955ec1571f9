import Kimserver.Nodes.Ring

/-!
# Worker nodes and the registry

`m_nodes` is meant to hold one entry for each worker of each registered record. The three
ways in which records come and go (a fresh registration, a takeover of a host, a deletion)
keep the two in step. The update of a registered path does not: its deletions read the new
record. This module finds exactly the updates that keep the correspondence.

## Main definitions

* `Nodes.WorkersExact`: the correspondence
* `Nodes.UpdateCovers`, `Nodes.WorkersStep`: the updates that keep it, and the steps
* `Suitable`: no id is cut, and each id has a ring point of its own

## Main results

* `Nodes.update_exact_iff`: which updates keep the correspondence
* `Nodes.workersExact_run_iff`: it holds along a run exactly when every step is of this kind
-/

namespace Kimserver

/-! ## Ids that are not cut -/

/-- The node ids of the workers of `z`. -/
def ZkNode.workerIds (z : ZkNode) : List Bytes := z.nodeIds z.workerCnt.toNat

/-- `format_nodes_id` cuts no id of a worker of `z`. -/
def ZkNode.NotTruncated (z : ZkNode) : Prop :=
  ∀ i ∈ List.range z.workerCnt.toNat,
    (nodesIdText z.host z.intPort (CInt.toInt ((i + 1 : ℕ) : ℤ))).length < 128

instance (z : ZkNode) : Decidable z.NotTruncated :=
  inferInstanceAs (Decidable (∀ i ∈ List.range _, _))

/-- Each of the ids has a point that none of the others has. -/
def DistinctPoints (cfg : NodesConf) (ids : List Bytes) : Prop :=
  ∀ id ∈ ids, ∃ v ∈ genVnodes cfg id, ∀ id' ∈ ids, v ∈ genVnodes cfg id' → id' = id

instance (cfg : NodesConf) (ids : List Bytes) : Decidable (DistinctPoints cfg ids) :=
  inferInstanceAs (Decidable (∀ id ∈ ids, ∃ v ∈ genVnodes cfg id, ∀ id' ∈ ids, _ → _))

/-- The records a run registers: their ids are not cut, and the digest keeps them apart. -/
structure Suitable (cfg : NodesConf) (zs : List ZkNode) : Prop where
  short : ∀ z ∈ zs, z.NotTruncated
  points : DistinctPoints cfg (zs.flatMap ZkNode.workerIds)

theorem ZkNode.NotTruncated.length {z : ZkNode} (h : z.NotTruncated) {i : ℕ} (h₁ : 1 ≤ i)
    (h₂ : i ≤ z.workerCnt.toNat) :
    (nodesIdText z.host z.intPort (CInt.toInt i)).length < 128 := by
  have := h (i - 1) (List.mem_range.mpr (by omega))
  rwa [Nat.sub_add_cancel h₁] at this

/-- Two workers with one id have one host and one index. -/
theorem ZkNode.nodeId_inj {z w : ZkNode} (hz : z.NotTruncated) (hw : w.NotTruncated) {i j : ℕ}
    (hi : 1 ≤ i) (hi' : i ≤ z.workerCnt.toNat) (hj : 1 ≤ j) (hj' : j ≤ w.workerCnt.toNat)
    (h : z.nodeId i = w.nodeId j) : z.hostKey = w.hostKey ∧ i = j := by
  obtain ⟨hhost, hport, hindex⟩ := formatNodesId_inj (hz.length hi hi') (hw.length hj hj') h
  refine ⟨by rw [hostKey, hostKey, formatHost, formatHost, hhost, hport], ?_⟩
  exact CInt.toInt_natCast_injective (lt_of_le_of_lt hi' z.workerCnt.toNat_lt)
    (lt_of_le_of_lt hj' w.workerCnt.toNat_lt) hindex

/-- Two records with one host name their workers alike. -/
theorem ZkNode.nodeId_congr {z w : ZkNode} (hz : z.NotTruncated) (hw : w.NotTruncated)
    (hz₁ : 1 ≤ z.workerCnt.toNat) (hw₁ : 1 ≤ w.workerCnt.toNat) (h : z.hostKey = w.hostKey) :
    z.intPort = w.intPort ∧ ∀ i, z.nodeId i = w.nodeId i := by
  have hlen : ∀ {v : ZkNode}, v.NotTruncated → 1 ≤ v.workerCnt.toNat →
      (cStr v.host ++ [58] ++ toDecimal v.intPort).length ≤ 255 := by
    intro v hv hv₁
    have := hv.length le_rfl hv₁
    simp only [nodesIdText, List.length_append] at this ⊢
    omega
  unfold hostKey formatHost formatStr at h
  rw [List.take_of_length_le (hlen hz hz₁), List.take_of_length_le (hlen hw hw₁)] at h
  obtain ⟨hhost, hport⟩ := append_sep_inj (colon_notMem_toDecimal _) (colon_notMem_toDecimal _) h
  have hport := toDecimal_injective hport
  refine ⟨hport, fun i => ?_⟩
  rw [nodeId, nodeId, formatNodesId, formatNodesId, nodesIdText, nodesIdText, hhost, hport]

theorem one_le_workerCnt {z : ZkNode} (h : isValidZkNode z = true) : 1 ≤ z.workerCnt.toNat := by
  by_contra hlt
  have hzero : z.workerCnt = 0 := UInt32.toNat_inj.mp (by simpa using hlt)
  simp [isValidZkNode, hzero] at h

namespace Nodes

/-- `node` is the worker `i` of `z`. -/
structure IsWorker (z : ZkNode) (i : ℕ) (node : Node) : Prop where
  id : node.id = z.nodeId i
  type : node.type = z.type
  host : node.host = z.host
  port : node.port = z.intPort
  workerIndex : node.workerIndex = CInt.toInt i

/-- The nodes are the workers of the registered records, one entry for each. -/
structure WorkersExact (s : Nodes) : Prop where
  present : ∀ {path z i}, s.zkNodes.lookup path = some z → 1 ≤ i → i ≤ z.workerCnt.toNat →
    ∃ node, s.nodes.lookup (z.nodeId i) = some node ∧ IsWorker z i node
  owned : ∀ {id node}, s.nodes.lookup id = some node →
    ∃ path z i, s.zkNodes.lookup path = some z ∧ 1 ≤ i ∧ i ≤ z.workerCnt.toNat ∧ id = z.nodeId i
  distinct : ∀ {path z i path' z' i'},
    s.zkNodes.lookup path = some z → 1 ≤ i → i ≤ z.workerCnt.toNat →
    s.zkNodes.lookup path' = some z' → 1 ≤ i' → i' ≤ z'.workerCnt.toNat →
    z.nodeId i = z'.nodeId i' → path = path' ∧ i = i'

/-- The worker `i` of `z` as `add_node` makes it. -/
def workerNode (cfg : NodesConf) (z : ZkNode) (i : ℕ) : Node :=
  newNode cfg z.type z.host z.intPort (CInt.toInt i)

theorem isWorker_workerNode (cfg : NodesConf) (z : ZkNode) (i : ℕ) :
    IsWorker z i (workerNode cfg z i) := by
  constructor <;> simp only [workerNode, newNode, ZkNode.nodeId]

/-! ## The loop of additions -/

/-- What the additions of the workers `1, …, n` of `z` do to the nodes. -/
structure AddsWorkers (cfg : NodesConf) (z : ZkNode) (n : ℕ) (s s' : Nodes) : Prop where
  kept : ∀ {id node}, s.nodes.lookup id = some node → s'.nodes.lookup id = some node
  added : ∀ {i}, 1 ≤ i → i ≤ n → s.nodes.lookup (z.nodeId i) = none →
    s'.nodes.lookup (z.nodeId i) = some (workerNode cfg z i)
  only : ∀ {id node}, s'.nodes.lookup id = some node →
    s.nodes.lookup id = some node ∨ id ∈ z.nodeIds n

section Additions

variable {cfg : NodesConf} {zs : List ZkNode} (hzs : Suitable cfg zs)

include hzs

/-- A new worker of the run finds a free point. -/
theorem addNode_worker {s : Nodes} (hring : RingSound cfg s)
    (hids : ∀ {id node}, s.nodes.lookup id = some node → id ∈ zs.flatMap ZkNode.workerIds)
    {z : ZkNode} {i : ℕ} (hz : z.nodeId i ∈ zs.flatMap ZkNode.workerIds)
    (hnew : s.nodes.lookup (z.nodeId i) = none) :
    (s.addNode cfg z.type z.host z.intPort (CInt.toInt i)).1.nodes.lookup (z.nodeId i) =
      some (workerNode cfg z i) := by
  obtain ⟨v, hv, hown⟩ := hzs.points _ hz
  have hfree : (s.ring z.type).lookup v = none := by
    refine hring.point_free (fun id node hnode hmem => ?_) z.type
    rw [hown id (hids hnode) hmem, hnew] at hnode
    exact absurd hnode (by simp)
  rw [addNode_fresh hnew hv hfree]
  exact (FiniteMap.lookup_insert _ _ _ _).trans (if_pos rfl)

theorem addNodes_addsWorkers {s : Nodes} (hring : RingSound cfg s)
    (hids : ∀ {id node}, s.nodes.lookup id = some node → id ∈ zs.flatMap ZkNode.workerIds)
    {z : ZkNode} (hz : z ∈ zs) {n : ℕ} (hn : n ≤ z.workerCnt.toNat) :
    AddsWorkers cfg z n s (addNodes cfg s z n) := by
  have hmem : ∀ {i}, 1 ≤ i → i ≤ z.workerCnt.toNat →
      z.nodeId i ∈ zs.flatMap ZkNode.workerIds := fun h₁ h₂ =>
    List.mem_flatMap.mpr ⟨z, hz, ZkNode.mem_nodeIds.mpr ⟨_, h₁, h₂, rfl⟩⟩
  induction n with
  | zero => exact ⟨fun h => h, fun h₁ h₂ => by omega, fun h => Or.inl h⟩
  | succ n ih =>
    have ih := ih (by omega)
    rw [addNodes_succ]
    have hcases := addNode_lookup cfg (addNodes cfg s z n) z.type z.host z.intPort
      (CInt.toInt ((n + 1 : ℕ) : ℤ))
    have hkept : ∀ {id node}, (addNodes cfg s z n).nodes.lookup id = some node →
        ((addNodes cfg s z n).addNode cfg z.type z.host z.intPort
          (CInt.toInt ((n + 1 : ℕ) : ℤ))).1.nodes.lookup id = some node := by
      intro id node h
      rcases hcases id with heq | ⟨-, hnone, -⟩
      · rw [heq, h]
      · rw [hnone] at h
        exact absurd h (by simp)
    refine ⟨fun h => hkept (ih.kept h), fun {i} h₁ h₂ hnone => ?_, fun {id node} h => ?_⟩
    · rcases Nat.lt_or_ge n i with hlt | hle
      · obtain rfl : i = n + 1 := by omega
        refine addNode_worker hzs (hring.addNodes z n) (fun {id node} h => ?_) (hmem h₁ hn) ?_
        · rcases ih.only h with h | h
          · exact hids h
          · obtain ⟨j, hj, hj', rfl⟩ := ZkNode.mem_nodeIds.mp h
            exact hmem hj (by omega)
        · cases h : (addNodes cfg s z n).nodes.lookup (z.nodeId (n + 1)) with
          | none => rfl
          | some node =>
            rcases ih.only h with h | h
            · rw [hnone] at h
              exact absurd h (by simp)
            · obtain ⟨j, hj, hj', heq⟩ := ZkNode.mem_nodeIds.mp h
              have := (ZkNode.nodeId_inj (hzs.short z hz) (hzs.short z hz) h₁ hn hj (by omega)
                heq).2
              omega
      · exact hkept (ih.added h₁ hle hnone)
    · rw [ZkNode.nodeIds_succ, List.mem_append, List.mem_singleton]
      rcases hcases id with heq | ⟨hid, -, -⟩
      · rw [heq] at h
        exact (ih.only h).imp_right Or.inl
      · exact Or.inr (Or.inr hid)

end Additions

/-! ## The invariant of a run -/

/-- What the steps of a run that registers records of `zs` keep. -/
structure WorkerInv (cfg : NodesConf) (zs : List ZkNode) (s : Nodes) : Prop where
  registered : s.Registered
  ring : RingSound cfg s
  known : ∀ {path z}, s.zkNodes.lookup path = some z → z ∈ zs
  exact : WorkersExact s

section Invariant

variable {cfg : NodesConf} {zs : List ZkNode}

theorem WorkerInv.ids {s : Nodes} (h : WorkerInv cfg zs s) {id : Bytes} {node : Node}
    (hn : s.nodes.lookup id = some node) : id ∈ zs.flatMap ZkNode.workerIds := by
  obtain ⟨path, z, i, hz, h₁, h₂, rfl⟩ := h.exact.owned hn
  exact List.mem_flatMap.mpr ⟨z, h.known hz, ZkNode.mem_nodeIds.mpr ⟨i, h₁, h₂, rfl⟩⟩

theorem workerInv_empty (version : UInt32) (myZkNode : Bytes) :
    WorkerInv cfg zs { version := version, myZkNode := myZkNode } where
  registered := registered_empty _ _
  ring := ringSound_empty _ _ _
  known h := by simp at h
  exact := ⟨fun h => by simp at h, fun h => by simp at h, fun h => by simp at h⟩

/-- The correspondence reads the registered records and the nodes. -/
theorem WorkersExact.congr {s t : Nodes} (h : WorkersExact s) (hzk : t.zkNodes = s.zkNodes)
    (hnodes : t.nodes = s.nodes) : WorkersExact t := by
  refine ⟨fun hz h₁ h₂ => ?_, fun hn => ?_, fun hz h₁ h₂ hz' h₁' h₂' => ?_⟩
  · rw [hnodes]
    exact h.present (hzk ▸ hz) h₁ h₂
  · rw [hzk]
    exact h.owned (hnodes ▸ hn)
  · exact h.distinct (hzk ▸ hz) h₁ h₂ (hzk ▸ hz') h₁' h₂'

/-! ## Deletion and takeover -/

theorem WorkerInv.delZkNode {s : Nodes} (h : WorkerInv cfg zs s) (path : Bytes) :
    WorkerInv cfg zs (s.delZkNode path).1 := by
  cases hz : s.zkNodes.lookup path with
  | none => rwa [delZkNode_none hz]
  | some z =>
    have hkept : ∀ {x w}, (s.delZkNode path).1.zkNodes.lookup x = some w →
        x ≠ path ∧ s.zkNodes.lookup x = some w := by
      intro x w hw
      rw [delZkNode_zkNodes_lookup] at hw
      split_ifs at hw with hx
      exact ⟨hx, hw⟩
    have hnodes : ∀ id, (s.delZkNode path).1.nodes.lookup id =
        if id ∈ z.workerIds then none else s.nodes.lookup id := by
      intro id
      rw [delZkNode_some hz]
      exact delNodes_lookup s z _ id
    refine ⟨h.registered.delZkNode path, h.ring.delZkNode path, fun hw => h.known (hkept hw).2,
      ⟨fun {x w i} hw h₁ h₂ => ?_, fun {id node} hn => ?_, fun hw h₁ h₂ hw' h₁' h₂' heq =>
        h.exact.distinct (hkept hw).2 h₁ h₂ (hkept hw').2 h₁' h₂' heq⟩⟩
    · obtain ⟨hne, hw⟩ := hkept hw
      rw [hnodes, if_neg]
      · exact h.exact.present hw h₁ h₂
      · intro hmem
        obtain ⟨j, hj, hj', heq⟩ := ZkNode.mem_nodeIds.mp hmem
        exact hne (h.exact.distinct hw h₁ h₂ hz hj hj' heq).1
    · rw [hnodes] at hn
      split_ifs at hn with hmem
      obtain ⟨x, w, i, hw, h₁, h₂, rfl⟩ := h.exact.owned hn
      refine ⟨x, w, i, ?_, h₁, h₂, rfl⟩
      rw [delZkNode_zkNodes_lookup, if_neg, hw]
      rintro rfl
      rw [hz] at hw
      obtain rfl := Option.some.inj hw
      exact hmem (ZkNode.mem_nodeIds.mpr ⟨i, h₁, h₂, rfl⟩)

theorem WorkerInv.checkZkNodeHost {s : Nodes} (h : WorkerInv cfg zs s) (z : ZkNode) :
    WorkerInv cfg zs (s.checkZkNodeHost z).1 := by
  by_cases hchk : (s.checkZkNodeHost z).2 = true
  · have hfree := checkZkNodeHost_accepted h.registered hchk
    rcases checkZkNodeHost_cases h.registered z with heq | ⟨-, heq⟩ | ⟨path, -, -, heq⟩ |
      ⟨path, -, -, heq⟩
    · rwa [heq]
    · rwa [heq]
    · rw [heq] at hfree ⊢
      exact ⟨hfree.registered, h.ring.congr rfl rfl, h.known, h.exact.congr rfl rfl⟩
    · rw [heq]
      exact h.delZkNode path
  · rw [checkZkNodeHost_rejected (by simpa using hchk)]
    exact h

variable (hzs : Suitable cfg zs)

include hzs

/-- Registered records of the run never share an id. -/
theorem Registered.distinct {s : Nodes} (h : s.Registered)
    (hknown : ∀ {path z}, s.zkNodes.lookup path = some z → z ∈ zs)
    {path path' : Bytes} {z z' : ZkNode} {i i' : ℕ}
    (hz : s.zkNodes.lookup path = some z) (h₁ : 1 ≤ i) (h₂ : i ≤ z.workerCnt.toNat)
    (hz' : s.zkNodes.lookup path' = some z') (h₁' : 1 ≤ i') (h₂' : i' ≤ z'.workerCnt.toNat)
    (heq : z.nodeId i = z'.nodeId i') : path = path' ∧ i = i' := by
  obtain ⟨hkey, hi⟩ := ZkNode.nodeId_inj (hzs.short z (hknown hz)) (hzs.short z' (hknown hz'))
    h₁ h₂ h₁' h₂' heq
  exact ⟨h.path_eq hz hz' hkey, hi⟩

/-! ## A fresh registration -/

theorem fresh_exact {s t : Nodes} (h : WorkerInv cfg zs s) {z : ZkNode} (hz : z ∈ zs)
    (hnew : s.zkNodes.lookup z.path = none)
    (hfree : ∀ {path w}, s.zkNodes.lookup path = some w → w.hostKey = z.hostKey → path = z.path)
    (ht : t.Registered) (htzk : t.zkNodes = s.zkNodes.insert z.path z)
    (htnodes : t.nodes =
      (addNodes cfg { s with zkNodes := s.zkNodes.insert z.path z } z z.workerCnt.toNat).nodes) :
    WorkersExact t := by
  have hadds : AddsWorkers cfg z z.workerCnt.toNat s t := by
    have := addNodes_addsWorkers hzs (s := { s with zkNodes := s.zkNodes.insert z.path z })
      (h.ring.congr rfl rfl) h.ids hz le_rfl
    exact ⟨fun hn => htnodes ▸ this.kept hn, fun h₁ h₂ hn => htnodes ▸ this.added h₁ h₂ hn,
      fun hn => this.only (htnodes ▸ hn)⟩
  have hlookup : ∀ {x w}, t.zkNodes.lookup x = some w →
      x = z.path ∧ w = z ∨ x ≠ z.path ∧ s.zkNodes.lookup x = some w := by
    intro x w hw
    rw [htzk, FiniteMap.lookup_insert] at hw
    split_ifs at hw with hx
    · exact Or.inl ⟨hx, (Option.some.inj hw).symm⟩
    · exact Or.inr ⟨hx, hw⟩
  have hknown : ∀ {x w}, t.zkNodes.lookup x = some w → w ∈ zs := by
    intro x w hw
    rcases hlookup hw with ⟨-, rfl⟩ | ⟨-, hw⟩
    · exact hz
    · exact h.known hw
  refine ⟨fun {x w i} hw h₁ h₂ => ?_, fun {id node} hn => ?_, ht.distinct hzs hknown⟩
  · rcases hlookup hw with ⟨rfl, rfl⟩ | ⟨-, hw⟩
    · refine ⟨_, hadds.added h₁ h₂ ?_, isWorker_workerNode cfg w i⟩
      -- nobody else has the host, so the ids are new
      cases hn : s.nodes.lookup (w.nodeId i) with
      | none => rfl
      | some node =>
        obtain ⟨x, v, j, hv, hj, hj', heq⟩ := h.exact.owned hn
        have hkey := (ZkNode.nodeId_inj (hzs.short w hz) (hzs.short v (h.known hv)) h₁ h₂ hj hj'
          heq).1
        rw [hfree hv hkey.symm, hnew] at hv
        exact absurd hv (by simp)
    · obtain ⟨node, hn, hnode⟩ := h.exact.present hw h₁ h₂
      exact ⟨node, hadds.kept hn, hnode⟩
  · rcases hadds.only hn with hn | hmem
    · obtain ⟨x, w, i, hw, h₁, h₂, rfl⟩ := h.exact.owned hn
      refine ⟨x, w, i, ?_, h₁, h₂, rfl⟩
      rw [htzk, FiniteMap.lookup_insert, if_neg, hw]
      rintro rfl
      rw [hnew] at hw
      exact absurd hw (by simp)
    · obtain ⟨i, h₁, h₂, rfl⟩ := ZkNode.mem_nodeIds.mp hmem
      exact ⟨z.path, z, i, by rw [htzk, FiniteMap.lookup_insert, if_pos rfl], h₁, h₂, rfl⟩

/-! ## The update of a registered path -/

/-- An update in place keeps the correspondence when the host stays and the new record covers
the workers of the old one; if it has as many, its last worker is the old one, so type and
host stay too. -/
def UpdateCovers (old z : ZkNode) : Prop :=
  old.hostKey = z.hostKey ∧ old.workerCnt ≤ z.workerCnt ∧
    (old.workerCnt = z.workerCnt → old.type = z.type ∧ old.host = z.host)

instance (old z : ZkNode) : Decidable (UpdateCovers old z) :=
  inferInstanceAs (Decidable (_ ∧ _ ∧ (_ → _)))

/-- **Which updates keep the correspondence.** The state `t` is `s` with the record of `z`'s
path replaced, the workers `1, …, worker_cnt - 1` of the new record deleted and all its
workers added. -/
theorem update_exact_iff {s t : Nodes} (h : WorkerInv cfg zs s) {z old : ZkNode} (hz : z ∈ zs)
    (hvalid : isValidZkNode z = true) (hold : s.zkNodes.lookup z.path = some old)
    (hfree : ∀ {path w}, s.zkNodes.lookup path = some w → w.hostKey = z.hostKey → path = z.path)
    (ht : t.Registered) (htzk : t.zkNodes = s.zkNodes.insert z.path z)
    (htnodes : t.nodes =
      (addNodes cfg (delNodes { s with zkNodes := s.zkNodes.insert z.path z } z
        (z.workerCnt.toNat - 1)) z z.workerCnt.toNat).nodes) :
    WorkersExact t ↔ UpdateCovers old z := by
  have hz₁ := one_le_workerCnt hvalid
  have hold₁ := one_le_workerCnt (h.registered.valid hold)
  have hshort := hzs.short z hz
  have hshort' := hzs.short old (h.known hold)
  -- what is left in the nodes: survivors of the deletions, and workers of `z`
  have hdel : ∀ id, (delNodes { s with zkNodes := s.zkNodes.insert z.path z } z
      (z.workerCnt.toNat - 1)).nodes.lookup id =
        if id ∈ z.nodeIds (z.workerCnt.toNat - 1) then none else s.nodes.lookup id :=
    fun id => delNodes_lookup _ z _ id
  have hadds := addNodes_addsWorkers hzs
    (RingSound.delNodes (s := { s with zkNodes := s.zkNodes.insert z.path z })
      (h.ring.congr rfl rfl) z (z.workerCnt.toNat - 1))
    (fun {id node} hn => by
      rw [hdel] at hn
      split_ifs at hn
      exact h.ids hn) hz le_rfl
  have hkept : ∀ {id node}, s.nodes.lookup id = some node →
      id ∉ z.nodeIds (z.workerCnt.toNat - 1) → t.nodes.lookup id = some node := by
    intro id node hn hnot
    rw [htnodes]
    exact hadds.kept (by rw [hdel, if_neg hnot, hn])
  have hlookup : ∀ {x w}, t.zkNodes.lookup x = some w →
      x = z.path ∧ w = z ∨ x ≠ z.path ∧ s.zkNodes.lookup x = some w := by
    intro x w hw
    rw [htzk, FiniteMap.lookup_insert] at hw
    split_ifs at hw with hx
    · exact Or.inl ⟨hx, (Option.some.inj hw).symm⟩
    · exact Or.inr ⟨hx, hw⟩
  have hzt : t.zkNodes.lookup z.path = some z := by
    rw [htzk, FiniteMap.lookup_insert, if_pos rfl]
  -- an old worker is never among the ids deleted unless it is named by `z`
  have hlast : ∀ {i}, 1 ≤ i → i ≤ old.workerCnt.toNat → z.workerCnt.toNat ≤ i →
      old.nodeId i ∉ z.nodeIds (z.workerCnt.toNat - 1) := by
    intro i h₁ h₂ h₃ hmem
    obtain ⟨j, hj, hj', heq⟩ := ZkNode.mem_nodeIds.mp hmem
    have := (ZkNode.nodeId_inj hshort' hshort h₁ h₂ hj (by omega) heq).2
    omega
  constructor
  · intro hexact
    obtain ⟨node, hnode, hworker⟩ := h.exact.present hold le_rfl hold₁
    have hkey : old.hostKey = z.hostKey := by
      by_contra hne
      have hnot : old.nodeId 1 ∉ z.nodeIds (z.workerCnt.toNat - 1) := by
        intro hmem
        obtain ⟨j, hj, hj', heq⟩ := ZkNode.mem_nodeIds.mp hmem
        exact hne (ZkNode.nodeId_inj hshort' hshort le_rfl hold₁ hj (by omega) heq).1
      obtain ⟨x, w, i, hw, h₁, h₂, heq⟩ := hexact.owned (hkept hnode hnot)
      rcases hlookup hw with ⟨-, rfl⟩ | ⟨hx, hw⟩
      · exact hne (ZkNode.nodeId_inj hshort' hshort le_rfl hold₁ h₁ h₂ heq).1
      · exact hx (h.exact.distinct hold le_rfl hold₁ hw h₁ h₂ heq).1.symm
    -- the last old worker is still there
    obtain ⟨hport, hids⟩ := ZkNode.nodeId_congr hshort' hshort hold₁ hz₁ hkey
    have hle : old.workerCnt.toNat ≤ z.workerCnt.toNat := by
      by_contra hlt
      obtain ⟨node, hnode, -⟩ := h.exact.present hold hold₁ le_rfl
      have hnot := hlast hold₁ le_rfl (by omega)
      obtain ⟨x, w, i, hw, h₁, h₂, heq⟩ := hexact.owned (hkept hnode hnot)
      rcases hlookup hw with ⟨-, rfl⟩ | ⟨hx, hw⟩
      · have := (ZkNode.nodeId_inj hshort' hshort hold₁ le_rfl h₁ h₂ heq).2
        omega
      · exact hx (h.exact.distinct hold hold₁ le_rfl hw h₁ h₂ heq).1.symm
    refine ⟨hkey, UInt32.le_iff_toNat_le.mpr hle, fun hcnt => ?_⟩
    obtain ⟨node, hnode, hworker⟩ := h.exact.present hold hold₁ le_rfl
    have hkeep := hkept hnode (hlast hold₁ le_rfl (by rw [hcnt]))
    obtain ⟨node', hnode', hworker'⟩ := hexact.present hzt hz₁ le_rfl
    rw [hids, hcnt, hnode'] at hkeep
    obtain rfl := Option.some.inj hkeep
    exact ⟨hworker.type.symm.trans hworker'.type, hworker.host.symm.trans hworker'.host⟩
  · rintro ⟨hkey, hcnt, hsame⟩
    obtain ⟨hport, hids⟩ := ZkNode.nodeId_congr hshort' hshort hold₁ hz₁ hkey
    have hcnt' : old.workerCnt.toNat ≤ z.workerCnt.toNat := UInt32.le_iff_toNat_le.mp hcnt
    have hknown : ∀ {x w}, t.zkNodes.lookup x = some w → w ∈ zs := by
      intro x w hw
      rcases hlookup hw with ⟨-, rfl⟩ | ⟨-, hw⟩
      · exact hz
      · exact h.known hw
    refine ⟨fun {x w i} hw h₁ h₂ => ?_, fun {id node} hn => ?_, ht.distinct hzs hknown⟩
    · rcases hlookup hw with ⟨rfl, rfl⟩ | ⟨hx, hw⟩
      · cases hn : (delNodes { s with zkNodes := s.zkNodes.insert w.path w } w
            (w.workerCnt.toNat - 1)).nodes.lookup (w.nodeId i) with
        | none => exact ⟨_, htnodes ▸ hadds.added h₁ h₂ hn, isWorker_workerNode cfg w i⟩
        | some node =>
          -- the id was not deleted: it is the last worker of both records
          refine ⟨node, htnodes ▸ hadds.kept hn, ?_⟩
          rw [hdel] at hn
          split_ifs at hn with hmem
          have hi : i = w.workerCnt.toNat := by
            by_contra hne
            exact hmem (ZkNode.mem_nodeIds.mpr ⟨i, h₁, by omega, rfl⟩)
          obtain ⟨y, v, j, hv, hj, hj', heq⟩ := h.exact.owned hn
          obtain ⟨hwkey, hij⟩ := ZkNode.nodeId_inj hshort (hzs.short v (h.known hv)) h₁ h₂ hj hj' heq
          obtain rfl := hfree hv hwkey.symm
          rw [hold] at hv
          obtain rfl := Option.some.inj hv
          have hcnteq : old.workerCnt = w.workerCnt := UInt32.toNat_inj.mp (by omega)
          obtain ⟨htype, hhost⟩ := hsame hcnteq
          obtain ⟨node', hnode', hworker⟩ := h.exact.present hold hj hj'
          rw [← heq, hn] at hnode'
          obtain rfl := Option.some.inj hnode'
          exact ⟨hworker.id.trans heq.symm, hworker.type.trans htype, hworker.host.trans hhost,
            hworker.port.trans hport, hij ▸ hworker.workerIndex⟩
      · obtain ⟨node, hn, hworker⟩ := h.exact.present hw h₁ h₂
        refine ⟨node, hkept hn fun hmem => ?_, hworker⟩
        obtain ⟨j, hj, hj', heq⟩ := ZkNode.mem_nodeIds.mp hmem
        exact hx (hfree hw
          (ZkNode.nodeId_inj (hzs.short w (h.known hw)) hshort h₁ h₂ hj (by omega) heq).1)
    · rw [htnodes] at hn
      rcases hadds.only hn with hn | hmem
      · rw [hdel] at hn
        split_ifs at hn
        obtain ⟨x, w, i, hw, h₁, h₂, rfl⟩ := h.exact.owned hn
        by_cases hx : x = z.path
        · subst hx
          rw [hold] at hw
          obtain rfl := Option.some.inj hw
          exact ⟨z.path, z, i, hzt, h₁, by omega, hids i⟩
        · exact ⟨x, w, i, by rw [htzk, FiniteMap.lookup_insert, if_neg hx, hw], h₁, h₂, rfl⟩
      · obtain ⟨i, h₁, h₂, rfl⟩ := ZkNode.mem_nodeIds.mp hmem
        exact ⟨z.path, z, i, hzt, h₁, h₂, rfl⟩

end Invariant

/-! ## Runs -/

/-- Another record is found through the host of `z`, and it is not older. -/
def HostTaken (s : Nodes) (z : ZkNode) : Prop :=
  ∃ path old, s.hostZkPaths.lookup z.hostKey = some path ∧ s.zkNodes.lookup path = some old ∧
    z.path ≠ old.path ∧ z.activeTime.le old.activeTime = true

theorem checkZkNodeHost_iff {s : Nodes} {z : ZkNode} :
    (s.checkZkNodeHost z).2 = true ↔ ¬ s.HostTaken z := by
  unfold checkZkNodeHost HostTaken
  cases hhost : s.hostZkPaths.lookup z.hostKey with
  | none => simp
  | some path =>
    cases hzk : s.zkNodes.lookup path with
    | none => simp [hzk]
    | some old =>
      by_cases hsame : z.path = old.path
      · simp [hzk, hsame]
      · by_cases htime : z.activeTime.le old.activeTime = true <;> simp [hzk, hsame, htime]

/-- The steps that keep the correspondence: an accepted update of a registered path covers
the old record. -/
def WorkersStep (s : Nodes) : NodesOp → Prop
  | .addZkNode z => isValidZkNode z = true → ¬ s.HostTaken z →
      ∀ old, s.zkNodes.lookup z.path = some old → old ≠ z → UpdateCovers old z
  | _ => True

/-- The records that the operations register. -/
def registrations (ops : List NodesOp) : List ZkNode :=
  ops.filterMap fun
    | .addZkNode z => some z
    | _ => none

theorem mem_registrations {ops : List NodesOp} {z : ZkNode} (h : NodesOp.addZkNode z ∈ ops) :
    z ∈ registrations ops :=
  List.mem_filterMap.mpr ⟨_, h, rfl⟩

section Runs

variable {cfg : NodesConf} {zs : List ZkNode} (hzs : Suitable cfg zs)

include hzs

/-- A registration from a state of the invariant ends in one exactly when it is a step of the
kind that keeps the correspondence. -/
theorem addZkNode_exact_iff {s : Nodes} (h : WorkerInv cfg zs s) {z : ZkNode} (hz : z ∈ zs) :
    WorkersExact (s.addZkNode cfg z).1 ↔ WorkersStep s (.addZkNode z) := by
  by_cases hvalid : isValidZkNode z = true
  · by_cases htaken : s.HostTaken z
    · have hrej : (s.addZkNode cfg z).1 = s := by
        have hchk : (s.checkZkNodeHost z).2 = false := by
          simpa using mt checkZkNodeHost_iff.mp (not_not.mpr htaken)
        unfold Nodes.addZkNode
        rw [if_neg (by simp [hvalid])]
        split
        · next heq => exact (congrArg Prod.fst heq).symm.trans (checkZkNodeHost_rejected hchk)
        · next heq => rw [heq] at hchk; exact absurd hchk (by simp)
      rw [hrej]
      exact ⟨fun _ _ hnot => absurd htaken hnot, fun _ => h.exact⟩
    · have hchk := checkZkNodeHost_iff.mpr htaken
      have hfree := checkZkNodeHost_accepted h.registered hchk
      have h' := h.checkZkNodeHost z
      have hreg := h.registered.addZkNode cfg z
      have hmaps := (addZkNode_accepted_maps cfg hvalid hchk).1
      have hnodes : (s.addZkNode cfg z).1.nodes =
          (storeZkNode cfg (s.checkZkNodeHost z).1 z).nodes := by
        rw [addZkNode_accepted hvalid hchk]
      have hiff : WorkersStep s (.addZkNode z) ↔
          ∀ old, (s.checkZkNodeHost z).1.zkNodes.lookup z.path = some old → old ≠ z →
            UpdateCovers old z := by
        rw [hfree.same]
        exact ⟨fun hs => hs hvalid htaken, fun hs _ _ => hs⟩
      rw [hiff]
      generalize (s.checkZkNodeHost z).1 = s₁ at *
      cases hold : s₁.zkNodes.lookup z.path with
      | none =>
        simp only [reduceCtorEq, false_implies, implies_true, iff_true]
        refine fresh_exact hzs h' hz hold hfree.free hreg hmaps ?_
        rw [hnodes, storeZkNode, hold]
      | some old =>
        simp only [Option.some.injEq, forall_eq']
        by_cases hne : old ≠ z
        · rw [update_exact_iff hzs h' hz hvalid hold hfree.free hreg hmaps]
          · exact ⟨fun hc _ => hc, fun hc => hc hne⟩
          · rw [hnodes, storeZkNode, hold]
            simp only [if_pos hne]
        · refine ⟨fun _ hc => absurd hc hne, fun _ => h'.exact.congr ?_ ?_⟩
          · obtain rfl := not_not.mp hne
            rw [hmaps]
            refine Finmap.ext_lookup fun x => ?_
            rw [FiniteMap.lookup_insert]
            split_ifs with hx
            · rw [hx, hold]
            · rfl
          · rw [hnodes, storeZkNode, hold]
            simp only [if_neg hne]
  · have hrej : s.addZkNode cfg z = (s, false) := if_pos (by simpa using hvalid)
    rw [hrej]
    exact ⟨fun _ hv => absurd hv hvalid, fun _ => h.exact⟩

theorem WorkerInv.step {s : Nodes} (h : WorkerInv cfg zs s) {op : NodesOp}
    (hop : ∀ z, op = .addZkNode z → z ∈ zs) (hstep : WorkersStep s op) :
    WorkerInv cfg zs ((nodesMachine cfg).step s op) := by
  cases op with
  | addZkNode z =>
    have hz := hop z rfl
    refine ⟨h.registered.addZkNode cfg z, h.ring.addZkNode z, fun {x w} hw => ?_,
      (addZkNode_exact_iff hzs h hz).mpr hstep⟩
    by_cases hacc : isValidZkNode z = true ∧ (s.checkZkNodeHost z).2 = true
    · rw [show ((nodesMachine cfg).step s (.addZkNode z)).zkNodes = _ from
        (addZkNode_accepted_maps cfg hacc.1 hacc.2).1, FiniteMap.lookup_insert] at hw
      split_ifs at hw with hx
      · exact Option.some.inj hw ▸ hz
      · exact (h.checkZkNodeHost z).known hw
    · have hrej : (s.addZkNode cfg z).2 = false := by
        unfold Nodes.addZkNode
        split_ifs with hv
        · rfl
        · split
          · rfl
          · next heq => exact absurd ⟨by simpa using hv, by rw [heq]⟩ hacc
      have hsame : ((nodesMachine cfg).step s (.addZkNode z)).zkNodes = s.zkNodes :=
        congrArg Nodes.zkNodes (addZkNode_rejected hrej)
      exact h.known (hsame ▸ hw)
  | delZkNode path => exact h.delZkNode path
  | setMyZkNodePath path =>
    exact ⟨h.registered.congr rfl rfl, h.ring.congr rfl rfl, h.known, h.exact.congr rfl rfl⟩
  | clear => exact workerInv_empty _ _

end Runs

/-- **When the worker nodes are those of the registry.** For a run from the empty registry
whose ids are not cut and are kept apart by the digest, the correspondence holds in every
state exactly when every accepted update of a registered path keeps the host and covers the
workers of the old record. -/
theorem workersExact_run_iff (cfg : NodesConf) (ops : List NodesOp)
    (hops : Suitable cfg (registrations ops)) :
    (nodesMachine cfg).Meets WorkersStep {} ops ↔
      ∀ es, es <+: ops → WorkersExact ((nodesMachine cfg).run {} es) := by
  refine Machine.Meets.iff_forall_prefix (I := WorkerInv cfg (registrations ops))
    (Q := fun op => ∀ z, op = .addZkNode z → z ∈ registrations ops) (fun s h => h.exact)
    (fun s op hop h hstep => h.step hops hop hstep) (fun s op hop h hexact => ?_)
    (workerInv_empty 0 []) fun op hop z hz => mem_registrations (hz ▸ hop)
  cases op with
  | addZkNode z => exact (addZkNode_exact_iff hops h (hop z rfl)).mp hexact
  | delZkNode path => trivial
  | setMyZkNodePath path => trivial
  | clear => trivial

/-! ## A node that grows and one that shrinks -/

theorem workersExact_grown :
    WorkersExact ((nodesMachine sampleConf).run {}
      [.addZkNode (sampleZkNode 1), .addZkNode (sampleZkNode 2)]) := by
  refine (workersExact_run_iff sampleConf
    [.addZkNode (sampleZkNode 1), .addZkNode (sampleZkNode 2)] ⟨by decide, by decide⟩).mp
    ⟨fun _ _ old hold => ?_, fun _ _ old hold _ => ?_, trivial⟩ _ (List.prefix_refl _)
  · exact absurd hold (by simp)
  · have hlookup : (((nodesMachine sampleConf).step {}
        (.addZkNode (sampleZkNode 1))).zkNodes.lookup (sampleZkNode 2).path) =
          some (sampleZkNode 1) := by decide
    rw [hlookup] at hold
    obtain rfl := Option.some.inj hold
    decide

/-- After an update from two workers to one the second worker is still in the nodes. -/
theorem workersExact_shrunk_fails :
    Suitable sampleConf (registrations
        [.addZkNode (sampleZkNode 2), .addZkNode (sampleZkNode 1)]) ∧
      ¬ WorkersExact ((nodesMachine sampleConf).run {}
        [.addZkNode (sampleZkNode 2), .addZkNode (sampleZkNode 1)]) := by
  refine ⟨⟨by decide, by decide⟩, fun hexact => ?_⟩
  have hzk : ((nodesMachine sampleConf).run {}
      [.addZkNode (sampleZkNode 2), .addZkNode (sampleZkNode 1)]).zkNodes =
        (∅ : FiniteMap Bytes ZkNode).insert (sampleZkNode 1).path (sampleZkNode 1) := by decide
  have hleft : (((nodesMachine sampleConf).run {}
      [.addZkNode (sampleZkNode 2), .addZkNode (sampleZkNode 1)]).nodes.lookup
        (text "10.0.0.1:80.2")).isSome := by decide
  obtain ⟨node, hnode⟩ := Option.isSome_iff_exists.mp hleft
  obtain ⟨path, z, i, hz, h₁, h₂, hid⟩ := hexact.owned hnode
  rw [hzk, FiniteMap.lookup_insert] at hz
  split_ifs at hz
  · obtain rfl := Option.some.inj hz
    obtain rfl : i = 1 := le_antisymm h₂ h₁
    exact absurd hid (by decide)
  · exact absurd hz (by simp)

end Nodes

end Kimserver
