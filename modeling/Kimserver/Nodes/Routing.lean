import Kimserver.Lib.OrderedMap
import Kimserver.Nodes.Confluence
import Kimserver.Nodes.Ring
import Kimserver.Util.Hash

/-!
# Routing through the ring

`get_node_in_hash` sends an object to the node that owns the next point of the ring of a type.
In every reachable state, and for every digest function, this is a registered node of the type.

Two processes that learn of the same records in different orders fill their rings in
different orders, and a point that two nodes generate goes to the one that comes first. Where
no point is shared between the nodes of different records, the orders do not matter: a point
belongs to the first node of its record, and the rings agree up to the ids of their nodes.

## Main definitions

* `HashAlgorithm`, `Nodes.hash`, `Nodes.getNodeInHash`: the lookup and its hash
* `members`, `owner`: the worker nodes of a list of records, and the first with a point
* `Apart`: the nodes of two records share no point
* `Nodes.Filled`: what is known of the rings after nodes were added

## Main results

* `Nodes.getNodeInHash_run`: an object is sent to a registered node of the type, or to none
* `Nodes.addAll_filled`: who owns a point after a list of records was registered
* `Nodes.getNodeInHash_perm`: two orders of records send every object to the same node id
-/

namespace Kimserver

/-- `HASH_ALGORITHM`. -/
inductive HashAlgorithm
  | fnv1a_64
  | fnv1_64
  | murmur3_32
  deriving DecidableEq, Repr

namespace Nodes

/-- `hash`. -/
def hash (ha : HashAlgorithm) (obj : Bytes) : UInt32 :=
  match ha with
  | .fnv1_64 => hashFnv1_64 obj
  | .murmur3_32 => murmur3_32 obj 0x000001b3
  | .fnv1a_64 => hashFnv1a_64 obj

/-- `get_node_in_hash`. -/
def getNodeInHash (ha : HashAlgorithm) (s : Nodes) (nodeType obj : Bytes) : Option Node :=
  match s.vnodes.lookup nodeType with
  | none => none
  | some vnode2node =>
    if vnode2node.keys.card = 0 then none
    else
      match vnode2node.lowerBound (hash ha obj) with
      | some v => vnode2node.lookup v
      | none => vnode2node.first.bind vnode2node.lookup

/-- `get_node_in_hash` of an `int`. -/
def getNodeInHashInt (ha : HashAlgorithm) (s : Nodes) (nodeType : Bytes) (obj : ℤ) :
    Option Node :=
  getNodeInHash ha s nodeType (toDecimal obj)

/-! ## One lookup -/

section Lookup

variable (ha : HashAlgorithm) (s : Nodes) (nodeType obj : Bytes)

/-- The lookup is the one at the next point of the ring. -/
theorem getNodeInHash_eq :
    s.getNodeInHash ha nodeType obj =
      (((s.ring nodeType).lowerBound (hash ha obj)).or (s.ring nodeType).first).bind
        (s.ring nodeType).lookup := by
  unfold getNodeInHash ring
  cases hring : s.vnodes.lookup nodeType with
  | none =>
    have hnone := (FiniteMap.ceiling_eq_none
      (m := (∅ : FiniteMap UInt32 Node)) (k := hash ha obj)).mpr Finmap.keys_empty
    simp only [Option.getD_none, hnone, Option.bind_none]
  | some vnode2node =>
    simp only [Option.getD_some]
    split_ifs with hcard
    · have hnone := (FiniteMap.ceiling_eq_none (k := hash ha obj)).mpr
        (Finset.card_eq_zero.mp hcard)
      rw [hnone, Option.bind_none]
    · cases hlow : vnode2node.lowerBound (hash ha obj) with
      | none => rw [Option.none_or]
      | some v => rw [Option.some_or, Option.bind_some]

/-- The lookup finds nothing in an empty ring, and otherwise the node of the next point. -/
theorem getNodeInHash_cases :
    (s.getNodeInHash ha nodeType obj = none ∧ s.ring nodeType = ∅) ∨
      ∃ v node, s.getNodeInHash ha nodeType obj = some node ∧
        (s.ring nodeType).lookup v = some node ∧
        (s.ring nodeType).IsCeiling (hash ha obj) v := by
  rw [getNodeInHash_eq]
  cases hnext : ((s.ring nodeType).lowerBound (hash ha obj)).or (s.ring nodeType).first with
  | none =>
    have hempty := FiniteMap.ceiling_eq_none.mp hnext
    refine Or.inl ⟨rfl, Finmap.ext_lookup fun v => ?_⟩
    rw [Finmap.lookup_empty, Finmap.lookup_eq_none, ← Finmap.mem_keys, hempty]
    simp
  | some v =>
    have hceil := FiniteMap.ceiling_eq_some.mp hnext
    have hsome := Finmap.lookup_isSome.mpr (Finmap.mem_keys.mp hceil.1)
    obtain ⟨node, hnode⟩ := Option.isSome_iff_exists.mp hsome
    exact Or.inr ⟨v, node, by rw [Option.bind_some, hnode], hnode, hceil⟩

end Lookup

/-- **An object is sent to a registered node**: after every run of operations, for every digest
function, the rings point at registered nodes of their type from their own points, and the
lookup finds nothing, or the node of the least point from the hash on, or of the least point. -/
theorem getNodeInHash_run (cfg : NodesConf) (ops : List NodesOp) :
    (∀ type v node, (((nodesMachine cfg).run {} ops).ring type).lookup v = some node →
      ((nodesMachine cfg).run {} ops).nodes.lookup node.id = some node ∧ node.type = type ∧
        v ∈ node.vnodes) ∧
    ∀ ha type obj,
      (((nodesMachine cfg).run {} ops).getNodeInHash ha type obj = none ∧
        ((nodesMachine cfg).run {} ops).ring type = ∅) ∨
      ∃ v node, ((nodesMachine cfg).run {} ops).getNodeInHash ha type obj = some node ∧
        ((nodesMachine cfg).run {} ops).nodes.lookup node.id = some node ∧ node.type = type ∧
        (((nodesMachine cfg).run {} ops).ring type).lookup v = some node ∧
        (((nodesMachine cfg).run {} ops).ring type).IsCeiling (hash ha obj) v := by
  have hsound := ringSound_run cfg ops
  refine ⟨fun type v node h => hsound.points h, fun ha type obj => ?_⟩
  rcases getNodeInHash_cases ha ((nodesMachine cfg).run {} ops) type obj with
    hnone | ⟨v, node, hget, hpoint, hceil⟩
  · exact Or.inl hnone
  · obtain ⟨hnode, htype, -⟩ := hsound.points hpoint
    exact Or.inr ⟨v, node, hget, hnode, htype, hpoint, hceil⟩

end Nodes

/-! ## The first owner of a point -/

/-- The worker nodes of a list of records, each with its type and id, as they are added. -/
def members (zs : List ZkNode) : List (Bytes × Bytes) :=
  zs.flatMap fun z => (z.nodeIds z.workerCnt.toNat).map fun id => (z.type, id)

/-- The id of the first node of a type that generates the point. -/
def owner (cfg : NodesConf) (l : List (Bytes × Bytes)) (type : Bytes) (v : UInt32) :
    Option Bytes :=
  (l.find? fun e => e.1 = type ∧ v ∈ genVnodes cfg e.2).map Prod.snd

/-- The nodes of two records share no point of a ring: nodes with one id have one type, and
nodes of one type with different ids have different points. -/
def Apart (cfg : NodesConf) (z w : ZkNode) : Prop :=
  ∀ id ∈ z.nodeIds z.workerCnt.toNat, ∀ id' ∈ w.nodeIds w.workerCnt.toNat,
    (id = id' → z.type = w.type) ∧
      (z.type = w.type → id ≠ id' → (genVnodes cfg id).Disjoint (genVnodes cfg id'))

section Owner

variable {cfg : NodesConf}

theorem Apart.symm {z w : ZkNode} (h : Apart cfg z w) : Apart cfg w z := by
  intro id hid id' hid'
  obtain ⟨hsame, hpoints⟩ := h id' hid' id hid
  exact ⟨fun heq => (hsame heq.symm).symm, fun htype hne => (hpoints htype.symm hne.symm).symm⟩

instance : Std.Symm (Apart cfg) := ⟨fun _ _ => Apart.symm⟩

theorem members_append (zs : List ZkNode) (z : ZkNode) :
    members (zs ++ [z]) =
      members zs ++ (z.nodeIds z.workerCnt.toNat).map fun id => (z.type, id) := by
  simp only [members, List.flatMap_append, List.flatMap_cons, List.flatMap_nil, List.append_nil]

theorem mem_members {zs : List ZkNode} {e : Bytes × Bytes} :
    e ∈ members zs ↔ ∃ z ∈ zs, e.1 = z.type ∧ e.2 ∈ z.nodeIds z.workerCnt.toNat := by
  simp only [members, List.mem_flatMap, List.mem_map]
  constructor
  · rintro ⟨z, hz, id, hid, rfl⟩
    exact ⟨z, hz, rfl, hid⟩
  · rintro ⟨z, hz, htype, hid⟩
    exact ⟨z, hz, e.2, hid, by rw [← htype]⟩

theorem owner_append (l : List (Bytes × Bytes)) (e : Bytes × Bytes) (type : Bytes) (v : UInt32) :
    owner cfg (l ++ [e]) type v =
      (owner cfg l type v).or
        (if e.1 = type ∧ v ∈ genVnodes cfg e.2 then some e.2 else none) := by
  rw [owner, owner, List.find?_append, Option.map_or]
  congr 1
  by_cases he : e.1 = type ∧ v ∈ genVnodes cfg e.2
  · rw [if_pos he, List.find?_cons_of_pos (by simpa using he), Option.map_some]
  · rw [if_neg he, List.find?_cons_of_neg (by simpa using he), List.find?_nil, Option.map_none]

/-- A point of a listed node of the type has an owner. -/
theorem owner_isSome (cfg : NodesConf) {l : List (Bytes × Bytes)} {e : Bytes × Bytes} (he : e ∈ l) {v : UInt32}
    (hv : v ∈ genVnodes cfg e.2) : (owner cfg l e.1 v).isSome := by
  rw [owner, Option.isSome_map, List.find?_isSome]
  exact ⟨e, he, by simpa using hv⟩

/-- What a search finds does not depend on the order of the list, where all hits agree. -/
theorem findSome?_perm {α β : Type*} {f : α → Option β} {l l' : List α}
    (hagree : ∀ a ∈ l, ∀ b ∈ l, ∀ x y, f a = some x → f b = some y → x = y)
    (hperm : l.Perm l') : l.findSome? f = l'.findSome? f := by
  refine Option.ext fun x => ?_
  -- under agreement a search finds `x` exactly when some element hits `x`
  have hiff : ∀ k : List α, (∀ a ∈ k, a ∈ l) →
      (k.findSome? f = some x ↔ ∃ a ∈ k, f a = some x) := by
    intro k hk
    constructor
    · intro h
      obtain ⟨a, ha, hfa⟩ := List.exists_of_findSome?_eq_some h
      exact ⟨a, ha, hfa⟩
    · rintro ⟨a, ha, hfa⟩
      cases hfind : k.findSome? f with
      | none => rw [List.findSome?_eq_none_iff.mp hfind a ha] at hfa; exact absurd hfa (by simp)
      | some y =>
        obtain ⟨b, hb, hfb⟩ := List.exists_of_findSome?_eq_some hfind
        rw [hagree a (hk a ha) b (hk b hb) x y hfa hfb]
  rw [hiff l fun a ha => ha, hiff l' fun a ha => hperm.mem_iff.mpr ha]
  simp only [hperm.mem_iff]

/-- **The owner of a point does not depend on the order** of records that are apart. -/
theorem owner_perm {zs zs' : List ZkNode} (hapart : zs.Pairwise (Apart cfg))
    (hperm : zs.Perm zs') (type : Bytes) (v : UInt32) :
    owner cfg (members zs) type v = owner cfg (members zs') type v := by
  have hsearch : ∀ l : List ZkNode, owner cfg (members l) type v =
      (l.findSome? fun z => ((z.nodeIds z.workerCnt.toNat).map fun id => (z.type, id)).find?
        fun e => e.1 = type ∧ v ∈ genVnodes cfg e.2).map Prod.snd := fun l => by
    rw [owner, members, List.find?_flatMap]
  rw [hsearch, hsearch, findSome?_perm ?_ hperm]
  intro z hz w hw x y hx hy
  by_cases hzw : z = w
  · subst hzw
    rw [hx] at hy
    exact Option.some.inj hy
  · obtain ⟨id, hid, rfl⟩ := List.mem_map.mp (List.mem_of_find?_eq_some hx)
    obtain ⟨id', hid', rfl⟩ := List.mem_map.mp (List.mem_of_find?_eq_some hy)
    have hpx := List.find?_some hx
    have hpy := List.find?_some hy
    simp only [decide_eq_true_eq] at hpx hpy
    have htype : z.type = w.type := hpx.1.trans hpy.1.symm
    have hpair := (hapart.forall hz hw hzw id hid id' hid').2 htype
    by_cases hids : id = id'
    · rw [htype, hids]
    · exact absurd hpy.2 (hpair hids hpx.2)

end Owner

namespace Nodes

/-! ## Filling the rings -/

/-- The nodes and rings after the nodes of `l` were added: the nodes are of `l`, and every
point of a ring belongs to the first node of `l` that generates it. -/
structure Filled (cfg : NodesConf) (l : List (Bytes × Bytes)) (s : Nodes) : Prop where
  listed : ∀ {id node}, s.nodes.lookup id = some node → (node.type, id) ∈ l
  owned : ∀ type v, ((s.ring type).lookup v).map Node.id = owner cfg l type v

section Filled

variable {cfg : NodesConf} {s : Nodes} {l : List (Bytes × Bytes)}

theorem filled_nil : Filled cfg [] {} where
  listed h := absurd h (by simp)
  owned type v := by simp [ring, owner]

theorem Filled.congr {t : Nodes} (h : Filled cfg l s) (hnodes : t.nodes = s.nodes)
    (hvnodes : t.vnodes = s.vnodes) : Filled cfg l t where
  listed hn := h.listed (hnodes ▸ hn)
  owned type v := by rw [← h.owned, ring, ring, hvnodes]

/-- The rings after the addition of a node that is not there: its type gets the points of the
node that are free. -/
theorem addNode_ring_unknown {nodeType host : Bytes} {port worker : ℤ}
    (hunknown : s.nodes.lookup (formatNodesId host port worker) = none) (type : Bytes)
    (v : UInt32) :
    ((s.addNode cfg nodeType host port worker).1.ring type).lookup v =
      ((s.ring type).lookup v).or
        (if nodeType = type ∧ v ∈ genVnodes cfg (formatNodesId host port worker) then
          some (newNode cfg nodeType host port worker) else none) := by
  have hring : (s.addNode cfg nodeType host port worker).1.ring type =
      if nodeType = type then
        FiniteMap.addAbsent (s.ring nodeType) (newNode cfg nodeType host port worker).vnodes
          (newNode cfg nodeType host port worker)
      else s.ring type := by
    have hinsert : ∀ r : FiniteMap UInt32 Node,
        ((s.vnodes.insert nodeType r).lookup type).getD ∅ =
          if nodeType = type then r else s.ring type := by
      intro r
      rw [FiniteMap.lookup_insert]
      by_cases htype : nodeType = type
      · rw [if_pos htype, if_pos htype.symm, Option.getD_some]
      · rw [if_neg htype, if_neg fun heq => htype heq.symm, ring]
    rw [← hinsert]
    unfold addNode
    rw [if_neg (by simp [hunknown])]
    dsimp only
    split_ifs <;> rfl
  rw [hring]
  by_cases htype : nodeType = type
  · subst htype
    simp only [if_true, true_and]
    exact FiniteMap.lookup_addAbsent _ _ _ _
  · simp [htype]

/-- **An addition fills the ring of its type**, if its id is listed under this type only. -/
theorem Filled.addNode (h : Filled cfg l s) {nodeType host : Bytes} {port worker : ℤ}
    (htype : ∀ type, (type, formatNodesId host port worker) ∈ l → type = nodeType) :
    Filled cfg (l ++ [(nodeType, formatNodesId host port worker)])
      (s.addNode cfg nodeType host port worker).1 := by
  refine ⟨fun {id node} hn => ?_, fun type v => ?_⟩
  · rcases addNode_lookup cfg s nodeType host port worker id with heq | ⟨rfl, -, heq⟩
    · exact List.mem_append_left _ (h.listed (heq ▸ hn))
    · rw [heq] at hn
      obtain rfl := Option.some.inj hn
      exact List.mem_append_right _ (List.mem_singleton.mpr rfl)
  · rw [owner_append, ← h.owned]
    cases hknown : s.nodes.lookup (formatNodesId host port worker) with
    | none =>
      rw [addNode_ring_unknown hknown, Option.map_or]
      congr 1
      split_ifs <;> rfl
    | some node =>
      -- the node is there, so its points have owners
      rw [addNode_known (by rw [hknown]; rfl)]
      have hlisted := h.listed hknown
      have hsame : node.type = nodeType := htype _ hlisted
      dsimp only
      split_ifs with hpoint
      · have hsome := owner_isSome cfg hlisted hpoint.2
        rw [hsame, hpoint.1, ← h.owned] at hsome
        obtain ⟨id, hid⟩ := Option.isSome_iff_exists.mp hsome
        rw [hid, Option.some_or]
      · rw [Option.or_none]

/-- The nodes of a record whose ids are listed under its own type only. -/
theorem Filled.addNodes (h : Filled cfg l s) {z : ZkNode} (n : ℕ)
    (htype : ∀ type, ∀ id ∈ z.nodeIds n, (type, id) ∈ l → type = z.type) :
    Filled cfg (l ++ (z.nodeIds n).map fun id => (z.type, id)) (Nodes.addNodes cfg s z n) := by
  induction n with
  | zero => simpa [ZkNode.nodeIds] using h
  | succ n ih =>
    rw [ZkNode.nodeIds_succ] at htype ⊢
    have hfilled := ih fun type id hid => htype type id (List.mem_append_left _ hid)
    rw [addNodes_succ, List.map_append, ← List.append_assoc]
    refine hfilled.addNode fun type hmem => ?_
    rcases List.mem_append.mp hmem with hl | hown
    · exact htype type _ (List.mem_append_right _ (List.mem_singleton.mpr rfl)) hl
    · obtain ⟨id, -, heq⟩ := List.mem_map.mp hown
      exact (Prod.mk.inj heq).1.symm

/-- A valid record with a new path and a free host adds its nodes. -/
theorem addZkNode_new {z : ZkNode} (hvalid : isValidZkNode z = true)
    (hhost : s.hostZkPaths.lookup z.hostKey = none) (hpath : s.zkNodes.lookup z.path = none) :
    (s.addZkNode cfg z).1 =
      { Nodes.addNodes cfg { s with zkNodes := s.zkNodes.insert z.path z } z
          z.workerCnt.toNat with
        hostZkPaths := s.hostZkPaths.insert z.hostKey z.path } := by
  have hchk : s.checkZkNodeHost z = (s, true) := by simp only [checkZkNodeHost, hhost]
  rw [addZkNode_accepted hvalid (by rw [hchk]), hchk]
  simp only [storeZkNode, hpath]

/-- **Registration fills the rings**: valid records with distinct paths and hosts, whose nodes
are apart, give every point to the first node that generates it. -/
theorem addAll_filled (cfg : NodesConf) (zs : List ZkNode) (hvalid : ∀ z ∈ zs, isValidZkNode z = true)
    (hpaths : zs.Pairwise fun z w => z.path ≠ w.path)
    (hhosts : zs.Pairwise fun z w => z.hostKey ≠ w.hostKey) (hapart : zs.Pairwise (Apart cfg)) :
    Filled cfg (members zs) (addAll cfg {} zs) := by
  induction zs using List.reverseRecOn with
  | nil => exact filled_nil
  | append_singleton zs z ih =>
    rw [List.pairwise_append] at hpaths hhosts hapart
    have hvalids : ∀ w ∈ zs, isValidZkNode w = true := fun w hw =>
      hvalid w (List.mem_append_left _ hw)
    have hfilled := ih hvalids hpaths.1 hhosts.1 hapart.1
    have hsettled := addAll_settled cfg zs hvalids hpaths.1
      (hhosts.1.imp fun hne heq => absurd heq hne)
    -- neither the host nor the path of `z` was registered before
    have hhost : (addAll cfg {} zs).hostZkPaths.lookup z.hostKey = none := by
      by_contra hsome
      obtain ⟨path, hentry⟩ := Option.ne_none_iff_exists'.mp hsome
      obtain ⟨w, hw, hkey⟩ := (hsettled.exact _ _).mp hentry
      exact hhosts.2.2 w (hsettled.listed hw) z (by simp) hkey
    have hpath : (addAll cfg {} zs).zkNodes.lookup z.path = none := by
      by_contra hsome
      obtain ⟨w, hw⟩ := Option.ne_none_iff_exists'.mp hsome
      exact hpaths.2.2 w (hsettled.listed hw) z (by simp) (hsettled.registered.keyed hw)
    have hstep : addAll cfg {} (zs ++ [z]) = ((addAll cfg {} zs).addZkNode cfg z).1 := by
      simp only [addAll, List.foldl_append, List.foldl_cons, List.foldl_nil]
    rw [hstep, addZkNode_new (hvalid z (by simp)) hhost hpath, members_append]
    have hadded := Filled.addNodes
      (s := { addAll cfg {} zs with zkNodes := (addAll cfg {} zs).zkNodes.insert z.path z })
      (z := z) (hfilled.congr rfl rfl) z.workerCnt.toNat ?_
    · exact hadded.congr rfl rfl
    · intro type id hid hmem
      obtain ⟨w, hw, htype, hidw⟩ := mem_members.mp hmem
      exact htype.trans ((hapart.2.2 w hw z (by simp) id hidw id hid).1 rfl)

end Filled

/-- Rings that agree up to the ids of their nodes send an object to the same id. -/
theorem getNodeInHash_id_eq {s t : Nodes} {type : Bytes}
    (hrings : ∀ v, ((s.ring type).lookup v).map Node.id = ((t.ring type).lookup v).map Node.id)
    (ha : HashAlgorithm) (obj : Bytes) :
    (s.getNodeInHash ha type obj).map Node.id = (t.getNodeInHash ha type obj).map Node.id := by
  have hkeys : (s.ring type).keys = (t.ring type).keys := by
    refine Finset.ext fun v => ?_
    rw [Finmap.mem_keys, Finmap.mem_keys, ← Finmap.lookup_isSome, ← Finmap.lookup_isSome,
      ← Option.isSome_map, hrings v, Option.isSome_map]
  rw [getNodeInHash_eq, getNodeInHash_eq, FiniteMap.ceiling_congr hkeys, Option.map_bind,
    Option.map_bind]
  exact congrArg _ (funext hrings)

/-- **Two processes agree on the route of every object**: valid records with distinct paths and
hosts, whose nodes are apart, send it to the same node id whatever the order they are
registered in. -/
theorem getNodeInHash_perm (cfg : NodesConf) {zs zs' : List ZkNode}
    (hvalid : ∀ z ∈ zs, isValidZkNode z = true)
    (hpaths : zs.Pairwise fun z w => z.path ≠ w.path)
    (hhosts : zs.Pairwise fun z w => z.hostKey ≠ w.hostKey) (hapart : zs.Pairwise (Apart cfg))
    (hperm : zs.Perm zs') (ha : HashAlgorithm) (type obj : Bytes) :
    ((addAll cfg {} zs).getNodeInHash ha type obj).map Node.id =
      ((addAll cfg {} zs').getNodeInHash ha type obj).map Node.id := by
  refine getNodeInHash_id_eq (fun v => ?_) ha obj
  have hfilled := addAll_filled cfg zs hvalid hpaths hhosts hapart
  have hfilled' := addAll_filled cfg zs' (fun z hz => hvalid z (hperm.mem_iff.mpr hz))
    (hperm.pairwise hpaths fun h => h.symm) (hperm.pairwise hhosts fun h => h.symm)
    (hperm.pairwise hapart Apart.symm)
  rw [hfilled.owned, hfilled'.owned, owner_perm hapart hperm]

/-- A second record of the sample's type, on another host. -/
def otherZkNode : ZkNode :=
  { sampleZkNode 1 with path := text "/kimserver/logic/0000000002", host := text "10.0.0.2" }

/-- The digests of the two sample nodes, which share the point 0. -/
def collidingConf : NodesConf where
  vnodeCnt := 4
  md5 s :=
    if s = text "4@10.0.0.1:80.1#0" then [0, 0, 0, 0, 1, 0, 0, 0, 2, 0, 0, 0, 3, 0, 0, 0]
    else [0, 0, 0, 0, 4, 0, 0, 0, 5, 0, 0, 0, 6, 0, 0, 0]

/-- Digests of the two sample nodes without a common point. -/
def apartConf : NodesConf where
  vnodeCnt := 4
  md5 s :=
    if s = text "4@10.0.0.1:80.1#0" then [0, 0, 0, 0, 1, 0, 0, 0, 2, 0, 0, 0, 3, 0, 0, 0]
    else [7, 0, 0, 0, 4, 0, 0, 0, 5, 0, 0, 0, 6, 0, 0, 0]

/-- Two records that are apart, in two orders. -/
theorem getNodeInHash_perm_apart :
    ((addAll apartConf {} [sampleZkNode 1, otherZkNode]).getNodeInHash .fnv1a_64 (text "logic")
        (text "user")).map Node.id =
      ((addAll apartConf {} [otherZkNode, sampleZkNode 1]).getNodeInHash .fnv1a_64 (text "logic")
        (text "user")).map Node.id :=
  getNodeInHash_perm apartConf (by decide) (by decide) (by decide)
    (List.pairwise_pair.mpr (by
      simp only [Apart, ← List.inter_eq_nil_iff_disjoint]
      decide +kernel)) (List.Perm.swap _ _ _) _ _ _

/-- With a common point the two orders send an object to different nodes. -/
theorem getNodeInHash_perm_fails :
    (∀ z ∈ [sampleZkNode 1, otherZkNode], isValidZkNode z = true) ∧
      (sampleZkNode 1).path ≠ otherZkNode.path ∧
      (sampleZkNode 1).hostKey ≠ otherZkNode.hostKey ∧
      ((addAll collidingConf {} [sampleZkNode 1, otherZkNode]).getNodeInHash .fnv1a_64
        (text "logic") (text "user")).map Node.id ≠
      ((addAll collidingConf {} [otherZkNode, sampleZkNode 1]).getNodeInHash .fnv1a_64
        (text "logic") (text "user")).map Node.id := by
  refine ⟨by decide, by decide, by decide, ?_⟩
  decide +kernel

end Nodes

end Kimserver
