import Kimserver.Nodes.HostIndex
import Kimserver.Registry.Notify
import Mathlib.Data.List.TakeWhile

/-!
# Reconciling the children of a path

When the children of a watched path change, `get_zk_diff_nodes` compares them with the registered
paths of the type: what is registered and not listed is deleted, and the records of what is listed
and not registered are fetched and added.

Two things stand in the way of the listed paths being the registered ones. A path that is listed
for one type and registered for another changes its type. And where an entry of the host index was
left behind by a record that moved, a new record on the old host takes over from one that lives
elsewhere, or is refused for it.

## Main definitions

* `Nodes.delAll`, `Nodes.reconcile`: the deletions, and the additions behind them
* `Reconciled`: the registered paths of the type are the listed ones, and the rest stays
* `Arrivals`: the records that are added
* `HostsFree`: no index entry for their hosts leads to another registered path

## Main results

* `mem_diffCmp`: what two lists of distinct paths do not share
* `Nodes.addAll_zkNodes`: records with free hosts are stored, and nothing else changes
* `Nodes.Registered.reconciled_iff`: when a registry is reconciled
* `children_reconciled`: the reconciliation after every run of the registry
-/

namespace Kimserver

/-! ## The differences of two lists -/

/-- Two texts of which neither is in front of the other are equal. -/
theorem eq_of_textLe {a b : Bytes} (hab : textLe a b) (hba : textLe b a) : a = b :=
  Std.Trichotomous.trichotomous a b hba hab

instance : Std.Total textLe := ⟨fun a b => by
  by_cases hba : b < a
  · exact Or.inr (Std.Asymm.asymm b a hba)
  · exact Or.inl hba⟩

instance : IsTrans Bytes textLe := ⟨fun a b c hab hbc hca => by
  by_cases hlt : a < b
  · exact hbc (List.lt_trans hca hlt)
  · exact hbc (eq_of_textLe hlt hab ▸ hca)⟩

/-- A sorted list of distinct texts. -/
theorem pairwise_insertionSort_lt {l : List Bytes} (h : l.Nodup) :
    (l.insertionSort textLe).Pairwise (· < ·) := by
  have hsorted := List.pairwise_insertionSort textLe l
  have hnodup : (l.insertionSort textLe).Nodup := (List.perm_insertionSort textLe l).nodup_iff.mpr h
  refine (hsorted.and hnodup).imp fun {a b} hab => ?_
  by_contra hlt
  exact hab.2 (eq_of_textLe hab.1 hlt)

/-- What is skipped in a sorted list is in front of everything that `a` is not behind. -/
theorem mem_dropWhile_iff {second : List Bytes} {a x : Bytes} (hx : ¬ x < a) :
    x ∈ second.dropWhile (· < a) ↔ x ∈ second := by
  refine ⟨fun hmem => (List.dropWhile_sublist _).subset hmem, fun hmem => ?_⟩
  rw [← List.takeWhile_append_dropWhile (p := (· < a)) (l := second)] at hmem
  refine (List.mem_append.mp hmem).resolve_left fun htake => ?_
  have hlt := List.mem_takeWhile_imp (p := fun y => decide (y < a)) htake
  exact hx (of_decide_eq_true hlt)

/-- `std::set_difference` of sorted lists of distinct texts. -/
theorem mem_setDifference {first second : List Bytes} (hfirst : first.Pairwise (· < ·))
    (hsecond : second.Pairwise (· < ·)) {x : Bytes} :
    x ∈ setDifference first second ↔ x ∈ first ∧ x ∉ second := by
  induction first generalizing second with
  | nil => simp [setDifference]
  | cons a first ih =>
    rw [List.pairwise_cons] at hfirst
    have hself : a ∈ second.dropWhile (· < a) ↔ a ∈ second := mem_dropWhile_iff (List.lt_irrefl a)
    have hbehind : x ∈ first → (x ∈ second.dropWhile (· < a) ↔ x ∈ second) := fun hx =>
      mem_dropWhile_iff (Std.Asymm.asymm a x (hfirst.1 x hx))
    have hdrop : (second.dropWhile (· < a)).Pairwise (· < ·) :=
      hsecond.sublist (List.dropWhile_sublist _)
    have hhead := List.head?_dropWhile_not (p := (· < a)) (l := second)
    rw [setDifference]
    cases hd : second.dropWhile (· < a) with
    | nil =>
      rw [hd] at hself hbehind
      dsimp only
      rw [List.mem_cons, List.mem_cons, ih hfirst.2 List.Pairwise.nil]
      constructor
      · rintro (rfl | ⟨hx, hnot⟩)
        · exact ⟨Or.inl rfl, fun hmem => List.not_mem_nil (hself.mpr hmem)⟩
        · exact ⟨Or.inr hx, fun hmem => hnot ((hbehind hx).mpr hmem)⟩
      · rintro ⟨rfl | hx, -⟩
        · exact Or.inl rfl
        · exact Or.inr ⟨hx, List.not_mem_nil⟩
    | cons b rest =>
      rw [hd] at hself hbehind hdrop hhead
      have hb : textLe a b := of_decide_eq_false hhead
      by_cases hlt : a < b
      · -- everything in the rest is behind `a`
        have hnot : a ∉ second := by
          intro hmem
          rcases List.mem_cons.mp (hself.mpr hmem) with heq | hrest
          · exact List.lt_irrefl a (heq ▸ hlt)
          · exact hb ((List.pairwise_cons.mp hdrop).1 a hrest)
        dsimp only
        rw [if_pos hlt, List.mem_cons, List.mem_cons, ih hfirst.2 hdrop]
        constructor
        · rintro (rfl | ⟨hx, hmem⟩)
          · exact ⟨Or.inl rfl, hnot⟩
          · exact ⟨Or.inr hx, fun hsecond => hmem ((hbehind hx).mpr hsecond)⟩
        · rintro ⟨rfl | hx, hmem⟩
          · exact Or.inl rfl
          · exact Or.inr ⟨hx, fun hdropped => hmem ((hbehind hx).mp hdropped)⟩
      · obtain rfl : a = b := eq_of_textLe hb hlt
        rw [List.pairwise_cons] at hdrop
        dsimp only
        rw [if_neg hlt, ih hfirst.2 hdrop.2, List.mem_cons]
        constructor
        · rintro ⟨hx, hmem⟩
          refine ⟨Or.inr hx, fun hsecond => ?_⟩
          rcases List.mem_cons.mp ((hbehind hx).mpr hsecond) with rfl | hrest
          · exact List.lt_irrefl x (hfirst.1 x hx)
          · exact hmem hrest
        · rintro ⟨rfl | hx, hmem⟩
          · exact absurd (hself.mp List.mem_cons_self) hmem
          · exact ⟨hx, fun hrest => hmem ((hbehind hx).mp (List.mem_cons_of_mem a hrest))⟩

/-- **`diff_cmp`** of lists of distinct texts. -/
theorem mem_diffCmp {first second : List Bytes} (hfirst : first.Nodup) (hsecond : second.Nodup)
    {x : Bytes} : x ∈ diffCmp first second ↔ x ∈ first ∧ x ∉ second := by
  unfold diffCmp
  rw [mem_setDifference (pairwise_insertionSort_lt hfirst) (pairwise_insertionSort_lt hsecond),
    (List.perm_insertionSort textLe first).mem_iff, (List.perm_insertionSort textLe second).mem_iff]

theorem setDifference_sublist (first second : List Bytes) :
    (setDifference first second).Sublist first := by
  induction first generalizing second with
  | nil => exact List.Sublist.refl _
  | cons a first ih =>
    rw [setDifference]
    cases second.dropWhile (· < a) with
    | nil => exact (ih []).cons_cons a
    | cons b rest =>
      dsimp only
      split_ifs
      · exact (ih (b :: rest)).cons_cons a
      · exact (ih rest).cons a

theorem nodup_diffCmp {first second : List Bytes} (hfirst : first.Nodup) :
    (diffCmp first second).Nodup :=
  ((List.perm_insertionSort textLe first).nodup_iff.mpr hfirst).sublist
    (setDifference_sublist _ _)

/-! ## Deletions and additions -/

namespace Nodes

/-- `del_zk_node` for every path of a list. -/
def delAll (s : Nodes) (paths : List Bytes) : Nodes :=
  paths.foldl (fun s path => (s.delZkNode path).1) s

/-- The deletions of `get_zk_diff_nodes`, and the additions of `zs` behind them. -/
def reconcile (cfg : NodesConf) (s : Nodes) (iteration : List (Bytes × ZkNode)) (type : Bytes)
    (paths : List Bytes) (zs : List ZkNode) : Nodes :=
  (s.delAll (getZkDiffNodes iteration type paths).2).addAll cfg zs

theorem delAll_lookup (s : Nodes) (paths : List Bytes) (x : Bytes) :
    (s.delAll paths).zkNodes.lookup x = if x ∈ paths then none else s.zkNodes.lookup x := by
  induction paths generalizing s with
  | nil => simp [delAll]
  | cons path paths ih =>
    have hcons : s.delAll (path :: paths) = (s.delZkNode path).1.delAll paths := rfl
    rw [hcons, ih, delZkNode_zkNodes_lookup]
    by_cases hx : x = path
    · simp [hx]
    · simp [hx]

theorem Registered.delAll {s : Nodes} (h : s.Registered) (paths : List Bytes) :
    (s.delAll paths).Registered := by
  induction paths generalizing s with
  | nil => exact h
  | cons path paths ih => exact ih (h.delZkNode path)

/-- The index entry for the host of `z`, if there is one, leads to the path of `z` or to no
registered record. -/
def HostFreeFor (s : Nodes) (z : ZkNode) : Prop :=
  ∀ path, s.hostZkPaths.lookup z.hostKey = some path →
    path = z.path ∨ s.zkNodes.lookup path = none

/-- **A valid record whose host is free** is stored, and nothing else changes. -/
theorem Registered.addZkNode_zkNodes {s : Nodes} (h : s.Registered) (cfg : NodesConf) {z : ZkNode}
    (hvalid : isValidZkNode z = true) (hfree : s.HostFreeFor z) :
    (s.addZkNode cfg z).1.zkNodes = s.zkNodes.insert z.path z := by
  have hchk : (s.checkZkNodeHost z).2 = true ∧ (s.checkZkNodeHost z).1.zkNodes = s.zkNodes := by
    unfold checkZkNodeHost
    cases hhost : s.hostZkPaths.lookup z.hostKey with
    | none => exact ⟨rfl, rfl⟩
    | some path =>
      cases hzk : s.zkNodes.lookup path with
      | none =>
        dsimp only
        rw [hzk]
        exact ⟨rfl, rfl⟩
      | some old =>
        -- the entry leads to the path of `z` itself
        have hpath : z.path = old.path := by
          rcases hfree path hhost with rfl | hnone
          · exact (h.keyed hzk).symm
          · rw [hnone] at hzk
            cases hzk
        dsimp only
        rw [hzk]
        simp only [if_pos hpath, true_and]
  rw [(addZkNode_accepted_maps cfg hvalid hchk.1).1, hchk.2]

/-- Every record of a list has a free host when it is added. -/
def HostsFree (cfg : NodesConf) : Nodes → List ZkNode → Prop
  | _, [] => True
  | s, z :: zs => s.HostFreeFor z ∧ HostsFree cfg (s.addZkNode cfg z).1 zs

/-- **Records with free hosts** are stored, and nothing else changes. -/
theorem Registered.addAll_zkNodes {s : Nodes} (h : s.Registered) (cfg : NodesConf)
    {zs : List ZkNode} (hvalid : ∀ z ∈ zs, isValidZkNode z = true) (hfree : HostsFree cfg s zs) :
    (s.addAll cfg zs).zkNodes = FiniteMap.assignAll s.zkNodes (zs.map fun z => (z.path, z)) := by
  induction zs generalizing s with
  | nil => rfl
  | cons z zs ih =>
    rw [addAll_cons, ih (h.addZkNode cfg z) (fun w hw => hvalid w (List.mem_cons_of_mem z hw))
      hfree.2, h.addZkNode_zkNodes cfg (hvalid z List.mem_cons_self) hfree.1]
    rfl

/-- An accepted record is valid, and passes the check of its host. -/
theorem addZkNode_inv {cfg : NodesConf} {s : Nodes} {z : ZkNode}
    (h : (s.addZkNode cfg z).2 = true) :
    isValidZkNode z = true ∧ (s.checkZkNodeHost z).2 = true := by
  unfold addZkNode at h
  split_ifs at h with hvalid
  · rw [Bool.not_eq_false] at hvalid
    refine ⟨hvalid, ?_⟩
    cases hchk : s.checkZkNodeHost z with
    | mk s' ok =>
      rw [hchk] at h
      cases ok with
      | false => exact absurd h Bool.false_ne_true
      | true => rfl

/-- A registration adds no other path. -/
theorem Registered.addZkNode_kept {s : Nodes} (h : s.Registered) (cfg : NodesConf) {z w : ZkNode}
    {x : Bytes} (hx : x ≠ z.path) (hw : (s.addZkNode cfg z).1.zkNodes.lookup x = some w) :
    s.zkNodes.lookup x = some w := by
  cases hres : (s.addZkNode cfg z).2 with
  | false => rwa [addZkNode_rejected hres] at hw
  | true =>
    obtain ⟨hvalid, hchk⟩ := addZkNode_inv hres
    rw [(addZkNode_accepted_maps cfg hvalid hchk).1, FiniteMap.lookup_insert, if_neg hx] at hw
    exact (checkZkNodeHost_accepted h hchk).kept hw

/-- A path that is not registered, and has no record in a list, stays so. -/
theorem Registered.addAll_lookup_none {s : Nodes} (h : s.Registered) (cfg : NodesConf)
    {zs : List ZkNode} {x : Bytes} (hx : x ∉ zs.map ZkNode.path)
    (hnone : s.zkNodes.lookup x = none) : (s.addAll cfg zs).zkNodes.lookup x = none := by
  induction zs generalizing s with
  | nil => exact hnone
  | cons z zs ih =>
    rw [List.map_cons, List.mem_cons, not_or] at hx
    refine ih (h.addZkNode cfg z) hx.2 ?_
    cases hw : (s.addZkNode cfg z).1.zkNodes.lookup x with
    | none => rfl
    | some w => exact hnone ▸ (h.addZkNode_kept cfg hx.1 hw).symm

/-- A record whose host is not free is refused, or evicts another one. -/
theorem Registered.addZkNode_not_free {s : Nodes} (h : s.Registered) (cfg : NodesConf) {z : ZkNode}
    (hfree : ¬ s.HostFreeFor z) :
    (s.addZkNode cfg z).1 = s ∨
      ∃ path, s.zkNodes.lookup path ≠ none ∧ (s.addZkNode cfg z).1.zkNodes.lookup path = none := by
  cases hres : (s.addZkNode cfg z).2 with
  | false => exact Or.inl (addZkNode_rejected hres)
  | true =>
    obtain ⟨hvalid, hchk⟩ := addZkNode_inv hres
    unfold HostFreeFor at hfree
    push Not at hfree
    -- the host is taken by a path that is registered
    obtain ⟨path, hhost, hne, hthere⟩ := hfree
    refine Or.inr ⟨path, hthere, ?_⟩
    rw [(addZkNode_accepted_maps cfg hvalid hchk).1, FiniteMap.lookup_insert, if_neg hne]
    rcases checkZkNodeHost_cases h z with hrej | ⟨hown, -⟩ | ⟨path', hhost', hnone, -⟩ |
      ⟨path', hhost', -, heq⟩
    · rw [hrej] at hchk
      exact absurd hchk Bool.false_ne_true
    · exact absurd (hown path hhost) hne
    · obtain rfl := Option.some.inj (hhost.symm.trans hhost')
      exact absurd hnone hthere
    · obtain rfl := Option.some.inj (hhost.symm.trans hhost')
      -- the owner of the host is evicted
      rw [heq, delZkNode_zkNodes_lookup, if_pos rfl]

/-- **Where every record of a list is added and no record is lost**, the hosts were free. -/
theorem Registered.hostsFree_of_kept {s : Nodes} (h : s.Registered) (cfg : NodesConf)
    {zs : List ZkNode} (hvalid : ∀ z ∈ zs, isValidZkNode z = true)
    (hnodup : (zs.map ZkNode.path).Nodup)
    (hnew : ∀ z ∈ zs, s.zkNodes.lookup z.path = none)
    (hadded : ∀ z ∈ zs, (s.addAll cfg zs).zkNodes.lookup z.path ≠ none)
    (hkept : ∀ x, s.zkNodes.lookup x ≠ none → (s.addAll cfg zs).zkNodes.lookup x ≠ none) :
    HostsFree cfg s zs := by
  induction zs generalizing s with
  | nil => trivial
  | cons z zs ih =>
    rw [List.map_cons, List.nodup_cons] at hnodup
    have hreg := h.addZkNode cfg z
    have hfree : s.HostFreeFor z := by
      by_contra hnot
      rcases h.addZkNode_not_free cfg hnot with hsame | ⟨path, hthere, hgone⟩
      · -- refused: nobody else adds its path
        refine hadded z List.mem_cons_self ?_
        rw [addAll_cons]
        refine hreg.addAll_lookup_none cfg hnodup.1 ?_
        rw [hsame]
        exact hnew z List.mem_cons_self
      · -- evicted: only new paths are added
        refine hkept path hthere ?_
        rw [addAll_cons]
        refine hreg.addAll_lookup_none cfg (fun hmem => ?_) hgone
        obtain ⟨w, hw, rfl⟩ := List.mem_map.mp hmem
        exact hthere (hnew w (List.mem_cons_of_mem z hw))
    have hstored := h.addZkNode_zkNodes cfg (hvalid z List.mem_cons_self) hfree
    refine ⟨hfree, ih hreg (fun w hw => hvalid w (List.mem_cons_of_mem z hw)) hnodup.2 ?_
      (fun w hw => hadded w (List.mem_cons_of_mem z hw)) fun x hx => ?_⟩
    · intro w hw
      have hne : w.path ≠ z.path := fun heq => hnodup.1 (heq ▸ List.mem_map_of_mem hw)
      rw [hstored, FiniteMap.lookup_insert, if_neg hne]
      exact hnew w (List.mem_cons_of_mem z hw)
    · rw [hstored, FiniteMap.lookup_insert] at hx
      split_ifs at hx with heq
      · rw [heq]
        exact hadded z List.mem_cons_self
      · exact hkept x hx

end Nodes

/-! ## The reconciled registry -/

/-- The registered paths of the type are the listed ones, the records of listed paths that were
registered stay, and no path of another type comes or goes. -/
structure Reconciled (s s' : Nodes) (type : Bytes) (paths : List Bytes) : Prop where
  listed : ∀ path, (∃ z, s'.zkNodes.lookup path = some z ∧ z.type = type) ↔ path ∈ paths
  kept : ∀ path ∈ paths, ∀ z, s.zkNodes.lookup path = some z → s'.zkNodes.lookup path = some z
  others : ∀ path other, other ≠ type →
    ((∃ z, s'.zkNodes.lookup path = some z ∧ z.type = other) ↔
      ∃ z, s.zkNodes.lookup path = some z ∧ z.type = other)

/-- A valid record of the type for every path to add, in any order, each at a host and port of
its own. -/
structure Arrivals (s : Nodes) (type : Bytes) (adds : List Bytes) (zs : List ZkNode) : Prop where
  paths : (zs.map ZkNode.path).Perm adds
  valid : ∀ z ∈ zs, isValidZkNode z = true
  type_eq : ∀ z ∈ zs, z.type = type
  registered : ∀ z ∈ zs, ∀ path w, s.zkNodes.lookup path = some w → w.host = z.host →
    w.port = z.port → path = z.path
  apart : zs.Pairwise fun z w => z.host = w.host → z.port ≠ w.port

section Reconcile

variable {s : Nodes} {iteration : List (Bytes × ZkNode)} {type : Bytes} {paths : List Bytes}

/-- The registered paths of a type, as `get_zk_diff_nodes` collects them. -/
theorem mem_registered (henum : FiniteMap.Enumerates s.zkNodes iteration) {x : Bytes} :
    x ∈ (iteration.filter fun e => type = e.2.type).map Prod.fst ↔
      ∃ z, s.zkNodes.lookup x = some z ∧ z.type = type := by
  rw [List.mem_map]
  constructor
  · rintro ⟨⟨path, z⟩, hmem, rfl⟩
    rw [List.mem_filter] at hmem
    exact ⟨z, (henum.2 path z).mp hmem.1, (of_decide_eq_true hmem.2).symm⟩
  · rintro ⟨z, hz, htype⟩
    exact ⟨(x, z), List.mem_filter.mpr ⟨(henum.2 x z).mpr hz, decide_eq_true htype.symm⟩, rfl⟩

/-- **What `get_zk_diff_nodes` adds**: the paths that are listed and not registered for the
type. -/
theorem mem_adds (henum : FiniteMap.Enumerates s.zkNodes iteration) (hnodup : paths.Nodup)
    {x : Bytes} : x ∈ (getZkDiffNodes iteration type paths).1 ↔
      x ∈ paths ∧ ¬ ∃ z, s.zkNodes.lookup x = some z ∧ z.type = type := by
  have hvec : ((iteration.filter fun e => type = e.2.type).map Prod.fst).Nodup :=
    henum.1.sublist (List.filter_sublist.map Prod.fst)
  rw [← mem_registered henum]
  exact mem_diffCmp hnodup hvec

/-- **What it deletes**: the paths that are registered for the type and not listed. -/
theorem mem_dels (henum : FiniteMap.Enumerates s.zkNodes iteration) (hnodup : paths.Nodup)
    {x : Bytes} : x ∈ (getZkDiffNodes iteration type paths).2 ↔
      (∃ z, s.zkNodes.lookup x = some z ∧ z.type = type) ∧ x ∉ paths := by
  have hvec : ((iteration.filter fun e => type = e.2.type).map Prod.fst).Nodup :=
    henum.1.sublist (List.filter_sublist.map Prod.fst)
  rw [← mem_registered henum]
  exact mem_diffCmp hvec hnodup

/-- What is registered for a path in the end: a record that was added, or what the deletions
left. -/
theorem lookup_reconcile (h : s.Registered) (cfg : NodesConf) {zs : List ZkNode}
    (hnodup : (getZkDiffNodes iteration type paths).1.Nodup)
    (harrivals : Arrivals s type (getZkDiffNodes iteration type paths).1 zs)
    (hhosts : Nodes.HostsFree cfg (s.delAll (getZkDiffNodes iteration type paths).2) zs)
    (x : Bytes) :
    (x ∈ (getZkDiffNodes iteration type paths).1 →
      ∃ z, (s.reconcile cfg iteration type paths zs).zkNodes.lookup x = some z ∧ z.type = type) ∧
    (x ∉ (getZkDiffNodes iteration type paths).1 →
      (s.reconcile cfg iteration type paths zs).zkNodes.lookup x =
        if x ∈ (getZkDiffNodes iteration type paths).2 then none else s.zkNodes.lookup x) := by
  have hkeys : (zs.map fun z => (z.path, z)).map Prod.fst = zs.map ZkNode.path := List.map_map
  unfold Nodes.reconcile
  -- the deletions first, and the additions over what they left
  rw [(h.delAll _).addAll_zkNodes cfg harrivals.valid hhosts, ← Nodes.delAll_lookup]
  constructor
  · intro hx
    obtain ⟨z, hz, rfl⟩ := List.mem_map.mp (harrivals.paths.mem_iff.mpr hx)
    refine ⟨z, ?_, harrivals.type_eq z hz⟩
    refine FiniteMap.lookup_assignAll_of_mem ?_ (List.mem_map.mpr ⟨z, hz, rfl⟩)
    rw [hkeys, harrivals.paths.nodup_iff]
    exact hnodup
  · intro hx
    refine FiniteMap.lookup_assignAll_of_notMem ?_
    rw [hkeys, harrivals.paths.mem_iff]
    exact hx

/-- The reconciliation of a registry whose two maps agree. -/
theorem Nodes.Registered.reconciled (h : s.Registered) (cfg : NodesConf) {zs : List ZkNode}
    (henum : FiniteMap.Enumerates s.zkNodes iteration) (hnodup : paths.Nodup)
    (harrivals : Arrivals s type (getZkDiffNodes iteration type paths).1 zs)
    (htypes : ∀ path ∈ paths, ∀ z, s.zkNodes.lookup path = some z → z.type = type)
    (hhosts : Nodes.HostsFree cfg (s.delAll (getZkDiffNodes iteration type paths).2) zs) :
    Reconciled s (s.reconcile cfg iteration type paths zs) type paths := by
  have hlookup := lookup_reconcile h cfg (nodup_diffCmp hnodup) harrivals hhosts
  -- a listed path that is registered is neither added nor deleted
  have hstay : ∀ x ∈ paths, ∀ z, s.zkNodes.lookup x = some z →
      (s.reconcile cfg iteration type paths zs).zkNodes.lookup x = some z := by
    intro x hx z hz
    have hnew : x ∉ (getZkDiffNodes iteration type paths).1 := fun hmem =>
      ((mem_adds henum hnodup).mp hmem).2 ⟨z, hz, htypes x hx z hz⟩
    have hgone : x ∉ (getZkDiffNodes iteration type paths).2 := fun hmem =>
      ((mem_dels henum hnodup).mp hmem).2 hx
    rw [(hlookup x).2 hnew, if_neg hgone]
    exact hz
  refine ⟨fun x => ⟨?_, fun hx => ?_⟩, hstay, fun x other hother => ⟨?_, ?_⟩⟩
  · rintro ⟨z, hz, htype⟩
    by_contra hx
    have hnew : x ∉ (getZkDiffNodes iteration type paths).1 := fun hmem =>
      hx ((mem_adds henum hnodup).mp hmem).1
    rw [(hlookup x).2 hnew] at hz
    split_ifs at hz with hgone
    exact hgone ((mem_dels henum hnodup).mpr ⟨⟨z, hz, htype⟩, hx⟩)
  · by_cases hold : ∃ z, s.zkNodes.lookup x = some z ∧ z.type = type
    · obtain ⟨z, hz, htype⟩ := hold
      exact ⟨z, hstay x hx z hz, htype⟩
    · exact (hlookup x).1 ((mem_adds henum hnodup).mpr ⟨hx, hold⟩)
  · rintro ⟨z, hz, htype⟩
    by_cases hnew : x ∈ (getZkDiffNodes iteration type paths).1
    · obtain ⟨w, hw, hwtype⟩ := (hlookup x).1 hnew
      rw [hz] at hw
      obtain rfl := Option.some.inj hw
      exact absurd (htype.symm.trans hwtype) hother
    · rw [(hlookup x).2 hnew] at hz
      split_ifs at hz
      exact ⟨z, hz, htype⟩
  · rintro ⟨z, hz, htype⟩
    have hnew : x ∉ (getZkDiffNodes iteration type paths).1 := fun hmem =>
      hother (htype.symm.trans (htypes x ((mem_adds henum hnodup).mp hmem).1 z hz))
    have hgone : x ∉ (getZkDiffNodes iteration type paths).2 := by
      intro hmem
      obtain ⟨⟨w, hw, hwtype⟩, -⟩ := (mem_dels henum hnodup).mp hmem
      rw [hz] at hw
      obtain rfl := Option.some.inj hw
      exact hother (htype.symm.trans hwtype)
    refine ⟨z, ?_, htype⟩
    rw [(hlookup x).2 hnew, if_neg hgone]
    exact hz

/-- The conditions are the exact ones. -/
theorem Nodes.Registered.reconciled_iff (h : s.Registered) (cfg : NodesConf) {zs : List ZkNode}
    (henum : FiniteMap.Enumerates s.zkNodes iteration) (hnodup : paths.Nodup)
    (harrivals : Arrivals s type (getZkDiffNodes iteration type paths).1 zs) :
    Reconciled s (s.reconcile cfg iteration type paths zs) type paths ↔
      (∀ path ∈ paths, ∀ z, s.zkNodes.lookup path = some z → z.type = type) ∧
      Nodes.HostsFree cfg (s.delAll (getZkDiffNodes iteration type paths).2) zs := by
  refine ⟨fun hrec => ?_, fun hcond => h.reconciled cfg henum hnodup harrivals hcond.1 hcond.2⟩
  have htypes : ∀ path ∈ paths, ∀ z, s.zkNodes.lookup path = some z → z.type = type := by
    intro path hpath z hz
    by_contra htype
    obtain ⟨w, hw, hwtype⟩ := (hrec.listed path).mpr hpath
    obtain ⟨v, hv, hvtype⟩ := (hrec.others path z.type htype).mpr ⟨z, hz, rfl⟩
    rw [hw] at hv
    obtain rfl := Option.some.inj hv
    exact htype (hvtype.symm.trans hwtype)
  have hmem : ∀ z ∈ zs, z.path ∈ (getZkDiffNodes iteration type paths).1 := fun z hz =>
    harrivals.paths.mem_iff.mp (List.mem_map_of_mem hz)
  refine ⟨htypes, (h.delAll _).hostsFree_of_kept cfg harrivals.valid
    (harrivals.paths.nodup_iff.mpr (nodup_diffCmp hnodup)) ?_ ?_ ?_⟩
  · intro z hz
    obtain ⟨hlisted, hnone⟩ := (mem_adds henum hnodup).mp (hmem z hz)
    have hgone : z.path ∉ (getZkDiffNodes iteration type paths).2 := fun hdel =>
      ((mem_dels henum hnodup).mp hdel).2 hlisted
    rw [Nodes.delAll_lookup, if_neg hgone]
    cases hold : s.zkNodes.lookup z.path with
    | none => rfl
    | some w => exact absurd ⟨w, hold, htypes _ hlisted w hold⟩ hnone
  · intro z hz
    obtain ⟨w, hw, -⟩ := (hrec.listed z.path).mpr ((mem_adds henum hnodup).mp (hmem z hz)).1
    exact Option.ne_none_iff_exists'.mpr ⟨w, hw⟩
  · intro x hx
    rw [Nodes.delAll_lookup] at hx
    split_ifs at hx with hgone
    · exact absurd rfl hx
    · obtain ⟨z, hz⟩ := Option.ne_none_iff_exists'.mp hx
      have hstays : ∃ w, (s.reconcile cfg iteration type paths zs).zkNodes.lookup x = some w := by
        by_cases htype : z.type = type
        · -- registered for the type and not deleted: it is listed
          have hlisted : x ∈ paths := by
            by_contra hnot
            exact hgone ((mem_dels henum hnodup).mpr ⟨⟨z, hz, htype⟩, hnot⟩)
          obtain ⟨w, hw, -⟩ := (hrec.listed x).mpr hlisted
          exact ⟨w, hw⟩
        · obtain ⟨w, hw, -⟩ := (hrec.others x z.type htype).mpr ⟨z, hz, rfl⟩
          exact ⟨w, hw⟩
      exact Option.ne_none_iff_exists'.mpr hstays

/-- **A registry is reconciled with the listed paths** when none of them is registered for another
type, and every record that is added has a free host then. -/
theorem children_reconciled (cfg : NodesConf) (ops : List NodesOp) {zs : List ZkNode}
    (henum : FiniteMap.Enumerates ((nodesMachine cfg).run {} ops).zkNodes iteration)
    (hnodup : paths.Nodup)
    (harrivals : Arrivals ((nodesMachine cfg).run {} ops) type
      (getZkDiffNodes iteration type paths).1 zs)
    (htypes : ∀ path ∈ paths, ∀ z,
      ((nodesMachine cfg).run {} ops).zkNodes.lookup path = some z → z.type = type)
    (hhosts : Nodes.HostsFree cfg
      (((nodesMachine cfg).run {} ops).delAll (getZkDiffNodes iteration type paths).2) zs) :
    Reconciled ((nodesMachine cfg).run {} ops)
      (((nodesMachine cfg).run {} ops).reconcile cfg iteration type paths zs) type paths :=
  (Nodes.registered_run cfg ops).reconciled cfg henum hnodup harrivals htypes hhosts

end Reconcile

/-! ## Three reconciliations -/

/-- A path beside the one of the sample record. -/
def secondPath : Bytes := text "/kimserver/logic/0000000002"

/-- A record for it, at some port and time. -/
def secondZkNode (port : UInt32) (activeTime : Double) : ZkNode :=
  { sampleZkNode 1 with path := secondPath, port, activeTime }

/-- One record with a path of its own. -/
theorem arrivals_singleton {s : Nodes} {type path : Bytes} {z : ZkNode} (hpath : z.path = path)
    (hvalid : isValidZkNode z = true) (htype : z.type = type)
    (hregistered : ∀ path w, s.zkNodes.lookup path = some w → w.host = z.host →
      w.port = z.port → path = z.path) : Arrivals s type [path] [z] where
  paths := hpath ▸ List.Perm.refl _
  valid _ hw := List.mem_singleton.mp hw ▸ hvalid
  type_eq _ hw := List.mem_singleton.mp hw ▸ htype
  registered _ hw := List.mem_singleton.mp hw ▸ hregistered
  apart := List.pairwise_singleton _ _

/-- The only record of a registry. -/
theorem eq_of_enumerates_singleton {s : Nodes} {path : Bytes} {z : ZkNode}
    (h : FiniteMap.Enumerates s.zkNodes [(path, z)]) {x : Bytes} {w : ZkNode}
    (hw : s.zkNodes.lookup x = some w) : x = path ∧ w = z := by
  have hmem := (h.2 x w).mpr hw
  rw [List.mem_singleton, Prod.mk.injEq] at hmem
  exact hmem

/-- The record of the first path is replaced by one for the second. -/
theorem children_reconciled_replaced :
    Reconciled ((nodesMachine sampleConf).run {} [.addZkNode (sampleZkNode 1)])
      (((nodesMachine sampleConf).run {} [.addZkNode (sampleZkNode 1)]).reconcile sampleConf
        [((sampleZkNode 1).path, sampleZkNode 1)] (text "logic") [secondPath]
        [secondZkNode 82 ⟨0x4000000000000000⟩]) (text "logic") [secondPath] := by
  have henum : FiniteMap.Enumerates
      ((nodesMachine sampleConf).run {} [.addZkNode (sampleZkNode 1)]).zkNodes
      [((sampleZkNode 1).path, sampleZkNode 1)] := by decide +kernel
  have hadds : (getZkDiffNodes [((sampleZkNode 1).path, sampleZkNode 1)] (text "logic")
      [secondPath]).1 = [secondPath] := by decide +kernel
  refine children_reconciled sampleConf _ henum (List.nodup_singleton _) ?_ ?_ ⟨?_, trivial⟩
  · rw [hadds]
    refine arrivals_singleton rfl (by decide) (by decide) fun path w hw _ hport => ?_
    obtain ⟨rfl, rfl⟩ := eq_of_enumerates_singleton henum hw
    exact absurd hport (by decide)
  · intro path hpath z hz
    obtain ⟨rfl, rfl⟩ := eq_of_enumerates_singleton henum hz
    exact absurd (List.mem_singleton.mp hpath) (by decide)
  · intro path hhost
    -- the host of the first record is not the one of the second
    have hnone : (((nodesMachine sampleConf).run {} [.addZkNode (sampleZkNode 1)]).delAll
        (getZkDiffNodes [((sampleZkNode 1).path, sampleZkNode 1)] (text "logic")
          [secondPath]).2).hostZkPaths.lookup (secondZkNode 82 ⟨0x4000000000000000⟩).hostKey =
            none := by decide +kernel
    rw [hnone] at hhost
    cases hhost

/-- A reconciliation with arrivals that have hosts of their own. -/
def Reconciles (cfg : NodesConf) (ops : List NodesOp) (iteration : List (Bytes × ZkNode))
    (type : Bytes) (paths : List Bytes) (zs : List ZkNode) : Prop :=
  FiniteMap.Enumerates ((nodesMachine cfg).run {} ops).zkNodes iteration → paths.Nodup →
    Arrivals ((nodesMachine cfg).run {} ops) type (getZkDiffNodes iteration type paths).1 zs →
      Reconciled ((nodesMachine cfg).run {} ops)
        (((nodesMachine cfg).run {} ops).reconcile cfg iteration type paths zs) type paths

/-- A path that is listed for one type and registered for another changes its type. A record on the
host that the first record left evicts it from where it lives now. -/
theorem not_reconciles :
    ¬ Reconciles sampleConf [.addZkNode (sampleZkNode 1)]
      [((sampleZkNode 1).path, sampleZkNode 1)] (text "gate") [(sampleZkNode 1).path]
      [{ sampleZkNode 1 with type := text "gate" }] ∧
    ¬ Reconciles sampleConf [.addZkNode (sampleZkNode 1), .addZkNode Nodes.movedZkNode]
      [((sampleZkNode 1).path, Nodes.movedZkNode)] (text "logic")
      [(sampleZkNode 1).path, secondPath] [secondZkNode 80 ⟨0x4008000000000000⟩] := by
  constructor
  · intro h
    -- the record of the path is written over, and the other type loses it
    have henum : FiniteMap.Enumerates
        ((nodesMachine sampleConf).run {} [.addZkNode (sampleZkNode 1)]).zkNodes
        [((sampleZkNode 1).path, sampleZkNode 1)] := by decide +kernel
    have hadds : (getZkDiffNodes [((sampleZkNode 1).path, sampleZkNode 1)] (text "gate")
        [(sampleZkNode 1).path]).1 = [(sampleZkNode 1).path] := by decide +kernel
    have hrec := h henum (List.nodup_singleton _) (by
      rw [hadds]
      refine arrivals_singleton rfl (by decide) rfl fun path w hw _ _ => ?_
      exact (eq_of_enumerates_singleton henum hw).1)
    have hlogic : (((nodesMachine sampleConf).run {} [.addZkNode (sampleZkNode 1)]).zkNodes.lookup
        (sampleZkNode 1).path) = some (sampleZkNode 1) := by decide +kernel
    obtain ⟨z, hz, htype⟩ := (hrec.others (sampleZkNode 1).path (text "logic") (by decide)).mpr
      ⟨sampleZkNode 1, hlogic, rfl⟩
    have hgate : ((((nodesMachine sampleConf).run {} [.addZkNode (sampleZkNode 1)]).reconcile
        sampleConf [((sampleZkNode 1).path, sampleZkNode 1)] (text "gate") [(sampleZkNode 1).path]
        [{ sampleZkNode 1 with type := text "gate" }]).zkNodes.lookup (sampleZkNode 1).path) =
          some { sampleZkNode 1 with type := text "gate" } := by decide +kernel
    rw [hgate] at hz
    obtain rfl := Option.some.inj hz
    exact absurd htype (by decide)
  · intro h
    -- the new record has the host that the moved one left: that one is evicted
    have henum : FiniteMap.Enumerates ((nodesMachine sampleConf).run {}
        [.addZkNode (sampleZkNode 1), .addZkNode Nodes.movedZkNode]).zkNodes
        [((sampleZkNode 1).path, Nodes.movedZkNode)] := by decide +kernel
    have hadds : (getZkDiffNodes [((sampleZkNode 1).path, Nodes.movedZkNode)] (text "logic")
        [(sampleZkNode 1).path, secondPath]).1 = [secondPath] := by decide +kernel
    have hrec := h henum (by decide) (by
      rw [hadds]
      refine arrivals_singleton rfl (by decide) rfl fun path w hw _ hport => ?_
      obtain ⟨rfl, rfl⟩ := eq_of_enumerates_singleton henum hw
      exact absurd hport (by decide))
    obtain ⟨z, hz, -⟩ := (hrec.listed (sampleZkNode 1).path).mpr List.mem_cons_self
    have hgone : (((nodesMachine sampleConf).run {}
        [.addZkNode (sampleZkNode 1), .addZkNode Nodes.movedZkNode]).reconcile sampleConf
        [((sampleZkNode 1).path, Nodes.movedZkNode)] (text "logic")
        [(sampleZkNode 1).path, secondPath]
        [secondZkNode 80 ⟨0x4008000000000000⟩]).zkNodes.lookup (sampleZkNode 1).path = none := by
      decide +kernel
    rw [hgone] at hz
    cases hz

end Kimserver
