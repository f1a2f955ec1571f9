import Kimserver.Nodes.Basic

/-!
# Registered zookeeper nodes

The two maps of the zookeeper side, `m_zk_nodes` and `m_host_zk_paths`. In every reachable
state each registered record is stored under its own path, is valid, and is found through
its host, so two registered records never share a host. A host entry may be stale: the update
of a registered path to another host leaves the old entry behind.

## Main definitions

* `Nodes.Registered`: the invariant of the two maps
* `Nodes.addAll`: registration of a list of records

## Main results

* `Nodes.Registered.addZkNode`, `Nodes.registered_run`: the invariant over steps and runs
* `Nodes.Registered.addAll_clear`: registering the records of a registry, in any order, in a
  cleared one rebuilds its map
-/

namespace Kimserver

namespace Nodes

/-- Every registered record is stored under its path, is valid and owns its host entry. -/
structure Registered (s : Nodes) : Prop where
  keyed : ∀ {path z}, s.zkNodes.lookup path = some z → z.path = path
  valid : ∀ {path z}, s.zkNodes.lookup path = some z → isValidZkNode z = true
  host : ∀ {path z}, s.zkNodes.lookup path = some z → s.hostZkPaths.lookup z.hostKey = some path

theorem registered_empty (version : UInt32) (myZkNode : Bytes) :
    Registered { version := version, myZkNode := myZkNode } where
  keyed h := by simp at h
  valid h := by simp at h
  host h := by simp at h

/-- Two registered records with one host are one record. -/
theorem Registered.path_eq {s : Nodes} (h : s.Registered) {path path' : Bytes} {z z' : ZkNode}
    (hz : s.zkNodes.lookup path = some z) (hz' : s.zkNodes.lookup path' = some z')
    (hkey : z.hostKey = z'.hostKey) : path = path' := by
  have h₁ := h.host hz
  rw [hkey, h.host hz'] at h₁
  exact (Option.some.inj h₁).symm

/-- The invariant reads the two maps only. -/
theorem Registered.congr {s t : Nodes} (h : s.Registered) (hzk : t.zkNodes = s.zkNodes)
    (hhost : t.hostZkPaths = s.hostZkPaths) : t.Registered where
  keyed hz := h.keyed (hzk ▸ hz)
  valid hz := h.valid (hzk ▸ hz)
  host hz := hhost ▸ h.host (hzk ▸ hz)

/-! ## Deletion -/

theorem delZkNode_zkNodes_lookup (s : Nodes) (path x : Bytes) :
    (s.delZkNode path).1.zkNodes.lookup x = if x = path then none else s.zkNodes.lookup x := by
  cases h : s.zkNodes.lookup path with
  | none =>
    rw [delZkNode_none h]
    split_ifs with hx
    · rw [hx, h]
    · rfl
  | some z =>
    rw [delZkNode_some h]
    exact FiniteMap.lookup_erase _ _ _

theorem Registered.delZkNode {s : Nodes} (h : s.Registered) (path : Bytes) :
    (s.delZkNode path).1.Registered := by
  cases hz : s.zkNodes.lookup path with
  | none => rwa [delZkNode_none hz]
  | some z =>
    have hkept : ∀ {x w}, (s.delZkNode path).1.zkNodes.lookup x = some w →
        x ≠ path ∧ s.zkNodes.lookup x = some w := by
      intro x w hw
      rw [delZkNode_zkNodes_lookup] at hw
      split_ifs at hw with hx
      exact ⟨hx, hw⟩
    refine ⟨fun hw => h.keyed (hkept hw).2, fun hw => h.valid (hkept hw).2, fun {x w} hw => ?_⟩
    obtain ⟨hne, hw⟩ := hkept hw
    rw [delZkNode_some hz, FiniteMap.lookup_erase, if_neg fun hkey => hne (h.path_eq hw hz hkey)]
    exact h.host hw

/-! ## The host check -/

/-- What the host check can do: reject, find the host free or owned by the same path, drop a
stale host entry, or delete the record found through the host. -/
theorem checkZkNodeHost_cases {s : Nodes} (h : s.Registered) (cur : ZkNode) :
    s.checkZkNodeHost cur = (s, false) ∨
    ((∀ path, s.hostZkPaths.lookup cur.hostKey = some path → path = cur.path) ∧
      s.checkZkNodeHost cur = (s, true)) ∨
    (∃ path, s.hostZkPaths.lookup cur.hostKey = some path ∧ s.zkNodes.lookup path = none ∧
      s.checkZkNodeHost cur =
        ({ s with hostZkPaths := s.hostZkPaths.erase cur.hostKey }, true)) ∨
    (∃ path, s.hostZkPaths.lookup cur.hostKey = some path ∧ path ≠ cur.path ∧
      s.checkZkNodeHost cur = ((s.delZkNode path).1, true)) := by
  cases hhost : s.hostZkPaths.lookup cur.hostKey with
  | none => exact Or.inr (Or.inl ⟨by simp, by simp only [checkZkNodeHost, hhost]⟩)
  | some path =>
    cases hzk : s.zkNodes.lookup path with
    | none =>
      exact Or.inr (Or.inr (Or.inl ⟨path, rfl, hzk, by simp only [checkZkNodeHost, hhost, hzk]⟩))
    | some old =>
      obtain rfl : old.path = path := h.keyed hzk
      by_cases hsame : cur.path = old.path
      · refine Or.inr (Or.inl ⟨fun x hx => ?_, ?_⟩)
        · rw [← Option.some.inj hx, hsame]
        · simp only [checkZkNodeHost, hhost, hzk, if_pos hsame]
      · by_cases htime : cur.activeTime.le old.activeTime
        · exact Or.inl (by simp only [checkZkNodeHost, hhost, hzk, if_neg hsame, if_pos htime])
        · refine Or.inr (Or.inr (Or.inr ⟨old.path, rfl, Ne.symm hsame, ?_⟩))
          simp only [checkZkNodeHost, hhost, hzk, if_neg hsame, if_neg htime]

/-- The state an accepted host check leaves: the record of the checked path is untouched,
nothing was added, and no other path has the host. -/
structure HostFree (s s' : Nodes) (cur : ZkNode) : Prop where
  registered : s'.Registered
  same : s'.zkNodes.lookup cur.path = s.zkNodes.lookup cur.path
  kept : ∀ {path z}, s'.zkNodes.lookup path = some z → s.zkNodes.lookup path = some z
  free : ∀ {path z}, s'.zkNodes.lookup path = some z → z.hostKey = cur.hostKey → path = cur.path

theorem checkZkNodeHost_accepted {s : Nodes} (h : s.Registered) {cur : ZkNode}
    (hchk : (s.checkZkNodeHost cur).2 = true) :
    HostFree s (s.checkZkNodeHost cur).1 cur := by
  rcases checkZkNodeHost_cases h cur with hrej | ⟨hown, heq⟩ | ⟨path, hhost, hzk, heq⟩ |
    ⟨path, hhost, hne, heq⟩
  · rw [hrej] at hchk
    exact absurd hchk (by simp)
  · rw [heq]
    refine ⟨h, rfl, fun hz => hz, fun hz hkey => ?_⟩
    exact hown _ (hkey ▸ h.host hz)
  · rw [heq]
    -- the entry dropped belongs to no registered record
    have hother : ∀ {x w}, s.zkNodes.lookup x = some w → w.hostKey ≠ cur.hostKey := by
      intro x w hw hkey
      have hx := h.host hw
      rw [hkey, hhost] at hx
      rw [Option.some.inj hx, hw] at hzk
      exact absurd hzk (by simp)
    refine ⟨⟨h.keyed, h.valid, fun hz => ?_⟩, rfl, fun hz => hz,
      fun hz hkey => absurd hkey (hother hz)⟩
    rw [FiniteMap.lookup_erase, if_neg (hother hz)]
    exact h.host hz
  · rw [heq]
    have hkept : ∀ {x w}, (s.delZkNode path).1.zkNodes.lookup x = some w →
        x ≠ path ∧ s.zkNodes.lookup x = some w := by
      intro x w hw
      rw [delZkNode_zkNodes_lookup] at hw
      split_ifs at hw with hx
      exact ⟨hx, hw⟩
    refine ⟨h.delZkNode path, ?_, fun hz => (hkept hz).2, fun {x w} hz hkey => ?_⟩
    · rw [delZkNode_zkNodes_lookup, if_neg hne.symm]
    · have hx := h.host (hkept hz).2
      rw [hkey, hhost] at hx
      exact absurd (Option.some.inj hx).symm (hkept hz).1

/-! ## Registration -/

/-- What is known of the two maps after an accepted registration. -/
theorem addZkNode_accepted_maps (cfg : NodesConf) {s : Nodes} {z : ZkNode}
    (hvalid : isValidZkNode z = true) (hchk : (s.checkZkNodeHost z).2 = true) :
    (s.addZkNode cfg z).1.zkNodes = (s.checkZkNodeHost z).1.zkNodes.insert z.path z ∧
      (s.addZkNode cfg z).1.hostZkPaths =
        (s.checkZkNodeHost z).1.hostZkPaths.insert z.hostKey z.path := by
  rw [addZkNode_accepted hvalid hchk]
  exact ⟨storeZkNode_zkNodes .., rfl⟩

theorem Registered.addZkNode {s : Nodes} (h : s.Registered) (cfg : NodesConf) (z : ZkNode) :
    (s.addZkNode cfg z).1.Registered := by
  by_cases hvalid : isValidZkNode z = true
  · by_cases hchk : (s.checkZkNodeHost z).2 = true
    · have hfree := checkZkNodeHost_accepted h hchk
      obtain ⟨hzk, hhost⟩ := addZkNode_accepted_maps cfg hvalid hchk
      refine ⟨fun {x w} hw => ?_, fun {x w} hw => ?_, fun {x w} hw => ?_⟩ <;>
        rw [hzk, FiniteMap.lookup_insert] at hw <;> split_ifs at hw with hx
      · rw [← Option.some.inj hw, hx]
      · exact hfree.registered.keyed hw
      · rwa [← Option.some.inj hw]
      · exact hfree.registered.valid hw
      · rw [hhost, ← Option.some.inj hw, FiniteMap.lookup_insert, if_pos rfl, hx]
      · rw [hhost, FiniteMap.lookup_insert, if_neg fun hkey => hx (hfree.free hw hkey)]
        exact hfree.registered.host hw
    · have hrej : (s.addZkNode cfg z).2 = false := by
        unfold Nodes.addZkNode
        rw [if_neg (by simp [hvalid])]
        split
        · rfl
        · next heq => rw [heq] at hchk; exact absurd rfl hchk
      rwa [addZkNode_rejected hrej]
  · unfold Nodes.addZkNode
    rwa [if_pos (by simpa using hvalid)]

/-- **The two maps agree after every run of operations.** -/
theorem registered_run (cfg : NodesConf) (ops : List NodesOp) :
    ((nodesMachine cfg).run {} ops).Registered := by
  refine (nodesMachine cfg).run_invariant (fun s op h => ?_) (registered_empty 0 []) ops
  cases op with
  | addZkNode z => exact h.addZkNode cfg z
  | delZkNode path => exact h.delZkNode path
  | setMyZkNodePath path => exact h.congr rfl rfl
  | clear => exact registered_empty _ _

/-! ## Rebuilding a registry -/

/-- Register every record of a list. -/
def addAll (cfg : NodesConf) (s : Nodes) (zs : List ZkNode) : Nodes :=
  zs.foldl (fun s z => (s.addZkNode cfg z).1) s

@[simp] theorem addAll_nil (cfg : NodesConf) (s : Nodes) : addAll cfg s [] = s := rfl

@[simp] theorem addAll_cons (cfg : NodesConf) (s : Nodes) (z : ZkNode) (zs : List ZkNode) :
    addAll cfg s (z :: zs) = addAll cfg (s.addZkNode cfg z).1 zs := rfl

@[simp] theorem addZkNode_myZkNode (cfg : NodesConf) (s : Nodes) (z : ZkNode) :
    (s.addZkNode cfg z).1.myZkNode = s.myZkNode := by
  have hdel : ∀ path, (s.delZkNode path).1.myZkNode = s.myZkNode := by
    intro path
    unfold Nodes.delZkNode
    split
    · rfl
    · exact delNodes_myZkNode ..
  have hchk : (s.checkZkNodeHost z).1.myZkNode = s.myZkNode := by
    unfold checkZkNodeHost
    split
    · rfl
    · split
      · rfl
      · split_ifs
        · rfl
        · rfl
        · exact hdel _
  unfold Nodes.addZkNode
  split_ifs
  · rfl
  · split
    · next heq => rwa [heq] at hchk
    · next heq => rw [heq] at hchk; simpa using hchk

@[simp] theorem addAll_myZkNode (cfg : NodesConf) (s : Nodes) (zs : List ZkNode) :
    (addAll cfg s zs).myZkNode = s.myZkNode := by
  induction zs generalizing s with
  | nil => rfl
  | cons z zs ih => rw [addAll_cons, ih, addZkNode_myZkNode]

/-- A valid record whose path and host are free is stored, and nothing else changes. -/
theorem addZkNode_free (cfg : NodesConf) {s : Nodes} {z : ZkNode} (hvalid : isValidZkNode z = true)
    (hhost : s.hostZkPaths.lookup z.hostKey = none) :
    (s.addZkNode cfg z).1.zkNodes = s.zkNodes.insert z.path z ∧
      (s.addZkNode cfg z).1.hostZkPaths = s.hostZkPaths.insert z.hostKey z.path := by
  have heq : s.checkZkNodeHost z = (s, true) := by simp only [checkZkNodeHost, hhost]
  have hmaps := addZkNode_accepted_maps cfg (s := s) hvalid (by rw [heq])
  rwa [heq] at hmaps

/-- Registering valid records with paths and hosts that are new and pairwise distinct adds
exactly them. -/
theorem addAll_lookup (cfg : NodesConf) (zs : List ZkNode) (s : Nodes)
    (hvalid : ∀ z ∈ zs, isValidZkNode z = true)
    (hfree : ∀ z ∈ zs, s.hostZkPaths.lookup z.hostKey = none)
    (hhosts : zs.Pairwise fun z w => z.hostKey ≠ w.hostKey)
    (hpaths : zs.Pairwise fun z w => z.path ≠ w.path)
    (hnew : ∀ z ∈ zs, s.zkNodes.lookup z.path = none) (path : Bytes) (z : ZkNode) :
    (addAll cfg s zs).zkNodes.lookup path = some z ↔
      (z ∈ zs ∧ z.path = path) ∨ s.zkNodes.lookup path = some z := by
  induction zs generalizing s with
  | nil => simp
  | cons w zs ih =>
    obtain ⟨hzk, hhost⟩ :=
      addZkNode_free cfg (hvalid w List.mem_cons_self) (hfree w List.mem_cons_self)
    rw [List.pairwise_cons] at hhosts hpaths
    rw [addAll_cons, ih _ (fun z hz => hvalid z (List.mem_cons_of_mem _ hz)) ?_ hhosts.2 hpaths.2 ?_,
      hzk, FiniteMap.lookup_insert]
    · have hw := hnew w List.mem_cons_self
      split_ifs with hx
      · subst hx
        constructor
        · rintro (⟨hmem, hp⟩ | heq)
          · exact absurd hp.symm (hpaths.1 z hmem)
          · exact Or.inl ⟨Option.some.inj heq ▸ List.mem_cons_self, by rw [Option.some.inj heq]⟩
        · rintro (⟨hmem, hp⟩ | heq)
          · rcases List.mem_cons.mp hmem with rfl | hmem
            · exact Or.inr rfl
            · exact Or.inl ⟨hmem, hp⟩
          · rw [hw] at heq
            exact absurd heq (by simp)
      · rw [List.mem_cons]
        refine or_congr_left ⟨fun ⟨hmem, hp⟩ => ⟨Or.inr hmem, hp⟩, fun ⟨hmem, hp⟩ => ⟨?_, hp⟩⟩
        rcases hmem with rfl | hmem
        · exact absurd hp.symm hx
        · exact hmem
    · intro v hv
      rw [hhost, FiniteMap.lookup_insert, if_neg (hhosts.1 v hv).symm]
      exact hfree v (List.mem_cons_of_mem _ hv)
    · intro v hv
      rw [hzk, FiniteMap.lookup_insert, if_neg (hpaths.1 v hv).symm]
      exact hnew v (List.mem_cons_of_mem _ hv)

/-- **A registry is rebuilt from its records**: registering them, in any order, in a registry
without records and hosts gives the map they came from. -/
theorem Registered.addAll_clear {s : Nodes} (h : s.Registered) (cfg : NodesConf) {t : Nodes}
    (htzk : t.zkNodes = ∅) (hthost : t.hostZkPaths = ∅) {l : List (Bytes × ZkNode)}
    (hl : FiniteMap.Enumerates s.zkNodes l) :
    (Nodes.addAll cfg t (l.map Prod.snd)).zkNodes = s.zkNodes := by
  have hpath : ∀ e ∈ l, e.2.path = e.1 := fun e he => h.keyed ((hl.2 e.1 e.2).mp he)
  have hpaths : (l.map Prod.snd).Pairwise fun z w => z.path ≠ w.path := by
    rw [List.pairwise_map]
    refine (List.pairwise_map.mp hl.1).imp_of_mem fun {a b} ha hb hne => ?_
    rwa [hpath a ha, hpath b hb]
  have hmem : ∀ z ∈ l.map Prod.snd, s.zkNodes.lookup z.path = some z := by
    intro z hz
    obtain ⟨e, he, rfl⟩ := List.mem_map.mp hz
    rw [hpath e he]
    exact (hl.2 e.1 e.2).mp he
  have hhosts : (l.map Prod.snd).Pairwise fun z w => z.hostKey ≠ w.hostKey :=
    hpaths.imp_of_mem fun hz hw hne hkey => hne (h.path_eq (hmem _ hz) (hmem _ hw) hkey)
  refine Finmap.ext_lookup fun path => Option.ext fun z => ?_
  rw [addAll_lookup cfg _ t (fun z hz => h.valid (hmem z hz)) (fun z _ => by simp [hthost]) hhosts
    hpaths (fun z _ => by simp [htzk])]
  simp only [htzk, Finmap.lookup_empty, or_false, reduceCtorEq]
  constructor
  · rintro ⟨hz, rfl⟩
    exact hmem z hz
  · intro hz
    exact ⟨List.mem_map.mpr ⟨(path, z), (hl.2 path z).mpr hz, rfl⟩, h.keyed hz⟩

end Nodes

end Kimserver
