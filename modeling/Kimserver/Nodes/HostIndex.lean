import Kimserver.Nodes.Registry

/-!
# The host index

`m_host_zk_paths` is meant to be the inverse of the registry: it maps the host of every
registered record to the path of the record, and nothing else. Registration, takeover and
deletion keep it so. The update of a registered path to another host does not: the old host
still maps to the path, and a newcomer on the old host evicts the record on the new one.

## Main definitions

* `Nodes.HostExact`: the index is the inverse of the registry
* `Nodes.HostIndex`: with what follows for the takeover
* `Nodes.NotMoved`: the steps that move no record to another host

## Main results

* `Nodes.hostIndex_run_iff`: the index is the inverse along a run exactly when no step moves
  a record
-/

namespace Kimserver

namespace Nodes

/-- The index maps the hosts of the registered records to their paths, and nothing else. -/
def HostExact (s : Nodes) : Prop :=
  ∀ key path, s.hostZkPaths.lookup key = some path ↔
    ∃ z, s.zkNodes.lookup path = some z ∧ z.hostKey = key

/-- The index is the inverse of the registry, each host has at most one record, and a newcomer
takes over only from the record on its own host. -/
structure HostIndex (s : Nodes) : Prop where
  exact : s.HostExact
  unique : ∀ path path' z z', s.zkNodes.lookup path = some z → s.zkNodes.lookup path' = some z' →
    z.hostKey = z'.hostKey → path = path'
  takeover : ∀ cur path z, s.zkNodes.lookup path = some z →
    (s.checkZkNodeHost cur).1.zkNodes.lookup path = none → z.hostKey = cur.hostKey

/-- No other record on the host of `z` is at least as new as `z`. -/
def Newest (s : Nodes) (z : ZkNode) : Prop :=
  ∀ path w, s.zkNodes.lookup path = some w → w.hostKey = z.hostKey → path ≠ z.path →
    z.activeTime.le w.activeTime = false

/-- The steps that move no record to another host: a registered path that is registered again
keeps its host, unless the registration is refused. -/
def NotMoved (s : Nodes) : NodesOp → Prop
  | .addZkNode z => isValidZkNode z = true → s.Newest z →
      ∀ old, s.zkNodes.lookup z.path = some old → old.hostKey = z.hostKey
  | _ => True

/-! ## The check of the host -/

section Check

variable {s : Nodes}

theorem HostExact.lookup (h : s.HostExact) {path : Bytes} {z : ZkNode}
    (hz : s.zkNodes.lookup path = some z) : s.hostZkPaths.lookup z.hostKey = some path :=
  (h _ _).mpr ⟨z, hz, rfl⟩

theorem HostExact.path_eq (h : s.HostExact) {path path' : Bytes} {z z' : ZkNode}
    (hz : s.zkNodes.lookup path = some z) (hz' : s.zkNodes.lookup path' = some z')
    (hkey : z.hostKey = z'.hostKey) : path = path' := by
  have hpath := h.lookup hz
  rw [hkey, h.lookup hz'] at hpath
  exact (Option.some.inj hpath).symm

/-- A deletion keeps the index exact. -/
theorem HostExact.delZkNode (h : s.HostExact) (path : Bytes) : (s.delZkNode path).1.HostExact := by
  cases hz : s.zkNodes.lookup path with
  | none => rwa [delZkNode_none hz]
  | some z =>
    intro key x
    rw [delZkNode_some hz]
    dsimp only
    rw [FiniteMap.lookup_erase]
    constructor
    · intro hx
      split_ifs at hx with hkey
      obtain ⟨w, hw, hwkey⟩ := (h key x).mp hx
      refine ⟨w, ?_, hwkey⟩
      rw [FiniteMap.lookup_erase, if_neg]
      · exact hw
      · rintro rfl
        rw [hz] at hw
        obtain rfl := Option.some.inj hw
        exact hkey hwkey.symm
    · rintro ⟨w, hw, rfl⟩
      rw [FiniteMap.lookup_erase] at hw
      split_ifs at hw with hx
      rw [if_neg fun hkey => hx (h.path_eq hw hz hkey)]
      exact h.lookup hw

/-- **The check of the host**, where the index is exact: an accepted newcomer finds its host
free, or its own, or takes it over from an older record. -/
theorem checkZkNodeHost_exact (hreg : s.Registered) (h : s.HostExact) (cur : ZkNode) :
    ((s.checkZkNodeHost cur).2 = true ↔ s.Newest cur) ∧
      (s.checkZkNodeHost cur).1.HostExact ∧
      ∀ path z, s.zkNodes.lookup path = some z →
        ((s.checkZkNodeHost cur).1.zkNodes.lookup path = some z ∨
          z.hostKey = cur.hostKey ∧ path ≠ cur.path) := by
  cases hhost : s.hostZkPaths.lookup cur.hostKey with
  | none =>
    have heq : s.checkZkNodeHost cur = (s, true) := by simp only [checkZkNodeHost, hhost]
    rw [heq]
    refine ⟨iff_of_true rfl fun path w hw hkey _ => ?_, h, fun path z hz => Or.inl hz⟩
    rw [← hkey, h.lookup hw] at hhost
    exact absurd hhost (by simp)
  | some path =>
    obtain ⟨old, hold, hkey⟩ := (h _ _).mp hhost
    have hpath : old.path = path := hreg.keyed hold
    by_cases hsame : cur.path = old.path
    · have heq : s.checkZkNodeHost cur = (s, true) := by
        simp only [checkZkNodeHost, hhost, hold, if_pos hsame]
      rw [heq]
      refine ⟨iff_of_true rfl fun x w hw hwkey hne => ?_, h, fun x z hz => Or.inl hz⟩
      have hx := h.path_eq hw hold (hwkey.trans hkey.symm)
      exact absurd (hx.trans (hpath.symm.trans hsame.symm)) hne
    · have hne : path ≠ cur.path := fun heq => hsame (heq.symm.trans hpath.symm)
      by_cases htime : cur.activeTime.le old.activeTime = true
      · have heq : s.checkZkNodeHost cur = (s, false) := by
          simp only [checkZkNodeHost, hhost, hold, if_neg hsame, if_pos htime]
        rw [heq]
        refine ⟨iff_of_false (by simp) fun hnew => ?_, h, fun x z hz => Or.inl hz⟩
        exact absurd (hnew path old hold hkey hne) (by rw [htime]; decide)
      · have heq : s.checkZkNodeHost cur = ((s.delZkNode old.path).1, true) := by
          simp only [checkZkNodeHost, hhost, hold, if_neg hsame, if_neg htime]
        rw [heq, hpath]
        refine ⟨iff_of_true rfl fun x w hw hwkey _ => ?_, h.delZkNode path, fun x z hz => ?_⟩
        · have hx := h.path_eq hw hold (hwkey.trans hkey.symm)
          rw [hx, hold] at hw
          rw [← Option.some.inj hw]
          exact Bool.eq_false_iff.mpr htime
        · by_cases hx : x = path
          · subst hx
            rw [hold] at hz
            obtain rfl := Option.some.inj hz
            exact Or.inr ⟨hkey, hne⟩
          · refine Or.inl ?_
            rw [delZkNode_zkNodes_lookup, if_neg hx]
            exact hz

/-- An exact index has the other two properties. -/
theorem HostExact.hostIndex (hreg : s.Registered) (h : s.HostExact) : s.HostIndex where
  exact := h
  unique _ _ _ _ hz hz' hkey := h.path_eq hz hz' hkey
  takeover cur path z hz hnone := by
    rcases (checkZkNodeHost_exact hreg h cur).2.2 path z hz with hkept | ⟨hkey, -⟩
    · rw [hkept] at hnone
      exact absurd hnone (by simp)
    · exact hkey

end Check

/-! ## Steps -/

section Step

variable {cfg : NodesConf} {s : Nodes}

/-- A registration that is refused changes nothing. -/
theorem addZkNode_refused (hreg : s.Registered) (h : s.HostExact) {z : ZkNode}
    (hrefused : ¬ (isValidZkNode z = true ∧ s.Newest z)) : (s.addZkNode cfg z).1 = s := by
  refine addZkNode_rejected ?_
  unfold addZkNode
  by_cases hvalid : isValidZkNode z = true
  · have hchk : (s.checkZkNodeHost z).2 = false := by
      refine Bool.eq_false_iff.mpr fun htrue => hrefused ⟨hvalid, ?_⟩
      exact (checkZkNodeHost_exact hreg h z).1.mp htrue
    rw [if_neg (by simp [hvalid])]
    split
    · rfl
    · next heq =>
      rw [heq] at hchk
      exact absurd hchk (by simp)
  · rw [if_pos (Bool.eq_false_iff.mpr hvalid)]

/-- **An accepted registration** keeps the index exact if and only if it moves no record. -/
theorem addZkNode_exact (hreg : s.Registered) (h : s.HostExact) {z : ZkNode}
    (hvalid : isValidZkNode z = true) (hnew : s.Newest z) :
    (s.addZkNode cfg z).1.HostExact ↔
      ∀ old, s.zkNodes.lookup z.path = some old → old.hostKey = z.hostKey := by
  obtain ⟨hiff, hexact, hkept⟩ := checkZkNodeHost_exact hreg h z
  have hchk := hiff.mpr hnew
  have hfree := checkZkNodeHost_accepted hreg hchk
  obtain ⟨hzk, hhost⟩ := addZkNode_accepted_maps cfg hvalid hchk
  constructor
  · -- the entry of the old host is still there, so the record is still on it
    intro hafter old hold
    by_contra hmoved
    have hkeptOld : (s.checkZkNodeHost z).1.zkNodes.lookup z.path = some old :=
      (hkept _ _ hold).resolve_right fun hother => hother.2 rfl
    have hentry : (s.addZkNode cfg z).1.hostZkPaths.lookup old.hostKey = some z.path := by
      rw [hhost, FiniteMap.lookup_insert, if_neg hmoved]
      exact hexact.lookup hkeptOld
    obtain ⟨w, hw, hkey⟩ := (hafter _ _).mp hentry
    rw [hzk, FiniteMap.lookup_insert, if_pos rfl] at hw
    obtain rfl := Option.some.inj hw
    exact hmoved hkey.symm
  · intro hstay key path
    rw [hzk, hhost, FiniteMap.lookup_insert]
    constructor
    · intro hentry
      split_ifs at hentry with hkey
      · obtain rfl := Option.some.inj hentry
        exact ⟨z, by rw [FiniteMap.lookup_insert, if_pos rfl], hkey.symm⟩
      · obtain ⟨w, hw, hwkey⟩ := (hexact key path).mp hentry
        refine ⟨w, ?_, hwkey⟩
        rw [FiniteMap.lookup_insert, if_neg]
        · exact hw
        · rintro rfl
          rw [hfree.same] at hw
          exact hkey (hwkey.symm.trans (hstay w hw))
    · rintro ⟨w, hw, rfl⟩
      rw [FiniteMap.lookup_insert] at hw
      split_ifs at hw with hpath
      · obtain rfl := Option.some.inj hw
        rw [if_pos rfl, hpath]
      · rw [if_neg fun hkey => hpath (hfree.free hw hkey)]
        exact hexact.lookup hw

/-- The step that keeps the index exact is the one that moves nothing. -/
theorem step_exact_iff (hreg : s.Registered) (h : s.HostExact) (op : NodesOp) :
    ((nodesMachine cfg).step s op).HostExact ↔ s.NotMoved op := by
  cases op with
  | addZkNode z =>
    by_cases haccepted : isValidZkNode z = true ∧ s.Newest z
    · refine (addZkNode_exact hreg h haccepted.1 haccepted.2).trans ?_
      exact ⟨fun hstay _ _ => hstay, fun hstay => hstay haccepted.1 haccepted.2⟩
    · have hsame : (nodesMachine cfg).step s (.addZkNode z) = s :=
        addZkNode_refused hreg h haccepted
      rw [hsame]
      exact iff_of_true h fun hvalid hnew => absurd ⟨hvalid, hnew⟩ haccepted
  | delZkNode path => exact iff_of_true (h.delZkNode path) trivial
  | setMyZkNodePath path => exact iff_of_true h trivial
  | clear =>
    refine iff_of_true (fun key path => iff_of_false ?_ ?_) trivial
    · exact fun hentry => absurd hentry (by simp [nodesMachine, clear])
    · rintro ⟨z, hz, -⟩
      exact absurd hz (by simp [nodesMachine, clear])

end Step

/-! ## Runs -/

/-- **The host index is the inverse of the registry exactly in the runs that move no record**:
for every sequence of operations from the empty registry, it is so in every state if and only
if no accepted registration of a registered path changes its host. -/
theorem hostIndex_run_iff (cfg : NodesConf) (ops : List NodesOp) :
    (nodesMachine cfg).Meets NotMoved {} ops ↔
      ∀ past, past <+: ops → ((nodesMachine cfg).run {} past).HostIndex := by
  refine Machine.Meets.iff_forall_prefix (I := fun s => s.Registered ∧ s.HostExact)
    (Q := fun _ => True) (fun s h => h.2.hostIndex h.1) ?_ ?_ ?_ fun _ _ => trivial
  · rintro s op - ⟨hreg, hexact⟩ hstay
    refine ⟨?_, (step_exact_iff hreg hexact op).mpr hstay⟩
    cases op with
    | addZkNode z => exact hreg.addZkNode cfg z
    | delZkNode path => exact hreg.delZkNode path
    | setMyZkNodePath path => exact hreg.congr rfl rfl
    | clear => exact registered_empty _ _
  · rintro s op - ⟨hreg, hexact⟩ hindex
    exact (step_exact_iff hreg hexact op).mp hindex.exact
  · refine ⟨registered_empty 0 [], fun key path => iff_of_false (by simp) ?_⟩
    rintro ⟨z, hz, -⟩
    exact absurd hz (by simp)

/-- The record of the sample node after it moved to port 81, at time 2. -/
def movedZkNode : ZkNode :=
  { sampleZkNode 1 with port := 81, activeTime := ⟨0x4000000000000000⟩ }

/-- The old host of a record that moved still maps to its path. -/
theorem hostIndex_moved_fails :
    ¬ ((nodesMachine sampleConf).run {}
      [.addZkNode (sampleZkNode 1), .addZkNode movedZkNode]).HostIndex := by
  intro hindex
  have hentry : ((nodesMachine sampleConf).run {}
      [.addZkNode (sampleZkNode 1), .addZkNode movedZkNode]).hostZkPaths.lookup
        (sampleZkNode 1).hostKey = some movedZkNode.path := by decide
  obtain ⟨z, hz, hkey⟩ := (hindex.exact _ _).mp hentry
  have hmoved : ((nodesMachine sampleConf).run {}
      [.addZkNode (sampleZkNode 1), .addZkNode movedZkNode]).zkNodes.lookup movedZkNode.path =
        some movedZkNode := by decide
  rw [hmoved] at hz
  obtain rfl := Option.some.inj hz
  exact absurd hkey (by decide)

end Nodes

end Kimserver
