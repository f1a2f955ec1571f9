import Kimserver.Nodes.HostIndex

/-!
# Registration in any order

A list of records is registered one after the other in an empty registry. A record may find
its host free, may be refused as outdated, or may evict the record that is there. Where of any
two records on one host one is the newer, the outcome does not depend on the order: on each
host the newest record of the list survives.

A NaN is neither smaller nor larger than any number, so a record refreshed at NaN evicts the
record on its host and is evicted by the next one.

## Main definitions

* `NewestOnHost`: the records of a list that are the newest on their host
* `Nodes.Settled`: what is known of the two maps after a list was registered

## Main results

* `Nodes.addAll_settled`: registration reaches such a state
* `Nodes.addAll_perm`: two orders give the same maps
-/

namespace Kimserver

/-- `z` is a record of the list, and newer than every other one on its host. -/
def NewestOnHost (zs : List ZkNode) (z : ZkNode) : Prop :=
  z ∈ zs ∧ ∀ w ∈ zs, w.hostKey = z.hostKey → w ≠ z → w.activeTime.lt z.activeTime = true

/-- Of two records on one host, one is the newer. -/
def Comparable (z w : ZkNode) : Prop :=
  z.hostKey = w.hostKey →
    z.activeTime.lt w.activeTime = true ∨ w.activeTime.lt z.activeTime = true

theorem Comparable.symm {z w : ZkNode} (h : Comparable z w) : Comparable w z :=
  fun hkey => (h hkey.symm).symm

namespace Nodes

/-- The two maps after the records of `zs` were registered: the registered records are of the
list, and every record of the list is registered or older than the one that is. -/
structure Settled (zs : List ZkNode) (s : Nodes) : Prop where
  registered : s.Registered
  exact : s.HostExact
  listed : ∀ {path z}, s.zkNodes.lookup path = some z → z ∈ zs
  covered : ∀ w ∈ zs, ∃ z, s.zkNodes.lookup z.path = some z ∧ z.hostKey = w.hostKey ∧
    (z = w ∨ w.activeTime.lt z.activeTime = true)

section Settled

variable {cfg : NodesConf} {zs : List ZkNode} {s : Nodes}

theorem settled_nil : Settled [] {} where
  registered := registered_empty 0 []
  exact key path := iff_of_false (by simp) (by simp)
  listed h := absurd h (by simp)
  covered w hw := absurd hw (by simp)

/-- A settled registry holds the records that survive. -/
theorem Settled.lookup_iff (h : s.Settled zs) {path : Bytes} {z : ZkNode} :
    s.zkNodes.lookup path = some z ↔ z.path = path ∧ NewestOnHost zs z := by
  constructor
  · intro hz
    refine ⟨h.registered.keyed hz, h.listed hz, fun w hw hkey hne => ?_⟩
    obtain ⟨y, hy, hyw, hcover⟩ := h.covered w hw
    -- the record that covers `w` is on the host of `z`, so it is `z`
    have hpath : y.path = path := h.exact.path_eq hy hz (hyw.trans hkey)
    rw [hpath, hz] at hy
    obtain rfl := Option.some.inj hy
    exact hcover.resolve_left fun heq => hne heq.symm
  · rintro ⟨rfl, hmem, hnewest⟩
    obtain ⟨y, hy, hyz, hcover⟩ := h.covered z hmem
    rcases hcover with rfl | hlt
    · exact hy
    · by_cases heq : y = z
      · rwa [heq] at hy
      · exact absurd (hnewest y (h.listed hy) hyz heq) (Double.lt_asymm hlt)

/-- **A registration step**: a valid record with a new path, comparable with the records on its
host, settles among them. -/
theorem Settled.addZkNode (h : s.Settled zs) {z : ZkNode} (hvalid : isValidZkNode z = true)
    (hpath : ∀ w ∈ zs, w.path ≠ z.path) (htimes : ∀ w ∈ zs, Comparable w z) :
    (s.addZkNode cfg z).1.Settled (zs ++ [z]) := by
  have hnew : s.zkNodes.lookup z.path = none := by
    by_contra hsome
    obtain ⟨w, hw⟩ := Option.ne_none_iff_exists'.mp hsome
    exact hpath w (h.listed hw) (h.registered.keyed hw)
  have hstay : s.NotMoved (.addZkNode z) := by
    intro _ _ old hold
    rw [hnew] at hold
    exact absurd hold (by simp)
  have hexact : ((nodesMachine cfg).step s (.addZkNode z)).HostExact :=
    (step_exact_iff h.registered h.exact (.addZkNode z)).mpr hstay
  refine ⟨h.registered.addZkNode cfg z, hexact, fun {path w} hw => ?_, fun w hw => ?_⟩
  all_goals by_cases hnewest : s.Newest z
  -- the records that are registered after the step are of the list
  · obtain ⟨hiff, -, -⟩ := checkZkNodeHost_exact h.registered h.exact z
    have hchk := hiff.mpr hnewest
    rw [(addZkNode_accepted_maps cfg hvalid hchk).1, FiniteMap.lookup_insert] at hw
    split_ifs at hw
    · exact List.mem_append_right _ (List.mem_singleton.mpr (Option.some.inj hw).symm)
    · exact List.mem_append_left _
        (h.listed ((checkZkNodeHost_accepted h.registered hchk).kept hw))
  · rw [addZkNode_refused h.registered h.exact fun hand => hnewest hand.2] at hw
    exact List.mem_append_left _ (h.listed hw)
  -- the records of the list are registered, or older than one that is
  · obtain ⟨hiff, -, hkept⟩ := checkZkNodeHost_exact h.registered h.exact z
    have hchk := hiff.mpr hnewest
    have hmaps := (addZkNode_accepted_maps cfg hvalid hchk).1
    have hself : (s.addZkNode cfg z).1.zkNodes.lookup z.path = some z := by
      rw [hmaps, FiniteMap.lookup_insert, if_pos rfl]
    rcases List.mem_append.mp hw with hw | hw
    · obtain ⟨y, hy, hyw, hcover⟩ := h.covered w hw
      by_cases hkey : y.hostKey = z.hostKey
      · -- the record on the host of `z` is older than `z`, and so is what it covered
        have hyz : y.activeTime.lt z.activeTime = true :=
          Double.lt_of_le_eq_false (htimes y (h.listed hy) hkey).symm
            (hnewest y.path y hy hkey (hpath y (h.listed hy)))
        refine ⟨z, hself, hkey.symm.trans hyw, Or.inr ?_⟩
        rcases hcover with rfl | hlt
        · exact hyz
        · exact Double.lt_trans hlt hyz
      · refine ⟨y, ?_, hyw, hcover⟩
        rw [hmaps, FiniteMap.lookup_insert, if_neg (hpath y (h.listed hy))]
        exact (hkept _ _ hy).resolve_right fun hother => hkey hother.1
    · rw [List.mem_singleton.mp hw]
      exact ⟨z, hself, rfl, Or.inl rfl⟩
  · rw [addZkNode_refused h.registered h.exact fun hand => hnewest hand.2]
    rcases List.mem_append.mp hw with hw | hw
    · exact h.covered w hw
    · -- `z` is refused because of a record that is not older
      rw [List.mem_singleton.mp hw]
      simp only [Newest, not_forall, Bool.not_eq_false] at hnewest
      obtain ⟨path, y, hy, hkey, -, hle⟩ := hnewest
      obtain rfl : y.path = path := h.registered.keyed hy
      exact ⟨y, hy, hkey,
        Or.inr (Double.lt_of_le (htimes y (h.listed hy) hkey).symm hle)⟩

/-- Registering a list with distinct paths, in which the records on one host are comparable,
settles it. -/
theorem addAll_settled (cfg : NodesConf) (zs : List ZkNode)
    (hvalid : ∀ z ∈ zs, isValidZkNode z = true)
    (hpaths : zs.Pairwise fun z w => z.path ≠ w.path) (htimes : zs.Pairwise Comparable) :
    (addAll cfg {} zs).Settled zs := by
  induction zs using List.reverseRecOn with
  | nil => exact settled_nil
  | append_singleton zs z ih =>
    rw [List.pairwise_append] at hpaths htimes
    have hsettled := ih (fun w hw => hvalid w (List.mem_append_left _ hw)) hpaths.1 htimes.1
    have hstep : addAll cfg {} (zs ++ [z]) = ((addAll cfg {} zs).addZkNode cfg z).1 := by
      simp only [addAll, List.foldl_append, List.foldl_cons, List.foldl_nil]
    rw [hstep]
    exact hsettled.addZkNode (hvalid z (by simp)) (fun w hw => hpaths.2.2 w hw z (by simp))
      fun w hw => htimes.2.2 w hw z (by simp)

/-- What survives does not depend on the order of the list. -/
theorem survives_perm {zs zs' : List ZkNode} (hperm : zs.Perm zs') (z : ZkNode) :
    NewestOnHost zs z ↔ NewestOnHost zs' z := by
  simp only [NewestOnHost, hperm.mem_iff]

/-- Two settled registries with the same survivors have the same maps. -/
theorem Settled.maps_eq {zs' : List ZkNode} {t : Nodes} (h : s.Settled zs) (h' : t.Settled zs')
    (hsame : ∀ z, NewestOnHost zs z ↔ NewestOnHost zs' z) :
    s.zkNodes = t.zkNodes ∧ s.hostZkPaths = t.hostZkPaths := by
  have hzk : s.zkNodes = t.zkNodes := by
    refine Finmap.ext_lookup fun path => Option.ext fun z => ?_
    rw [h.lookup_iff, h'.lookup_iff, hsame]
  refine ⟨hzk, Finmap.ext_lookup fun key => Option.ext fun path => ?_⟩
  rw [h.exact key path, h'.exact key path, hzk]

end Settled

/-- **Registration in any order**: valid records with distinct paths, of which two on one host
always have one newer than the other, leave the same maps whatever the order they are
registered in, and exactly the newest record of each host survives. -/
theorem addAll_perm (cfg : NodesConf) {zs zs' : List ZkNode}
    (hvalid : ∀ z ∈ zs, isValidZkNode z = true)
    (hpaths : zs.Pairwise fun z w => z.path ≠ w.path) (htimes : zs.Pairwise Comparable)
    (hperm : zs.Perm zs') :
    (addAll cfg {} zs).zkNodes = (addAll cfg {} zs').zkNodes ∧
      (addAll cfg {} zs).hostZkPaths = (addAll cfg {} zs').hostZkPaths ∧
      (∀ path z, (addAll cfg {} zs).zkNodes.lookup path = some z ↔
        z.path = path ∧ NewestOnHost zs z) ∧
      ∀ w ∈ zs, ∃ z, NewestOnHost zs z ∧ z.hostKey = w.hostKey := by
  have hsettled := addAll_settled cfg zs hvalid hpaths htimes
  have hsettled' := addAll_settled cfg zs'
    (fun z hz => hvalid z (hperm.mem_iff.mpr hz))
    (hperm.pairwise hpaths fun h => h.symm) (hperm.pairwise htimes Comparable.symm)
  obtain ⟨hzk, hhost⟩ := hsettled.maps_eq hsettled' (survives_perm hperm)
  refine ⟨hzk, hhost, fun path z => hsettled.lookup_iff, fun w hw => ?_⟩
  obtain ⟨z, hz, hkey, -⟩ := hsettled.covered w hw
  exact ⟨z, (hsettled.lookup_iff.mp hz).2, hkey⟩

/-- A second record on the host of the sample record. -/
def rivalZkNode (activeTime : Double) : ZkNode :=
  { sampleZkNode 1 with path := text "/kimserver/logic/0000000002", activeTime := activeTime }

/-- The sample record and a newer one on its host, in two orders. -/
theorem addAll_perm_rival :
    (addAll sampleConf {} [sampleZkNode 1, rivalZkNode ⟨0x4000000000000000⟩]).zkNodes =
      (addAll sampleConf {} [rivalZkNode ⟨0x4000000000000000⟩, sampleZkNode 1]).zkNodes :=
  (addAll_perm sampleConf (by decide) (by decide) (by simp [Comparable]; decide)
    (List.Perm.swap _ _ _)).1

/-- A record refreshed at NaN and one refreshed at 1, on one host: the last one registered
survives. -/
theorem addAll_perm_nan_fails :
    (∀ z ∈ [sampleZkNode 1, rivalZkNode ⟨0x7FF8000000000000⟩], isValidZkNode z = true) ∧
      (sampleZkNode 1).path ≠ (rivalZkNode ⟨0x7FF8000000000000⟩).path ∧
      (sampleZkNode 1).activeTime ≠ (rivalZkNode ⟨0x7FF8000000000000⟩).activeTime ∧
      (addAll sampleConf {} [sampleZkNode 1, rivalZkNode ⟨0x7FF8000000000000⟩]).zkNodes ≠
        (addAll sampleConf {} [rivalZkNode ⟨0x7FF8000000000000⟩, sampleZkNode 1]).zkNodes := by
  refine ⟨by decide, by decide, by decide, fun heq => ?_⟩
  have hevicted : (addAll sampleConf {} [sampleZkNode 1, rivalZkNode ⟨0x7FF8000000000000⟩]
      ).zkNodes.lookup (sampleZkNode 1).path = none := by decide +kernel
  have hkept : (addAll sampleConf {} [rivalZkNode ⟨0x7FF8000000000000⟩, sampleZkNode 1]
      ).zkNodes.lookup (sampleZkNode 1).path = some (sampleZkNode 1) := by decide +kernel
  rw [heq, hkept] at hevicted
  exact absurd hevicted (by simp)

end Nodes

end Kimserver
