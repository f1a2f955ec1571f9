import Kimserver.Lib.PathTree
import Kimserver.Registry.Bio
import Mathlib.Data.List.DropRight

/-!
# Creating the parents of a node

`bio_create_parent` asks zookeeper whether a path is there, and creates its components one after
the other where it is not. Each call is a round trip, and other processes create paths in between:
that a component was created by somebody else is no error, and the loop goes on. What it returns
is the code of the last call.

## Main definitions

* `splitStr`: `split_str`
* `ZkTurn`, `zkCreate`: what happens in front of a call to zookeeper, and a creation
* `bioCreateParent`: `ZkClient::bio_create_parent`
* `ParentMade`: the call succeeds, and the path is there
* `LastIsFresh`: nobody else created the path of the last call

## Main results

* `splitStr_pathOf`: the components of a path that has no blanks around them
* `parentMade_iff`: the runs in which the call succeeds
-/

namespace Kimserver

/-! ## Components of a path -/

/-- The loop of `split_str`, for a separator of one character: leading separators are skipped. -/
def splitLoop (seq : UInt8) : ℕ → Bytes → List Bytes
  | 0, _ => []
  | fuel + 1, s =>
    match s.dropWhile (· = seq) with
    | [] => []
    | c :: rest =>
      (c :: rest).takeWhile (· ≠ seq) :: splitLoop seq fuel ((c :: rest).dropWhile (· ≠ seq))

/-- `erase` of the blanks in front and behind. -/
def eraseBlanks (v : Bytes) : Bytes := (v.dropWhile (· = 32)).rdropWhile (· = 32)

/-- `split_str`. Every turn of its loop takes a component. -/
def splitStr (s : Bytes) (seq : UInt8) (trimBlank : Bool) : List Bytes :=
  let vec := splitLoop seq s.length s
  if trimBlank ∧ seq ≠ 32 then vec.map eraseBlanks else vec

/-- The path with some components: `path.append("/").append(v)` for each of them. -/
def pathOf (components : List Bytes) : Bytes := components.flatMap fun v => 47 :: v

/-! ## Zookeeper -/

/-- The paths that are there. -/
abbrev ZkTree := PathTree (47 : UInt8)

/-- A code that is neither `z_ok` nor `z_node_exists`. -/
abbrev ZkFault := {e : ZooRc // e ≠ zOk ∧ e ≠ zNodeExists}

/-- What happens in front of a call: other processes create paths, and the call may fail. -/
structure ZkTurn where
  others : List Bytes := []
  fault : Option ZkFault := none

/-- The tree when other processes created paths. -/
def ZkTurn.tree (turn : ZkTurn) (t : ZkTree) : ZkTree :=
  turn.others.foldl (fun t path => (t.create path).2) t

/-- The code of a creation. -/
def zkCode : PathTree.Reply → ZooRc
  | .created => zOk
  | .exists => zNodeExists
  | .noParent => zNoNode

/-- `exists_node`. -/
def zkExists (turn : ZkTurn) (t : ZkTree) (path : Bytes) : ZooRc × ZkTree :=
  (if (turn.tree t).Exists path then zOk else zNoNode, turn.tree t)

/-- `create_persistent_node`. -/
def zkCreate (turn : ZkTurn) (t : ZkTree) (path : Bytes) : ZooRc × ZkTree :=
  match turn.fault with
  | some e => (e, turn.tree t)
  | none => (zkCode ((turn.tree t).create path).1, ((turn.tree t).create path).2)

/-! ## The call -/

/-- What `bio_create_parent` returns, the tree then, and what its creations returned. -/
structure CreateParent where
  ret : ZooRc
  tree : ZkTree
  replies : List ZooRc

/-- A creation that the loop goes on after. -/
def Tolerated (ret : ZooRc) : Prop := ret = zOk ∨ ret = zNodeExists

instance : DecidablePred Tolerated := fun _ => inferInstanceAs (Decidable (_ ∨ _))

/-- The loop over the components; `k` is the number of the call, and `ret` the code of the one
before. -/
def createLoop (turns : ℕ → ZkTurn) : ℕ → List Bytes → Bytes → ZooRc → ZkTree → CreateParent
  | _, [], _, ret, t => ⟨ret, t, []⟩
  | k, v :: paths, path, _, t =>
    let path := path ++ 47 :: v
    let reply := zkCreate (turns k) t path
    if ¬ Tolerated reply.1 then ⟨reply.1, reply.2, [reply.1]⟩
    else
      let rest := createLoop turns (k + 1) paths path reply.1 reply.2
      { rest with replies := reply.1 :: rest.replies }

/-- `ZkClient::bio_create_parent`, where `turns` happen in front of its calls. -/
def bioCreateParent (turns : ℕ → ZkTurn) (t : ZkTree) (parent : Bytes) : CreateParent :=
  let reply := zkExists (turns 0) t parent
  if reply.1 ≠ zOk ∧ reply.1 ≠ zNoNode then ⟨reply.1, reply.2, []⟩
  else if reply.1 = zNoNode then
    createLoop turns 1 (splitStr parent 47 true) [] reply.1 reply.2
  else ⟨reply.1, reply.2, []⟩

/-- The call succeeds, and the path is there with all paths above it. -/
def ParentMade (turns : ℕ → ZkTurn) (t : ZkTree) (parent : Bytes) : Prop :=
  (bioCreateParent turns t parent).ret = zOk ∧
    (bioCreateParent turns t parent).tree.Exists parent ∧
    ∀ q, PathTree.Above 47 q parent → (bioCreateParent turns t parent).tree.Exists q

/-- The tree in front of the last creation, when the components are `front` and one more. -/
def beforeLast (turns : ℕ → ZkTurn) (t : ZkTree) (front : List Bytes) : ZkTree :=
  (turns (front.length + 1)).tree
    (createLoop turns 1 front [] zNoNode ((turns 0).tree t)).tree

/-- The path is there when it is asked for; or the path of the last creation is not there when it
is created, and it is the path asked for, or that one was created by somebody else. -/
def LastIsFresh (turns : ℕ → ZkTurn) (t : ZkTree) (parent : Bytes) : Prop :=
  ((turns 0).tree t).Exists parent ∨
    ∃ front last, splitStr parent 47 true = front ++ [last] ∧
      ¬ (beforeLast turns t front).Exists (pathOf (front ++ [last])) ∧
      (pathOf (front ++ [last]) = parent ∨ (beforeLast turns t front).Exists parent)

/-! ## Components that are found again -/

/-- A component of a path, without blanks around it. -/
structure PlainComponent (v : Bytes) : Prop where
  ne_nil : v ≠ []
  noSlash : (47 : UInt8) ∉ v
  head_ne : v.head? ≠ some 32
  last_ne : v.getLast? ≠ some 32

/-- A path is empty or begins with a slash. -/
theorem head_pathOf (components : List Bytes) :
    pathOf components = [] ∨ ∃ rest, pathOf components = 47 :: rest := by
  cases components with
  | nil => exact Or.inl rfl
  | cons v components => exact Or.inr ⟨_, rfl⟩

/-- One turn of the loop of `split_str` takes the first component. -/
theorem splitLoop_cons {fuel : ℕ} {v : Bytes} {components : List Bytes} (h : PlainComponent v) :
    splitLoop 47 (fuel + 1) (pathOf (v :: components)) =
      v :: splitLoop 47 fuel (pathOf components) := by
  obtain ⟨c, v, rfl⟩ := List.exists_cons_of_ne_nil h.ne_nil
  have hslash : ∀ x ∈ c :: v, decide (x ≠ 47) = true := by
    intro x hx
    exact decide_eq_true fun heq => h.noSlash (heq ▸ hx)
  have hc : ¬ (decide (c = 47) = true) := by
    intro heq
    exact h.noSlash (of_decide_eq_true heq ▸ List.mem_cons_self)
  -- the slash is skipped
  have hskip : (pathOf ((c :: v) :: components)).dropWhile (· = 47) =
      c :: (v ++ pathOf components) := by
    change (47 :: (c :: v ++ pathOf components)).dropWhile (· = 47) = _
    rw [List.dropWhile_cons_of_pos (by decide), List.cons_append,
      List.dropWhile_cons_of_neg (p := fun x => decide (x = 47)) hc]
  -- the component goes up to the next slash, or to the end
  have htake : (c :: (v ++ pathOf components)).takeWhile (· ≠ 47) = c :: v := by
    rw [← List.cons_append, List.takeWhile_append_of_pos hslash]
    rcases head_pathOf components with hnil | ⟨rest, hrest⟩
    · rw [hnil, List.takeWhile_nil, List.append_nil]
    · rw [hrest, List.takeWhile_cons_of_neg (by decide), List.append_nil]
  have hdrop : (c :: (v ++ pathOf components)).dropWhile (· ≠ 47) = pathOf components := by
    rw [← List.cons_append, List.dropWhile_append_of_pos hslash]
    rcases head_pathOf components with hnil | ⟨rest, hrest⟩
    · rw [hnil, List.dropWhile_nil]
    · rw [hrest, List.dropWhile_cons_of_neg (by decide)]
  rw [splitLoop]
  simp only [hskip, htake, hdrop]

theorem eraseBlanks_of_plain {v : Bytes} (h : PlainComponent v) : eraseBlanks v = v := by
  unfold eraseBlanks
  have hfront : v.dropWhile (· = 32) = v := by
    obtain ⟨c, v, rfl⟩ := List.exists_cons_of_ne_nil h.ne_nil
    have hc : c ≠ 32 := fun heq => h.head_ne (congrArg some heq)
    rw [List.dropWhile_cons_of_neg (by simp [hc])]
  have hback : ∀ hne : v ≠ [], ¬ decide (v.getLast hne = 32) = true := by
    intro hne heq
    refine h.last_ne ?_
    rw [List.getLast?_eq_some_getLast hne, of_decide_eq_true heq]
  rw [hfront, List.rdropWhile_eq_self_iff]
  exact hback

/-- **The components of a path** that are plain are found again. -/
theorem splitStr_pathOf {components : List Bytes} (h : ∀ v ∈ components, PlainComponent v) :
    splitStr (pathOf components) 47 true = components := by
  -- the loop takes a component a turn
  have hloop : ∀ fuel, components.length ≤ fuel →
      splitLoop 47 fuel (pathOf components) = components := by
    induction components with
    | nil =>
      intro fuel _
      cases fuel <;> rfl
    | cons v components ih =>
      intro fuel hfuel
      cases fuel with
      | zero => exact absurd hfuel (Nat.not_succ_le_zero _)
      | succ fuel =>
        rw [splitLoop_cons (h v List.mem_cons_self),
          ih (fun w hw => h w (List.mem_cons_of_mem v hw)) fuel (Nat.le_of_succ_le_succ hfuel)]
  -- each component has a byte of the path at least, its slash
  have hlen : components.length ≤ (pathOf components).length := by
    unfold pathOf
    rw [List.length_flatMap, ← List.length_map (f := fun v : Bytes => ((47 : UInt8) :: v).length)]
    refine List.length_le_sum_of_one_le _ fun n hn => ?_
    obtain ⟨v, -, rfl⟩ := List.mem_map.mp hn
    exact Nat.succ_le_succ (Nat.zero_le _)
  have hself : components.map eraseBlanks = components := by
    conv_rhs => rw [← List.map_id components]
    exact List.map_congr_left fun v hv => eraseBlanks_of_plain (h v hv)
  unfold splitStr
  rw [if_pos ⟨rfl, by decide⟩, hloop _ hlen, hself]

/-! ## The loop -/

variable {turns : ℕ → ZkTurn} {t : ZkTree} {parent : Bytes}

/-- The code of a fault is not tolerated. -/
theorem fault_of_tolerated {turn : ZkTurn} {path : Bytes}
    (h : Tolerated (zkCreate turn t path).1) : turn.fault = none := by
  unfold zkCreate at h
  cases hfault : turn.fault with
  | none => rfl
  | some e =>
    rw [hfault] at h
    rcases h with hok | hexists
    · exact absurd hok e.2.1
    · exact absurd hexists e.2.2

theorem zkCode_eq_zOk_iff (reply : PathTree.Reply) : zkCode reply = zOk ↔ reply = .created := by
  cases reply <;> decide

/-- **A tolerated creation** returns `z_ok` where the path was not there, and leaves it there. -/
theorem zkCreate_spec {turn : ZkTurn} {path : Bytes} (h : Tolerated (zkCreate turn t path).1) :
    ((zkCreate turn t path).1 = zOk ↔ ¬ (turn.tree t).Exists path) ∧
      ∀ q, (zkCreate turn t path).2.Exists q ↔ q = path ∨ (turn.tree t).Exists q := by
  have hfault := fault_of_tolerated h
  have hcreate : zkCreate turn t path =
      (zkCode ((turn.tree t).create path).1, ((turn.tree t).create path).2) := by
    unfold zkCreate
    rw [hfault]
  rw [hcreate] at h ⊢
  have hparent : ((turn.tree t).create path).1 ≠ .noParent := by
    intro hreply
    rw [hreply] at h
    have hnot : ¬ Tolerated (zkCode .noParent) := by decide
    exact hnot h
  refine ⟨?_, fun q => PathTree.exists_create_iff hparent⟩
  rw [← PathTree.created_iff hparent]
  exact zkCode_eq_zOk_iff _

/-- One turn of the loop whose creation is tolerated. -/
theorem createLoop_of_tolerated {k : ℕ} {v path : Bytes} {paths : List Bytes} {ret : ZooRc}
    (h : Tolerated (zkCreate (turns k) t (path ++ 47 :: v)).1) :
    let reply := zkCreate (turns k) t (path ++ 47 :: v)
    let rest := createLoop turns (k + 1) paths (path ++ 47 :: v) reply.1 reply.2
    createLoop turns k (v :: paths) path ret t =
      { rest with replies := reply.1 :: rest.replies } :=
  if_neg (not_not.mpr h)

/-- The first creation of a loop in which all are tolerated. -/
theorem tolerated_of_createLoop_cons {k : ℕ} {v path : Bytes} {paths : List Bytes} {ret : ZooRc}
    (h : ∀ r ∈ (createLoop turns k (v :: paths) path ret t).replies, Tolerated r) :
    Tolerated (zkCreate (turns k) t (path ++ 47 :: v)).1 := by
  by_contra hreply
  have hstop : createLoop turns k (v :: paths) path ret t =
      ⟨_, (zkCreate (turns k) t (path ++ 47 :: v)).2, [_]⟩ := if_pos hreply
  rw [hstop] at h
  exact hreply (h _ (List.mem_singleton_self _))

/-- **The last turn of the loop**, when every creation is tolerated. -/
theorem createLoop_append_singleton {k : ℕ} {front : List Bytes} {last path : Bytes} {ret : ZooRc}
    (h : ∀ r ∈ (createLoop turns k (front ++ [last]) path ret t).replies, Tolerated r) :
    let reply := zkCreate (turns (front.length + k)) (createLoop turns k front path ret t).tree
      (path ++ pathOf (front ++ [last]))
    Tolerated reply.1 ∧ (createLoop turns k (front ++ [last]) path ret t).ret = reply.1 ∧
      (createLoop turns k (front ++ [last]) path ret t).tree = reply.2 := by
  induction front generalizing k path ret t with
  | nil =>
    have hreply := tolerated_of_createLoop_cons h
    have hpath : path ++ pathOf [last] = path ++ 47 :: last := by
      rw [pathOf, List.flatMap_singleton]
    rw [List.nil_append, createLoop_of_tolerated hreply, hpath, List.length_nil, Nat.zero_add]
    exact ⟨hreply, rfl, rfl⟩
  | cons v front ih =>
    have hreply := tolerated_of_createLoop_cons h
    rw [List.cons_append, createLoop_of_tolerated hreply] at h
    -- the call for the first component was tolerated, so the others decide
    have hlast := ih fun r hr => h r (List.mem_cons_of_mem _ hr)
    have hpath : path ++ 47 :: v ++ pathOf (front ++ [last]) =
        path ++ pathOf (v :: front ++ [last]) := by
      rw [List.append_assoc, List.cons_append, List.cons_append, pathOf, pathOf, List.flatMap_cons,
        List.cons_append]
    rw [hpath] at hlast
    rw [List.cons_append, createLoop_of_tolerated hreply, createLoop_of_tolerated hreply,
      List.length_cons, Nat.add_right_comm, Nat.add_assoc]
    exact hlast

/-! ## When the parent is made -/

/-- What the call does where the path is there. -/
theorem bioCreateParent_of_exists (h : ((turns 0).tree t).Exists parent) :
    bioCreateParent turns t parent = ⟨zOk, (turns 0).tree t, []⟩ := by
  unfold bioCreateParent zkExists
  simp only [if_pos h]
  rfl

theorem bioCreateParent_of_not_exists (h : ¬ ((turns 0).tree t).Exists parent) :
    bioCreateParent turns t parent =
      createLoop turns 1 (splitStr parent 47 true) [] zNoNode ((turns 0).tree t) := by
  unfold bioCreateParent zkExists
  simp only [if_neg h]
  rfl

/-- With the path the ones above it are there. -/
theorem parentMade_iff_exists : ParentMade turns t parent ↔
    (bioCreateParent turns t parent).ret = zOk ∧
      (bioCreateParent turns t parent).tree.Exists parent :=
  ⟨fun h => ⟨h.1, h.2.1⟩, fun h => ⟨h.1, h.2, fun _ hq => h.2.above hq⟩⟩

/-- **The parent is made**, in a run in which every creation returns `z_ok` or `z_node_exists`,
exactly when nobody else creates the path of the last creation in front of it. -/
theorem parentMade_iff
    (h : ∀ r ∈ (bioCreateParent turns t parent).replies, r = zOk ∨ r = zNodeExists) :
    ParentMade turns t parent ↔ LastIsFresh turns t parent := by
  rw [parentMade_iff_exists]
  by_cases hexists : ((turns 0).tree t).Exists parent
  · rw [bioCreateParent_of_exists hexists]
    exact ⟨fun _ => Or.inl hexists, fun _ => ⟨rfl, hexists⟩⟩
  · rw [bioCreateParent_of_not_exists hexists] at h ⊢
    rcases List.eq_nil_or_concat (splitStr parent 47 true) with hnil | ⟨front, last, hsplit⟩
    · -- nothing is created, and the code is the one of the check
      rw [hnil]
      have hcode : zNoNode ≠ zOk := by decide
      refine ⟨fun hmade => absurd hmade.1 hcode, ?_⟩
      rintro (hthere | ⟨front, last, hsplit, -⟩)
      · exact absurd hthere hexists
      · rw [hnil] at hsplit
        exact absurd hsplit (by simp)
    · rw [List.concat_eq_append] at hsplit
      rw [hsplit] at h ⊢
      obtain ⟨hreply, hret, htree⟩ := createLoop_append_singleton h
      obtain ⟨hok, hthere⟩ := zkCreate_spec hreply
      rw [hret, htree, hok, hthere, List.nil_append]
      constructor
      · rintro ⟨hfresh, hparent⟩
        exact Or.inr ⟨front, last, hsplit, hfresh, hparent.imp_left Eq.symm⟩
      · rintro (hthere | ⟨front', last', hsplit', hfresh, hparent⟩)
        · exact absurd hthere hexists
        · obtain ⟨rfl, hlast⟩ := List.append_inj' (hsplit.symm.trans hsplit') rfl
          obtain rfl := List.singleton_inj.mp hlast
          exact ⟨hfresh, hparent.imp_left Eq.symm⟩

/-- **A path of plain components** is made exactly when it is there at the check, or nobody else
creates it in front of the last creation. -/
theorem parentMade_pathOf_iff {front : List Bytes} {last : Bytes}
    (hplain : ∀ v ∈ front ++ [last], PlainComponent v)
    (h : ∀ r ∈ (bioCreateParent turns t (pathOf (front ++ [last]))).replies, Tolerated r) :
    ParentMade turns t (pathOf (front ++ [last])) ↔
      ((turns 0).tree t).Exists (pathOf (front ++ [last])) ∨
        ¬ (beforeLast turns t front).Exists (pathOf (front ++ [last])) := by
  rw [parentMade_iff h]
  unfold LastIsFresh
  rw [splitStr_pathOf hplain]
  constructor
  · rintro (hthere | ⟨front', last', hsplit, hfresh, -⟩)
    · exact Or.inl hthere
    · -- a path has one last component
      obtain ⟨rfl, hlast⟩ := List.append_inj' hsplit rfl
      obtain rfl := List.singleton_inj.mp hlast
      exact Or.inr hfresh
  · rintro (hthere | hfresh)
    · exact Or.inl hthere
    · exact Or.inr ⟨front, last, rfl, hfresh, Or.inl rfl⟩

/-- One process alone makes `/a`. -/
theorem parentMade_alone :
    ParentMade (fun _ => {}) (PathTree.empty 47) [47, 97] ↔
      LastIsFresh (fun _ => {}) (PathTree.empty 47) [47, 97] :=
  parentMade_iff (by decide +kernel)

/-- Another process creates `/a` behind the check. -/
def otherFirst (k : ℕ) : ZkTurn where
  others := if k = 1 then [[47, 97]] else []

/-- The loser of the race gets `z_node_exists` from the call. -/
theorem not_parentMade_race :
    ¬ ∀ (turns : ℕ → ZkTurn) (t : ZkTree) (parent : Bytes), parent.head? = some 47 →
      (∀ r ∈ (bioCreateParent turns t parent).replies, r = zOk ∨ r = zNodeExists) →
        ParentMade turns t parent := by
  intro hall
  have hmade := hall otherFirst (PathTree.empty 47) [47, 97] rfl (by decide +kernel)
  have hret : (bioCreateParent otherFirst (PathTree.empty 47) [47, 97]).ret = zNodeExists := by
    decide +kernel
  have hok := hmade.1
  rw [hret] at hok
  exact absurd hok (by decide)

end Kimserver
