import Kimserver.Lib.FiniteMap
import Kimserver.Lib.Machine
import Kimserver.Lib.OrderedMap
import Kimserver.Util.Text

/-!
# The module manager

A module is a shared library with commands. `ModuleMgr` keeps the loaded modules in `m_modules`,
by their id, and finds a module by its name with a scan over the table. The scan stops at a module
with the name, and returns the module at which it was last.

To unload a module its library is closed first, and the module is deleted then. Its destructor is
code of the library. Where `dlclose` has taken the library out of memory, the program ends there.

The order in which a scan visits the table, what `access`, `dlopen`, `dlsym`, `Module::init` and
`dlclose` do, and the number that `new_seq` returns are part of an operation.

## Main definitions

* `LoadedModule`, `ModuleMgr`: a module, and the manager
* `ModuleMgr.getModule`, `ModuleMgr.loadSo`, `ModuleMgr.unloadSo`, `ModuleMgr.reloadSo`,
  `ModuleMgr.init`: the functions
* `ModuleEvent`, `moduleMachine`: the operations
* `NameMap`, `nameMachine`: a map from names, and what the operations do to it
* `ModuleMgr.Alone`: no module is loaded under another name, and none leaves the memory

## Main results

* `ModuleMgr.Single.step`: at most one module is loaded
* `modules_refine_names_iff`: the manager is the map exactly where the name is alone
-/

namespace Kimserver

/-- `So`: `m_so_path` and `m_so_handle`. -/
structure So where
  soPath : Bytes
  soHandle : ℕ
  deriving DecidableEq

/-- A module with its id and the name it was loaded under. -/
structure LoadedModule extends So where
  id : ℕ
  name : Bytes

/-- `m_modules`, and the work path. -/
structure ModuleMgr where
  workPath : Bytes := []
  modules : FiniteMap ℕ LoadedModule := ∅

/-- An order of iteration over the tables. -/
structure IterationOrder where
  visit : FiniteMap ℕ LoadedModule → List (ℕ × LoadedModule)
  enumerates : ∀ t, FiniteMap.Enumerates t (visit t)

/-- How far `load_so` comes with a library. -/
inductive LoadOutcome
  /-- `dlopen` fails -/
  | notOpened
  /-- there is no symbol `create` -/
  | noCreate
  /-- `Module::init` fails -/
  | notInitialised
  /-- the module is loaded, with this handle -/
  | loaded (handle : ℕ)
  deriving DecidableEq

/-- The handle of a library that loads and initialises. -/
def LoadOutcome.handle : LoadOutcome → Option ℕ
  | .loaded handle => some handle
  | _ => none

namespace ModuleMgr

variable (order : IterationOrder) (s : ModuleMgr)

/-- The scan of `get_module`: `module` is the last module that was visited. -/
def scan (name : Bytes) : Option LoadedModule → List (ℕ × LoadedModule) → Option LoadedModule
  | module, [] => module
  | _, (_, module) :: rest =>
    if cStr module.name = name then some module else scan name (some module) rest

/-- `get_module`. -/
def getModule (name : Bytes) : Option LoadedModule := scan name none (order.visit s.modules)

/-- `load_so`; `id` is 0, or the id of a module that is loaded again. -/
def loadSo (name path : Bytes) (id seq : ℕ) (outcome : LoadOutcome) : Bool × ModuleMgr :=
  match s.getModule order name with
  | some _ => (false, s)
  | none =>
    match outcome with
    | .notOpened => (false, s)
    | .noCreate => (false, s)
    | .notInitialised => (false, s)
    | .loaded handle =>
      let id := if id ≠ 0 then id else seq
      let module : LoadedModule := { soPath := path, soHandle := handle, id, name }
      (true, { s with modules := s.modules.insert id module })

/-- `unload_so`; `unmaps` says whether `dlclose` takes the library out of memory. It does where
nothing else holds the library. There is no value where the module is deleted after that. -/
def unloadSo (name : Bytes) (unmaps : Bool) : Option (Bool × ModuleMgr) :=
  match s.getModule order name with
  | none => some (false, s)
  | some module =>
    if unmaps then none
    else some (true, { s with modules := s.modules.erase module.id })

/-- The path of a module: `MODULE_DIR` is `"/modules/"`. -/
def modulePath (name : Bytes) : Bytes := s.workPath ++ text "/modules/" ++ name

/-- `reload_so`; `found` says whether the file exists. -/
def reloadSo (name : Bytes) (found unmaps : Bool) (seq : ℕ) (outcome : LoadOutcome) :
    Option (Bool × ModuleMgr) :=
  let path := s.modulePath name
  if found then
    let id :=
      match s.getModule order name with
      | none => 0
      | some module => module.id
    (s.unloadSo order name unmaps).map fun r => r.2.loadSo order name path id seq outcome
  else some (false, s)

/-- `init`, for the names in the configuration, each with what happens to it. -/
def init : ModuleMgr → List (Bytes × Bool × ℕ × LoadOutcome) → Bool × ModuleMgr
  | s, [] => (true, s)
  | s, (name, found, seq, outcome) :: rest =>
    if found then
      match s.loadSo order name (s.modulePath name) 0 seq outcome with
      | (true, s) => init s rest
      | (false, s) => (false, s)
    else (false, s)

end ModuleMgr

/-- The operations on the modules. -/
inductive ModuleEvent
  | get (order : IterationOrder) (name : Bytes)
  | load (order : IterationOrder) (name path : Bytes) (seq : ℕ) (outcome : LoadOutcome)
  | unload (order : IterationOrder) (name : Bytes) (unmaps : Bool)
  | reload (order : IterationOrder) (name : Bytes) (found unmaps : Bool) (seq : ℕ)
      (outcome : LoadOutcome)

/-- What an operation returns: the library of a module, or whether it succeeded. -/
inductive ModuleResult
  | module (so : Option So)
  | done (ok : Bool)
  deriving DecidableEq

namespace ModuleMgr

variable (s : ModuleMgr)

/-- One operation, where the program goes on. -/
def op : ModuleEvent → Option (ModuleResult × ModuleMgr)
  | .get order name => some (.module ((s.getModule order name).map LoadedModule.toSo), s)
  | .load order name path seq outcome =>
    let r := s.loadSo order name path 0 seq outcome
    some (.done r.1, r.2)
  | .unload order name unmaps =>
    (s.unloadSo order name unmaps).map fun r => (.done r.1, r.2)
  | .reload order name found unmaps seq outcome =>
    (s.reloadSo order name found unmaps seq outcome).map fun r => (.done r.1, r.2)

/-- Nothing is loaded. -/
def Empty : Prop := ∀ id, s.modules.lookup id = none

/-- No module is loaded under another name. -/
def OnlyName (name : Bytes) : Prop := ∀ id module, s.modules.lookup id = some module →
  module.name = name

/-- An operation that would use a module of another name does not happen; a library that does not
load, or does not exist, does nothing anyway. And no library that is loaded leaves the memory. -/
def Alone : ModuleEvent → Prop
  | .get _ name => s.OnlyName name
  | .load _ name _ _ outcome => outcome.handle ≠ none → s.OnlyName name
  | .unload _ name unmaps => s.OnlyName name ∧ (unmaps = true → s.Empty)
  | .reload _ name found unmaps _ _ =>
    found = true → s.OnlyName name ∧ (unmaps = true → s.Empty)

end ModuleMgr

/-- What the manager is for: a map from the names to the libraries. -/
structure NameMap where
  workPath : Bytes := []
  libs : FiniteMap Bytes So := ∅

namespace NameMap

variable (t : NameMap)

/-- A library is loaded under a name that is free. -/
def load (name path : Bytes) (outcome : LoadOutcome) : Bool × NameMap :=
  match t.libs.lookup name, outcome.handle with
  | none, some handle => (true, { t with libs := t.libs.insert name ⟨path, handle⟩ })
  | _, _ => (false, t)

/-- The operations on the map. -/
def op : ModuleEvent → ModuleResult × NameMap
  | .get _ name => (.module (t.libs.lookup name), t)
  | .load _ name path _ outcome =>
    let r := t.load name path outcome
    (.done r.1, r.2)
  | .unload _ name _ => (.done (t.libs.lookup name).isSome, { t with libs := t.libs.erase name })
  | .reload _ name found _ _ outcome =>
    if found then
      let r := NameMap.load { t with libs := t.libs.erase name } name
        (t.workPath ++ text "/modules/" ++ name) outcome
      (.done r.1, r.2)
    else (.done false, t)

end NameMap

/-- The runs of the manager. There is no state after the program has ended. -/
def moduleMachine : Machine (Option ModuleMgr) ModuleEvent :=
  ⟨fun s e => s.bind fun s => (s.op e).map Prod.snd⟩

/-- The runs of the map. -/
def nameMachine : Machine NameMap ModuleEvent := ⟨fun t e => (t.op e).2⟩

/-- The map has the modules of the manager by their names. -/
structure Names (s : ModuleMgr) (t : NameMap) : Prop where
  path : t.workPath = s.workPath
  lookup : ∀ name so, t.libs.lookup name = some so ↔
    ∃ id module, s.modules.lookup id = some module ∧ module.name = name ∧ module.toSo = so

/-- The program goes on, and the operation returns what it returns on the map and leaves the
modules of the map. -/
def Agree (s : ModuleMgr) (t : NameMap) (e : ModuleEvent) : Prop :=
  ∃ r, s.op e = some r ∧ r.1 = (t.op e).1 ∧ Names r.2 (t.op e).2

namespace ModuleMgr

variable {order : IterationOrder} {s : ModuleMgr} {t : NameMap} {m : LoadedModule} {name : Bytes}

/-! ## At most one module -/

/-- This is the module that is loaded. -/
structure Holds (s : ModuleMgr) (m : LoadedModule) : Prop where
  lookup : s.modules.lookup m.id = some m
  only : ∀ {id : ℕ} {m' : LoadedModule}, s.modules.lookup id = some m' → id = m.id

theorem Holds.eq (h : s.Holds m) {id : ℕ} {m' : LoadedModule} (hm' : s.modules.lookup id = some m') :
    m' = m := by
  rw [h.only hm', h.lookup] at hm'
  exact (Option.some.inj hm').symm

theorem Holds.not_empty (h : s.Holds m) : ¬ s.Empty := by
  intro hempty
  have hlookup := h.lookup
  rw [hempty m.id] at hlookup
  cases hlookup

/-- At most one module is loaded. -/
def Single (s : ModuleMgr) : Prop := s.Empty ∨ ∃ m, s.Holds m

/-- A scan returns the module it starts with, or one that it visits. -/
theorem scan_mem {start : Option LoadedModule} {l : List (ℕ × LoadedModule)}
    (h : scan name start l = some m) : start = some m ∨ ∃ id, (id, m) ∈ l := by
  induction l generalizing start with
  | nil => exact Or.inl h
  | cons e rest ih =>
    obtain ⟨id, module⟩ := e
    refine Or.inr ?_
    rw [scan] at h
    split_ifs at h
    · obtain rfl := Option.some.inj h
      exact ⟨id, List.mem_cons_self⟩
    · obtain hstart | ⟨id', hmem⟩ := ih h
      · obtain rfl := Option.some.inj hstart
        exact ⟨id, List.mem_cons_self⟩
      · exact ⟨id', List.mem_cons_of_mem _ hmem⟩

/-- A scan over a table with a module returns a module, whatever its name. -/
theorem scan_some (m : LoadedModule) (l : List (ℕ × LoadedModule)) :
    ∃ m', scan name (some m) l = some m' := by
  induction l generalizing m with
  | nil => exact ⟨m, rfl⟩
  | cons e rest ih =>
    rw [scan]
    split_ifs
    · exact ⟨_, rfl⟩
    · exact ih e.2

theorem getModule_of_empty (h : s.Empty) : s.getModule order name = none := by
  cases hm : s.getModule order name with
  | none => rfl
  | some m =>
    obtain hstart | ⟨id, hmem⟩ := scan_mem hm
    · cases hstart
    · rw [(order.enumerates s.modules).2, h id] at hmem
      cases hmem

/-- The module that is loaded is found under every name. -/
theorem getModule_of_holds (h : s.Holds m) : s.getModule order name = some m := by
  have hmem : (m.id, m) ∈ order.visit s.modules :=
    ((order.enumerates s.modules).2 _ _).mpr h.lookup
  obtain ⟨m', hm'⟩ : ∃ m', s.getModule order name = some m' := by
    unfold getModule
    cases hvisit : order.visit s.modules with
    | nil =>
      rw [hvisit] at hmem
      cases hmem
    | cons e rest =>
      rw [scan]
      split_ifs
      · exact ⟨_, rfl⟩
      · exact scan_some e.2 rest
  rw [hm']
  obtain hstart | ⟨id, hvisited⟩ := scan_mem hm'
  · cases hstart
  · rw [h.eq (((order.enumerates s.modules).2 _ _).mp hvisited)]

/-- The module that is loaded into an empty table is the only one. -/
theorem holds_insert (h : s.Empty) (m : LoadedModule) :
    Holds { s with modules := s.modules.insert m.id m } m where
  lookup := by rw [FiniteMap.lookup_insert, if_pos rfl]
  only {id m'} hm' := by
    rw [FiniteMap.lookup_insert] at hm'
    split_ifs at hm' with hid
    · exact hid
    · rw [h id] at hm'
      cases hm'

theorem Holds.erase (h : s.Holds m) : Empty { s with modules := s.modules.erase m.id } := by
  intro id
  rw [FiniteMap.lookup_erase]
  split_ifs with hid
  · rfl
  · cases hm' : s.modules.lookup id with
    | none => rfl
    | some m' =>
      exact absurd (h.only hm') hid

/-! ## The operations on at most one module -/

/-- **`load_so` into an empty table** loads the library if it loads. -/
theorem loadSo_of_empty (h : s.Empty) (order : IterationOrder) (name path : Bytes) (id seq : ℕ)
    (outcome : LoadOutcome) :
    (outcome.handle = none ∧ s.loadSo order name path id seq outcome = (false, s)) ∨
    ∃ handle m, outcome.handle = some handle ∧ m.name = name ∧ m.toSo = ⟨path, handle⟩ ∧
      s.loadSo order name path id seq outcome =
        (true, { s with modules := s.modules.insert m.id m }) := by
  unfold loadSo
  rw [getModule_of_empty h]
  cases outcome with
  | notOpened => exact Or.inl ⟨rfl, rfl⟩
  | noCreate => exact Or.inl ⟨rfl, rfl⟩
  | notInitialised => exact Or.inl ⟨rfl, rfl⟩
  | loaded handle =>
    exact Or.inr ⟨handle, ⟨⟨path, handle⟩, if id ≠ 0 then id else seq, name⟩, rfl, rfl, rfl, rfl⟩

/-- **`load_so` after something was loaded** fails. -/
theorem loadSo_of_holds (h : s.Holds m) (path : Bytes) (id seq : ℕ) (outcome : LoadOutcome) :
    s.loadSo order name path id seq outcome = (false, s) := by
  unfold loadSo
  rw [getModule_of_holds h]

theorem unloadSo_of_empty (h : s.Empty) (unmaps : Bool) :
    s.unloadSo order name unmaps = some (false, s) := by
  unfold unloadSo
  rw [getModule_of_empty h]

/-- **`unload_so`** unloads what is loaded, unless the library leaves the memory. -/
theorem unloadSo_of_holds (h : s.Holds m) (unmaps : Bool) :
    s.unloadSo order name unmaps =
      if unmaps then none else some (true, { s with modules := s.modules.erase m.id }) := by
  unfold unloadSo
  rw [getModule_of_holds h]

theorem Single.loadSo (h : s.Single) (path : Bytes) (id seq : ℕ) (outcome : LoadOutcome) :
    (s.loadSo order name path id seq outcome).2.Single := by
  obtain hempty | ⟨m, hm⟩ := h
  · obtain ⟨-, heq⟩ | ⟨handle, m, -, -, -, heq⟩ :=
      loadSo_of_empty hempty order name path id seq outcome
    · rw [heq]
      exact Or.inl hempty
    · rw [heq]
      exact Or.inr ⟨m, holds_insert hempty m⟩
  · rw [loadSo_of_holds hm]
    exact Or.inr ⟨m, hm⟩

theorem unloadSo_empty (h : s.Single) {unmaps : Bool} {r : Bool × ModuleMgr}
    (hunload : s.unloadSo order name unmaps = some r) : r.2.Empty := by
  obtain hempty | ⟨m, hm⟩ := h
  · rw [unloadSo_of_empty hempty] at hunload
    rw [← Option.some.inj hunload]
    exact hempty
  · rw [unloadSo_of_holds hm] at hunload
    split_ifs at hunload
    rw [← Option.some.inj hunload]
    exact hm.erase

/-- `reload_so` of a library that exists: what is loaded goes, and the library is loaded into the
empty table. -/
theorem reloadSo_eq (s : ModuleMgr) (order : IterationOrder) (name : Bytes) (unmaps : Bool)
    (seq : ℕ) (outcome : LoadOutcome) :
    ∃ id, s.reloadSo order name true unmaps seq outcome =
      (s.unloadSo order name unmaps).map fun r =>
        r.2.loadSo order name (s.modulePath name) id seq outcome :=
  ⟨_, rfl⟩

/-- **Every operation** after which the program goes on leaves at most one module. -/
theorem Single.step (h : s.Single) {e : ModuleEvent} {r : ModuleResult × ModuleMgr}
    (hop : s.op e = some r) : r.2.Single := by
  cases e with
  | get order name =>
    rw [← Option.some.inj hop]
    exact h
  | load order name path seq outcome =>
    rw [← Option.some.inj hop]
    exact h.loadSo path 0 seq outcome
  | unload order name unmaps =>
    obtain ⟨r', hunload, rfl⟩ := Option.map_eq_some_iff.mp hop
    exact Or.inl (unloadSo_empty h hunload)
  | reload order name found unmaps seq outcome =>
    obtain ⟨r', hreload, rfl⟩ := Option.map_eq_some_iff.mp hop
    cases found with
    | false =>
      obtain rfl := Option.some.inj hreload
      exact h
    | true =>
      obtain ⟨id, heq⟩ := reloadSo_eq s order name unmaps seq outcome
      rw [heq] at hreload
      obtain ⟨r, hunload, rfl⟩ := Option.map_eq_some_iff.mp hreload
      exact Single.loadSo (Or.inl (unloadSo_empty h hunload)) _ id seq outcome

/-! ## The map from names -/

theorem names_of_empty (h : s.Empty) :
    Names s t ↔ t.workPath = s.workPath ∧ ∀ name, t.libs.lookup name = none := by
  constructor
  · intro hst
    refine ⟨hst.path, fun name => ?_⟩
    cases hso : t.libs.lookup name with
    | none => rfl
    | some so =>
      obtain ⟨id, m, hm, -⟩ := (hst.lookup name so).mp hso
      rw [h id] at hm
      cases hm
  · rintro ⟨hpath, hnone⟩
    refine ⟨hpath, fun name so => ?_⟩
    rw [hnone name]
    refine iff_of_false (by rintro ⟨⟩) ?_
    rintro ⟨id, m, hm, -⟩
    rw [h id] at hm
    cases hm

theorem names_of_holds (h : s.Holds m) :
    Names s t ↔ t.workPath = s.workPath ∧
      ∀ name, t.libs.lookup name = if name = m.name then some m.toSo else none := by
  have hmodule : ∀ name so, (∃ id module, s.modules.lookup id = some module ∧
      module.name = name ∧ module.toSo = so) ↔ m.name = name ∧ m.toSo = so := by
    intro name so
    constructor
    · rintro ⟨id, m', hm', hrest⟩
      rwa [h.eq hm'] at hrest
    · exact fun hrest => ⟨m.id, m, h.lookup, hrest⟩
  constructor
  · intro hst
    refine ⟨hst.path, fun name => Option.ext fun so => ?_⟩
    rw [hst.lookup, hmodule]
    split_ifs with hname
    · simp [hname]
    · simp [Ne.symm hname]
  · rintro ⟨hpath, hlookup⟩
    refine ⟨hpath, fun name so => ?_⟩
    rw [hmodule, hlookup name]
    split_ifs with hname
    · simp [hname]
    · simp [Ne.symm hname]

theorem onlyName_of_empty (h : s.Empty) (name : Bytes) : s.OnlyName name := by
  intro id m hm
  rw [h id] at hm
  cases hm

theorem onlyName_iff (h : s.Holds m) : s.OnlyName name ↔ m.name = name := by
  constructor
  · exact fun honly => honly m.id m h.lookup
  · intro hname id m' hm'
    rw [h.eq hm']
    exact hname

/-- Loading into an empty table does what it does to the map. -/
theorem loadSo_agree (h : s.Empty) (hst : Names s t) (order : IterationOrder) (name path : Bytes)
    (id seq : ℕ) (outcome : LoadOutcome) :
    (s.loadSo order name path id seq outcome).1 = (t.load name path outcome).1 ∧
      Names (s.loadSo order name path id seq outcome).2 (t.load name path outcome).2 := by
  obtain ⟨hpath, hnone⟩ := (names_of_empty h).mp hst
  obtain ⟨hfail, heq⟩ | ⟨handle, m, hhandle, hname, hso, heq⟩ :=
    loadSo_of_empty h order name path id seq outcome
  · have hload : t.load name path outcome = (false, t) := by
      rw [NameMap.load, hnone, hfail]
    rw [heq, hload]
    exact ⟨rfl, hst⟩
  · have hload : t.load name path outcome =
        (true, { t with libs := t.libs.insert name ⟨path, handle⟩ }) := by
      rw [NameMap.load, hnone, hhandle]
    rw [heq, hload]
    refine ⟨rfl, (names_of_holds (holds_insert h m)).mpr ⟨hpath, fun name' => ?_⟩⟩
    rw [FiniteMap.lookup_insert, hname, hso, hnone]

theorem modulePath_eq (h : t.workPath = s.workPath) (name : Bytes) :
    t.workPath ++ text "/modules/" ++ name = s.modulePath name := by
  rw [h]
  rfl

/-- With nothing loaded every operation does what it does to the map. -/
theorem agree_of_empty (h : s.Empty) (hst : Names s t) (e : ModuleEvent) : Agree s t e := by
  have hmap := (names_of_empty h).mp hst
  -- the map is empty too, and stays so when a name is erased
  have herase : ∀ name, Names s { t with libs := t.libs.erase name } := by
    intro name
    refine (names_of_empty h).mpr ⟨hmap.1, fun name' => ?_⟩
    rw [FiniteMap.lookup_erase, hmap.2, ite_self]
  cases e with
  | get order name =>
    refine ⟨_, rfl, ?_, hst⟩
    change ModuleResult.module ((s.getModule order name).map _) = .module (t.libs.lookup name)
    rw [getModule_of_empty h, hmap.2]
    rfl
  | load order name path seq outcome =>
    have hload := loadSo_agree h hst order name path 0 seq outcome
    exact ⟨_, rfl, congrArg ModuleResult.done hload.1, hload.2⟩
  | unload order name unmaps =>
    unfold Agree op NameMap.op
    dsimp only
    rw [unloadSo_of_empty h, hmap.2]
    exact ⟨_, rfl, rfl, herase name⟩
  | reload order name found unmaps seq outcome =>
    cases found with
    | false => exact ⟨_, rfl, rfl, hst⟩
    | true =>
      obtain ⟨id, heq⟩ := reloadSo_eq s order name unmaps seq outcome
      rw [unloadSo_of_empty h] at heq
      have hload := loadSo_agree h (herase name) order name
        (s.modulePath name) id seq outcome
      unfold Agree op NameMap.op
      dsimp only
      rw [heq, if_pos rfl, modulePath_eq hmap.1]
      exact ⟨_, rfl, congrArg ModuleResult.done hload.1, hload.2⟩

/-- **With one module loaded** an operation does what it does to the map exactly when it is for
this module and does not take its library out of memory, or does nothing. -/
theorem agree_iff_of_holds (h : s.Holds m) (hst : Names s t) (e : ModuleEvent) :
    Agree s t e ↔ s.Alone e := by
  obtain ⟨hpath, hlookup⟩ := (names_of_holds h).mp hst
  cases e with
  | get order name =>
    have hget : s.op (.get order name) = some (.module (some m.toSo), s) := by
      change some (ModuleResult.module ((s.getModule order name).map _), s) = _
      rw [getModule_of_holds h]
      rfl
    unfold Agree Alone
    dsimp only
    rw [onlyName_iff h, hget]
    constructor
    · rintro ⟨r, hr, hres, -⟩
      obtain rfl := Option.some.inj hr
      change ModuleResult.module _ = .module (t.libs.lookup name) at hres
      rw [hlookup] at hres
      by_contra hne
      rw [if_neg (Ne.symm hne)] at hres
      cases hres
    · rintro rfl
      refine ⟨_, rfl, ?_, hst⟩
      change ModuleResult.module _ = .module (t.libs.lookup m.name)
      rw [hlookup, if_pos rfl]
  | load order name path seq outcome =>
    have hload : s.op (.load order name path seq outcome) = some (.done false, s) := by
      unfold op
      dsimp only
      rw [loadSo_of_holds h]
    unfold Agree Alone NameMap.op
    dsimp only
    rw [onlyName_iff h, hload]
    cases hout : outcome.handle with
    | none =>
      have hfail : t.load name path outcome = (false, t) := by
        unfold NameMap.load
        rw [hout]
        split
        · next heq => cases heq
        · rfl
      rw [hfail]
      exact iff_of_true ⟨_, rfl, rfl, hst⟩ fun hne => absurd rfl hne
    | some handle =>
      by_cases hname : name = m.name
      · have hfail : t.load name path outcome = (false, t) := by
          rw [NameMap.load, hlookup, if_pos hname]
        rw [hfail]
        exact iff_of_true ⟨_, rfl, rfl, hst⟩ fun _ => hname.symm
      · refine iff_of_false ?_ fun himp => hname (himp (by rintro ⟨⟩)).symm
        rintro ⟨r, hr, hres, -⟩
        obtain rfl := Option.some.inj hr
        dsimp only at hres
        rw [NameMap.load, hlookup, if_neg hname, hout] at hres
        cases hres
  | unload order name unmaps =>
    unfold Agree Alone op NameMap.op
    dsimp only
    rw [unloadSo_of_holds h, onlyName_iff h]
    cases unmaps with
    | true =>
      -- the destructor of the module is no longer in memory
      refine iff_of_false ?_ fun halone => h.not_empty (halone.2 rfl)
      rintro ⟨r, hr, -⟩
      cases hr
    | false =>
      -- the one module is unloaded, whatever its name is
      by_cases hname : name = m.name
      · refine iff_of_true ⟨_, rfl, ?_, ?_⟩ ⟨hname.symm, by rintro ⟨⟩⟩
        · rw [hlookup, if_pos hname]
          rfl
        · refine (names_of_empty h.erase).mpr ⟨hpath, fun name' => ?_⟩
          rw [FiniteMap.lookup_erase, hlookup, hname]
          split_ifs <;> rfl
      · refine iff_of_false ?_ fun halone => hname halone.1.symm
        rintro ⟨r, hr, hres, -⟩
        obtain rfl := Option.some.inj hr
        rw [hlookup, if_neg hname] at hres
        cases hres
  | reload order name found unmaps seq outcome =>
    cases found with
    | false => exact iff_of_true ⟨_, rfl, rfl, hst⟩ (by rintro ⟨⟩)
    | true =>
      obtain ⟨id, heq⟩ := reloadSo_eq s order name unmaps seq outcome
      rw [unloadSo_of_holds h] at heq
      unfold Agree Alone op NameMap.op
      dsimp only
      rw [heq, onlyName_iff h, if_pos rfl, modulePath_eq hpath]
      cases unmaps with
      | true =>
        refine iff_of_false ?_ fun halone => h.not_empty ((halone rfl).2 rfl)
        rintro ⟨r, hr, -⟩
        cases hr
      | false =>
        by_cases hname : name = m.name
        · have hempty : Names { s with modules := s.modules.erase m.id }
              { t with libs := t.libs.erase name } := by
            refine (names_of_empty h.erase).mpr ⟨hpath, fun name' => ?_⟩
            rw [FiniteMap.lookup_erase, hlookup, hname]
            split_ifs <;> rfl
          have hload := loadSo_agree h.erase hempty order name
            (s.modulePath name) id seq outcome
          exact iff_of_true ⟨_, rfl, congrArg ModuleResult.done hload.1, hload.2⟩
            fun _ => ⟨hname.symm, by rintro ⟨⟩⟩
        · -- the module is gone, and still in the map
          refine iff_of_false ?_ fun himp => hname (himp rfl).1.symm
          rintro ⟨r, hr, -, hnames⟩
          obtain rfl := Option.some.inj hr
          have hkept : (NameMap.load { t with libs := t.libs.erase name } name
              (s.modulePath name) outcome).2.libs.lookup m.name = some m.toSo := by
            unfold NameMap.load
            split
            · change ((t.libs.erase name).insert name _).lookup m.name = _
              rw [FiniteMap.lookup_insert, if_neg (Ne.symm hname), FiniteMap.lookup_erase,
                if_neg (Ne.symm hname), hlookup, if_pos rfl]
            · change (t.libs.erase name).lookup m.name = _
              rw [FiniteMap.lookup_erase, if_neg (Ne.symm hname), hlookup, if_pos rfl]
          obtain ⟨id', m', hm', hname', -⟩ := (hnames.lookup _ _).mp hkept
          dsimp only at hm'
          obtain ⟨-, hfail⟩ | ⟨handle, m'', -, hname'', -, hok⟩ := loadSo_of_empty
            h.erase order name (s.modulePath name) id seq outcome
          · rw [hfail, h.erase id'] at hm'
            cases hm'
          · rw [hok] at hm'
            rw [(holds_insert h.erase m'').eq hm', hname''] at hname'
            exact hname hname'

/-- **One operation** does what it does to the map exactly when its name is alone. -/
theorem agree_iff_alone (h : s.Single) (hst : Names s t) (e : ModuleEvent) :
    s.Alone e ↔ Agree s t e := by
  obtain hempty | ⟨m, hm⟩ := h
  · refine iff_of_true ?_ (agree_of_empty hempty hst e)
    cases e with
    | get order name => exact onlyName_of_empty hempty name
    | load order name => exact fun _ => onlyName_of_empty hempty name
    | unload order name => exact ⟨onlyName_of_empty hempty name, fun _ => hempty⟩
    | reload order name => exact fun _ => ⟨onlyName_of_empty hempty name, fun _ => hempty⟩
  · exact (agree_iff_of_holds hm hst e).symm

/-! ## The configuration -/

/-- The libraries of a configuration all exist and load. -/
def Loadable (files : List (Bytes × Bool × ℕ × LoadOutcome)) : Prop :=
  ∀ f ∈ files, f.2.1 = true ∧ f.2.2.2.handle ≠ none

/-- After one module `init` loads no other. -/
theorem init_of_holds (h : s.Holds m) {files : List (Bytes × Bool × ℕ × LoadOutcome)}
    (hload : Loadable files) : (s.init order files).1 = true ↔ files = [] := by
  cases files with
  | nil => exact iff_of_true rfl rfl
  | cons f rest =>
    obtain ⟨name, found, seq, outcome⟩ := f
    obtain ⟨hfound, -⟩ := hload _ List.mem_cons_self
    refine iff_of_false ?_ (List.cons_ne_nil _ _)
    rw [init, if_pos hfound, loadSo_of_holds h]
    rintro ⟨⟩

/-- **`init`** loads a list of modules that all can be loaded exactly when there is at most
one. -/
theorem init_iff (h : s.Empty) {files : List (Bytes × Bool × ℕ × LoadOutcome)}
    (hload : Loadable files) : (s.init order files).1 = true ↔ files.length ≤ 1 := by
  cases files with
  | nil => exact iff_of_true rfl (Nat.zero_le _)
  | cons f rest =>
    obtain ⟨name, found, seq, outcome⟩ := f
    obtain ⟨hfound, hhandle⟩ := hload _ List.mem_cons_self
    obtain ⟨hfail, -⟩ | ⟨handle, m, -, -, -, hok⟩ := loadSo_of_empty h order
      name (s.modulePath name) 0 seq outcome
    · exact absurd hfail hhandle
    · rw [init, if_pos hfound, hok]
      change (init order _ rest).1 = true ↔ _
      rw [init_of_holds (holds_insert h m) fun f hf => hload f (List.mem_cons_of_mem _ hf),
        List.length_cons, ← List.length_eq_zero_iff]
      omega

end ModuleMgr

/-- **The manager is a map keyed by name exactly where the name is alone**: in every run the
program goes on, and the operations return what they return on the map and leave its modules, if
and only if no operation is made with a name while a module with another name is loaded, and no
library of a module is unloaded that `dlclose` takes out of memory. Of a configuration whose
libraries can all be loaded, `init` loads at most one. -/
theorem modules_refine_names_iff (workPath : Bytes) (es : List ModuleEvent) :
    (moduleMachine.Meets (fun s e => ∃ mgr, s = some mgr ∧ mgr.Alone e) (some { workPath }) es ↔
      ∀ past e, past ++ [e] <+: es →
        ∃ mgr, moduleMachine.run (some { workPath }) past = some mgr ∧
          Agree mgr (nameMachine.run { workPath } past) e) ∧
    ∀ (order : IterationOrder) (files : List (Bytes × Bool × ℕ × LoadOutcome)),
      ModuleMgr.Loadable files → (files.map Prod.fst).Nodup →
        ((ModuleMgr.init order { workPath } files).1 = true ↔ files.length ≤ 1) := by
  have hempty : ModuleMgr.Empty { workPath } := fun _ => rfl
  constructor
  · refine Machine.Meets.iff_forall_agree
      (A := fun s t e => ∃ mgr, s = some mgr ∧ Agree mgr t e)
      (R := fun s t => ∃ mgr : ModuleMgr, s = some mgr ∧ mgr.Single ∧ Names mgr t) ?_ ?_ ?_ es
    · rintro s t e ⟨mgr, rfl, hsingle, hnames⟩
      simp only [Option.some.injEq, exists_eq_left']
      exact ModuleMgr.agree_iff_alone hsingle hnames e
    · rintro s t e ⟨mgr, rfl, hsingle, hnames⟩ ⟨mgr', hmgr, halone⟩
      obtain rfl := Option.some.inj hmgr
      obtain ⟨r, hop, -, hnames'⟩ := (ModuleMgr.agree_iff_alone hsingle hnames e).mp halone
      exact ⟨r.2, congrArg (Option.map Prod.snd) hop, hsingle.step hop, hnames'⟩
    · exact ⟨_, rfl, Or.inl hempty, (ModuleMgr.names_of_empty hempty).mpr ⟨rfl, fun _ => rfl⟩⟩
  · exact fun order files hload _ => ModuleMgr.init_iff hempty hload

/-- The table in the order of the ids. -/
def idOrder : IterationOrder where
  visit := FiniteMap.sorted (· ≤ ·)
  enumerates := FiniteMap.enumerates_sorted _

/-- A configuration with one module. -/
theorem modules_refine_names_one :
    (ModuleMgr.init idOrder {} [([97], true, 1, .loaded 10)]).1 = true := by
  refine ((modules_refine_names_iff [] []).2 idOrder _ ?_ (by decide)).mpr (by decide)
  intro f hf
  obtain rfl := List.mem_singleton.mp hf
  exact ⟨rfl, by decide⟩

/-- A module is loaded, and then one with another name is to be loaded. -/
def twoModules : List ModuleEvent :=
  [.load idOrder [97] [97] 1 (.loaded 10), .load idOrder [98] [98] 2 (.loaded 20)]

/-- A module is loaded and unloaded, and nothing else holds its library. -/
def oneUnloaded : List ModuleEvent :=
  [.load idOrder [97] [97] 1 (.loaded 10), .unload idOrder [97] true]

/-- The second module is not loaded. And the program does not survive that a module is unloaded. -/
theorem twoModules_differ :
    (¬ ∀ past e, past ++ [e] <+: twoModules →
      ∃ mgr, moduleMachine.run (some {}) past = some mgr ∧
        Agree mgr (nameMachine.run {} past) e) ∧
    ¬ ∀ past e, past ++ [e] <+: oneUnloaded →
      ∃ mgr, moduleMachine.run (some {}) past = some mgr ∧
        Agree mgr (nameMachine.run {} past) e := by
  have hempty : ModuleMgr.Empty {} := fun _ => rfl
  -- behind the first event one module is loaded, and it is in the map
  have hfirst : ∃ mgr, moduleMachine.run (some {}) [.load idOrder [97] [97] 1 (.loaded 10)] =
      some mgr ∧ mgr.Single ∧
        Names mgr (nameMachine.run {} [.load idOrder [97] [97] 1 (.loaded 10)]) := by
    obtain ⟨r, hop, -, hnames⟩ := ModuleMgr.agree_of_empty hempty
      ((ModuleMgr.names_of_empty (t := {}) hempty).mpr ⟨rfl, fun _ => rfl⟩)
      (.load idOrder [97] [97] 1 (.loaded 10))
    exact ⟨r.2, congrArg (Option.map Prod.snd) hop, ModuleMgr.Single.step (Or.inl hempty) hop,
      hnames⟩
  obtain ⟨mgr, hrun, hsingle, hnames⟩ := hfirst
  obtain ⟨id, m, hm, hname, -⟩ := (hnames.lookup [97] ⟨[97], 10⟩).mp rfl
  constructor
  · intro h
    obtain ⟨mgr', hrun', hagree⟩ := h [.load idOrder [97] [97] 1 (.loaded 10)] _
      (List.prefix_refl _)
    obtain rfl := Option.some.inj (hrun.symm.trans hrun')
    have halone := (ModuleMgr.agree_iff_alone hsingle hnames _).mpr hagree
    have hother : m.name = [98] := halone (by decide) id m hm
    rw [hname] at hother
    exact absurd hother (by decide)
  · intro h
    obtain ⟨mgr', hrun', hagree⟩ := h [.load idOrder [97] [97] 1 (.loaded 10)] _
      (List.prefix_refl _)
    obtain rfl := Option.some.inj (hrun.symm.trans hrun')
    have halone := (ModuleMgr.agree_iff_alone hsingle hnames _).mpr hagree
    have hnone := halone.2 rfl id
    rw [hm] at hnone
    cases hnone

end Kimserver
