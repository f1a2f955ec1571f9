import Kimserver.Registry.Notify

/-!
# The sync exchange

A worker asks its manager for the registry with the version of its own one; the manager
answers with its records unless the versions agree (`on_req_sync_zk_nodes`), and the worker
takes the answer unless it carries the worker's version (`on_rsp_sync_zk_nodes`). The version
the answer carries is the one of the request, not the manager's. This module finds exactly
when the exchange makes the two registries agree.

## Main definitions

* `onReqSyncZkNodes`, `onRspSyncZkNodes`: the two handlers
* `syncMachine`: an exchange on the control channel, between notifications
* `SyncReaches`: the condition under which the worker ends with the manager's records

## Main results

* `onRspSyncZkNodes_agrees_iff`: the condition is exact for one answer
* `sync_agrees_iff`: it is exact in every run
-/

namespace Kimserver

/-- The two registries have the same records and the same path of their own node. -/
def Nodes.Agree (w m : Nodes) : Prop := w.zkNodes = m.zkNodes ∧ w.myZkNode = m.myZkNode

instance (w m : Nodes) : Decidable (w.Agree m) := inferInstanceAs (Decidable (_ ∧ _))

/-! ## The handlers -/

/-- `send_parent_sync_zk_nodes(m_net->nodes()->version())`: the version is passed as an `int`
and printed. -/
def syncRequest (s : Nodes) : Bytes := toDecimal (CInt.toInt s.version.toNat)

/-- The data of the answer. `iteration` is the order in which the iteration over `m_zk_nodes`
visits the records. -/
def syncAnswer (s : Nodes) (iteration : List (Bytes × ZkNode)) (version : UInt32) :
    RegisterNode :=
  if s.version ≠ version then
    { version := version, myZkPath := s.myZkNode, nodes := iteration.map Prod.snd }
  else { version := version }

/-- `on_req_sync_zk_nodes`; `str_to_int` can throw. -/
def onReqSyncZkNodes (s : Nodes) (iteration : List (Bytes × ZkNode)) (data : Bytes) :
    Except StoiError (Ack × RegisterNode) :=
  match strToInt data with
  | .error e => .error e
  | .ok n => .ok (ackOk, syncAnswer s iteration (CInt.toUInt32 n))

/-- `on_rsp_sync_zk_nodes`, given the result of the acknowledgement and the parsed data. -/
def onRspSyncZkNodes (cfg : NodesConf) (s : Nodes) (ack : Ack) (data : Option RegisterNode) :
    Nodes :=
  if ack.code ≠ .ok then s
  else
    match data with
    | none => s
    | some rn => if rn.version ≠ s.version then resetNodes cfg s rn else s

theorem strToInt_syncRequest (w : Nodes) :
    strToInt (syncRequest w) = .ok (CInt.toInt w.version.toNat) :=
  strToInt_toDecimal (CInt.inRange_toInt _)

theorem onReqSyncZkNodes_ok (s : Nodes) (iteration : List (Bytes × ZkNode)) {data : Bytes} {n : ℤ}
    (h : strToInt data = .ok n) :
    onReqSyncZkNodes s iteration data = .ok (ackOk, syncAnswer s iteration (CInt.toUInt32 n)) := by
  simp only [onReqSyncZkNodes, h]

/-- The manager reads the version the worker sent. -/
theorem onReqSyncZkNodes_syncRequest (s w : Nodes) (iteration : List (Bytes × ZkNode)) :
    onReqSyncZkNodes s iteration (syncRequest w) =
      .ok (ackOk, syncAnswer s iteration w.version) := by
  rw [onReqSyncZkNodes_ok s iteration (strToInt_syncRequest w), CInt.toUInt32_toInt]

/-! ## One answer -/

/-- When an answer to a request with `version`, built from the registry `built`, leaves a
worker with the registry `before` in agreement: a worker that still has this version ignores
the answer, so it must agree already; for a manager that had this version the answer carries
no records. -/
def SyncReaches (version : UInt32) (built before : Nodes) : Prop :=
  (before.version = version → before.Agree built) ∧
    (before.version ≠ version → built.version = version →
      built.zkNodes = ∅ ∧ built.myZkNode = [])

instance (version : UInt32) (built before : Nodes) :
    Decidable (SyncReaches version built before) :=
  inferInstanceAs (Decidable ((_ → _) ∧ (_ → _ → _ ∧ _)))

theorem resetNodes_myZkNode (cfg : NodesConf) (s : Nodes) (rn : RegisterNode) :
    (resetNodes cfg s rn).myZkNode = rn.myZkPath :=
  Nodes.addAll_myZkNode ..

/-- The records of a registry, sent in any order, replace those of the worker. -/
theorem resetNodes_zkNodes (cfg : NodesConf) {m : Nodes} (hm : m.Registered) (s : Nodes)
    {iteration : List (Bytes × ZkNode)} (hit : FiniteMap.Enumerates m.zkNodes iteration)
    (version : UInt32) (path : Bytes) :
    (resetNodes cfg s ⟨version, path, iteration.map Prod.snd⟩).zkNodes = m.zkNodes :=
  hm.addAll_clear cfg rfl rfl hit

/-- **The condition is exact for one answer.** -/
theorem onRspSyncZkNodes_agrees_iff (cfg : NodesConf) {built : Nodes} (hbuilt : built.Registered)
    {iteration : List (Bytes × ZkNode)} (hit : FiniteMap.Enumerates built.zkNodes iteration)
    (version : UInt32) (before : Nodes) :
    (onRspSyncZkNodes cfg before ackOk (some (syncAnswer built iteration version))).Agree built ↔
      SyncReaches version built before := by
  have hversion : (syncAnswer built iteration version).version = version := by
    unfold syncAnswer
    split_ifs <;> rfl
  unfold onRspSyncZkNodes
  rw [if_neg (by simp [ackOk])]
  simp only [hversion]
  by_cases hsame : before.version = version
  · rw [if_neg (by simp [hsame])]
    exact ⟨fun h => ⟨fun _ => h, fun hne => absurd hsame hne⟩, fun h => h.1 hsame⟩
  · rw [if_pos (Ne.symm hsame)]
    by_cases hmanager : built.version = version
    · have hanswer : syncAnswer built iteration version = { version := version } :=
        if_neg (not_not.mpr hmanager)
      rw [hanswer]
      constructor
      · rintro ⟨hzk, hpath⟩
        refine ⟨fun h => absurd h hsame, fun _ _ => ⟨hzk.symm, ?_⟩⟩
        rw [← hpath, resetNodes_myZkNode]
      · intro h
        obtain ⟨hzk, hpath⟩ := h.2 hsame hmanager
        exact ⟨hzk.symm, by rw [resetNodes_myZkNode, hpath]⟩
    · have hanswer : syncAnswer built iteration version =
          ⟨version, built.myZkNode, iteration.map Prod.snd⟩ := if_pos hmanager
      rw [hanswer]
      exact ⟨fun _ => ⟨fun h => absurd h hsame, fun _ h => absurd h hmanager⟩,
        fun _ => ⟨resetNodes_zkNodes cfg hbuilt before hit _ _, resetNodes_myZkNode ..⟩⟩

/-! ## The exchange in a run -/

/-- The messages on the control channel from the manager to the worker. -/
inductive ControlMsg
  | notify (n : Notification)
  | rspSync (ack : Ack) (rn : RegisterNode)
  deriving DecidableEq

/-- What an observer notes of a finished exchange: the version of the request, the registry of
the manager when it built the answer, and the one of the worker before and after it handled
the answer. -/
structure Exchange where
  version : UInt32
  built : Nodes
  before : Nodes
  after : Nodes

/-- The exchange so far, as the observer sees it. -/
inductive Progress
  | idle
  | requested (version : UInt32)
  | answered (version : UInt32) (built : Nodes)
  | done (x : Exchange)

/-- Manager, worker and the two directions of the control channel. -/
structure SyncState where
  manager : Nodes
  worker : Nodes
  up : List Bytes := []
  down : List ControlMsg := []
  progress : Progress := .idle

/-- A zookeeper result reaches the manager, the worker sends its request, the manager handles
it, or the worker handles the next message. -/
inductive SyncEvent
  | zk (e : ZkEvent)
  | request
  | answer (iteration : List (Bytes × ZkNode))
  | deliver

/-- One step. There is one exchange, so a second request is not sent; an answer lists the
records in an order that their map allows. -/
def syncStep (cfg : NodesConf) (st : SyncState) : SyncEvent → SyncState
  | .zk e =>
    let (manager, sent) := onZkEvent cfg st.manager e
    { st with manager := manager, down := st.down ++ sent.map .notify }
  | .request =>
    match st.progress with
    | .idle =>
      { st with up := st.up ++ [syncRequest st.worker], progress := .requested st.worker.version }
    | _ => st
  | .answer iteration =>
    match st.up, st.progress with
    | data :: rest, .requested version =>
      if FiniteMap.Enumerates st.manager.zkNodes iteration then
        match onReqSyncZkNodes st.manager iteration data with
        | .error _ => st
        | .ok (ack, rn) =>
          { st with
            up := rest
            down := st.down ++ [.rspSync ack rn]
            progress := .answered version st.manager }
      else st
    | _, _ => st
  | .deliver =>
    match st.down with
    | [] => st
    | .notify n :: rest => { st with down := rest, worker := (onNotification cfg st.worker n).1 }
    | .rspSync ack rn :: rest =>
      let worker := onRspSyncZkNodes cfg st.worker ack (some rn)
      { st with
        down := rest
        worker := worker
        progress :=
          match st.progress with
          | .answered version built => .done ⟨version, built, st.worker, worker⟩
          | p => p }

/-- Manager, worker and control channel as a machine. -/
def syncMachine (cfg : NodesConf) : Machine SyncState SyncEvent where
  step := syncStep cfg

/-! ## The invariant -/

/-- What the observer's notes say about the channel and the exchange. -/
def Progress.Sound (up : List Bytes) (down : List ControlMsg) : Progress → Prop
  | .idle => up = []
  | .requested version => ∃ w : Nodes, w.version = version ∧ up = [syncRequest w]
  | .answered version built => built.Registered ∧
      ∀ ack rn, ControlMsg.rspSync ack rn ∈ down → ack = ackOk ∧
        ∃ iteration, FiniteMap.Enumerates built.zkNodes iteration ∧
          rn = syncAnswer built iteration version
  | .done x => x.after.Agree x.built ↔ SyncReaches x.version x.built x.before

/-- The invariant of a run: the manager's records are registered, there is no answer before
the manager gave one, and the notes are sound. -/
structure SyncInv (st : SyncState) : Prop where
  registered : st.manager.Registered
  early : (∀ v b, st.progress ≠ .answered v b) → (∀ x, st.progress ≠ .done x) →
    ∀ ack rn, ControlMsg.rspSync ack rn ∉ st.down
  sound : st.progress.Sound st.up st.down

theorem syncInv_zk (cfg : NodesConf) {st : SyncState} (h : SyncInv st) (e : ZkEvent) :
    SyncInv (syncStep cfg st (.zk e)) := by
  have hmem : ∀ {ack rn}, ControlMsg.rspSync ack rn ∈ (syncStep cfg st (.zk e)).down →
      ControlMsg.rspSync ack rn ∈ st.down := by
    intro ack rn hin
    rcases List.mem_append.mp hin with hin | hin
    · exact hin
    · obtain ⟨n, -, heq⟩ := List.mem_map.mp hin
      exact absurd heq (by simp)
  refine ⟨(onZkEvent_replays cfg).keeps e h.registered,
    fun h₁ h₂ ack rn hin => h.early h₁ h₂ ack rn (hmem hin), ?_⟩
  have hsound := h.sound
  change st.progress.Sound st.up (syncStep cfg st (.zk e)).down
  cases hp : st.progress with
  | idle => rwa [hp] at hsound
  | requested version => rwa [hp] at hsound
  | answered version built =>
    rw [hp] at hsound
    exact ⟨hsound.1, fun ack rn hin => hsound.2 ack rn (hmem hin)⟩
  | done x => rwa [hp] at hsound

theorem syncInv_request (cfg : NodesConf) {st : SyncState} (h : SyncInv st) :
    SyncInv (syncStep cfg st .request) := by
  have hearly := h.early
  have hsound := h.sound
  unfold syncStep
  cases hp : st.progress with
  | idle =>
    rw [hp] at hearly hsound
    have hup : st.up = [] := hsound
    refine ⟨h.registered, fun _ _ => hearly (by simp) (by simp), ?_⟩
    simp only [hup, List.nil_append]
    exact ⟨st.worker, rfl, rfl⟩
  | requested version => exact h
  | answered version built => exact h
  | done x => exact h

theorem syncInv_answer (cfg : NodesConf) {st : SyncState} (h : SyncInv st)
    (iteration : List (Bytes × ZkNode)) : SyncInv (syncStep cfg st (.answer iteration)) := by
  have hearly := h.early
  have hsound := h.sound
  unfold syncStep
  dsimp only
  split
  · next data rest version hup hp =>
    split_ifs with hit
    · rw [hp] at hearly hsound
      obtain ⟨w, rfl, hw⟩ := hsound
      rw [hup] at hw
      rw [(List.cons.inj hw).1, onReqSyncZkNodes_syncRequest]
      refine ⟨h.registered, fun hne _ => absurd rfl (hne _ _), h.registered, fun ack rn hin => ?_⟩
      rcases List.mem_append.mp hin with hin | hin
      · exact absurd hin (hearly (by simp) (by simp) ack rn)
      · rw [List.mem_singleton, ControlMsg.rspSync.injEq] at hin
        exact ⟨hin.1, iteration, hit, hin.2⟩
    · exact h
  · exact h

theorem syncInv_deliver (cfg : NodesConf) {st : SyncState} (h : SyncInv st) :
    SyncInv (syncStep cfg st .deliver) := by
  have hearly := h.early
  have hsound := h.sound
  unfold syncStep
  cases hdown : st.down with
  | nil => exact h
  | cons m rest =>
    rw [hdown] at hearly hsound
    have hrest : ∀ {m'}, m' ∈ rest → m' ∈ m :: rest := fun hin => List.mem_cons_of_mem _ hin
    cases m with
    | notify n =>
      refine ⟨h.registered, fun h₁ h₂ ack rn hin => hearly h₁ h₂ ack rn (hrest hin), ?_⟩
      change st.progress.Sound st.up rest
      cases hp : st.progress with
      | idle => rwa [hp] at hsound
      | requested version => rwa [hp] at hsound
      | answered version built =>
        rw [hp] at hsound
        exact ⟨hsound.1, fun ack rn hin => hsound.2 ack rn (hrest hin)⟩
      | done x => rwa [hp] at hsound
    | rspSync ack rn =>
      cases hp : st.progress with
      | idle =>
        rw [hp] at hearly
        exact absurd List.mem_cons_self (hearly (by simp) (by simp) ack rn)
      | requested version =>
        rw [hp] at hearly
        exact absurd List.mem_cons_self (hearly (by simp) (by simp) ack rn)
      | answered version built =>
        rw [hp] at hsound
        obtain ⟨rfl, iteration, hit, rfl⟩ := hsound.2 ack rn List.mem_cons_self
        exact ⟨h.registered, fun _ hne => absurd rfl (hne _),
          onRspSyncZkNodes_agrees_iff cfg hsound.1 hit version st.worker⟩
      | done x =>
        rw [hp] at hsound
        exact ⟨h.registered, fun _ hne => absurd rfl (hne _), hsound⟩

/-- A manager and a worker after any operations on their registries, with notifications in
flight, before the exchange. -/
def SyncState.start (cfg : NodesConf) (managerOps workerOps : List NodesOp)
    (pending : List Notification) : SyncState where
  manager := (nodesMachine cfg).run {} managerOps
  worker := (nodesMachine cfg).run {} workerOps
  down := pending.map .notify

/-- **When a sync exchange makes the registries agree.** In every run from reachable
registries, the worker that handled the answer has the manager's records exactly under the
condition. -/
theorem sync_agrees_iff (cfg : NodesConf) (managerOps workerOps : List NodesOp)
    (pending : List Notification) (es : List SyncEvent) (x : Exchange)
    (hx : ((syncMachine cfg).run (.start cfg managerOps workerOps pending) es).progress =
      .done x) :
    x.after.Agree x.built ↔ SyncReaches x.version x.built x.before := by
  have hinv : SyncInv ((syncMachine cfg).run (.start cfg managerOps workerOps pending) es) := by
    refine (syncMachine cfg).run_invariant (fun st e h => ?_) ?_ es
    · cases e with
      | zk e => exact syncInv_zk cfg h e
      | request => exact syncInv_request cfg h
      | answer iteration => exact syncInv_answer cfg h iteration
      | deliver => exact syncInv_deliver cfg h
    · exact ⟨Nodes.registered_run cfg managerOps, fun _ _ => by simp [SyncState.start], rfl⟩
  have hsound := hinv.sound
  rwa [hx] at hsound

/-! ## A worker that just started -/

/-- A manager with one record and a worker that just started. -/
def restartedWorker : SyncState := .start sampleConf [.addZkNode (sampleZkNode 1)] [] []

/-- A worker that handles a notification between its request and the answer takes the
answer. -/
theorem sync_agrees_moved :
    ∃ x, ((syncMachine sampleConf).run restartedWorker
        [.request, .zk (.dataChange ⟨0, some (sampleZkNode 2)⟩),
          .answer [((sampleZkNode 2).path, sampleZkNode 2)], .deliver, .deliver]).progress =
        .done x ∧ x.after.Agree x.built :=
  ⟨_, rfl, (sync_agrees_iff sampleConf [.addZkNode (sampleZkNode 1)] [] []
    [.request, .zk (.dataChange ⟨0, some (sampleZkNode 2)⟩),
      .answer [((sampleZkNode 2).path, sampleZkNode 2)], .deliver, .deliver] _ rfl).mpr
    (by decide)⟩

/-- Without a notification in between it ignores the answer, which carries the version 0 of
the request, and stays without records. -/
theorem sync_restarted_worker_fails :
    ∃ x, ((syncMachine sampleConf).run restartedWorker
        [.request, .answer [((sampleZkNode 1).path, sampleZkNode 1)], .deliver]).progress =
        .done x ∧ ¬ x.after.Agree x.built :=
  ⟨_, rfl, by decide⟩

end Kimserver
