import Kimserver.Net.NodeConns

/-!
# The channels of the workers

The manager talks to each worker through two socket pairs. `worker_info_t` stores their
descriptors as bare numbers, and `restart_worker`, the check of the repeat timer and
`send_to_children` look the connections up by these numbers. When a channel is closed before
the death of its worker is handled, the system may give its number to another connection, and
the lookup finds that one.

What the system hands out, which calls fail and when signals arrive is part of an event. The
iterator and the index of `WorkerDataMgr` are left out: nothing here reads them.

## Main definitions

* `WorkerInfo`, `ManagerNet`: `worker_info_t`, and a manager with its connections and workers
* `ManagerNet.restartWorker`, `ManagerNet.createWorker`, `ManagerNet.sendToChildren`: the
  operations
* `ManagerNet.ChannelsOwn`: they touch only connections that were made for the worker
* `ManagerNet.FreshNumbers`: the steps that use no number a worker still stores

## Main results

* `ManagerNet.channelsOwn_run_iff`: the channels are not confused exactly in the runs of such
  steps
-/

namespace Kimserver

/-- `worker_info_t`, as far as the channels go. -/
structure WorkerInfo where
  pid : ℤ
  index : ℤ
  ctrlFd : ℤ
  dataFd : ℤ
  deriving DecidableEq, Repr

/-- The manager: its connections, `m_workers` by pid, and `m_restart_workers`. `made` records
which connections `create_worker` created, and for which worker. -/
structure ManagerNet where
  net : ConnTable := {}
  workers : FiniteMap ℤ WorkerInfo := ∅
  restarts : List ℤ := []
  made : FiniteMap ℕ ℤ := ∅

/-- What `create_worker` gets from the system. -/
inductive CreateResult
  /-- no socket pair, or no process -/
  | refused
  /-- the channels could not be registered; so many connections were created before -/
  | failed (ctrlFd dataFd created : ℕ)
  | ok (pid : ℤ) (ctrlFd dataFd : ℕ)
  deriving DecidableEq, Repr

/-- What happens to a manager. -/
inductive ManagerOp
  /-- `create_worker`, for a worker of the configuration -/
  | createWorker (index : ℤ) (res : CreateResult)
  /-- one turn of the loop of `restart_workers` -/
  | restartTurn (index : ℤ) (res : CreateResult)
  /-- `on_child_terminated`, for one process that was waited for -/
  | childTerminated (pid : ℤ)
  /-- `accept_server_conn`, for one connection -/
  | accept (res : ConnectResult)
  /-- a connection is closed, by the peer, by an error, or after it was handed over -/
  | close (fd : ℕ)
  /-- `send_to_children`, with the workers for which the send fails -/
  | sendToChildren (fails : List ℤ)
  deriving DecidableEq

namespace ManagerNet

section Manager

variable (s : ManagerNet)

/-- `add_read_event`, which creates a connection. -/
def addReadEvent (fd : ℤ) (system : Bool) : ManagerNet :=
  { s with
    net := (s.net.createConn fd).setConn fd fun c =>
      { c with state := .connected, system := system } }

/-- Record the connection that was created last as one of the worker. -/
def record (pid : ℤ) : ManagerNet := { s with made := s.made.insert s.net.seq pid }

def closeConn (fd : ℤ) : ManagerNet := { s with net := s.net.closeConn fd }

/-- `add_worker_info`. -/
def addWorkerInfo (index pid ctrlFd dataFd : ℤ) : ManagerNet :=
  { s with workers := s.workers.insert pid ⟨pid, index, ctrlFd, dataFd⟩ }

/-- `create_worker`. -/
def createWorker (index : ℤ) : CreateResult → ManagerNet
  | .refused => s
  | .failed ctrlFd dataFd created =>
    let s := if 1 ≤ created then s.addReadEvent ctrlFd true else s
    let s := if 2 ≤ created then s.addReadEvent dataFd true else s
    (s.closeConn ctrlFd).closeConn dataFd
  | .ok pid ctrlFd dataFd =>
    let s := (s.addReadEvent ctrlFd true).record pid
    let s := (s.addReadEvent dataFd true).record pid
    s.addWorkerInfo index pid ctrlFd dataFd

/-- One turn of `restart_workers`. -/
def restartTurn (index : ℤ) (res : CreateResult) : ManagerNet :=
  if index ∈ s.restarts then
    let s' := s.createWorker index res
    match res with
    | .ok _ _ _ => { s' with restarts := s'.restarts.erase index }
    | _ => s'
  else s

/-- `restart_worker`. -/
def restartWorker (pid : ℤ) : ManagerNet :=
  match s.workers.lookup pid with
  | none => s
  | some info =>
    let s := (s.closeConn info.ctrlFd).closeConn info.dataFd
    { s with workers := s.workers.erase pid, restarts := s.restarts ++ [info.index] }

/-- `accept_server_conn`. -/
def accept : ConnectResult → ManagerNet
  | .refused => s
  | .failed fd => (s.addReadEvent fd false).closeConn fd
  | .ok fd => s.addReadEvent fd true

/-- The send to one child, which fails. -/
def sendToChild (pid : ℤ) : ManagerNet :=
  match s.workers.lookup pid with
  | none => s
  | some info => s.closeConn info.ctrlFd

/-- `send_to_children`: where the send fails, the connection is closed. -/
def sendToChildren (fails : List ℤ) : ManagerNet := fails.foldl sendToChild s

/-- One step of a manager. -/
def step : ManagerOp → ManagerNet
  | .createWorker index res => s.createWorker index res
  | .restartTurn index res => s.restartTurn index res
  | .childTerminated pid => s.restartWorker pid
  | .accept res => s.accept res
  | .close fd => s.closeConn fd
  | .sendToChildren fails => s.sendToChildren fails

/-! ## What is touched for a worker -/

/-- The connections that `restart_worker` closes. -/
def closedFor (info : WorkerInfo) : List Conn :=
  [info.ctrlFd, info.dataFd].filterMap s.net.conns.lookup

/-- The connections that `check_conn` tests for a worker on the repeat timer. -/
def testedFor (info : WorkerInfo) : List Conn :=
  [info.ctrlFd, info.dataFd].filterMap s.net.conns.lookup

/-- The connections that `send_to_children` writes for a worker. -/
def writtenFor (info : WorkerInfo) : List Conn :=
  ([info.ctrlFd].filterMap s.net.conns.lookup).filter fun c =>
    c.state ≠ .unknown ∧ c.state ≠ .closed ∧ c.state ≠ .error

/-- What is touched for a worker was created for this worker. -/
def ChannelsOwn : Prop :=
  ∀ pid info, s.workers.lookup pid = some info →
    ∀ c, c ∈ s.closedFor info ∨ c ∈ s.testedFor info ∨ c ∈ s.writtenFor info →
      s.made.lookup c.id = some pid

/-- No worker but `pid` stores the number. -/
def Unstored (pid : Option ℤ) (fd : ℤ) : Prop :=
  ∀ p info, s.workers.lookup p = some info → some p ≠ pid → fd ≠ info.ctrlFd ∧ fd ≠ info.dataFd

/-- The steps in which a connection that stays gets no number that a registered worker stores;
a worker may take over the numbers that are stored under its own pid. -/
def FreshNumbers : ManagerOp → Prop
  | .createWorker _ (.ok pid ctrlFd dataFd) =>
    s.Unstored (some pid) ctrlFd ∧ s.Unstored (some pid) dataFd
  | .restartTurn index (.ok pid ctrlFd dataFd) =>
    index ∈ s.restarts → s.Unstored (some pid) ctrlFd ∧ s.Unstored (some pid) dataFd
  | .accept (.ok fd) => s.Unstored none fd
  | _ => True

end Manager

/-! ## The invariant -/

/-- The connections behind the stored numbers were created for the worker that stores them. -/
structure Owned (s : ManagerNet) : Prop where
  numbered : s.net.Numbered
  known : ∀ {id pid}, s.made.lookup id = some pid → id ≤ s.net.seq
  own : ∀ {pid info}, s.workers.lookup pid = some info → ∀ {fd c}, fd = info.ctrlFd ∨
    fd = info.dataFd → s.net.conns.lookup fd = some c → s.made.lookup c.id = some pid

section Invariant

variable {s : ManagerNet}

@[simp] theorem closeConn_net (s : ManagerNet) (fd : ℤ) :
    (s.closeConn fd).net = s.net.closeConn fd := rfl

@[simp] theorem record_net (s : ManagerNet) (pid : ℤ) : (s.record pid).net = s.net := rfl

/-- What is touched for a worker is what its numbers lead to. -/
theorem channelsOwn_iff :
    s.ChannelsOwn ↔ ∀ pid info, s.workers.lookup pid = some info → ∀ fd c, fd = info.ctrlFd ∨
      fd = info.dataFd → s.net.conns.lookup fd = some c → s.made.lookup c.id = some pid := by
  have hmem : ∀ (info : WorkerInfo) c, c ∈ s.testedFor info ↔
      ∃ fd, (fd = info.ctrlFd ∨ fd = info.dataFd) ∧ s.net.conns.lookup fd = some c := by
    intro info c
    simp only [testedFor, List.mem_filterMap, List.mem_cons, List.not_mem_nil, or_false]
  constructor
  · intro h pid info hinfo fd c hfd hc
    exact h pid info hinfo c (Or.inr (Or.inl ((hmem info c).mpr ⟨fd, hfd, hc⟩)))
  · intro h pid info hinfo c hc
    obtain ⟨fd, hfd, hlookup⟩ : ∃ fd, (fd = info.ctrlFd ∨ fd = info.dataFd) ∧
        s.net.conns.lookup fd = some c := by
      rcases hc with hc | hc | hc
      · exact (hmem info c).mp hc
      · exact (hmem info c).mp hc
      · obtain ⟨fd, hfd, hlookup⟩ := List.mem_filterMap.mp (List.mem_filter.mp hc).1
        exact ⟨fd, Or.inl (List.mem_singleton.mp hfd), hlookup⟩
    exact h pid info hinfo fd c hfd hlookup

theorem owned_empty : Owned {} where
  numbered := ConnTable.numbered_empty
  known h := absurd h (by simp)
  own h := absurd h (by simp)

theorem Owned.channelsOwn (h : s.Owned) : s.ChannelsOwn :=
  channelsOwn_iff.mpr fun _ _ hinfo _ _ hfd hc => h.own hinfo hfd hc

/-- Fewer connections and fewer workers keep the invariant. -/
theorem Owned.shrink {t : ManagerNet} (h : s.Owned) (hnumbered : t.net.Numbered)
    (hseq : s.net.seq ≤ t.net.seq) (hmade : t.made = s.made)
    (hconns : ∀ {fd c}, t.net.conns.lookup fd = some c → s.net.conns.lookup fd = some c)
    (hworkers : ∀ {pid info}, t.workers.lookup pid = some info →
      s.workers.lookup pid = some info) : t.Owned where
  numbered := hnumbered
  known hid := (h.known (hmade ▸ hid)).trans hseq
  own hinfo _ _ hfd hc := hmade ▸ h.own (hworkers hinfo) hfd (hconns hc)

theorem Owned.closeConn (h : s.Owned) (fd : ℤ) : (s.closeConn fd).Owned := by
  refine h.shrink (h.numbered.closeConn fd) (ConnTable.closeConn_seq _ _).ge rfl ?_ id
  intro x c hc
  rw [closeConn_net, ConnTable.lookup_closeConn h.numbered] at hc
  split_ifs at hc
  exact hc

/-! ## New connections -/

/-- The connections after `add_read_event`. -/
theorem lookup_addReadEvent (h : s.net.Numbered) (fd x : ℤ) (system : Bool) :
    (s.addReadEvent fd system).net.conns.lookup x =
      if x = fd then some ⟨s.net.seq + 1, [], .connected, system⟩
      else s.net.conns.lookup x := by
  simp only [addReadEvent, ConnTable.lookup_setConn, ConnTable.lookup_createConn h, if_true]
  split_ifs <;> rfl

theorem addReadEvent_seq (s : ManagerNet) (fd : ℤ) (system : Bool) :
    (s.addReadEvent fd system).net.seq = s.net.seq + 1 := by
  simp only [addReadEvent, ConnTable.setConn_seq, ConnTable.createConn_seq]

theorem numbered_addReadEvent (h : s.net.Numbered) (fd : ℕ) (system : Bool) :
    (s.addReadEvent fd system).net.Numbered := by
  have hcreated : (s.net.createConn fd).Numbered := h.createConn (by omega)
  exact hcreated.setConn (fd : ℤ) fun _ => rfl

/-- A connection with a number that no worker stores. -/
theorem Owned.addReadEvent (h : s.Owned) {fd : ℕ} (hfd : s.Unstored none fd) (system : Bool) :
    (s.addReadEvent fd system).Owned := by
  refine ⟨numbered_addReadEvent h.numbered fd system, fun hid => ?_, fun hinfo x c hx hc => ?_⟩
  · rw [addReadEvent_seq]
    exact Nat.le_succ_of_le (h.known hid)
  · obtain ⟨hctrl, hdata⟩ := hfd _ _ hinfo (by simp)
    rw [lookup_addReadEvent h.numbered] at hc
    split_ifs at hc with heq
    · subst heq
      exact absurd hx (by simp [hctrl, hdata])
    · exact h.own hinfo hx hc

/-- A connection that is recorded for a worker, with a number that no other worker stores. -/
theorem Owned.addChannel (h : s.Owned) {pid : ℤ} {fd : ℕ} (hfd : s.Unstored (some pid) fd) :
    ((s.addReadEvent fd true).record pid).Owned := by
  have hseq := addReadEvent_seq s fd true
  refine ⟨numbered_addReadEvent h.numbered fd true, fun {id p} hid => ?_,
    fun {p info} hinfo x c hx hc => ?_⟩
  · simp only [record, FiniteMap.lookup_insert] at hid ⊢
    split_ifs at hid with hnew
    · exact hnew.le
    · rw [hseq]
      exact Nat.le_succ_of_le (h.known hid)
  · simp only [record, FiniteMap.lookup_insert] at hc ⊢
    rw [lookup_addReadEvent h.numbered] at hc
    split_ifs at hc with heq
    · -- the new connection: its number is stored by `pid` only
      obtain rfl := Option.some.inj hc
      rw [if_pos hseq.symm]
      by_contra hp
      obtain ⟨hctrl, hdata⟩ := hfd _ _ hinfo fun heq => hp heq.symm
      subst heq
      exact absurd hx (by simp [hctrl, hdata])
    · rw [if_neg]
      · exact h.own hinfo hx hc
      · have hle := h.numbered.le_seq hc
        omega

/-- The connections after a worker was created. -/
theorem lookup_createWorker (h : s.Owned) (index pid : ℤ) (ctrlFd dataFd : ℕ) (x : ℤ) :
    (s.createWorker index (.ok pid ctrlFd dataFd)).net.conns.lookup x =
      if x = (dataFd : ℤ) then some ⟨s.net.seq + 2, [], .connected, true⟩
      else if x = (ctrlFd : ℤ) then some ⟨s.net.seq + 1, [], .connected, true⟩
      else s.net.conns.lookup x := by
  have hfirst : ((s.addReadEvent ctrlFd true).record pid).net.Numbered :=
    numbered_addReadEvent h.numbered ctrlFd true
  simp only [createWorker, addWorkerInfo, record_net]
  rw [lookup_addReadEvent hfirst, record_net, lookup_addReadEvent h.numbered,
    addReadEvent_seq]

/-- The two connections of a worker that was created are recorded for it. -/
theorem made_createWorker (s : ManagerNet) (index pid : ℤ) (ctrlFd dataFd : ℕ) {id : ℕ}
    (hid : id = s.net.seq + 1 ∨ id = s.net.seq + 2) :
    (s.createWorker index (.ok pid ctrlFd dataFd)).made.lookup id = some pid := by
  simp only [createWorker, addWorkerInfo, record, addReadEvent_seq, FiniteMap.lookup_insert]
  rcases hid with rfl | rfl
  · simp [addReadEvent]
  · simp

/-- **A worker that was created** owns its channels. -/
theorem Owned.createWorker_ok (h : s.Owned) (index : ℤ) {pid : ℤ} {ctrlFd dataFd : ℕ}
    (hctrl : s.Unstored (some pid) ctrlFd) (hdata : s.Unstored (some pid) dataFd) :
    (s.createWorker index (.ok pid ctrlFd dataFd)).Owned := by
  have hfirst : ((s.addReadEvent ctrlFd true).record pid).Owned := h.addChannel hctrl
  have hboth : ((((s.addReadEvent ctrlFd true).record pid).addReadEvent dataFd true).record
      pid).Owned := hfirst.addChannel hdata
  refine ⟨hboth.numbered, hboth.known, fun {p info} hinfo x c hx hc => ?_⟩
  simp only [createWorker, addWorkerInfo, FiniteMap.lookup_insert] at hinfo hc ⊢
  split_ifs at hinfo with hp
  · -- the new worker: both connections were recorded for it
    subst hp
    obtain rfl := Option.some.inj hinfo
    have hlookup := lookup_createWorker h index p ctrlFd dataFd x
    simp only [createWorker, addWorkerInfo] at hlookup
    rw [hlookup] at hc
    refine made_createWorker s index p ctrlFd dataFd ?_
    split_ifs at hc with hxdata hxctrl
    · exact Or.inr (congrArg Conn.id (Option.some.inj hc)).symm
    · exact Or.inl (congrArg Conn.id (Option.some.inj hc)).symm
    · exact absurd hx (by simp [hxdata, hxctrl])
  · exact hboth.own hinfo hx hc

/-- Channels that could not be registered are closed again. -/
theorem Owned.createWorker_failed (h : s.Owned) (index : ℤ) (ctrlFd dataFd created : ℕ) :
    (s.createWorker index (.failed ctrlFd dataFd created)).Owned := by
  -- a connection with one of the two numbers does not stay, the others were there before
  have hadd : ∀ {t : ManagerNet} (fd : ℕ) (b : Prop) [Decidable b], t.net.Numbered →
      s.net.seq ≤ t.net.seq → (fd = ctrlFd ∨ fd = dataFd) →
      (∀ {x c}, x ≠ (ctrlFd : ℤ) → x ≠ (dataFd : ℤ) → t.net.conns.lookup x = some c →
        s.net.conns.lookup x = some c) →
      (if b then t.addReadEvent fd true else t).net.Numbered ∧
        s.net.seq ≤ (if b then t.addReadEvent fd true else t).net.seq ∧
        ∀ {x c}, x ≠ (ctrlFd : ℤ) → x ≠ (dataFd : ℤ) →
          (if b then t.addReadEvent fd true else t).net.conns.lookup x = some c →
          s.net.conns.lookup x = some c := by
    intro t fd b _ hnumbered hseq hfd hconns
    split_ifs
    · refine ⟨numbered_addReadEvent hnumbered fd true, ?_, fun hctrl hdata hc => ?_⟩
      · rw [addReadEvent_seq]
        exact Nat.le_succ_of_le hseq
      · rw [lookup_addReadEvent hnumbered, if_neg] at hc
        · exact hconns hctrl hdata hc
        · rcases hfd with rfl | rfl
          · exact hctrl
          · exact hdata
    · exact ⟨hnumbered, hseq, hconns⟩
  obtain ⟨hnumbered₁, hseq₁, hconns₁⟩ := hadd ctrlFd (1 ≤ created) h.numbered le_rfl
    (Or.inl rfl) fun _ _ hc => hc
  obtain ⟨hnumbered₂, hseq₂, hconns₂⟩ := hadd dataFd (2 ≤ created) hnumbered₁ hseq₁
    (Or.inr rfl) hconns₁
  have hclosed := hnumbered₂.closeConn ctrlFd
  refine h.shrink (hclosed.closeConn dataFd) ?_ ?_ (fun {x c} hc => ?_) fun hinfo => ?_
  · simp only [createWorker, closeConn_net, ConnTable.closeConn_seq]
    exact hseq₂
  · simp only [createWorker]
    split_ifs <;> rfl
  · simp only [createWorker, closeConn_net] at hc
    rw [ConnTable.lookup_closeConn hclosed, ConnTable.lookup_closeConn hnumbered₂] at hc
    by_cases hdata : x = (dataFd : ℤ)
    · rw [if_pos hdata] at hc
      exact absurd hc (by simp)
    · by_cases hctrl : x = (ctrlFd : ℤ)
      · rw [if_neg hdata, if_pos hctrl] at hc
        exact absurd hc (by simp)
      · rw [if_neg hdata, if_neg hctrl] at hc
        exact hconns₂ hctrl hdata hc
  · simp only [createWorker] at hinfo
    split_ifs at hinfo <;> exact hinfo

/-- A change of the list of workers to restart keeps the invariant. -/
theorem Owned.setRestarts (h : s.Owned) (restarts : List ℤ) :
    ManagerNet.Owned { s with restarts := restarts } :=
  ⟨h.numbered, h.known, h.own⟩

/-- Nothing is created under the number of a worker: a worker that is created. -/
theorem Owned.createWorker (h : s.Owned) (index : ℤ) (res : CreateResult)
    (hfresh : s.FreshNumbers (.createWorker index res)) : (s.createWorker index res).Owned := by
  cases res with
  | refused => exact h
  | failed ctrlFd dataFd created => exact h.createWorker_failed index ctrlFd dataFd created
  | ok pid ctrlFd dataFd => exact h.createWorker_ok index hfresh.1 hfresh.2

/-- **A step with fresh numbers** keeps the channels apart. -/
theorem Owned.step (h : s.Owned) (op : ManagerOp) (hop : s.FreshNumbers op) :
    (s.step op).Owned := by
  cases op with
  | createWorker index res => exact h.createWorker index res hop
  | restartTurn index res =>
    unfold ManagerNet.step ManagerNet.restartTurn
    dsimp only
    split_ifs with hmem
    · cases res with
      | refused => exact h
      | failed ctrlFd dataFd created => exact h.createWorker_failed index ctrlFd dataFd created
      | ok pid ctrlFd dataFd =>
        obtain ⟨hctrl, hdata⟩ := hop hmem
        exact (h.createWorker_ok index hctrl hdata).setRestarts _
    · exact h
  | childTerminated pid =>
    unfold ManagerNet.step restartWorker
    dsimp only
    cases hinfo : s.workers.lookup pid with
    | none => exact h
    | some info =>
      have hclosed := (h.closeConn info.ctrlFd).closeConn info.dataFd
      refine hclosed.shrink hclosed.numbered le_rfl rfl id fun {p i} hi => ?_
      simp only [ManagerNet.closeConn, FiniteMap.lookup_erase] at hi ⊢
      split_ifs at hi
      exact hi
  | accept res =>
    cases res with
    | refused => exact h
    | failed fd =>
      have hnumbered := numbered_addReadEvent h.numbered fd false
      refine h.shrink (hnumbered.closeConn fd) ?_ rfl (fun {x c} hc => ?_) id
      · simp only [ManagerNet.step, ManagerNet.accept, closeConn_net, ConnTable.closeConn_seq,
          addReadEvent_seq, Nat.le_succ]
      · simp only [ManagerNet.step, ManagerNet.accept, closeConn_net] at hc
        rw [ConnTable.lookup_closeConn hnumbered, lookup_addReadEvent h.numbered] at hc
        split_ifs at hc
        exact hc
    | ok fd => exact h.addReadEvent hop true
  | close fd => exact h.closeConn fd
  | sendToChildren fails =>
    unfold ManagerNet.step ManagerNet.sendToChildren
    induction fails generalizing s with
    | nil => exact h
    | cons pid fails ih =>
      refine ih ?_ trivial
      unfold sendToChild
      split
      · exact h
      · exact h.closeConn _

/-- A new connection with a number that a worker stores, and that was not created for it,
confuses the channels. -/
theorem unstored_of_channelsOwn {t : ManagerNet} {pid : Option ℤ} {fd : ℤ} {c : Conn}
    (hworkers : ∀ {p info}, s.workers.lookup p = some info → some p ≠ pid →
      t.workers.lookup p = some info)
    (hc : t.net.conns.lookup fd = some c) (hmade : t.made.lookup c.id = pid)
    (hafter : t.ChannelsOwn) : s.Unstored pid fd := by
  intro p info hinfo hp
  have hown := channelsOwn_iff.mp hafter p info (hworkers hinfo hp) fd c
  constructor
  · intro hfd
    exact hp ((hown (Or.inl hfd) hc).symm.trans hmade)
  · intro hfd
    exact hp ((hown (Or.inr hfd) hc).symm.trans hmade)

/-- A worker that was created leaves the channels apart only with fresh numbers. -/
theorem unstored_of_createWorker (h : s.Owned) (index pid : ℤ) (ctrlFd dataFd : ℕ)
    (hafter : (s.createWorker index (.ok pid ctrlFd dataFd)).ChannelsOwn) :
    s.Unstored (some pid) ctrlFd ∧ s.Unstored (some pid) dataFd := by
  have hworkers : ∀ {p info}, s.workers.lookup p = some info → some p ≠ some pid →
      (s.createWorker index (.ok pid ctrlFd dataFd)).workers.lookup p = some info := by
    intro p info hinfo hp
    simp only [ManagerNet.createWorker, addWorkerInfo, FiniteMap.lookup_insert]
    rw [if_neg fun heq => hp (congrArg some heq)]
    exact hinfo
  have hlookup := lookup_createWorker h index pid ctrlFd dataFd
  have hmade : ∀ id, id = s.net.seq + 1 ∨ id = s.net.seq + 2 →
      (s.createWorker index (.ok pid ctrlFd dataFd)).made.lookup id = some pid :=
    fun _ hid => made_createWorker s index pid ctrlFd dataFd hid
  constructor
  · by_cases hsame : (ctrlFd : ℤ) = dataFd
    · exact unstored_of_channelsOwn hworkers (by rw [hlookup, if_pos hsame])
        (hmade _ (Or.inr rfl)) hafter
    · exact unstored_of_channelsOwn hworkers (by rw [hlookup, if_neg hsame, if_pos rfl])
        (hmade _ (Or.inl rfl)) hafter
  · exact unstored_of_channelsOwn hworkers (by rw [hlookup, if_pos rfl])
      (hmade _ (Or.inr rfl)) hafter

/-- **The steps that leave the channels apart** are the steps with fresh numbers. -/
theorem freshNumbers_of_channelsOwn (h : s.Owned) (op : ManagerOp)
    (hafter : (s.step op).ChannelsOwn) : s.FreshNumbers op := by
  cases op with
  | createWorker index res =>
    cases res with
    | refused => trivial
    | failed => trivial
    | ok pid ctrlFd dataFd => exact unstored_of_createWorker h index pid ctrlFd dataFd hafter
  | restartTurn index res =>
    cases res with
    | refused => trivial
    | failed => trivial
    | ok pid ctrlFd dataFd =>
      intro hmem
      refine unstored_of_createWorker h index pid ctrlFd dataFd ?_
      simp only [ManagerNet.step, ManagerNet.restartTurn, if_pos hmem] at hafter
      exact hafter
  | accept res =>
    cases res with
    | refused => trivial
    | failed => trivial
    | ok fd =>
      have hlookup := lookup_addReadEvent h.numbered fd fd true
      rw [if_pos rfl] at hlookup
      have hworkers : ∀ {p info}, s.workers.lookup p = some info → some p ≠ none →
          (s.addReadEvent fd true).workers.lookup p = some info := fun hinfo _ => hinfo
      refine unstored_of_channelsOwn hworkers hlookup ?_ hafter
      -- the number of the new connection was never used
      cases hmade : s.made.lookup (s.net.seq + 1) with
      | none => exact hmade
      | some p => exact absurd (h.known hmade) (by simp)
  | childTerminated => trivial
  | close => trivial
  | sendToChildren => trivial

end Invariant

end ManagerNet

/-- A manager. -/
def managerNetMachine : Machine ManagerNet ManagerOp := ⟨ManagerNet.step⟩

namespace ManagerNet

/-! ## Runs -/

/-- **The channels of the workers are not confused with other connections exactly in the runs
without a reused number**: for every sequence of closes, accepted connections, created workers,
signals and timer turns, in every state the connections that `restart_worker` closes,
`check_conn` tests and `send_to_children` writes for a worker were created for this worker, if
and only if no connection that stays ever gets a number that another registered worker still
stores. -/
theorem channelsOwn_run_iff (ops : List ManagerOp) :
    managerNetMachine.Meets FreshNumbers {} ops ↔
      ∀ past, past <+: ops → (managerNetMachine.run {} past).ChannelsOwn := by
  refine Machine.Meets.iff_forall_prefix (I := Owned) (Q := fun _ => True)
    (fun s h => h.channelsOwn) ?_ ?_ owned_empty fun _ _ => trivial
  · intro s op _ h hop
    exact h.step op hop
  · intro s op _ h hafter
    exact freshNumbers_of_channelsOwn h op hafter

/-- The control channel of a worker is closed, an accepted connection gets its number, and
`restart_worker` closes this connection when the death of the worker is handled. -/
theorem channelsOwn_reused_fails :
    ¬ (managerNetMachine.run {}
      [.createWorker 1 (.ok 100 5 6), .close 5, .accept (.ok 5)]).ChannelsOwn := by
  intro hown
  have hinfo : (managerNetMachine.run {}
      [.createWorker 1 (.ok 100 5 6), .close 5, .accept (.ok 5)]).workers.lookup 100 =
        some ⟨100, 1, 5, 6⟩ := by decide
  have hclosed : (⟨3, [], .connected, true⟩ : Conn) ∈ (managerNetMachine.run {}
      [.createWorker 1 (.ok 100 5 6), .close 5, .accept (.ok 5)]).closedFor ⟨100, 1, 5, 6⟩ := by
    decide
  have hmade := hown _ _ hinfo _ (Or.inl hclosed)
  exact absurd hmade (by decide)

end ManagerNet

end Kimserver
