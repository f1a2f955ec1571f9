import Kimserver.Lib.Double
import Kimserver.Lib.FiniteMap

/-!
# The workers of a manager

`WorkerDataMgr` keeps a record for each worker process. The records are objects: `m_workers` has
their addresses by the process id and `m_index_workers` by the worker's index, and a record is
freed when it is deleted. An iterator goes around `m_workers` and hands out the data channel of
the next worker.

The address of a new record, and the order that an insertion gives to `m_workers`, are arguments.

## Main definitions

* `Payload`, `WorkerData`: the statistics and the record of a worker
* `WorkerDataMgr`: the records and the two maps
* `WorkerDataMgr.addWorkerInfo`, `WorkerDataMgr.delWorkerInfo`,
  `WorkerDataMgr.getNextWorkerDataFd`: the functions
* `WorkerDataMgr.Filed`: each worker of the table has a record
* `WorkerDataMgr.Sound`: the two maps have the same records

## Main results

* `WorkerDataMgr.Sound.addWorkerInfo`, `WorkerDataMgr.Sound.delWorkerInfo`: the functions keep
  the maps together
-/

namespace Kimserver

/-- The message `Payload`. -/
structure Payload where
  workerIndex : UInt32 := 0
  connCnt : UInt32 := 0
  cmdCnt : UInt32 := 0
  readCnt : UInt32 := 0
  readBytes : UInt32 := 0
  writeCnt : UInt32 := 0
  writeBytes : UInt32 := 0
  createTime : Double := ⟨0⟩
  deriving DecidableEq

/-- `worker_info_t`. -/
structure WorkerData where
  pid : ℕ
  index : ℤ
  ctrlFd : ℤ
  dataFd : ℤ
  payload : Payload := {}
  deriving DecidableEq

/-- The records by their address, `m_workers` and `m_index_workers`. `visit` lists the keys of
`m_workers` in the order of iteration, and `m_itr_worker` is at the place `itr` of it. -/
structure WorkerDataMgr where
  heap : FiniteMap ℕ WorkerData := ∅
  workers : FiniteMap ℕ ℕ := ∅
  visit : List ℕ := []
  itr : ℕ := 0
  indexWorkers : FiniteMap ℤ ℕ := ∅

namespace WorkerDataMgr

section Functions

variable (m : WorkerDataMgr)

/-- The record of a process. -/
def find (pid : ℕ) : Option WorkerData := (m.workers.lookup pid).bind m.heap.lookup

/-- `get_worker_index`. -/
def getWorkerIndex (pid : ℕ) : ℤ :=
  match m.find pid with
  | none => -1
  | some info => info.index

/-- `get_worker_info`: the address of the record. -/
def getWorkerInfo (index : ℤ) : Option ℕ := m.indexWorkers.lookup index

/-- `get_worker_data_fd`. -/
def getWorkerDataFd (index : ℤ) : ℤ :=
  match (m.indexWorkers.lookup index).bind m.heap.lookup with
  | none => -1
  | some info => info.dataFd

/-- `get_worker_chanel`: the control channel and the data channel. -/
def getWorkerChanel (pid : ℕ) : Option (ℤ × ℤ) := (m.find pid).map fun i => (i.ctrlFd, i.dataFd)

/-- `del_worker_info`. -/
def delWorkerInfo (pid : ℕ) : Bool × WorkerDataMgr :=
  match m.workers.lookup pid with
  | none => (false, m)
  | some a =>
    let indexWorkers :=
      match m.heap.lookup a with
      | none => m.indexWorkers
      | some info => m.indexWorkers.erase info.index
    (true, { heap := m.heap.erase a
             workers := m.workers.erase pid
             visit := m.visit.erase pid
             itr := 0
             indexWorkers })

/-- `add_worker_info`. The record gets the address `hint` if that is free. The map may order its
nodes in another way after an insertion: `order` if these are its keys. -/
def addWorkerInfo (index : ℤ) (pid : ℕ) (ctrlFd dataFd : ℤ) (hint : ℕ) (order : List ℕ) :
    WorkerDataMgr :=
  let m := if (m.workers.lookup pid).isSome then (m.delWorkerInfo pid).2 else m
  let a := FiniteMap.fresh m.heap.keys hint
  { heap := m.heap.insert a { pid, index, ctrlFd, dataFd }
    workers := m.workers.insert pid a
    visit := if order.Perm (pid :: m.visit) then order else pid :: m.visit
    itr := 0
    indexWorkers := m.indexWorkers.insert index a }

/-- `get_next_worker_data_fd`. -/
def getNextWorkerDataFd : ℤ × WorkerDataMgr :=
  if m.visit = [] then (-1, m)
  else
    let itr := if m.itr + 1 = m.visit.length then 0 else m.itr + 1
    match m.visit[itr]? with
    | none => (-1, m)
    | some pid =>
      match m.find pid with
      | none => (-1, m)
      | some info => (info.dataFd, { m with itr })

/-- `get_infos`, as an iteration visits them. -/
def getInfos : List WorkerData := m.visit.filterMap m.find

end Functions

/-! ## The table -/

/-- Each worker of the table has a record of its own, with its process id. -/
structure Filed (m : WorkerDataMgr) : Prop where
  nodup : m.visit.Nodup
  visited : ∀ pid, pid ∈ m.visit ↔ ∃ a, m.workers.lookup pid = some a
  byPid : ∀ {pid a : ℕ}, m.workers.lookup pid = some a →
    ∃ info, m.heap.lookup a = some info ∧ info.pid = pid

variable {m : WorkerDataMgr} {pid a : ℕ} {index : ℤ}

/-- One address has one record. -/
theorem Filed.pid_inj (h : m.Filed) {pid' : ℕ} (ha : m.workers.lookup pid = some a)
    (ha' : m.workers.lookup pid' = some a) : pid = pid' := by
  obtain ⟨info, hinfo, rfl⟩ := h.byPid ha
  obtain ⟨info', hinfo', rfl⟩ := h.byPid ha'
  rw [Option.some.inj (hinfo.symm.trans hinfo')]

theorem addWorkerInfo_eq (hpid : m.workers.lookup pid = none) (index ctrlFd dataFd : ℤ) (hint : ℕ)
    (order : List ℕ) : m.addWorkerInfo index pid ctrlFd dataFd hint order =
      { heap := m.heap.insert (FiniteMap.fresh m.heap.keys hint) { pid, index, ctrlFd, dataFd }
        workers := m.workers.insert pid (FiniteMap.fresh m.heap.keys hint)
        visit := if order.Perm (pid :: m.visit) then order else pid :: m.visit
        itr := 0
        indexWorkers := m.indexWorkers.insert index (FiniteMap.fresh m.heap.keys hint) } := by
  unfold addWorkerInfo
  rw [hpid]
  rfl

/-- The records that are there keep their addresses when a new one comes. -/
theorem lookup_insert_fresh {info new : WorkerData} {hint : ℕ} (h : m.heap.lookup a = some info) :
    (m.heap.insert (FiniteMap.fresh m.heap.keys hint) new).lookup a = some info := by
  rw [FiniteMap.lookup_insert, if_neg]
  · exact h
  · rintro rfl
    rw [FiniteMap.lookup_fresh] at h
    cases h

/-- A process that has no record gets one. -/
theorem Filed.addWorkerInfo (h : m.Filed) (hpid : m.workers.lookup pid = none)
    (index ctrlFd dataFd : ℤ) (hint : ℕ) (order : List ℕ) :
    (m.addWorkerInfo index pid ctrlFd dataFd hint order).Filed := by
  rw [addWorkerInfo_eq hpid]
  -- the order has the old keys and the new one
  have hperm : (if order.Perm (pid :: m.visit) then order else pid :: m.visit).Perm
      (pid :: m.visit) := by
    split_ifs with ho
    · exact ho
    · exact List.Perm.refl _
  constructor
  · rw [hperm.nodup_iff, List.nodup_cons]
    refine ⟨fun hmem => ?_, h.nodup⟩
    obtain ⟨a', ha'⟩ := (h.visited pid).mp hmem
    rw [hpid] at ha'
    cases ha'
  · intro pid'
    rw [hperm.mem_iff, List.mem_cons, h.visited, FiniteMap.lookup_insert]
    split_ifs with heq
    · simp [heq]
    · simp [heq]
  · intro pid' a' hworker
    rw [FiniteMap.lookup_insert] at hworker
    split_ifs at hworker with heq
    · obtain rfl := Option.some.inj hworker
      exact ⟨_, (FiniteMap.lookup_insert ..).trans (if_pos rfl), heq.symm⟩
    · obtain ⟨info, hinfo, hip⟩ := h.byPid hworker
      exact ⟨info, lookup_insert_fresh hinfo, hip⟩

/-- The records after a worker was added. -/
theorem Filed.find_addWorkerInfo (h : m.Filed) (hpid : m.workers.lookup pid = none)
    (index ctrlFd dataFd : ℤ) (hint : ℕ) (order : List ℕ) (pid' : ℕ) :
    (m.addWorkerInfo index pid ctrlFd dataFd hint order).find pid' =
      if pid' = pid then some { pid, index, ctrlFd, dataFd } else m.find pid' := by
  rw [addWorkerInfo_eq hpid]
  unfold find
  dsimp only
  rw [FiniteMap.lookup_insert]
  split_ifs with heq
  · rw [Option.bind_some, FiniteMap.lookup_insert, if_pos rfl]
  · cases ha : m.workers.lookup pid' with
    | none => rfl
    | some a =>
      obtain ⟨info, hinfo, -⟩ := h.byPid ha
      rw [Option.bind_some, Option.bind_some, lookup_insert_fresh hinfo, hinfo]

theorem delWorkerInfo_of_none (hpid : m.workers.lookup pid = none) :
    m.delWorkerInfo pid = (false, m) := by
  unfold delWorkerInfo
  rw [hpid]

/-- Deleting takes the worker out of the table. -/
theorem delWorkerInfo_fields (ha : m.workers.lookup pid = some a) :
    (m.delWorkerInfo pid).2.heap = m.heap.erase a ∧
      (m.delWorkerInfo pid).2.workers = m.workers.erase pid ∧
      (m.delWorkerInfo pid).2.visit = m.visit.erase pid ∧ (m.delWorkerInfo pid).2.itr = 0 := by
  unfold delWorkerInfo
  rw [ha]
  exact ⟨rfl, rfl, rfl, rfl⟩

theorem Filed.delWorkerInfo (h : m.Filed) (pid : ℕ) : (m.delWorkerInfo pid).2.Filed := by
  cases ha : m.workers.lookup pid with
  | none =>
    rw [delWorkerInfo_of_none ha]
    exact h
  | some a =>
    obtain ⟨hheap, hworkers, hvisit, -⟩ := delWorkerInfo_fields ha
    constructor
    · rw [hvisit]
      exact h.nodup.erase pid
    · intro pid'
      rw [hvisit, hworkers, h.nodup.mem_erase_iff, h.visited, FiniteMap.lookup_erase]
      split_ifs with hsame
      · simp [hsame]
      · simp [hsame]
    · intro pid' a' hworker
      rw [hworkers, FiniteMap.lookup_erase] at hworker
      split_ifs at hworker with hne
      obtain ⟨info, hinfo, hip⟩ := h.byPid hworker
      refine ⟨info, ?_, hip⟩
      rw [hheap, FiniteMap.lookup_erase, if_neg]
      · exact hinfo
      · -- another process has another record
        rintro rfl
        exact hne (h.pid_inj hworker ha)

/-- The records after a worker was deleted. -/
theorem Filed.find_delWorkerInfo (h : m.Filed) (pid pid' : ℕ) :
    (m.delWorkerInfo pid).2.find pid' = if pid' = pid then none else m.find pid' := by
  cases ha : m.workers.lookup pid with
  | none =>
    rw [delWorkerInfo_of_none ha]
    split_ifs with heq
    · rw [heq, find, ha]
      rfl
    · rfl
  | some a =>
    obtain ⟨hheap, hworkers, -, -⟩ := delWorkerInfo_fields ha
    rw [find, hworkers, hheap, FiniteMap.lookup_erase]
    split_ifs with hsame
    · rfl
    · cases ha' : m.workers.lookup pid' with
      | none => rw [find, ha']; rfl
      | some a' =>
        rw [find, ha', Option.bind_some, Option.bind_some, FiniteMap.lookup_erase, if_neg]
        rintro rfl
        exact hsame (h.pid_inj ha' ha)

/-! ## The two maps -/

/-- The two maps have the same records, each under its process id and its index. -/
structure Sound (m : WorkerDataMgr) : Prop where
  nodup : m.visit.Nodup
  visited : ∀ pid, pid ∈ m.visit ↔ ∃ a, m.workers.lookup pid = some a
  byPid : ∀ {pid a : ℕ}, m.workers.lookup pid = some a →
    ∃ info, m.heap.lookup a = some info ∧ info.pid = pid ∧ m.indexWorkers.lookup info.index = some a
  byIndex : ∀ {index : ℤ} {a : ℕ}, m.indexWorkers.lookup index = some a →
    ∃ info, m.heap.lookup a = some info ∧ info.index = index ∧ m.workers.lookup info.pid = some a

theorem sound_empty : Sound {} where
  nodup := List.nodup_nil
  visited _ := by simp
  byPid h := by simp at h
  byIndex h := by simp at h

theorem Sound.filed (h : m.Sound) : m.Filed := by
  refine ⟨h.nodup, h.visited, fun ha => ?_⟩
  obtain ⟨info, hinfo, hip, -⟩ := h.byPid ha
  exact ⟨info, hinfo, hip⟩

/-- A new worker with an index of its own. -/
theorem Sound.addWorkerInfo (h : m.Sound) (hpid : m.workers.lookup pid = none)
    (hindex : m.indexWorkers.lookup index = none) (ctrlFd dataFd : ℤ) (hint : ℕ)
    (order : List ℕ) : (m.addWorkerInfo index pid ctrlFd dataFd hint order).Sound := by
  have hfiled := h.filed.addWorkerInfo hpid index ctrlFd dataFd hint order
  rw [addWorkerInfo_eq hpid] at hfiled ⊢
  refine ⟨hfiled.nodup, hfiled.visited, ?_, ?_⟩
  · intro pid' a' hworker
    rw [FiniteMap.lookup_insert] at hworker
    split_ifs at hworker with heq
    · obtain rfl := Option.some.inj hworker
      refine ⟨_, (FiniteMap.lookup_insert ..).trans (if_pos rfl), heq.symm, ?_⟩
      rw [FiniteMap.lookup_insert, if_pos rfl]
    · obtain ⟨info, hinfo, hip, hii⟩ := h.byPid hworker
      refine ⟨info, lookup_insert_fresh hinfo, hip, ?_⟩
      rw [FiniteMap.lookup_insert, if_neg]
      · exact hii
      · intro hsame
        rw [hsame, hindex] at hii
        cases hii
  · intro index' a' hworker
    rw [FiniteMap.lookup_insert] at hworker
    split_ifs at hworker with heq
    · obtain rfl := Option.some.inj hworker
      refine ⟨_, (FiniteMap.lookup_insert ..).trans (if_pos rfl), heq.symm, ?_⟩
      rw [FiniteMap.lookup_insert, if_pos rfl]
    · obtain ⟨info, hinfo, hii, hip⟩ := h.byIndex hworker
      refine ⟨info, lookup_insert_fresh hinfo, hii, ?_⟩
      rw [FiniteMap.lookup_insert, if_neg]
      · exact hip
      · intro hsame
        rw [hsame, hpid] at hip
        cases hip

/-- What is deleted is the record of the process, with its index. -/
theorem Sound.delWorkerInfo_eq (h : m.Sound) (ha : m.workers.lookup pid = some a) :
    ∃ info, m.heap.lookup a = some info ∧ info.pid = pid ∧
      m.indexWorkers.lookup info.index = some a ∧ m.getWorkerIndex pid = info.index ∧
      m.delWorkerInfo pid = (true,
        { heap := m.heap.erase a
          workers := m.workers.erase pid
          visit := m.visit.erase pid
          itr := 0
          indexWorkers := m.indexWorkers.erase info.index }) := by
  obtain ⟨info, hinfo, hip, hii⟩ := h.byPid ha
  refine ⟨info, hinfo, hip, hii, ?_, ?_⟩
  · rw [getWorkerIndex, find, ha, Option.bind_some, hinfo]
  · unfold delWorkerInfo
    rw [ha]
    dsimp only
    rw [hinfo]

theorem Sound.delWorkerInfo (h : m.Sound) (pid : ℕ) : (m.delWorkerInfo pid).2.Sound := by
  cases ha : m.workers.lookup pid with
  | none =>
    rw [delWorkerInfo_of_none ha]
    exact h
  | some a =>
    obtain ⟨info, hinfo, hip, hii, -, heq⟩ := h.delWorkerInfo_eq ha
    have hfiled := h.filed.delWorkerInfo pid
    rw [heq] at hfiled ⊢
    refine ⟨hfiled.nodup, hfiled.visited, ?_, ?_⟩
    · intro pid' a' hworker
      rw [FiniteMap.lookup_erase] at hworker
      split_ifs at hworker with hne
      obtain ⟨info', hinfo', hip', hii'⟩ := h.byPid hworker
      -- another process has another record
      have haddr : a' ≠ a := by
        rintro rfl
        exact hne (h.filed.pid_inj hworker ha)
      refine ⟨info', ?_, hip', ?_⟩
      · rw [FiniteMap.lookup_erase, if_neg haddr]
        exact hinfo'
      · rw [FiniteMap.lookup_erase, if_neg]
        · exact hii'
        · intro hsame
          rw [hsame, hii] at hii'
          exact haddr (Option.some.inj hii').symm
    · intro index' a' hworker
      rw [FiniteMap.lookup_erase] at hworker
      split_ifs at hworker with hne
      obtain ⟨info', hinfo', hii', hip'⟩ := h.byIndex hworker
      have haddr : a' ≠ a := by
        rintro rfl
        obtain rfl := Option.some.inj (hinfo.symm.trans hinfo')
        exact hne hii'.symm
      refine ⟨info', ?_, hii', ?_⟩
      · rw [FiniteMap.lookup_erase, if_neg haddr]
        exact hinfo'
      · rw [FiniteMap.lookup_erase, if_neg]
        · exact hip'
        · intro hsame
          rw [hsame, ha] at hip'
          exact haddr (Option.some.inj hip').symm

/-- A record gets another payload. -/
theorem Sound.setPayload (h : m.Sound) {info : WorkerData} (ha : m.heap.lookup a = some info)
    (pl : Payload) : Sound { m with heap := m.heap.insert a { info with payload := pl } } := by
  have hkeep : ∀ {a' : ℕ} {info' : WorkerData}, m.heap.lookup a' = some info' →
      ∃ info'', (m.heap.insert a { info with payload := pl }).lookup a' = some info'' ∧
        info''.pid = info'.pid ∧ info''.index = info'.index := by
    intro a' info' ha'
    rw [FiniteMap.lookup_insert]
    split_ifs with heq
    · obtain rfl := Option.some.inj (ha.symm.trans (heq ▸ ha'))
      exact ⟨_, rfl, rfl, rfl⟩
    · exact ⟨info', ha', rfl, rfl⟩
  refine ⟨h.nodup, h.visited, fun hworker => ?_, fun hworker => ?_⟩
  · obtain ⟨info', hinfo', hip, hii⟩ := h.byPid hworker
    obtain ⟨info'', hinfo'', hpid, hindex⟩ := hkeep hinfo'
    exact ⟨info'', hinfo'', hpid.trans hip, hindex ▸ hii⟩
  · obtain ⟨info', hinfo', hii, hip⟩ := h.byIndex hworker
    obtain ⟨info'', hinfo'', hpid, hindex⟩ := hkeep hinfo'
    exact ⟨info'', hinfo'', hindex.trans hii, hpid ▸ hip⟩

/-- The workers that live are those with a record. -/
theorem Sound.mem_getInfos (h : m.Sound) {info : WorkerData} :
    info ∈ m.getInfos ↔
      ∃ a, m.heap.lookup a = some info ∧ m.indexWorkers.lookup info.index = some a := by
  unfold getInfos find
  rw [List.mem_filterMap]
  constructor
  · rintro ⟨pid, -, hinfo⟩
    obtain ⟨a, ha, hinfo⟩ := Option.bind_eq_some_iff.mp hinfo
    obtain ⟨info', hinfo', -, hii⟩ := h.byPid ha
    obtain rfl := Option.some.inj (hinfo.symm.trans hinfo')
    exact ⟨a, hinfo, hii⟩
  · rintro ⟨a, hinfo, hii⟩
    obtain ⟨info', hinfo', -, hip⟩ := h.byIndex hii
    obtain rfl := Option.some.inj (hinfo.symm.trans hinfo')
    refine ⟨info.pid, (h.visited info.pid).mpr ⟨a, hip⟩, ?_⟩
    rw [hip, Option.bind_some, hinfo]

/-- The data channel of a worker that lives. -/
theorem Sound.getWorkerDataFd_of_mem (h : m.Sound) {info : WorkerData} (hmem : info ∈ m.getInfos) :
    m.getWorkerDataFd info.index = info.dataFd := by
  obtain ⟨a, hinfo, hii⟩ := h.mem_getInfos.mp hmem
  unfold getWorkerDataFd
  rw [hii, Option.bind_some, hinfo]

end WorkerDataMgr

end Kimserver
