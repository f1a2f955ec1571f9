import Kimserver.Lib.Machine
import Kimserver.Lib.RoundRobin
import Kimserver.Process.WorkerData

/-!
# The turns of the workers

`get_next_worker_data_fd` goes around `m_workers` with an iterator. Every insertion and every
deletion puts the iterator back to the beginning, whatever order the map then has, so that the
iterator always stands at a worker. Between two changes the workers take turns.

The index of a worker plays no part in this: workers may share one, and the records that are
found under their index may then be wrong.

## Main definitions

* `WorkerOp`, `workerDataMachine`: the calls
* `liveWorkers`: the workers that were added and not deleted
* `WorkerDataMgr.nextFds`: calls of `get_next_worker_data_fd` with no other call between them
* `WorkerDataMgr.Tabled`: the invariant

## Main results

* `workers_take_turns`: as many calls as there are workers hand out the channel of each once
-/

namespace Kimserver

/-- The calls of a `WorkerDataMgr`. With an insertion come the address that the record gets and
the order that the map has afterwards. -/
inductive WorkerOp
  | addWorkerInfo (index : ℤ) (pid : ℕ) (ctrlFd dataFd : ℤ) (hint : ℕ) (order : List ℕ)
  | delWorkerInfo (pid : ℕ)
  | getNextWorkerDataFd

/-- The runs of a `WorkerDataMgr`. -/
def workerDataMachine : Machine WorkerDataMgr WorkerOp where
  step m
    | .addWorkerInfo index pid ctrlFd dataFd hint order =>
      m.addWorkerInfo index pid ctrlFd dataFd hint order
    | .delWorkerInfo pid => (m.delWorkerInfo pid).2
    | .getNextWorkerDataFd => m.getNextWorkerDataFd.2

/-- The worker that a call adds or deletes. -/
def WorkerOp.live (live : FiniteMap ℕ WorkerData) : WorkerOp → FiniteMap ℕ WorkerData
  | .addWorkerInfo index pid ctrlFd dataFd _ _ => live.insert pid { pid, index, ctrlFd, dataFd }
  | .delWorkerInfo pid => live.erase pid
  | .getNextWorkerDataFd => live

/-- The workers that live after some calls, by their process id. -/
def liveWorkers (ops : List WorkerOp) : FiniteMap ℕ WorkerData := ops.foldl WorkerOp.live ∅

namespace WorkerDataMgr

/-- Calls of `get_next_worker_data_fd`, one after the other: the channels, and the state after
them. -/
def nextFds (m : WorkerDataMgr) : ℕ → List ℤ × WorkerDataMgr
  | 0 => ([], m)
  | k + 1 =>
    let (fd, m) := m.getNextWorkerDataFd
    let (fds, m) := nextFds m k
    (fd :: fds, m)

/-- The worker at the iterator. -/
def cursor (m : WorkerDataMgr) : Option ℕ := m.visit[m.itr]?

/-- The workers in the order of iteration, by their process id. -/
def entries (m : WorkerDataMgr) : List (ℕ × WorkerData) :=
  m.getInfos.map fun info => (info.pid, info)

/-! ## The iterator -/

/-- Each worker of the table has a record of its own, and the iterator stands at a worker. -/
structure Tabled (m : WorkerDataMgr) : Prop extends Filed m where
  itr_lt : m.visit ≠ [] → m.itr < m.visit.length

variable {m : WorkerDataMgr} {pid a : ℕ}

theorem tabled_empty : Tabled {} where
  nodup := List.nodup_nil
  visited _ := by simp
  byPid h := by simp at h
  itr_lt h := absurd rfl h

/-- The workers of the table have records. -/
theorem Tabled.find_of_mem (h : m.Tabled) (hmem : pid ∈ m.visit) :
    ∃ info, m.find pid = some info ∧ info.pid = pid := by
  obtain ⟨a, ha⟩ := (h.visited pid).mp hmem
  obtain ⟨info, hinfo, hip⟩ := h.byPid ha
  refine ⟨info, ?_, hip⟩
  rw [find, ha, Option.bind_some, hinfo]

/-- A record is found for the workers of the table only. -/
theorem Tabled.mem_of_find (h : m.Tabled) {info : WorkerData} (hfind : m.find pid = some info) :
    pid ∈ m.visit ∧ info.pid = pid := by
  obtain ⟨a, ha, hinfo⟩ := Option.bind_eq_some_iff.mp hfind
  obtain ⟨info', hinfo', hip⟩ := h.byPid ha
  rw [Option.some.inj (hinfo.symm.trans hinfo')]
  exact ⟨(h.visited pid).mpr ⟨a, ha⟩, hip⟩

theorem Tabled.delWorkerInfo (h : m.Tabled) (pid : ℕ) : (m.delWorkerInfo pid).2.Tabled := by
  refine ⟨h.toFiled.delWorkerInfo pid, fun hne => ?_⟩
  cases ha : m.workers.lookup pid with
  | none =>
    rw [delWorkerInfo_of_none ha] at hne ⊢
    exact h.itr_lt hne
  | some a =>
    rw [(delWorkerInfo_fields ha).2.2.2]
    exact List.length_pos_of_ne_nil hne

/-- A process that has no record gets one. -/
theorem Tabled.addNew (h : m.Tabled) (hpid : m.workers.lookup pid = none) (index ctrlFd dataFd : ℤ)
    (hint : ℕ) (order : List ℕ) : (m.addWorkerInfo index pid ctrlFd dataFd hint order).Tabled := by
  refine ⟨h.toFiled.addWorkerInfo hpid index ctrlFd dataFd hint order, fun hne => ?_⟩
  rw [addWorkerInfo_eq hpid] at hne ⊢
  exact List.length_pos_of_ne_nil hne

/-- A process that is added again is deleted first. -/
theorem addWorkerInfo_again (hpid : (m.workers.lookup pid).isSome) (index ctrlFd dataFd : ℤ)
    (hint : ℕ) (order : List ℕ) : m.addWorkerInfo index pid ctrlFd dataFd hint order =
      (m.delWorkerInfo pid).2.addWorkerInfo index pid ctrlFd dataFd hint order := by
  obtain ⟨a, ha⟩ := Option.isSome_iff_exists.mp hpid
  have hgone : (m.delWorkerInfo pid).2.workers.lookup pid = none := by
    rw [(delWorkerInfo_fields ha).2.1, FiniteMap.lookup_erase, if_pos rfl]
  rw [addWorkerInfo_eq hgone, addWorkerInfo, if_pos hpid]

theorem Tabled.addWorkerInfo (h : m.Tabled) (index : ℤ) (pid : ℕ) (ctrlFd dataFd : ℤ)
    (hint : ℕ) (order : List ℕ) :
    (m.addWorkerInfo index pid ctrlFd dataFd hint order).Tabled ∧
      ∀ pid', (m.addWorkerInfo index pid ctrlFd dataFd hint order).find pid' =
        if pid' = pid then some { pid, index, ctrlFd, dataFd } else m.find pid' := by
  cases ha : m.workers.lookup pid with
  | none =>
    exact ⟨h.addNew ha index ctrlFd dataFd hint order,
      h.toFiled.find_addWorkerInfo ha index ctrlFd dataFd hint order⟩
  | some a =>
    -- the old record goes first
    have hgone : (m.delWorkerInfo pid).2.workers.lookup pid = none := by
      rw [(delWorkerInfo_fields ha).2.1, FiniteMap.lookup_erase, if_pos rfl]
    rw [addWorkerInfo_again (by rw [ha]; rfl)]
    have hdel := h.delWorkerInfo pid
    refine ⟨hdel.addNew hgone index ctrlFd dataFd hint order, fun pid' => ?_⟩
    rw [hdel.toFiled.find_addWorkerInfo hgone, h.toFiled.find_delWorkerInfo]
    split_ifs
    · rfl
    · rfl

/-! ## The turns -/

/-- The data channel of a process. -/
def fdOf (m : WorkerDataMgr) (pid : ℕ) : ℤ := ((m.find pid).map WorkerData.dataFd).getD (-1)

/-- A call moves the iterator on, and hands out the channel of the worker there. -/
theorem Tabled.getNextWorkerDataFd (h : m.Tabled) (hne : m.visit ≠ []) :
    ∃ pid, m.visit[RoundRobin.next m.visit.length m.itr]? = some pid ∧
      m.getNextWorkerDataFd =
        (m.fdOf pid, { m with itr := RoundRobin.next m.visit.length m.itr }) := by
  have hlt := RoundRobin.next_lt (h.itr_lt hne)
  have hget := List.getElem?_eq_getElem hlt
  refine ⟨_, hget, ?_⟩
  obtain ⟨info, hinfo, -⟩ := h.find_of_mem (List.getElem_mem hlt)
  unfold RoundRobin.next at hget hinfo hlt ⊢
  simp only [WorkerDataMgr.getNextWorkerDataFd, if_neg hne, hget, fdOf, hinfo, Option.map_some,
    Option.getD_some]

theorem Tabled.setItr (h : m.Tabled) {itr : ℕ} (hitr : m.visit ≠ [] → itr < m.visit.length) :
    Tabled { m with itr } := ⟨⟨h.nodup, h.visited, h.byPid⟩, hitr⟩

theorem Tabled.next (h : m.Tabled) : m.getNextWorkerDataFd.2.Tabled ∧
    ∀ pid, m.getNextWorkerDataFd.2.find pid = m.find pid := by
  by_cases hne : m.visit = []
  · rw [WorkerDataMgr.getNextWorkerDataFd, if_pos hne]
    exact ⟨h, fun _ => rfl⟩
  · obtain ⟨pid, -, heq⟩ := h.getNextWorkerDataFd hne
    rw [heq]
    exact ⟨h.setItr fun hne => RoundRobin.next_lt (h.itr_lt hne), fun _ => rfl⟩

/-- Some calls are some turns around the table. -/
theorem Tabled.nextFds (h : m.Tabled) (hne : m.visit ≠ []) (k : ℕ) :
    m.nextFds k = ((RoundRobin.turns m.visit m.itr k).map m.fdOf,
      { m with itr := RoundRobin.place m.visit.length m.itr k }) := by
  induction k generalizing m with
  | zero => rfl
  | succ k ih =>
    obtain ⟨pid, hpid, heq⟩ := h.getNextWorkerDataFd hne
    have hrest := ih (m := { m with itr := RoundRobin.next m.visit.length m.itr })
      (h.setItr fun hne => RoundRobin.next_lt (h.itr_lt hne)) hne
    rw [WorkerDataMgr.nextFds, heq, RoundRobin.turns, RoundRobin.place, hpid]
    dsimp only
    rw [hrest]
    rfl

/-- The entries of the table, by their process id. -/
theorem Tabled.entries_eq (h : m.Tabled) :
    m.entries.map Prod.fst = m.visit ∧
      m.entries.map (fun e => e.2.dataFd) = m.visit.map m.fdOf := by
  -- the records of some workers of the table, in their order
  have hall : ∀ pids : List ℕ, (∀ pid ∈ pids, pid ∈ m.visit) →
      (pids.filterMap m.find).map WorkerData.pid = pids ∧
        (pids.filterMap m.find).map WorkerData.dataFd = pids.map m.fdOf := by
    intro pids hpids
    induction pids with
    | nil => exact ⟨rfl, rfl⟩
    | cons pid pids ih =>
      obtain ⟨hp, hd⟩ := ih fun p hp => hpids p (List.mem_cons_of_mem _ hp)
      obtain ⟨info, hinfo, hip⟩ := h.find_of_mem (hpids pid List.mem_cons_self)
      rw [List.filterMap_cons, hinfo]
      refine ⟨?_, ?_⟩
      · rw [List.map_cons, hp, hip]
      · rw [List.map_cons, List.map_cons, hd, fdOf, hinfo]
        rfl
  obtain ⟨hp, hd⟩ := hall m.visit fun _ hp => hp
  rw [entries, getInfos, List.map_map, List.map_map]
  exact ⟨hp, hd⟩

/-- The table has the workers that live. -/
theorem Tabled.enumerates (h : m.Tabled) {live : FiniteMap ℕ WorkerData}
    (hlive : ∀ pid, m.find pid = live.lookup pid) : live.Enumerates m.entries := by
  refine ⟨?_, fun pid info => ?_⟩
  · rw [h.entries_eq.1]
    exact h.nodup
  · rw [← hlive, entries, List.mem_map]
    constructor
    · rintro ⟨info', hmem, heq⟩
      obtain ⟨rfl, rfl⟩ := Prod.mk.inj heq
      obtain ⟨pid', -, hfind⟩ := List.mem_filterMap.mp hmem
      rw [(h.mem_of_find hfind).2]
      exact hfind
    · intro hfind
      obtain ⟨hmem, rfl⟩ := h.mem_of_find hfind
      exact ⟨info, List.mem_filterMap.mpr ⟨_, hmem, hfind⟩, rfl⟩

/-! ## Runs -/

/-- The invariant, with the records of the workers that live. -/
theorem tabled_run (ops : List WorkerOp) : (workerDataMachine.run {} ops).Tabled ∧
    ∀ pid, (workerDataMachine.run {} ops).find pid = (liveWorkers ops).lookup pid := by
  induction ops using List.reverseRecOn with
  | nil => exact ⟨tabled_empty, fun _ => rfl⟩
  | append_singleton ops op ih =>
    obtain ⟨htabled, hfind⟩ := ih
    rw [workerDataMachine.run_snoc, liveWorkers, List.foldl_append]
    cases op with
    | addWorkerInfo index pid ctrlFd dataFd hint order =>
      obtain ⟨htabled', hfind'⟩ := htabled.addWorkerInfo index pid ctrlFd dataFd hint order
      refine ⟨htabled', fun pid' => (hfind' pid').trans ?_⟩
      rw [hfind]
      exact (FiniteMap.lookup_insert ..).symm
    | delWorkerInfo pid =>
      refine ⟨htabled.delWorkerInfo pid, fun pid' => ?_⟩
      refine (htabled.toFiled.find_delWorkerInfo pid pid').trans ?_
      rw [hfind]
      exact (FiniteMap.lookup_erase ..).symm
    | getNextWorkerDataFd =>
      obtain ⟨htabled', hfind'⟩ := htabled.next
      exact ⟨htabled', fun pid => (hfind' pid).trans (hfind pid)⟩

end WorkerDataMgr

/-- **The workers take turns**: after any calls, the table lists the workers that live, as many
calls of `get_next_worker_data_fd` as there are workers hand out the channel of each once, and
before and after each of these calls the iterator stands at a worker that lives, if there is
one. -/
theorem workers_take_turns (ops : List WorkerOp) :
    (liveWorkers ops).Enumerates (workerDataMachine.run {} ops).entries ∧
      ((workerDataMachine.run {} ops).nextFds (workerDataMachine.run {} ops).entries.length).1.Perm
        ((workerDataMachine.run {} ops).entries.map fun e => e.2.dataFd) ∧
      ∀ k, (workerDataMachine.run {} ops).entries ≠ [] →
        ∃ pid info, ((workerDataMachine.run {} ops).nextFds k).2.cursor = some pid ∧
          (liveWorkers ops).lookup pid = some info := by
  obtain ⟨htabled, hfind⟩ := WorkerDataMgr.tabled_run ops
  obtain ⟨hpids, hfds⟩ := htabled.entries_eq
  have hlen : (workerDataMachine.run {} ops).entries.length =
      (workerDataMachine.run {} ops).visit.length := by
    rw [← hpids, List.length_map]
  refine ⟨htabled.enumerates hfind, ?_, fun k hne => ?_⟩
  · rw [hfds, hlen]
    by_cases hne : (workerDataMachine.run {} ops).visit = []
    · rw [hne]
      exact List.Perm.refl _
    · rw [htabled.nextFds hne]
      exact (RoundRobin.perm_turns (htabled.itr_lt hne)).map _
  · -- the iterator is at a place of the table, whatever was handed out
    have hvisit : (workerDataMachine.run {} ops).visit ≠ [] := by
      rw [← hpids]
      exact fun h => hne (List.map_eq_nil_iff.mp h)
    have hlt := RoundRobin.place_lt (htabled.itr_lt hvisit) k
    obtain ⟨info, hinfo, -⟩ := htabled.find_of_mem (List.getElem_mem hlt)
    refine ⟨_, info, ?_, (hfind _).symm.trans hinfo⟩
    rw [htabled.nextFds hvisit]
    exact List.getElem?_eq_getElem hlt

end Kimserver
