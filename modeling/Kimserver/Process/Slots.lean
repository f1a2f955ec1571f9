import Kimserver.Lib.Machine
import Kimserver.Process.WorkerData

/-!
# Worker slots

A manager has a slot for each index from 1 to `worker_cnt`. `create_workers` creates the workers
when the manager starts. When a child terminates, `restart_worker` deletes its record and puts its
index into `m_restart_workers`, and with each tick of the timer `restart_workers` tries to create
the workers in this list again.

Where `create_worker` fails, what `fork` returns and which children `waitpid` finds are part of an
event. A process id is given out again only when its child was waited for. The channels of a
worker are left out.

## Main definitions

* `CreateOutcome`, `Manager`: how far `create_worker` comes, and the manager
* `Manager.createWorker`, `Manager.createWorkers`, `Manager.restartWorker`,
  `Manager.restartWorkers`, `Manager.onChildTerminated`: the functions
* `SlotEvent`, `slotMachine`: what happens to the manager after `create_workers`
* `Manager.Slot`: an index has one worker, or waits for one

## Main results

* `Manager.Tended.step`: what the functions keep
* `Manager.slot_iff_covered`: the indexes that have their slot
* `slots_kept_iff`: every index has its slot exactly where `create_workers` succeeds with all
-/

namespace Kimserver

/-- How far `create_worker` comes. -/
inductive CreateOutcome
  /-- a `socketpair` fails -/
  | noSocketpair
  /-- `fork` fails -/
  | noFork
  /-- `add_read_event` fails, and the child is killed -/
  | noEvent (pid : ℕ)
  /-- the worker gets its record -/
  | created (pid : ℕ) (ctrlFd dataFd : ℤ) (hint : ℕ) (order : List ℕ)

def CreateOutcome.isCreated : CreateOutcome → Bool
  | .created .. => true
  | _ => false

/-- The workers, `m_restart_workers`, and the children that were not waited for. -/
structure Manager where
  workers : WorkerDataMgr := {}
  restarts : List ℤ := []
  children : Finset ℕ := ∅

namespace Manager

section Functions

variable (s : Manager)

/-- `create_worker`. -/
def createWorker (index : ℤ) : CreateOutcome → Bool × Manager
  | .noSocketpair => (false, s)
  | .noFork => (false, s)
  | .noEvent pid => (false, { s with children := insert (FiniteMap.fresh s.children pid) s.children })
  | .created pid ctrlFd dataFd hint order =>
    let pid := FiniteMap.fresh s.children pid
    (true, { s with
      workers := s.workers.addWorkerInfo index pid ctrlFd dataFd hint order
      children := insert pid s.children })

/-- `create_worker` for each index of a list: the indexes for which it failed, and the manager. -/
def createEach : List ℤ → List CreateOutcome → Manager → List ℤ × Manager
  | [], _, s => ([], s)
  | index :: rest, outs, s =>
    match s.createWorker index (outs.headD .noSocketpair) with
    | (true, s) => createEach rest outs.tail s
    | (false, s) =>
      let (failed, s) := createEach rest outs.tail s
      (index :: failed, s)

/-- The indexes `1 .. worker_cnt`. -/
def indexes (workerCnt : ℕ) : List ℤ := List.map (fun i : ℕ => (i : ℤ) + 1) (List.range workerCnt)

/-- `create_workers`: a failure is only logged. -/
def createWorkers (workerCnt : ℕ) (outs : List CreateOutcome) : Manager :=
  (createEach (indexes workerCnt) outs s).2

/-- `restart_workers`: an index stays in the list until its worker is created. -/
def restartWorkers (outs : List CreateOutcome) : Manager :=
  let (failed, s) := createEach s.restarts outs s
  { s with restarts := failed }

/-- `restart_worker`. -/
def restartWorker (pid : ℕ) : Bool × Manager :=
  let index := s.workers.getWorkerIndex pid
  if index = -1 then (false, s)
  else (true, { s with
    workers := (s.workers.delWorkerInfo pid).2
    restarts := s.restarts ++ [index] })

/-- `on_child_terminated`, where `waitpid` finds these children one after another. -/
def onChildTerminated : List ℕ → Manager → Manager
  | [], s => s
  | pid :: rest, s =>
    if pid ∈ s.children then
      onChildTerminated rest (restartWorker { s with children := s.children.erase pid } pid).2
    else onChildTerminated rest s

end Functions

end Manager

/-- What happens to the manager after `create_workers`. -/
inductive SlotEvent
  | childTerminated (pids : List ℕ)
  | repeatTimer (outs : List CreateOutcome)

namespace Manager

/-- One event. -/
def step (s : Manager) : SlotEvent → Manager
  | .childTerminated pids => onChildTerminated pids s
  | .repeatTimer outs => s.restartWorkers outs

/-- Exactly one process has the index, and the record of the index is its record. -/
def Running (s : Manager) (index : ℤ) : Prop :=
  ∃ pid a, s.workers.workers.lookup pid = some a ∧
    (∃ info, s.workers.heap.lookup a = some info ∧ info.index = index) ∧
    s.workers.indexWorkers.lookup index = some a ∧
    ∀ pid' info, s.workers.find pid' = some info → info.index = index → pid' = pid

/-- The index is once in `m_restart_workers`, and no process and no record has it. -/
def Waiting (s : Manager) (index : ℤ) : Prop :=
  s.restarts.count index = 1 ∧ s.workers.indexWorkers.lookup index = none ∧
    ∀ pid info, s.workers.find pid = some info → info.index ≠ index

/-- The index has one worker, or waits for one. -/
def Slot (s : Manager) (index : ℤ) : Prop :=
  (s.Running index ∧ index ∉ s.restarts) ∨ s.Waiting index

end Manager

/-- The runs of a manager. -/
def slotMachine : Machine Manager SlotEvent := ⟨Manager.step⟩

namespace Manager

variable {s : Manager} {index : ℤ} {pid a : ℕ}

/-! ## The records -/

/-- The records are those of children that were not waited for, with indexes from 1 on. -/
structure Staffed (s : Manager) : Prop where
  sound : s.workers.Sound
  child : ∀ {pid a : ℕ}, s.workers.workers.lookup pid = some a → pid ∈ s.children
  positive : ∀ {index : ℤ} {a : ℕ}, s.workers.indexWorkers.lookup index = some a → 1 ≤ index

theorem staffed_empty : Staffed {} where
  sound := WorkerDataMgr.sound_empty
  child h := by simp at h
  positive h := by simp at h

/-- A record of the index. -/
def Employs (s : Manager) (index : ℤ) : Prop := ∃ a, s.workers.indexWorkers.lookup index = some a

/-- The process id of a new child is not that of a worker. -/
theorem Staffed.fresh (h : s.Staffed) (hint : ℕ) :
    s.workers.workers.lookup (FiniteMap.fresh s.children hint) = none := by
  cases ha : s.workers.workers.lookup (FiniteMap.fresh s.children hint) with
  | none => rfl
  | some a => exact absurd (h.child ha) (FiniteMap.fresh_not_mem s.children hint)

/-- **`create_worker`** for an index without a worker. -/
theorem Staffed.createWorker (h : s.Staffed) (hpos : 1 ≤ index) (hfree : ¬ s.Employs index)
    (out : CreateOutcome) :
    (s.createWorker index out).2.Staffed ∧
      (s.createWorker index out).1 = out.isCreated ∧
      (s.createWorker index out).2.restarts = s.restarts ∧
      ∀ i, (s.createWorker index out).2.Employs i ↔
        s.Employs i ∨ i = index ∧ out.isCreated = true := by
  have hnone : s.workers.indexWorkers.lookup index = none := by
    cases ha : s.workers.indexWorkers.lookup index with
    | none => rfl
    | some a => exact absurd ⟨a, ha⟩ hfree
  -- without a new worker the records are the same
  have hsame : ∀ i, s.Employs i ↔ s.Employs i ∨ i = index ∧ false = true := fun i => by simp
  cases out with
  | noSocketpair => exact ⟨h, rfl, rfl, hsame⟩
  | noFork => exact ⟨h, rfl, rfl, hsame⟩
  | noEvent hint =>
    exact ⟨⟨h.sound, fun ha => Finset.mem_insert_of_mem (h.child ha), h.positive⟩, rfl, rfl, hsame⟩
  | created hint ctrlFd dataFd addr order =>
    have hpid := h.fresh hint
    refine ⟨⟨h.sound.addWorkerInfo hpid hnone ctrlFd dataFd addr order, ?_, ?_⟩, rfl, rfl, ?_⟩
    · intro pid a ha
      change (s.workers.addWorkerInfo ..).workers.lookup pid = some a at ha
      change pid ∈ insert _ s.children
      rw [WorkerDataMgr.addWorkerInfo_eq hpid] at ha
      rw [FiniteMap.lookup_insert] at ha
      split_ifs at ha with heq
      · rw [heq]
        exact Finset.mem_insert_self _ _
      · exact Finset.mem_insert_of_mem (h.child ha)
    · intro i a ha
      change (s.workers.addWorkerInfo ..).indexWorkers.lookup i = some a at ha
      rw [WorkerDataMgr.addWorkerInfo_eq hpid] at ha
      rw [FiniteMap.lookup_insert] at ha
      split_ifs at ha with heq
      · rw [heq]
        exact hpos
      · exact h.positive ha
    · intro i
      change (∃ a, (s.workers.addWorkerInfo ..).indexWorkers.lookup i = some a) ↔ _
      rw [WorkerDataMgr.addWorkerInfo_eq hpid]
      simp only [FiniteMap.lookup_insert]
      split_ifs with heq
      · simp [heq, CreateOutcome.isCreated]
      · simp [heq, Employs]

/-- **A loop of `create_worker`** over indexes without a worker: each gets its worker, or is among
those that failed. -/
theorem Staffed.createEach {l : List ℤ} (h : s.Staffed) (outs : List CreateOutcome)
    (hpos : ∀ i ∈ l, 1 ≤ i) (hnodup : l.Nodup) (hfree : ∀ i ∈ l, ¬ s.Employs i) :
    (createEach l outs s).2.Staffed ∧ (createEach l outs s).2.restarts = s.restarts ∧
      (createEach l outs s).1.Sublist l ∧
      ∀ i, (createEach l outs s).2.Employs i ↔
        s.Employs i ∨ i ∈ l ∧ i ∉ (createEach l outs s).1 := by
  induction l generalizing s outs with
  | nil => exact ⟨h, rfl, List.Sublist.refl _, fun i => by simp [Manager.createEach]⟩
  | cons index rest ih =>
    obtain ⟨hnot, hnodup⟩ := List.nodup_cons.mp hnodup
    obtain ⟨hstaffed, hok, hrestarts, hemploys⟩ := h.createWorker
      (hpos index List.mem_cons_self) (hfree index List.mem_cons_self) (outs.headD .noSocketpair)
    -- the other indexes are still without a worker
    have hfree' : ∀ i ∈ rest,
        ¬ (s.createWorker index (outs.headD .noSocketpair)).2.Employs i := by
      intro i hi hemp
      obtain hold | ⟨rfl, -⟩ := (hemploys i).mp hemp
      · exact hfree i (List.mem_cons_of_mem _ hi) hold
      · exact hnot hi
    obtain ⟨ihstaffed, ihrestarts, ihsub, ihemploys⟩ := ih hstaffed outs.tail
      (fun i hi => hpos i (List.mem_cons_of_mem _ hi)) hnodup hfree'
    rw [Manager.createEach]
    generalize s.createWorker index (outs.headD .noSocketpair) = r at *
    obtain ⟨ok, s'⟩ := r
    dsimp only at hok hrestarts hemploys ihstaffed ihrestarts ihsub ihemploys
    have hfailed : index ∉ (Manager.createEach rest outs.tail s').1 :=
      fun hmem => hnot (ihsub.subset hmem)
    cases ok with
    | true =>
      refine ⟨ihstaffed, ihrestarts.trans hrestarts, ihsub.cons _, fun i => ?_⟩
      rw [ihemploys, hemploys, ← hok, List.mem_cons]
      constructor
      · rintro ((hold | ⟨rfl, -⟩) | ⟨hi, hnot⟩)
        · exact Or.inl hold
        · exact Or.inr ⟨Or.inl rfl, hfailed⟩
        · exact Or.inr ⟨Or.inr hi, hnot⟩
      · rintro (hold | ⟨rfl | hi, hnot⟩)
        · exact Or.inl (Or.inl hold)
        · exact Or.inl (Or.inr ⟨rfl, rfl⟩)
        · exact Or.inr ⟨hi, hnot⟩
    | false =>
      refine ⟨ihstaffed, ihrestarts.trans hrestarts, ihsub.cons_cons _, fun i => ?_⟩
      dsimp only
      rw [ihemploys, hemploys, ← hok, List.mem_cons, List.mem_cons]
      constructor
      · rintro ((hold | ⟨-, ⟨⟩⟩) | ⟨hi, hnotfailed⟩)
        · exact Or.inl hold
        · refine Or.inr ⟨Or.inr hi, ?_⟩
          rintro (rfl | hi')
          · exact hnot hi
          · exact hnotfailed hi'
      · rintro (hold | ⟨rfl | hi, hnotfailed⟩)
        · exact Or.inl (Or.inl hold)
        · exact absurd (Or.inl rfl) hnotfailed
        · exact Or.inr ⟨hi, fun hi' => hnotfailed (Or.inr hi')⟩

/-! ## The list of the indexes that wait -/

/-- The records, and a list of indexes without one. -/
structure Tended (s : Manager) : Prop extends s.Staffed where
  nodup : s.restarts.Nodup
  waiting : ∀ i ∈ s.restarts, 1 ≤ i ∧ ¬ s.Employs i

/-- The index has a worker or is in the list. -/
def Covered (s : Manager) (index : ℤ) : Prop := s.Employs index ∨ index ∈ s.restarts

/-- **`restart_workers`** loses no index. -/
theorem Tended.restartWorkers (h : s.Tended) (outs : List CreateOutcome) :
    (s.restartWorkers outs).Tended ∧ ∀ i, (s.restartWorkers outs).Covered i ↔ s.Covered i := by
  obtain ⟨hstaffed, -, hsub, hemploys⟩ := h.toStaffed.createEach outs
    (fun i hi => (h.waiting i hi).1) h.nodup (fun i hi => (h.waiting i hi).2)
  refine ⟨⟨⟨hstaffed.sound, hstaffed.child, hstaffed.positive⟩, hsub.nodup h.nodup, ?_⟩, ?_⟩
  · intro i hi
    have hold := h.waiting i (hsub.subset hi)
    refine ⟨hold.1, fun hemp => ?_⟩
    obtain hemp' | ⟨-, hnot⟩ := (hemploys i).mp hemp
    · exact hold.2 hemp'
    · exact hnot hi
  · intro i
    change Employs (Manager.createEach s.restarts outs s).2 i ∨
      i ∈ (Manager.createEach s.restarts outs s).1 ↔ _
    rw [hemploys]
    constructor
    · rintro ((hold | ⟨hi, -⟩) | hi)
      · exact Or.inl hold
      · exact Or.inr hi
      · exact Or.inr (hsub.subset hi)
    · rintro (hold | hi)
      · exact Or.inl (Or.inl hold)
      · by_cases hfailed : i ∈ (Manager.createEach s.restarts outs s).1
        · exact Or.inr hfailed
        · exact Or.inl (Or.inr ⟨hi, hfailed⟩)

/-- **`restart_worker`** of a child that was waited for puts the index of its record into the
list. -/
theorem Tended.restartWorker (h : s.Tended) (pid : ℕ) :
    (Manager.restartWorker { s with children := s.children.erase pid } pid).2.Tended ∧
      ∀ i, (Manager.restartWorker { s with children := s.children.erase pid } pid).2.Covered i ↔
        s.Covered i := by
  unfold Manager.restartWorker
  dsimp only
  cases ha : s.workers.workers.lookup pid with
  | none =>
    have hindex : s.workers.getWorkerIndex pid = -1 := by
      rw [WorkerDataMgr.getWorkerIndex, WorkerDataMgr.find, ha]
      rfl
    rw [if_pos hindex]
    refine ⟨⟨⟨h.sound, fun {pid' a} ha' => ?_, h.positive⟩, h.nodup, h.waiting⟩, fun _ => Iff.rfl⟩
    refine Finset.mem_erase.mpr ⟨?_, h.child ha'⟩
    rintro rfl
    rw [ha] at ha'
    cases ha'
  | some a =>
    obtain ⟨info, hinfo, hip, hii, hindex, hdel⟩ := h.sound.delWorkerInfo_eq ha
    have hpos : 1 ≤ info.index := h.positive hii
    have hsound := h.sound.delWorkerInfo pid
    rw [hindex, if_neg (by omega), hdel]
    rw [hdel] at hsound
    -- the record is gone, and the others are not
    have hemploys : ∀ i, (∃ a, (s.workers.indexWorkers.erase info.index).lookup i = some a) ↔
        s.Employs i ∧ i ≠ info.index := by
      intro i
      simp only [FiniteMap.lookup_erase]
      split_ifs with heq
      · simp [heq]
      · simp [heq, Employs]
    have hnot : info.index ∉ s.restarts := fun hmem => (h.waiting _ hmem).2 ⟨a, hii⟩
    refine ⟨⟨⟨hsound, ?_, ?_⟩, ?_, ?_⟩, ?_⟩
    · intro pid' a' ha'
      change (s.workers.workers.erase pid).lookup pid' = some a' at ha'
      rw [FiniteMap.lookup_erase] at ha'
      split_ifs at ha' with hne
      exact Finset.mem_erase.mpr ⟨hne, h.child ha'⟩
    · intro i a' ha'
      change (s.workers.indexWorkers.erase info.index).lookup i = some a' at ha'
      rw [FiniteMap.lookup_erase] at ha'
      split_ifs at ha'
      exact h.positive ha'
    · exact List.nodup_append.mpr ⟨h.nodup, List.nodup_singleton _, by
        rintro i hi j hj rfl
        exact hnot ((List.mem_singleton.mp hj) ▸ hi)⟩
    · intro i hi
      obtain hi | hi := List.mem_append.mp hi
      · exact ⟨(h.waiting i hi).1, fun hemp => (h.waiting i hi).2 ((hemploys i).mp hemp).1⟩
      · obtain rfl := List.mem_singleton.mp hi
        exact ⟨hpos, fun hemp => ((hemploys _).mp hemp).2 rfl⟩
    · intro i
      change (∃ a, (s.workers.indexWorkers.erase info.index).lookup i = some a) ∨
        i ∈ s.restarts ++ [info.index] ↔ s.Employs i ∨ i ∈ s.restarts
      rw [hemploys, List.mem_append, List.mem_singleton]
      by_cases heq : i = info.index
      · refine iff_of_true (Or.inr (Or.inr heq)) (Or.inl ?_)
        rw [heq]
        exact ⟨a, hii⟩
      · simp [heq]

/-- **`on_child_terminated`** loses no index. -/
theorem Tended.onChildTerminated (h : s.Tended) (pids : List ℕ) :
    (Manager.onChildTerminated pids s).Tended ∧
      ∀ i, (Manager.onChildTerminated pids s).Covered i ↔ s.Covered i := by
  induction pids generalizing s with
  | nil => exact ⟨h, fun _ => Iff.rfl⟩
  | cons pid rest ih =>
    rw [Manager.onChildTerminated]
    split_ifs
    · obtain ⟨htended, hcovered⟩ := h.restartWorker pid
      obtain ⟨ihtended, ihcovered⟩ := ih htended
      exact ⟨ihtended, fun i => (ihcovered i).trans (hcovered i)⟩
    · exact ih h

/-- **Every event** keeps the records and the list, and loses no index. -/
theorem Tended.step (h : s.Tended) (e : SlotEvent) :
    (s.step e).Tended ∧ ∀ i, (s.step e).Covered i ↔ s.Covered i := by
  cases e with
  | childTerminated pids => exact h.onChildTerminated pids
  | repeatTimer outs => exact h.restartWorkers outs

/-! ## The slots -/

/-- An index from 1 on has its slot exactly when it is covered. -/
theorem slot_iff_covered (h : s.Tended) (index : ℤ) : s.Slot index ↔ s.Covered index := by
  -- a process with the index is the one of the index's record
  have hproc : ∀ pid info, s.workers.find pid = some info → info.index = index →
      ∃ a, s.workers.indexWorkers.lookup index = some a ∧
        s.workers.workers.lookup pid = some a := by
    intro pid info hfind hindex
    obtain ⟨a, ha, hinfo⟩ := Option.bind_eq_some_iff.mp hfind
    obtain ⟨info', hinfo', -, hii⟩ := h.sound.byPid ha
    obtain rfl := Option.some.inj (hinfo.symm.trans hinfo')
    exact ⟨a, hindex ▸ hii, ha⟩
  constructor
  · rintro (⟨⟨pid, a, -, -, ha, -⟩, -⟩ | ⟨hcount, -⟩)
    · exact Or.inl ⟨a, ha⟩
    · exact Or.inr (List.count_pos_iff.mp (by omega))
  · rintro (⟨a, ha⟩ | hmem)
    · refine Or.inl ⟨?_, fun hmem => (h.waiting index hmem).2 ⟨a, ha⟩⟩
      obtain ⟨info, hinfo, hindex, hpid⟩ := h.sound.byIndex ha
      refine ⟨info.pid, a, hpid, ⟨info, hinfo, hindex⟩, ha, fun pid' info' hfind' hindex' => ?_⟩
      obtain ⟨a', ha', hpid'⟩ := hproc pid' info' hfind' hindex'
      obtain rfl := Option.some.inj (ha.symm.trans ha')
      exact h.sound.filed.pid_inj hpid' hpid
    · have hfree := (h.waiting index hmem).2
      refine Or.inr ⟨List.count_eq_one_of_mem h.nodup hmem, ?_, fun pid info hfind hindex => ?_⟩
      · cases ha : s.workers.indexWorkers.lookup index with
        | none => rfl
        | some a => exact absurd ⟨a, ha⟩ hfree
      · obtain ⟨a, ha, -⟩ := hproc pid info hfind hindex
        exact hfree ⟨a, ha⟩

theorem mem_indexes {workerCnt : ℕ} {i : ℤ} :
    i ∈ indexes workerCnt ↔ ∃ k < workerCnt, i = (k : ℤ) + 1 := by
  simp [indexes, eq_comm]

theorem nodup_indexes (workerCnt : ℕ) : (indexes workerCnt).Nodup := by
  refine List.Nodup.map (fun i j h => ?_) List.nodup_range
  have hcast : (i : ℤ) + 1 = (j : ℤ) + 1 := h
  omega

theorem createWorker_fst (s : Manager) (index : ℤ) (out : CreateOutcome) :
    (s.createWorker index out).1 = out.isCreated := by
  cases out <;> rfl

/-- A loop of `create_worker` fails for no index exactly when all outcomes are a worker. -/
theorem createEach_eq_nil_iff (l : List ℤ) (outs : List CreateOutcome) (s : Manager) :
    (createEach l outs s).1 = [] ↔
      ∀ k < l.length, (outs.getD k .noSocketpair).isCreated = true := by
  induction l generalizing outs s with
  | nil => simp [createEach]
  | cons index rest ih =>
    have hfst := createWorker_fst s index (outs.headD .noSocketpair)
    have htail : ∀ k, outs.tail.getD k .noSocketpair = outs.getD (k + 1) .noSocketpair := by
      intro k
      cases outs <;> simp
    have hhead : outs.headD .noSocketpair = outs.getD 0 .noSocketpair := by
      cases outs <;> simp
    rw [createEach, List.length_cons, Nat.forall_lt_succ_left]
    generalize s.createWorker index (outs.headD .noSocketpair) = r at *
    obtain ⟨ok, s'⟩ := r
    dsimp only at hfst
    rw [← hhead, ← hfst]
    cases ok with
    | true =>
      dsimp only
      rw [ih]
      simp only [htail, true_and]
    | false => exact iff_of_false (List.cons_ne_nil _ _) fun h => absurd h.1 (by decide)

end Manager

/-- **No worker slot is lost or duplicated exactly where `create_workers` creates all workers**:
in every state after it, whatever children terminate and whichever attempts to create them again
fail, each index has one worker or is once in `m_restart_workers`, if and only if no
`create_worker` of `create_workers` fails. -/
theorem slots_kept_iff (workerCnt : ℕ) (outs : List CreateOutcome) (es : List SlotEvent) :
    (∀ k < workerCnt, (outs.getD k .noSocketpair).isCreated = true) ↔
      ∀ past, past <+: es → ∀ index : ℤ, 1 ≤ index → index ≤ workerCnt →
        (slotMachine.run (Manager.createWorkers {} workerCnt outs) past).Slot index := by
  have hlength : (Manager.indexes workerCnt).length = workerCnt := by
    rw [Manager.indexes, List.length_map, List.length_range]
  obtain ⟨hstaffed, hrestarts, hsub, hemploys⟩ := Manager.staffed_empty.createEach outs
    (l := Manager.indexes workerCnt)
    (fun i hi => by obtain ⟨k, -, rfl⟩ := Manager.mem_indexes.mp hi; omega)
    (Manager.nodup_indexes workerCnt) (fun i _ => by simp [Manager.Employs])
  have hstart : (Manager.createWorkers {} workerCnt outs).Tended := by
    refine ⟨hstaffed, ?_, fun i hi => ?_⟩
    · exact hrestarts ▸ List.nodup_nil
    · exact absurd (hrestarts ▸ hi) List.not_mem_nil
  -- what is covered at the start is covered for ever, and nothing else is
  have hrun : ∀ past, (slotMachine.run (Manager.createWorkers {} workerCnt outs) past).Tended ∧
      ∀ i, (slotMachine.run (Manager.createWorkers {} workerCnt outs) past).Covered i ↔
        (Manager.createWorkers {} workerCnt outs).Covered i := by
    refine slotMachine.run_invariant (P := fun s => s.Tended ∧
      ∀ i, s.Covered i ↔ (Manager.createWorkers {} workerCnt outs).Covered i) ?_
      ⟨hstart, fun _ => Iff.rfl⟩
    intro s e h
    obtain ⟨htended, hcovered⟩ := h.1.step e
    exact ⟨htended, fun i => (hcovered i).trans (h.2 i)⟩
  have hcovered : ∀ i, (Manager.createWorkers {} workerCnt outs).Covered i ↔
      i ∈ Manager.indexes workerCnt ∧
        i ∉ (Manager.createEach (Manager.indexes workerCnt) outs {}).1 := by
    intro i
    have hlist : i ∉ (Manager.createWorkers {} workerCnt outs).restarts := fun hi =>
      absurd (hrestarts ▸ hi) List.not_mem_nil
    rw [Manager.Covered, or_iff_left hlist]
    refine (hemploys i).trans (or_iff_right ?_)
    simp [Manager.Employs]
  have hall := Manager.createEach_eq_nil_iff (Manager.indexes workerCnt) outs {}
  rw [hlength] at hall
  rw [← hall]
  constructor
  · intro hnone past _ index hpos hle
    rw [Manager.slot_iff_covered (hrun past).1, (hrun past).2, hcovered, hnone]
    refine ⟨Manager.mem_indexes.mpr ⟨(index - 1).toNat, ?_, ?_⟩, List.not_mem_nil⟩
    · omega
    · omega
  · intro hslots
    refine List.eq_nil_iff_forall_not_mem.mpr fun i hi => ?_
    obtain ⟨k, hk, rfl⟩ := Manager.mem_indexes.mp (hsub.subset hi)
    have hslot := hslots [] List.nil_prefix ((k : ℤ) + 1) (by omega) (by omega)
    rw [Manager.slot_iff_covered (hrun []).1, (hrun []).2, hcovered] at hslot
    exact hslot.2 hi

/-- `fork` fails for the only worker: no index waits, and none has a worker. -/
theorem slots_lost :
    ¬ ∀ past, past <+: [SlotEvent.repeatTimer []] → ∀ index : ℤ, 1 ≤ index → index ≤ (1 : ℕ) →
      (slotMachine.run (Manager.createWorkers {} 1 [.noFork]) past).Slot index := by
  intro h
  obtain ⟨⟨pid, a, ha, -⟩, -⟩ | ⟨hcount, -⟩ := h [] List.nil_prefix 1 (by decide) (by decide)
  · change (∅ : FiniteMap ℕ ℕ).lookup pid = some a at ha
    rw [Finmap.lookup_empty] at ha
    cases ha
  · exact absurd hcount (by decide)

end Kimserver
