import Kimserver.Lib.Machine
import Kimserver.Util.Text

/-!
# The background thread for zookeeper

The calls to zookeeper block, so `zk_bio.cpp` makes them in a thread of its own. The main thread
and the watcher of zookeeper append tasks to `m_req_tasks`; the thread takes the first one,
processes it and appends it to `m_ack_tasks`; a timer of the main thread takes up to a hundred
tasks from there into a list of its own and handles them one by one. A handler may add new tasks.
Between its steps each thread holds tasks that are in neither list.

A section under the mutex is one event. A task is an object that all lists refer to, so the lists
here carry the address at which it was allocated. `bio_process_cmd` is virtual: the results hold
for every override of it, and `ZkClient.bioProcessCmd` is the one of `zk_client.cpp`.

## Main definitions

* `ZkTask`, `ZkTask.Ptr`: tasks and pointers to them
* `Bio`, `BioEvent`, `bioMachine`: the two lists, what the threads hold, and the events
* `Bio.acked`: the tasks that were passed to `timer_process_ack`

## Main results

* `acks_in_order`: the tasks are processed and acknowledged once, in the order in which they were
  added
-/

namespace Kimserver

/-! ## Tasks -/

/-- `zk_task_t::CMD`. -/
inductive ZkCmd
  | unknown | register | get | setData | notifySessionConnectd | notifySessionConnecting
  | notifySessionExpired | notifyNodeCreated | notifyNodeDeleted | notifyNodeDataCahnged
  | notifyNodeChildCahnged | last
  deriving DecidableEq

/-- `zk_result`. -/
structure ZkTaskResult where
  error : ℤ := 0
  errstr : Bytes := []
  value : Bytes := []
  values : List Bytes := []
  deriving DecidableEq

/-- `zk_task_t`, without the time of its creation, which nothing reads. -/
structure ZkTask where
  path : Bytes
  value : Bytes
  cmd : ZkCmd
  res : ZkTaskResult := {}
  deriving DecidableEq

/-- A pointer to a task: the address, and the task as it is there. -/
structure ZkTask.Ptr where
  addr : ℕ
  task : ZkTask
  deriving DecidableEq

/-! ## Calls to zookeeper -/

/-- `zoo_rc`: the codes the source compares with. -/
abbrev ZooRc := ℤ

/-- `z_ok`. -/
def zOk : ZooRc := 0

/-- `z_system_error`. -/
def zSystemError : ZooRc := -1

/-- `z_no_node`. -/
def zNoNode : ZooRc := -101

/-- `z_node_exists`. -/
def zNodeExists : ZooRc := -110

/-- What the call of a command returns, and what it writes to the result of the task. -/
structure ZkReply where
  ret : ZooRc
  value : Bytes := []
  values : List Bytes := []

/-- `ZkClient::bio_process_cmd`, where the call that the command makes answers with `reply`. The
text of a code is zookeeper's (`zerror`). -/
def ZkClient.bioProcessCmd (errorString : ZooRc → Bytes) (reply : ZkReply) (task : ZkTask) :
    ZkTask :=
  let (ret, res) : ZooRc × ZkTaskResult :=
    match task.cmd with
    | .register => (reply.ret, { task.res with value := reply.value })
    | .notifySessionConnectd | .notifySessionConnecting | .notifySessionExpired
    | .notifyNodeCreated | .notifyNodeDeleted => (zOk, task.res)
    | .get | .notifyNodeDataCahnged => (reply.ret, { task.res with value := reply.value })
    | .setData => (reply.ret, task.res)
    | .notifyNodeChildCahnged => (reply.ret, { task.res with values := reply.values })
    | .unknown | .last => (zSystemError, task.res)
  { task with
    res := { res with
      error := ret
      errstr := if res.errstr.isEmpty then errorString ret else res.errstr } }

/-! ## The lists and the threads -/

/-- Where the thread is in `bio_process_tasks`: at the head of the loop, or with a task that it
took, before and after `bio_process_cmd`. -/
inductive BioThread
  | waiting
  | taken (task : ZkTask.Ptr)
  | processed (task : ZkTask.Ptr)
  deriving DecidableEq

/-- A call of `handle_acks`: the tasks it passed to `timer_process_ack`, and those of its local
list that are left. -/
structure HandleAcks where
  handled : List ZkTask.Ptr := []
  tasks : List ZkTask.Ptr := []
  deriving DecidableEq

/-- A `Bio` with what its threads hold. Behind them the history: the tasks in the order in which
`add_cmd_task` pushed them, the calls of `bio_process_cmd` with the task before and after, and
what the finished calls of `handle_acks` handled. -/
structure Bio where
  reqTasks : List ZkTask.Ptr := []
  ackTasks : List ZkTask.Ptr := []
  thread : BioThread := .waiting
  tick : Option HandleAcks := none
  allocated : ℕ := 0
  added : List ZkTask.Ptr := []
  calls : List (ZkTask.Ptr × ZkTask.Ptr) := []
  ticks : List (List ZkTask.Ptr) := []
  deriving DecidableEq

namespace Bio

/-- The tasks passed to `timer_process_ack`, in this order. -/
def acked (s : Bio) : List ZkTask.Ptr :=
  s.ticks.flatten ++ (s.tick.map HandleAcks.handled).getD []

/-- `add_cmd_task`, called in the main thread or in the watcher's. -/
def addCmdTask (s : Bio) (path : Bytes) (cmd : ZkCmd) (value : Bytes) : Bio :=
  let task : ZkTask.Ptr := ⟨s.allocated, { path, value, cmd }⟩
  { s with
    reqTasks := s.reqTasks ++ [task]
    allocated := s.allocated + 1
    added := s.added ++ [task] }

/-- `add_ack_task`. -/
def addAckTask (s : Bio) (task : ZkTask.Ptr) : Bio := { s with ackTasks := s.ackTasks ++ [task] }

variable {R : Type} (bioProcessCmd : R → ZkTask → ZkTask)

/-- The next part of `bio_process_tasks`. At the head of the loop the thread waits until there is
a task. -/
def threadStep (s : Bio) (reply : R) : Bio :=
  match s.thread with
  | .waiting =>
    match s.reqTasks with
    | [] => s
    | task :: rest => { s with reqTasks := rest, thread := .taken task }
  | .taken task =>
    let task' : ZkTask.Ptr := { task with task := bioProcessCmd reply task.task }
    { s with thread := .processed task', calls := s.calls ++ [(task, task')] }
  | .processed task => { s.addAckTask task with thread := .waiting }

/-- The loop of `handle_acks` over `m_ack_tasks` from the count `i` on: the tasks it moves, and
the list it leaves. -/
def fetchAcks (i : ℕ) : List ZkTask.Ptr → List ZkTask.Ptr × List ZkTask.Ptr
  | [] => ([], [])
  | task :: rest =>
    if i < 100 then
      let (tasks, left) := fetchAcks (i + 1) rest
      (task :: tasks, left)
    else ([], task :: rest)

/-- `on_repeat_timer`, up to the handlers of `handle_acks`. The main thread makes one call after
the other. -/
def onRepeatTimer (s : Bio) : Bio :=
  match s.tick with
  | some _ => s
  | none =>
    let (tasks, left) := fetchAcks 0 s.ackTasks
    { s with ackTasks := left, tick := some { tasks } }

/-- The next part of `handle_acks`: it passes a task to `timer_process_ack` and deletes it, or
returns. -/
def ackStep (s : Bio) : Bio :=
  match s.tick with
  | none => s
  | some t =>
    match t.tasks with
    | [] => { s with tick := none, ticks := s.ticks ++ [t.handled] }
    | task :: rest => { s with tick := some { handled := t.handled ++ [task], tasks := rest } }

end Bio

/-- What can happen: a task is added (in a handler, elsewhere in the main thread, or in the
watcher's), the thread makes its next step, the timer runs out, `handle_acks` makes its next
step. -/
inductive BioEvent (R : Type)
  | addCmdTask (path : Bytes) (cmd : ZkCmd) (value : Bytes)
  | thread (reply : R)
  | timer
  | ack

/-- The threads around a `Bio`. -/
def bioMachine {R : Type} (bioProcessCmd : R → ZkTask → ZkTask) : Machine Bio (BioEvent R) where
  step s
    | .addCmdTask path cmd value => s.addCmdTask path cmd value
    | .thread reply => s.threadStep bioProcessCmd reply
    | .timer => s.onRepeatTimer
    | .ack => s.ackStep

/-! ## The order of the tasks -/

/-- The task that the thread took and has not processed. -/
def BioThread.unprocessed : BioThread → List ZkTask.Ptr
  | .taken task => [task]
  | _ => []

/-- The task that the thread processed and has not passed on. -/
def BioThread.finished : BioThread → List ZkTask.Ptr
  | .processed task => [task]
  | _ => []

namespace Bio

/-- The tasks that `handle_acks` took from `m_ack_tasks` and has not handled. -/
def inHand (s : Bio) : List ZkTask.Ptr := (s.tick.map HandleAcks.tasks).getD []

variable {R : Type} (bioProcessCmd : R → ZkTask → ZkTask)

/-- Every task is in one place, the later the place the earlier the task: what was added is what
was processed, what the thread is to process and what waits for it; what was processed is what was
acknowledged, what `handle_acks` holds, what waits for the timer and what the thread is to pass
on. -/
structure Ordered (s : Bio) : Prop where
  added_eq : s.added = s.calls.map Prod.fst ++ s.thread.unprocessed ++ s.reqTasks
  calls_eq : s.calls.map Prod.snd = s.acked ++ s.inHand ++ s.ackTasks ++ s.thread.finished
  call : ∀ c ∈ s.calls, c.2.addr = c.1.addr ∧ ∃ reply, c.2.task = bioProcessCmd reply c.1.task
  addr_eq : s.added.map ZkTask.Ptr.addr = List.range s.allocated
  ticks_le : ∀ t ∈ s.ticks, t.length ≤ 100
  tick_le : ∀ t ∈ s.tick, t.handled.length + t.tasks.length ≤ 100

variable {bioProcessCmd} {s : Bio}

theorem ordered_empty : ({} : Bio).Ordered bioProcessCmd where
  added_eq := rfl
  calls_eq := rfl
  call := by simp
  addr_eq := rfl
  ticks_le := by simp
  tick_le := by simp

theorem Ordered.addCmdTask (h : s.Ordered bioProcessCmd) (path : Bytes) (cmd : ZkCmd)
    (value : Bytes) : (s.addCmdTask path cmd value).Ordered bioProcessCmd where
  added_eq := by
    change s.added ++ [_] = _ ++ (s.reqTasks ++ [_])
    rw [h.added_eq, ← List.append_assoc]
    rfl
  calls_eq := h.calls_eq
  call := h.call
  addr_eq := by
    change (s.added ++ [_]).map _ = List.range (s.allocated + 1)
    rw [List.map_append, h.addr_eq, List.range_succ]
    rfl
  ticks_le := h.ticks_le
  tick_le := h.tick_le

/-- Taking a task moves it from the list to the thread. -/
theorem Ordered.take (h : s.Ordered bioProcessCmd) {task : ZkTask.Ptr} {rest : List ZkTask.Ptr}
    (hthread : s.thread = .waiting) (hreq : s.reqTasks = task :: rest) :
    { s with reqTasks := rest, thread := .taken task }.Ordered bioProcessCmd where
  added_eq := by
    have heq := h.added_eq
    rw [hthread, hreq] at heq
    rw [heq]
    simp [BioThread.unprocessed]
  calls_eq := by
    have heq := h.calls_eq
    rw [hthread] at heq
    exact heq
  call := h.call
  addr_eq := h.addr_eq
  ticks_le := h.ticks_le
  tick_le := h.tick_le

/-- Processing it appends one call. -/
theorem Ordered.process (h : s.Ordered bioProcessCmd) {task : ZkTask.Ptr}
    (hthread : s.thread = .taken task) (reply : R) :
    (s.threadStep bioProcessCmd reply).Ordered bioProcessCmd := by
  -- the task moves from the thread to the calls
  simp only [threadStep, hthread]
  refine ⟨?_, ?_, ?_, h.addr_eq, h.ticks_le, h.tick_le⟩
  · have heq := h.added_eq
    rw [hthread] at heq
    rw [heq]
    simp [BioThread.unprocessed]
  · have heq := h.calls_eq
    rw [hthread] at heq
    change List.map Prod.snd (s.calls ++ [_]) = s.acked ++ s.inHand ++ s.ackTasks ++ [_]
    rw [List.map_append, heq]
    simp [BioThread.finished]
  · intro c hc
    rcases List.mem_append.mp hc with hold | hnew
    · exact h.call c hold
    · rw [List.mem_singleton.mp hnew]
      exact ⟨rfl, reply, rfl⟩

/-- Passing it on moves it to the second list. -/
theorem Ordered.passOn (h : s.Ordered bioProcessCmd) {task : ZkTask.Ptr}
    (hthread : s.thread = .processed task) :
    { s.addAckTask task with thread := .waiting }.Ordered bioProcessCmd where
  added_eq := by
    have heq := h.added_eq
    rw [hthread] at heq
    exact heq
  calls_eq := by
    have heq := h.calls_eq
    rw [hthread] at heq
    change s.calls.map Prod.snd = s.acked ++ s.inHand ++ (s.ackTasks ++ [task]) ++ []
    rw [heq]
    simp [BioThread.finished]
  call := h.call
  addr_eq := h.addr_eq
  ticks_le := h.ticks_le
  tick_le := h.tick_le

theorem Ordered.threadStep (h : s.Ordered bioProcessCmd) (reply : R) :
    (s.threadStep bioProcessCmd reply).Ordered bioProcessCmd := by
  cases hthread : s.thread with
  | waiting =>
    cases hreq : s.reqTasks with
    | nil =>
      simp only [Bio.threadStep, hthread, hreq]
      exact h
    | cons task rest =>
      simp only [Bio.threadStep, hthread, hreq]
      exact h.take hthread hreq
  | taken task => exact h.process hthread reply
  | processed task =>
    simp only [Bio.threadStep, hthread]
    exact h.passOn hthread

/-- The loop takes tasks from the front, at most as many as the count leaves. -/
theorem fetchAcks_spec (acks : List ZkTask.Ptr) (i : ℕ) :
    (fetchAcks i acks).1 ++ (fetchAcks i acks).2 = acks ∧
      (fetchAcks i acks).1.length ≤ 100 - i := by
  induction acks generalizing i with
  | nil => exact ⟨rfl, Nat.zero_le _⟩
  | cons task rest ih =>
    obtain ⟨happend, hlen⟩ := ih (i + 1)
    rw [fetchAcks]
    split_ifs with hi
    · refine ⟨congrArg (task :: ·) happend, ?_⟩
      rw [List.length_cons]
      omega
    · exact ⟨rfl, Nat.zero_le _⟩

theorem Ordered.onRepeatTimer (h : s.Ordered bioProcessCmd) :
    s.onRepeatTimer.Ordered bioProcessCmd := by
  cases htick : s.tick with
  | some t =>
    simp only [Bio.onRepeatTimer, htick]
    exact h
  | none =>
    obtain ⟨happend, hlen⟩ := fetchAcks_spec s.ackTasks 0
    simp only [Bio.onRepeatTimer, htick]
    refine ⟨h.added_eq, ?_, h.call, h.addr_eq, h.ticks_le, ?_⟩
    · have heq := h.calls_eq
      rw [acked, inHand, htick, ← happend] at heq
      rw [heq]
      simp [acked, inHand]
    · rintro t ⟨⟩
      rw [List.length_nil, Nat.zero_add]
      exact hlen

theorem Ordered.ackStep (h : s.Ordered bioProcessCmd) : s.ackStep.Ordered bioProcessCmd := by
  cases htick : s.tick with
  | none =>
    simp only [Bio.ackStep, htick]
    exact h
  | some t =>
    have heq := h.calls_eq
    have hle := h.tick_le t htick
    cases htasks : t.tasks with
    | nil =>
      -- the list of the tick is empty: it is given back
      simp only [Bio.ackStep, htick, htasks]
      refine ⟨h.added_eq, ?_, h.call, h.addr_eq, ?_, by simp⟩
      · rw [acked, inHand, htick] at heq
        rw [heq]
        simp [acked, inHand, htasks]
      · intro u hu
        rcases List.mem_append.mp hu with hold | hnew
        · exact h.ticks_le u hold
        · rw [List.mem_singleton.mp hnew]
          omega
    | cons task rest =>
      -- the task moves behind those that were handled in this tick
      simp only [Bio.ackStep, htick, htasks]
      refine ⟨h.added_eq, ?_, h.call, h.addr_eq, h.ticks_le, ?_⟩
      · rw [acked, inHand, htick] at heq
        rw [heq]
        simp [acked, inHand, htasks]
      · rintro u ⟨⟩
        rw [htasks, List.length_cons] at hle
        change (t.handled ++ [task]).length + rest.length ≤ 100
        rw [List.length_append, List.length_singleton]
        omega

theorem Ordered.step (h : s.Ordered bioProcessCmd) (e : BioEvent R) :
    ((bioMachine bioProcessCmd).step s e).Ordered bioProcessCmd := by
  cases e with
  | addCmdTask path cmd value => exact h.addCmdTask path cmd value
  | thread reply => exact h.threadStep reply
  | timer => exact h.onRepeatTimer
  | ack => exact h.ackStep

/-- The addresses in the two histories agree. -/
theorem Ordered.addr_calls (h : s.Ordered bioProcessCmd) :
    (s.calls.map Prod.fst).map ZkTask.Ptr.addr = (s.calls.map Prod.snd).map ZkTask.Ptr.addr := by
  rw [List.map_map, List.map_map]
  exact List.map_congr_left fun c hc => (h.call c hc).1.symm

/-- Tasks are acknowledged once and in order: the tasks passed to `timer_process_ack` are, call by
call, results of `bio_process_cmd`, and these calls took distinct tasks in the order in which they
were added; the tasks that were added and not acknowledged are all still there; and no call of
`handle_acks` handles more than a hundred. -/
structure AcksInOrder (bioProcessCmd : R → ZkTask → ZkTask) (s : Bio) : Prop where
  nodup : (s.added.map ZkTask.Ptr.addr).Nodup
  calls : s.calls.map Prod.fst <+: s.added
  call : ∀ c ∈ s.calls, c.2.addr = c.1.addr ∧ ∃ reply, c.2.task = bioProcessCmd reply c.1.task
  acks : s.acked <+: s.calls.map Prod.snd
  acked : s.acked.map ZkTask.Ptr.addr <+: s.added.map ZkTask.Ptr.addr
  kept : s.added.map ZkTask.Ptr.addr = (s.acked ++ s.inHand ++ s.ackTasks ++ s.thread.finished ++
    s.thread.unprocessed ++ s.reqTasks).map ZkTask.Ptr.addr
  tick : ∀ t ∈ s.ticks ++ (s.tick.map HandleAcks.handled).toList, t.length ≤ 100

theorem Ordered.acksInOrder (h : s.Ordered bioProcessCmd) : s.AcksInOrder bioProcessCmd := by
  -- all tasks are somewhere between the queue and the answers, in their order
  have hadded : s.added.map ZkTask.Ptr.addr = (s.acked ++ s.inHand ++ s.ackTasks ++
      s.thread.finished ++ s.thread.unprocessed ++ s.reqTasks).map ZkTask.Ptr.addr := by
    rw [h.added_eq, List.map_append, List.map_append, h.addr_calls, h.calls_eq, ← List.map_append,
      ← List.map_append]
  refine ⟨?_, ?_, h.call, ?_, ?_, hadded, ?_⟩
  · rw [h.addr_eq]
    exact List.nodup_range
  · rw [h.added_eq, List.append_assoc]
    exact List.prefix_append ..
  · rw [h.calls_eq, List.append_assoc, List.append_assoc]
    exact List.prefix_append ..
  · rw [hadded]
    simp only [List.append_assoc]
    exact (List.prefix_append ..).map _
  · intro t ht
    rcases List.mem_append.mp ht with hticks | htick
    · exact h.ticks_le t hticks
    · obtain ⟨u, hu, rfl⟩ := Option.map_eq_some_iff.mp (Option.mem_toList.mp htick)
      exact le_trans (Nat.le_add_right _ _) (h.tick_le u hu)

end Bio

/-- **Tasks are acknowledged once and in order**, in every state of every run, whatever
`bio_process_cmd` does. -/
theorem acks_in_order {R : Type} (bioProcessCmd : R → ZkTask → ZkTask) (es : List (BioEvent R)) :
    ((bioMachine bioProcessCmd).run {} es).AcksInOrder bioProcessCmd :=
  Bio.Ordered.acksInOrder
    ((bioMachine bioProcessCmd).run_invariant (P := Bio.Ordered bioProcessCmd)
      (fun _ e h => h.step e) Bio.ordered_empty es)

end Kimserver
