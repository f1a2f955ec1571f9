import Kimserver.Lib.Machine
import Kimserver.Lib.Operations
import Kimserver.Util.Text

/-!
# A connection to a database

`MysqlAsyncConn` runs the tasks of its queue one after the other through the non-blocking
calls of the MariaDB library on `m_mysql`. The event loop calls it back when the socket is
ready, while the io watcher is active, and once in a second.

The answers of the library are part of the event: in one event each of its functions is
called at most once. So are the callbacks of the tasks. They run in a world `σ` outside this
class and add tasks to the connection that calls them.

## Main definitions

* `DbInfo`, `SqlTask`, `MysqlAsyncConn`: `db_info_t`, `sql_task_t` and the members of the class
* `Host`: the library's answers and the callbacks, in one event
* `MysqlAsyncConn.waitForMysql`, `MysqlAsyncConn.pingStart`, `MysqlAsyncConn.addTask`: the
  handlers of the three kinds of events
* `connMachine`: their runs

## Main results

* `MysqlAsyncConn.activeEvIo_active`: when the watcher is started
* `MysqlAsyncConn.called_callback`, `MysqlAsyncConn.clearTasks_spec`: what callbacks leave
  unchanged
-/

namespace Kimserver

open OpCall

/-- `db_info_t`. -/
structure DbInfo where
  port : ℤ := 0
  maxConnCnt : ℤ := 0
  host : Bytes
  dbName : Bytes
  password : Bytes
  charset : Bytes
  user : Bytes
  deriving DecidableEq, Repr

/-- `sql_task_t::OPERATE`. -/
inductive Operate
  | select
  | exec
  deriving DecidableEq, Repr

/-- `sql_task_t`. The object is known by its address `id`, and its callbacks by theirs. -/
structure SqlTask where
  id : ℕ
  sql : Bytes
  oper : Operate := .select
  fnExec : Option ℕ := none
  fnQuery : Option ℕ := none
  privdata : ℕ := 0
  error : ℤ := 0
  errstr : Bytes := []
  deriving DecidableEq, Repr

/-- The operations of the non-blocking library. -/
inductive MysqlOp
  | realConnect
  | realQuery
  | storeResult
  | ping
  deriving DecidableEq, Repr

/-- `MysqlAsyncConn::STATE`. -/
inductive MysqlState
  | noConnected
  | connectWaiting
  | waitOperate
  | queryWaiting
  | execsqlWaiting
  | storeWaiting
  | pingWaiting
  deriving DecidableEq, Repr

/-- The operation that a state waits for. -/
def MysqlState.op : MysqlState → Option MysqlOp
  | .noConnected | .waitOperate => none
  | .connectWaiting => some .realConnect
  | .queryWaiting | .execsqlWaiting => some .realQuery
  | .storeWaiting => some .storeResult
  | .pingWaiting => some .ping

/-- The io watcher: `ev_is_active`, and the events it watches. -/
structure EvIo where
  active : Bool := false
  events : ℕ := 0
  deriving DecidableEq, Repr

/-- The members of `MysqlAsyncConn`. Of `m_mysql` the history of the non-blocking calls on it
is kept. -/
structure MysqlAsyncConn where
  dbInfo : DbInfo
  watcher : EvIo := {}
  reading : Bool := false
  writing : Bool := false
  isConnected : Bool := true
  reconnectCnt : ℕ := 0
  mysql : List (OpCall MysqlOp) := []
  state : MysqlState := .noConnected
  tasks : List SqlTask := []
  curTask : Option SqlTask := none
  deriving DecidableEq, Repr

/-- What the functions of the library answer in one event: the status, and with the status 0
the result (for a connect, whether the returned pointer is not null). -/
structure Replies where
  realConnectStart : ℕ × Bool := (0, true)
  realConnectCont : ℕ × Bool := (0, true)
  realQueryStart : ℕ × ℤ := (0, 0)
  realQueryCont : ℕ × ℤ := (0, 0)
  storeResultStart : ℕ := 0
  storeResultCont : ℕ := 0
  pingStart : ℕ × ℤ := (0, 0)
  pingCont : ℕ × ℤ := (0, 0)
  errno : ℤ := 0
  error : Bytes := []
  deriving DecidableEq, Repr

/-- `MYSQL_WAIT_READ`, `MYSQL_WAIT_WRITE`. -/
def mysqlWaitRead : ℕ := 1
def mysqlWaitWrite : ℕ := 2

/-- `EV_READ`, `EV_WRITE`. -/
def evRead : ℕ := 1
def evWrite : ℕ := 2

/-- `CR_SERVER_GONE_ERROR`, `CR_SERVER_LOST`. -/
def crServerGoneError : ℤ := 2006
def crServerLost : ℤ := 2013

/-- `MAX_DISCONNECT_TIME`. -/
def maxDisconnectTime : ℕ := 2

/-- `mysql_status_to_libev_event`. -/
def mysqlStatusToLibevEvent (status : ℕ) : ℕ :=
  (if status &&& mysqlWaitRead ≠ 0 then evRead else 0) |||
    (if status &&& mysqlWaitWrite ≠ 0 then evWrite else 0)

namespace MysqlAsyncConn

/-- `set_state`. -/
def setState (c : MysqlAsyncConn) (state : MysqlState) : MysqlAsyncConn := { c with state := state }

/-- A call on `m_mysql`. -/
def call (c : MysqlAsyncConn) (call : OpCall MysqlOp) : MysqlAsyncConn :=
  { c with mysql := c.mysql ++ [call] }

/-- `stop_task`. -/
def stopTask (c : MysqlAsyncConn) : MysqlAsyncConn :=
  if c.watcher.active then { c with watcher := { c.watcher with active := false } } else c

/-- `set_connected`. -/
def setConnected (c : MysqlAsyncConn) (ok : Bool) : MysqlAsyncConn :=
  if ok then { c with isConnected := true, reconnectCnt := 0 }
  else (stopTask { c with isConnected := false }).setState .noConnected

/-- `active_ev_io`. -/
def activeEvIo (c : MysqlAsyncConn) (mysqlStatus : ℕ) : MysqlAsyncConn :=
  let events := mysqlStatusToLibevEvent mysqlStatus
  let reading := c.reading || events &&& evRead ≠ 0
  let writing := c.writing || events &&& evWrite ≠ 0
  -- `ev_io_init`
  let watcher := if c.watcher.active then c.watcher else { active := false, events := events }
  let watcher :=
    if c.reading ≠ reading ∨ c.writing ≠ writing then
      -- `ev_io_stop`, `ev_io_set`, `ev_io_start`
      { active := true, events := watcher.events ||| events }
    else watcher
  { c with reading := reading, writing := writing, watcher := watcher }

/-- `is_task_empty`. -/
def isTaskEmpty (c : MysqlAsyncConn) : Bool := c.tasks.isEmpty && c.curTask.isNone

/-- `wait_next_task`. -/
def waitNextTask (c : MysqlAsyncConn) (mysqlStatus : ℕ := mysqlWaitWrite) : MysqlAsyncConn :=
  if c.isTaskEmpty then c else c.activeEvIo mysqlStatus

/-- `add_task`. -/
def addTask (c : MysqlAsyncConn) (task : Option SqlTask) : Bool × MysqlAsyncConn :=
  match task with
  | none => (false, c)
  | some task =>
    if c.isConnected then (true, waitNextTask { c with tasks := c.tasks ++ [task] })
    else (false, c)

/-- The tasks that a callback passes to `add_task`. -/
def addTasks (c : MysqlAsyncConn) (tasks : List SqlTask) : MysqlAsyncConn :=
  tasks.foldl (fun c task => (c.addTask (some task)).2) c

end MysqlAsyncConn

/-- The outside of the class in one event: the library, and the callbacks of the tasks. A
callback runs in the world, and adds tasks to the connection that calls it. -/
structure Host (σ : Type*) where
  replies : Replies := {}
  run : SqlTask → σ → MysqlAsyncConn → σ × MysqlAsyncConn
  adds : ∀ task w c, ∃ tasks, (run task w c).2 = c.addTasks tasks

namespace MysqlAsyncConn

/-- `fetch_next_task`. -/
def fetchNextTask (c : MysqlAsyncConn) : Option SqlTask × MysqlAsyncConn :=
  match c.tasks with
  | [] => (none, c)
  | task :: tasks => (some task, { c with tasks := tasks })

/-- `connect_start`. -/
def connectStart (c : MysqlAsyncConn) (r : Replies) : MysqlAsyncConn :=
  let c := c.call (.start .realConnect r.realConnectStart.1)
  if r.realConnectStart.1 ≠ 0 then (c.setState .connectWaiting).activeEvIo r.realConnectStart.1
  else if r.realConnectStart.2 then c.setState .waitOperate
  else c.setConnected false

/-- `init`, with a database and an event loop. -/
def init (dbInfo : DbInfo) (r : Replies) : MysqlAsyncConn := connectStart { dbInfo := dbInfo } r

/-- `connect_wait`. -/
def connectWait (c : MysqlAsyncConn) (r : Replies) : MysqlAsyncConn :=
  let c := c.call (.cont .realConnect r.realConnectCont.1)
  if r.realConnectCont.1 ≠ 0 then c
  else if r.realConnectCont.2 then ((c.setConnected true).setState .waitOperate).waitNextTask
  else (c.setConnected false).setConnected false

variable {σ : Type*}

/-- `callback`, of a task that is not null. The result is the task, whose callbacks are gone. -/
def callback (c : MysqlAsyncConn) (h : Host σ) (w : σ) (task : SqlTask) :
    SqlTask × σ × MysqlAsyncConn :=
  let (w, c) := if task.fnQuery.isSome then h.run task w c else (w, c)
  let task := { task with fnQuery := none }
  let (w, c) := if task.fnExec.isSome then h.run task w c else (w, c)
  ({ task with fnExec := none }, w, c)

/-- The callback of the current task, if there is one. -/
def callbackCur (c : MysqlAsyncConn) (h : Host σ) (w : σ) : σ × MysqlAsyncConn :=
  match c.curTask with
  | none => (w, c)
  | some task =>
    let (task, w, c) := c.callback h w task
    (w, { c with curTask := some task })

/-- `SET_ERR_INFO` of the current task. -/
def setErrInfo (c : MysqlAsyncConn) (error : ℤ) (errstr : Bytes) : MysqlAsyncConn :=
  { c with curTask := c.curTask.map fun task => { task with error := error, errstr := errstr } }

/-- The queue of `clear_tasks`: its tasks are answered and deleted. It is walked when the
connection is lost, so that `add_task` refuses what the callbacks submit, and in the
destructor, when no callback finds the connection. -/
def clearQueue (h : Host σ) : σ × MysqlAsyncConn → List SqlTask → σ × MysqlAsyncConn
  | (w, c), [] => (w, c)
  | (w, c), task :: tasks =>
    clearQueue h (c.callback h w { task with error := -1, errstr := text "terminated!" }).2 tasks

/-- `clear_tasks`. -/
def clearTasks (c : MysqlAsyncConn) (h : Host σ) (w : σ) : σ × MysqlAsyncConn :=
  let c := c.stopTask
  let c :=
    if (c.curTask.map SqlTask.error) = some 0 then c.setErrInfo (-1) (text "terminated!") else c
  let (w, c) := c.callbackCur h w
  let c := { c with curTask := none }
  let (w, c) := clearQueue h (w, c) c.tasks
  (w, { c with tasks := [] })

/-- The errors of a lost server. -/
def lostServer (r : Replies) : Bool := r.errno = crServerLost || r.errno = crServerGoneError

/-- `handle_task`, up to the callback: the current task is answered. -/
def answerTask (c : MysqlAsyncConn) (h : Host σ) (w : σ) : σ × MysqlAsyncConn :=
  (c.setErrInfo h.replies.errno h.replies.error).callbackCur h w

/-- `handle_task`, from the callback on. -/
def settle (c : MysqlAsyncConn) (h : Host σ) (w : σ) : σ × MysqlAsyncConn :=
  if lostServer h.replies then
    let c := c.setConnected false
    let cnt := c.reconnectCnt
    let c := { c with reconnectCnt := cnt + 1 }
    if cnt = maxDisconnectTime then c.clearTasks h w else (w, c.connectStart h.replies)
  else if c.isConnected then (w, (c.setState .waitOperate).waitNextTask)
  else (w, c)

/-- `handle_task`. -/
def handleTask (c : MysqlAsyncConn) (h : Host σ) (w : σ) : σ × MysqlAsyncConn :=
  let (w, c) := c.answerTask h w
  c.settle h w

/-- `store_result_start`. -/
def storeResultStart (c : MysqlAsyncConn) (h : Host σ) (w : σ) : σ × MysqlAsyncConn :=
  let status := h.replies.storeResultStart
  let c := c.call (.start .storeResult status)
  if status ≠ 0 then (w, (c.setState .storeWaiting).activeEvIo status) else c.handleTask h w

/-- `query_start`. -/
def queryStart (c : MysqlAsyncConn) (h : Host σ) (w : σ) : σ × MysqlAsyncConn :=
  if c.curTask.isNone then (w, c)
  else
    let (status, ret) := h.replies.realQueryStart
    let c := c.call (.start .realQuery status)
    if status ≠ 0 then (w, (c.setState .queryWaiting).activeEvIo status)
    else if ret = 0 then c.storeResultStart h w
    else c.handleTask h w

/-- `query_wait`. -/
def queryWait (c : MysqlAsyncConn) (h : Host σ) (w : σ) : σ × MysqlAsyncConn :=
  let (status, ret) := h.replies.realQueryCont
  let c := c.call (.cont .realQuery status)
  if status ≠ 0 then (w, c.setState .queryWaiting)
  else if ret ≠ 0 then c.handleTask h w
  else c.storeResultStart h w

/-- `store_result_wait`. -/
def storeResultWait (c : MysqlAsyncConn) (h : Host σ) (w : σ) : σ × MysqlAsyncConn :=
  if c.curTask.isNone then (w, c)
  else
    let status := h.replies.storeResultCont
    let c := c.call (.cont .storeResult status)
    if status ≠ 0 then (w, c.setState .storeWaiting) else c.handleTask h w

/-- `exec_sql_start`. -/
def execSqlStart (c : MysqlAsyncConn) (h : Host σ) (w : σ) : σ × MysqlAsyncConn :=
  if c.curTask.isNone then (w, c)
  else
    let status := h.replies.realQueryStart.1
    let c := c.call (.start .realQuery status)
    if status ≠ 0 then (w, (c.setState .execsqlWaiting).activeEvIo status) else c.handleTask h w

/-- `exec_sql_wait`. -/
def execSqlWait (c : MysqlAsyncConn) (h : Host σ) (w : σ) : σ × MysqlAsyncConn :=
  if c.curTask.isNone then (w, c)
  else
    let status := h.replies.realQueryCont.1
    let c := c.call (.cont .realQuery status)
    if status ≠ 0 then (w, c.setState .execsqlWaiting) else c.handleTask h w

/-- `operate_wait`. -/
def operateWait (c : MysqlAsyncConn) (h : Host σ) (w : σ) : σ × MysqlAsyncConn :=
  let (task, c) := fetchNextTask { c with curTask := none }
  let c := { c with curTask := task }
  match task with
  | none => (w, c.stopTask)
  | some task => if task.oper = .select then c.queryStart h w else c.execSqlStart h w

/-- `ping_start`. -/
def pingStart (c : MysqlAsyncConn) (h : Host σ) (w : σ) : σ × MysqlAsyncConn :=
  if c.isConnected then (w, c)
  else
    let (status, ret) := h.replies.pingStart
    let c := c.call (.start .ping status)
    if status ≠ 0 then (w, (c.setState .pingWaiting).activeEvIo status)
    else if ret = 0 then (w, c.setConnected true)
    else c.handleTask h w

/-- `ping_wait`. -/
def pingWait (c : MysqlAsyncConn) (h : Host σ) (w : σ) : σ × MysqlAsyncConn :=
  let (status, ret) := h.replies.pingCont
  let c := c.call (.cont .ping status)
  if status ≠ 0 then (w, c.setState .pingWaiting)
  else if ret = 0 then
    if c.isConnected then (w, c) else (c.setConnected true).handleTask h w
  else (w, c.setConnected false)

/-- `wait_for_mysql`. -/
def waitForMysql (c : MysqlAsyncConn) (h : Host σ) (w : σ) : σ × MysqlAsyncConn :=
  match c.state with
  | .connectWaiting => (w, c.connectWait h.replies)
  | .waitOperate => c.operateWait h w
  | .queryWaiting => c.queryWait h w
  | .execsqlWaiting => c.execSqlWait h w
  | .storeWaiting => c.storeResultWait h w
  | .pingWaiting => c.pingWait h w
  | .noConnected => (w, c)

/-! ## The fields that the functions write -/

section Fields

variable (c : MysqlAsyncConn)

@[simp] theorem setState_eq (state : MysqlState) :
    c.setState state = { c with state := state } := rfl

@[simp] theorem call_eq (op : OpCall MysqlOp) :
    c.call op = { c with mysql := c.mysql ++ [op] } := rfl

@[simp] theorem stopTask_eq :
    c.stopTask = { c with watcher := { c.watcher with active := false } } := by
  unfold stopTask
  split_ifs with h
  · rfl
  · rw [Bool.not_eq_true] at h
    rw [← h]

@[simp] theorem setConnected_true :
    c.setConnected true = { c with isConnected := true, reconnectCnt := 0 } := rfl

@[simp] theorem setConnected_false :
    c.setConnected false =
      { c with
        isConnected := false, watcher := { c.watcher with active := false }
        state := .noConnected } := by
  simp only [setConnected, Bool.false_eq_true, if_false, stopTask_eq, setState_eq]

@[simp] theorem activeEvIo_dbInfo (status : ℕ) : (c.activeEvIo status).dbInfo = c.dbInfo := rfl

@[simp] theorem activeEvIo_mysql (status : ℕ) : (c.activeEvIo status).mysql = c.mysql := rfl

@[simp] theorem activeEvIo_state (status : ℕ) : (c.activeEvIo status).state = c.state := rfl

@[simp] theorem activeEvIo_isConnected (status : ℕ) :
    (c.activeEvIo status).isConnected = c.isConnected := rfl

@[simp] theorem activeEvIo_reconnectCnt (status : ℕ) :
    (c.activeEvIo status).reconnectCnt = c.reconnectCnt := rfl

@[simp] theorem activeEvIo_tasks (status : ℕ) : (c.activeEvIo status).tasks = c.tasks := rfl

@[simp] theorem activeEvIo_curTask (status : ℕ) : (c.activeEvIo status).curTask = c.curTask := rfl

/-- The directions of a status are among those flagged already. -/
def Flagged (c : MysqlAsyncConn) (status : ℕ) : Prop :=
  (mysqlStatusToLibevEvent status &&& evRead ≠ 0 → c.reading = true) ∧
    (mysqlStatusToLibevEvent status &&& evWrite ≠ 0 → c.writing = true)

instance (status : ℕ) : Decidable (c.Flagged status) := inferInstanceAs (Decidable (_ ∧ _))

/-- `active_ev_io` starts a watcher that is not active only for a new direction. -/
theorem activeEvIo_active (status : ℕ) :
    (c.activeEvIo status).watcher.active = true ↔
      c.watcher.active = true ∨ ¬ c.Flagged status := by
  unfold activeEvIo Flagged
  cases hreading : c.reading <;> cases hwriting : c.writing <;>
    cases hactive : c.watcher.active <;>
    by_cases hr : mysqlStatusToLibevEvent status &&& evRead = 0 <;>
    by_cases hw : mysqlStatusToLibevEvent status &&& evWrite = 0 <;>
    simp [hr, hw, hactive]

end Fields

/-! ## Callbacks -/

/-- What a connection keeps while callbacks add tasks to it. -/
structure Called (c c' : MysqlAsyncConn) : Prop where
  dbInfo : c'.dbInfo = c.dbInfo
  mysql : c'.mysql = c.mysql
  state : c'.state = c.state
  isConnected : c'.isConnected = c.isConnected
  reconnectCnt : c'.reconnectCnt = c.reconnectCnt
  active : c.watcher.active = true → c'.watcher.active = true
  tasks : c.tasks <+: c'.tasks
  down : c.isConnected = false → c'.tasks = c.tasks ∧ c'.watcher = c.watcher

theorem Called.refl (c : MysqlAsyncConn) : Called c c where
  dbInfo := rfl
  mysql := rfl
  state := rfl
  isConnected := rfl
  reconnectCnt := rfl
  active := id
  tasks := List.prefix_refl _
  down _ := ⟨rfl, rfl⟩

theorem Called.trans {c c' c'' : MysqlAsyncConn} (h : Called c c') (h' : Called c' c'') :
    Called c c'' where
  dbInfo := h'.dbInfo.trans h.dbInfo
  mysql := h'.mysql.trans h.mysql
  state := h'.state.trans h.state
  isConnected := h'.isConnected.trans h.isConnected
  reconnectCnt := h'.reconnectCnt.trans h.reconnectCnt
  active := h'.active ∘ h.active
  tasks := h.tasks.trans h'.tasks
  down hdown := by
    obtain ⟨htasks, hwatcher⟩ := h.down hdown
    obtain ⟨htasks', hwatcher'⟩ := h'.down (h.isConnected.trans hdown)
    exact ⟨htasks'.trans htasks, hwatcher'.trans hwatcher⟩

/-- A member that callbacks do not touch may be written afterwards. -/
theorem Called.setCurTask {c c' : MysqlAsyncConn} (h : Called c c') (task : Option SqlTask) :
    Called c { c' with curTask := task } :=
  ⟨h.dbInfo, h.mysql, h.state, h.isConnected, h.reconnectCnt, h.active, h.tasks, h.down⟩

theorem called_addTask (c : MysqlAsyncConn) (task : Option SqlTask) :
    Called c (c.addTask task).2 := by
  cases task with
  | none => exact .refl c
  | some task =>
    by_cases hconn : c.isConnected = true
    · have hne : (MysqlAsyncConn.isTaskEmpty { c with tasks := c.tasks ++ [task] }) = false := by
        simp [isTaskEmpty]
      simp only [addTask, if_pos hconn, waitNextTask, hne]
      refine ⟨rfl, rfl, rfl, rfl, rfl, ?_, List.prefix_append _ _, ?_⟩
      · intro hactive
        exact (activeEvIo_active _ _).mpr (Or.inl hactive)
      · intro hdown
        rw [hconn] at hdown
        cases hdown
    · simp only [addTask, if_neg hconn]
      exact .refl c

theorem called_addTasks (c : MysqlAsyncConn) (tasks : List SqlTask) :
    Called c (c.addTasks tasks) := by
  induction tasks generalizing c with
  | nil => exact .refl c
  | cons task tasks ih => exact (called_addTask c _).trans (ih _)

theorem curTask_addTask (c : MysqlAsyncConn) (task : Option SqlTask) :
    (c.addTask task).2.curTask = c.curTask := by
  unfold addTask waitNextTask
  split
  · rfl
  · split_ifs
    · rfl
    · rfl
    · rfl

theorem curTask_addTasks (c : MysqlAsyncConn) (tasks : List SqlTask) :
    (c.addTasks tasks).curTask = c.curTask := by
  induction tasks generalizing c with
  | nil => rfl
  | cons task tasks ih => exact (ih _).trans (curTask_addTask c _)

variable {h : Host σ} {w : σ} {c : MysqlAsyncConn}

theorem curTask_run (task : SqlTask) : (h.run task w c).2.curTask = c.curTask := by
  obtain ⟨tasks, heq⟩ := h.adds task w c
  rw [heq]
  exact curTask_addTasks c tasks

theorem called_run (task : SqlTask) : Called c (h.run task w c).2 := by
  obtain ⟨tasks, heq⟩ := h.adds task w c
  rw [heq]
  exact called_addTasks c tasks

theorem called_callback (task : SqlTask) : Called c (c.callback h w task).2.2 := by
  have hif : ∀ (c : MysqlAsyncConn) (w : σ) (b : Bool) (task : SqlTask),
      Called c (if b then h.run task w c else (w, c)).2 := by
    intro c w b task
    cases b with
    | false => exact .refl c
    | true => exact called_run task
  exact (hif c w _ task).trans (hif _ _ _ _)

theorem curTask_callback (task : SqlTask) : (c.callback h w task).2.2.curTask = c.curTask := by
  have hif : ∀ (c : MysqlAsyncConn) (w : σ) (b : Bool) (task : SqlTask),
      (if b then h.run task w c else (w, c)).2.curTask = c.curTask := by
    intro c w b task
    cases b with
    | false => rfl
    | true => exact curTask_run task
  exact (hif _ _ _ _).trans (hif c w _ task)

theorem called_callbackCur : Called c (c.callbackCur h w).2 := by
  unfold callbackCur
  split
  · exact .refl c
  · exact (called_callback _).setCurTask _

theorem called_clearQueue (tasks : List SqlTask) : Called c (clearQueue h (w, c) tasks).2 := by
  induction tasks generalizing w c with
  | nil => exact .refl c
  | cons task tasks ih => exact (called_callback _).trans ih

theorem curTask_clearQueue (tasks : List SqlTask) :
    (clearQueue h (w, c) tasks).2.curTask = c.curTask := by
  induction tasks generalizing w c with
  | nil => rfl
  | cons task tasks ih => exact ih.trans (curTask_callback _)

theorem called_setErrInfo (error : ℤ) (errstr : Bytes) : Called c (c.setErrInfo error errstr) :=
  (Called.refl c).setCurTask _

theorem called_answerTask : Called c (c.answerTask h w).2 :=
  (called_setErrInfo _ _).trans called_callbackCur

/-- `clear_tasks` stops the watcher, and leaves no task. -/
theorem clearTasks_spec :
    ∃ c', Called c.stopTask c' ∧ (c.clearTasks h w).2 = { c' with tasks := [] } := by
  refine ⟨_, ?_, rfl⟩
  have hcur : ∀ c : MysqlAsyncConn,
      Called c (if c.curTask.map SqlTask.error = some 0 then c.setErrInfo (-1) (text "terminated!")
        else c) := by
    intro c
    split
    · exact called_setErrInfo _ _
    · exact .refl c
  exact (((hcur c.stopTask).trans called_callbackCur).setCurTask none).trans
    (called_clearQueue _)

/-! ## The database of a connection -/

@[simp] theorem dbInfo_connectStart (r : Replies) : (c.connectStart r).dbInfo = c.dbInfo := by
  unfold connectStart
  simp only [setConnected_false]
  split_ifs
  · rfl
  · rfl
  · rfl

@[simp] theorem dbInfo_init (dbInfo : DbInfo) (r : Replies) : (init dbInfo r).dbInfo = dbInfo :=
  dbInfo_connectStart r

@[simp] theorem dbInfo_clearTasks : (c.clearTasks h w).2.dbInfo = c.dbInfo := by
  obtain ⟨c', hcalled, heq⟩ := clearTasks_spec (h := h) (w := w) (c := c)
  rw [heq]
  exact hcalled.dbInfo.trans (by rw [stopTask_eq])

@[simp] theorem dbInfo_waitNextTask (status : ℕ) : (c.waitNextTask status).dbInfo = c.dbInfo := by
  unfold waitNextTask
  split_ifs
  · rfl
  · rfl

@[simp] theorem dbInfo_handleTask : (c.handleTask h w).2.dbInfo = c.dbInfo := by
  have hcalled := called_answerTask (h := h) (w := w) (c := c)
  unfold handleTask settle
  rw [← hcalled.dbInfo]
  cases lostServer h.replies with
  | true =>
    simp only [if_true, setConnected_false]
    split_ifs
    · simp only [dbInfo_clearTasks]
    · simp only [dbInfo_connectStart]
  | false =>
    simp only [Bool.false_eq_true, if_false]
    split_ifs
    · simp only [dbInfo_waitNextTask, setState_eq]
    · rfl

@[simp] theorem dbInfo_storeResultStart : (c.storeResultStart h w).2.dbInfo = c.dbInfo := by
  unfold storeResultStart
  simp only
  split_ifs
  · rfl
  · simp only [dbInfo_handleTask, call_eq]

/-- A connection stays with its database. -/
theorem dbInfo_waitForMysql : (c.waitForMysql h w).2.dbInfo = c.dbInfo := by
  unfold waitForMysql
  split
  · unfold connectWait
    simp only [setConnected_false, setConnected_true]
    split_ifs <;> simp
  · unfold operateWait fetchNextTask queryStart execSqlStart
    cases c.tasks with
    | nil => simp
    | cons task tasks =>
      simp only
      split_ifs <;> simp
  · unfold queryWait
    simp only
    split_ifs <;> simp
  · unfold execSqlWait
    simp only
    split_ifs <;> simp
  · unfold storeResultWait
    simp only
    split_ifs <;> simp
  · unfold pingWait
    simp only
    split_ifs <;> simp
  · rfl

theorem dbInfo_pingStart : (c.pingStart h w).2.dbInfo = c.dbInfo := by
  unfold pingStart
  simp only
  split_ifs <;> simp

/-! ## The world

The handlers change the world through callbacks only. What every callback of a connection to
this database keeps, its handlers keep. -/

section World

variable {J : σ → Prop} {info : DbInfo}

theorem world_callback (hrun : ∀ task w c, c.dbInfo = info → J w → J (h.run task w c).1)
    (hinfo : c.dbInfo = info) (hw : J w) (task : SqlTask) : J (c.callback h w task).2.1 := by
  have hif : ∀ (c : MysqlAsyncConn) (w : σ) (b : Bool) (task : SqlTask), c.dbInfo = info → J w →
      J (if b then h.run task w c else (w, c)).1 ∧
        (if b then h.run task w c else (w, c)).2.dbInfo = info := by
    intro c w b task hinfo hw
    cases b with
    | false => exact ⟨hw, hinfo⟩
    | true => exact ⟨hrun task w c hinfo hw, (called_run task).dbInfo.trans hinfo⟩
  obtain ⟨hw', hinfo'⟩ := hif c w task.fnQuery.isSome task hinfo hw
  exact (hif _ _ _ _ hinfo' hw').1

theorem world_callbackCur (hrun : ∀ task w c, c.dbInfo = info → J w → J (h.run task w c).1)
    (hinfo : c.dbInfo = info) (hw : J w) : J (c.callbackCur h w).1 := by
  unfold callbackCur
  split
  · exact hw
  · exact world_callback hrun hinfo hw _

theorem world_clearQueue (hrun : ∀ task w c, c.dbInfo = info → J w → J (h.run task w c).1)
    (hinfo : c.dbInfo = info) (hw : J w) (tasks : List SqlTask) :
    J (clearQueue h (w, c) tasks).1 := by
  induction tasks generalizing w c with
  | nil => exact hw
  | cons task tasks ih =>
    exact ih ((called_callback _).dbInfo.trans hinfo) (world_callback hrun hinfo hw _)

theorem world_clearTasks (hrun : ∀ task w c, c.dbInfo = info → J w → J (h.run task w c).1)
    (hinfo : c.dbInfo = info) (hw : J w) : J (c.clearTasks h w).1 := by
  have hcur : ∀ c : MysqlAsyncConn, c.dbInfo = info →
      (if c.curTask.map SqlTask.error = some 0 then c.setErrInfo (-1) (text "terminated!")
        else c).dbInfo = info := by
    intro c hinfo
    split
    · exact hinfo
    · exact hinfo
  have hstop : c.stopTask.dbInfo = info := by rw [stopTask_eq, ← hinfo]
  refine world_clearQueue hrun ?_ ?_ _
  · exact called_callbackCur.dbInfo.trans (hcur _ hstop)
  · exact world_callbackCur hrun (hcur _ hstop) hw

theorem world_settle (hrun : ∀ task w c, c.dbInfo = info → J w → J (h.run task w c).1)
    (hinfo : c.dbInfo = info) (hw : J w) : J (c.settle h w).1 := by
  unfold settle
  simp only
  split_ifs
  · refine world_clearTasks hrun ?_ hw
    rw [setConnected_false]
    exact hinfo
  · exact hw
  · exact hw
  · exact hw

theorem world_handleTask (hrun : ∀ task w c, c.dbInfo = info → J w → J (h.run task w c).1)
    (hinfo : c.dbInfo = info) (hw : J w) : J (c.handleTask h w).1 :=
  world_settle hrun ((called_answerTask (h := h) (w := w) (c := c)).dbInfo.trans hinfo)
    (world_callbackCur hrun hinfo hw)

theorem world_storeResultStart (hrun : ∀ task w c, c.dbInfo = info → J w → J (h.run task w c).1)
    (hinfo : c.dbInfo = info) (hw : J w) : J (c.storeResultStart h w).1 := by
  unfold storeResultStart
  simp only
  split_ifs
  · exact hw
  · exact world_handleTask hrun hinfo hw

theorem world_waitForMysql (hrun : ∀ task w c, c.dbInfo = info → J w → J (h.run task w c).1)
    (hinfo : c.dbInfo = info) (hw : J w) : J (c.waitForMysql h w).1 := by
  have hhandle : ∀ c : MysqlAsyncConn, c.dbInfo = info → J (c.handleTask h w).1 :=
    fun c hinfo => world_handleTask hrun hinfo hw
  have hstore : ∀ c : MysqlAsyncConn, c.dbInfo = info → J (c.storeResultStart h w).1 :=
    fun c hinfo => world_storeResultStart hrun hinfo hw
  unfold waitForMysql
  split
  · exact hw
  · unfold operateWait fetchNextTask queryStart execSqlStart
    cases c.tasks with
    | nil => exact hw
    | cons task tasks =>
      simp only
      split_ifs
      all_goals first | exact hw | exact hhandle _ hinfo | exact hstore _ hinfo
  · unfold queryWait
    simp only
    split_ifs
    all_goals first | exact hw | exact hhandle _ hinfo | exact hstore _ hinfo
  · unfold execSqlWait
    simp only
    split_ifs
    all_goals first | exact hw | exact hhandle _ hinfo
  · unfold storeResultWait
    simp only
    split_ifs
    all_goals first | exact hw | exact hhandle _ hinfo
  · unfold pingWait
    simp only
    split_ifs
    all_goals first | exact hw | exact hhandle _ hinfo
  · exact hw

theorem world_pingStart (hrun : ∀ task w c, c.dbInfo = info → J w → J (h.run task w c).1)
    (hinfo : c.dbInfo = info) (hw : J w) : J (c.pingStart h w).1 := by
  unfold pingStart
  simp only
  split_ifs
  all_goals first | exact hw | exact world_handleTask hrun hinfo hw

end World

end MysqlAsyncConn

/-! ## Runs -/

/-- What the event loop and the users of a connection do. An io event carries the ready
directions to the library only. -/
inductive ConnEvent (σ : Type*)
  | io (host : Host σ)
  | timer (host : Host σ)
  | addTask (task : Option SqlTask)

/-- The handler of an event. The event loop calls an active watcher only. -/
def connStep {σ : Type*} : σ × MysqlAsyncConn → ConnEvent σ → σ × MysqlAsyncConn
  | (w, c), .io host => if c.watcher.active then c.waitForMysql host w else (w, c)
  | (w, c), .timer host => c.pingStart host w
  | (w, c), .addTask task => (w, (c.addTask task).2)

/-- A connection in its world. -/
def connMachine (σ : Type*) : Machine (σ × MysqlAsyncConn) (ConnEvent σ) where
  step := connStep

theorem dbInfo_connStep {σ : Type*} (p : σ × MysqlAsyncConn) (e : ConnEvent σ) :
    (connStep p e).2.dbInfo = p.2.dbInfo := by
  obtain ⟨w, c⟩ := p
  cases e with
  | io host =>
    simp only [connStep]
    split_ifs
    · exact MysqlAsyncConn.dbInfo_waitForMysql
    · rfl
  | timer host => exact MysqlAsyncConn.dbInfo_pingStart
  | addTask task => exact (MysqlAsyncConn.called_addTask c task).dbInfo

end Kimserver
