import Kimserver.Db.OneInFlight

/-!
# Waiting for the socket

A connection goes on only when the event loop calls it back, and the loop calls an active
watcher only. `active_ev_io` starts the watcher when it flags a direction of the socket for the
first time. The flags stay when `stop_task` stops the watcher, so that the directions flagged
before it cannot start the watcher again.

## Main definitions

* `MysqlAsyncConn.Watched`: a connection that waits for the socket has an active watcher
* `MysqlAsyncConn.Marked`: the invariant, a connection with a task has flagged the writing
* `LosesWakeup`: the steps after which the connection waits without a watcher

## Main results

* `MysqlAsyncConn.watched_waitForMysql`, `MysqlAsyncConn.watched_pingStart`,
  `MysqlAsyncConn.watched_addTask`: when the handlers end watched
* `watched_run_iff`: the runs that lose no wake-up
-/

namespace Kimserver

namespace MysqlAsyncConn

variable {σ : Type*} {h : Host σ} {w : σ} {c c' : MysqlAsyncConn}

/-- An operation is in flight, or the connection is up and has a task to run. -/
def Waits (c : MysqlAsyncConn) : Prop :=
  c.state.op ≠ none ∨ c.state = .waitOperate ∧ c.isConnected = true ∧ c.tasks ≠ []

/-- A connection that waits for the socket watches it. -/
def Watched (c : MysqlAsyncConn) : Prop := c.Waits → c.watcher.active = true

/-- A connection with a task has flagged the writing. -/
def Marked (c : MysqlAsyncConn) : Prop :=
  c.tasks ≠ [] ∨ c.curTask ≠ none → c.writing = true

theorem Watched.of_active (hactive : c.watcher.active = true) : Watched c := fun _ => hactive

theorem Watched.of_noConnected (hstate : c.state = .noConnected) : Watched c := by
  rintro (hop | ⟨hwait, -⟩)
  · rw [hstate] at hop
    exact absurd rfl hop
  · rw [hstate] at hwait
    cases hwait

theorem watched_iff_of_op (hop : c.state.op ≠ none) : Watched c ↔ c.watcher.active = true :=
  ⟨fun hwatched => hwatched (Or.inl hop), Watched.of_active⟩

/-! ## The flags during callbacks -/

/-- What callbacks do to the flags: each task that they add flags the writing. -/
structure Marks (c c' : MysqlAsyncConn) : Prop where
  reading : c'.reading = c.reading
  writing : c.writing = true → c'.writing = true
  added : c'.tasks ≠ c.tasks → c'.writing = true

theorem Marks.refl (c : MysqlAsyncConn) : Marks c c where
  reading := rfl
  writing := id
  added hne := absurd rfl hne

theorem Marks.trans {c'' : MysqlAsyncConn} (hm : Marks c c') (hm' : Marks c' c'') :
    Marks c c'' where
  reading := hm'.reading.trans hm.reading
  writing := hm'.writing ∘ hm.writing
  added hne := by
    by_cases htasks : c''.tasks = c'.tasks
    · exact hm'.writing (hm.added (htasks ▸ hne))
    · exact hm'.added htasks

theorem activeEvIo_reading_write : (c.activeEvIo mysqlWaitWrite).reading = c.reading := by
  unfold activeEvIo
  simp [mysqlStatusToLibevEvent, mysqlWaitWrite, mysqlWaitRead, evRead, evWrite]

theorem activeEvIo_writing_write : (c.activeEvIo mysqlWaitWrite).writing = true := by
  unfold activeEvIo
  simp [mysqlStatusToLibevEvent, mysqlWaitWrite, mysqlWaitRead, evWrite]

/-- A direction stays flagged. -/
theorem activeEvIo_writing_of (status : ℕ) (hw : c.writing = true) :
    (c.activeEvIo status).writing = true := by
  unfold activeEvIo
  simp [hw]

theorem flagged_write : c.Flagged mysqlWaitWrite ↔ c.writing = true := by
  unfold Flagged
  simp [mysqlStatusToLibevEvent, mysqlWaitWrite, mysqlWaitRead, evRead, evWrite]

theorem marks_addTask (c : MysqlAsyncConn) (task : SqlTask) :
    Marks c (c.addTask (some task)).2 := by
  unfold addTask
  simp only
  split_ifs
  · have hne : isTaskEmpty { c with tasks := c.tasks ++ [task] } = false := by simp [isTaskEmpty]
    simp only [waitNextTask, hne, Bool.false_eq_true, if_false]
    exact ⟨activeEvIo_reading_write, fun _ => activeEvIo_writing_write,
      fun _ => activeEvIo_writing_write⟩
  · exact .refl c

theorem marks_addTasks (c : MysqlAsyncConn) (tasks : List SqlTask) :
    Marks c (c.addTasks tasks) := by
  induction tasks generalizing c with
  | nil => exact .refl c
  | cons task tasks ih => exact (marks_addTask c task).trans (ih _)

theorem marks_run (task : SqlTask) : Marks c (h.run task w c).2 := by
  obtain ⟨tasks, heq⟩ := h.adds task w c
  rw [heq]
  exact marks_addTasks c tasks

theorem marks_callback (task : SqlTask) : Marks c (c.callback h w task).2.2 := by
  have hif : ∀ (c : MysqlAsyncConn) (w : σ) (b : Bool) (task : SqlTask),
      Marks c (if b then h.run task w c else (w, c)).2 := by
    intro c w b task
    cases b with
    | false => exact .refl c
    | true => exact marks_run task
  exact (hif c w _ task).trans (hif _ _ _ _)

/-- A connection with a current task has flagged the writing already, so that no flag changes
while the task is answered. -/
theorem answerTask_flags (hm : Marked c) :
    (c.answerTask h w).2.reading = c.reading ∧ (c.answerTask h w).2.writing = c.writing ∧
      Marked (c.answerTask h w).2 := by
  unfold answerTask callbackCur setErrInfo
  cases hcur : c.curTask with
  | none =>
    refine ⟨rfl, rfl, fun htask => hm ?_⟩
    exact htask.imp id fun hne => absurd rfl hne
  | some task =>
    have hw : c.writing = true := hm (Or.inr (by rw [hcur]; exact Option.some_ne_none _))
    have hmarks := marks_callback (h := h) (w := w)
      (c := { c with
        curTask := some { task with error := h.replies.errno, errstr := h.replies.error } })
      { task with error := h.replies.errno, errstr := h.replies.error }
    exact ⟨hmarks.reading, (hmarks.writing hw).trans hw.symm, fun _ => hmarks.writing hw⟩

/-! ## Marked connections -/

theorem Marked.call (hm : Marked c) (op : OpCall MysqlOp) : Marked (c.call op) := hm

theorem Marked.activeEvIo (hm : Marked c) (status : ℕ) : Marked (c.activeEvIo status) :=
  fun htask => activeEvIo_writing_of status (hm htask)

theorem Marked.waitNextTask (hm : Marked c) : Marked c.waitNextTask := by
  unfold MysqlAsyncConn.waitNextTask
  split_ifs
  · exact hm
  · exact hm.activeEvIo _

theorem Marked.setConnected (hm : Marked c) (ok : Bool) : Marked (c.setConnected ok) := by
  cases ok with
  | true => exact hm
  | false =>
    rw [setConnected_false]
    exact hm

theorem Marked.connectStart (hm : Marked c) (r : Replies) : Marked (c.connectStart r) := by
  unfold MysqlAsyncConn.connectStart
  simp only
  split_ifs
  · exact Marked.activeEvIo hm _
  · exact hm
  · exact (hm.call _).setConnected _

theorem marked_init (dbInfo : DbInfo) (r : Replies) : Marked (init dbInfo r) := by
  refine Marked.connectStart ?_ r
  rintro (htasks | hcur)
  · exact absurd rfl htasks
  · exact absurd rfl hcur

/-- `clear_tasks` leaves no task, and no current task. -/
theorem marked_clearTasks : Marked (c.clearTasks h w).2 := by
  unfold clearTasks
  simp only
  rintro (htasks | hcur)
  · exact absurd rfl htasks
  · exact absurd (curTask_clearQueue _) hcur

theorem Marked.addTask (hm : Marked c) (task : Option SqlTask) : Marked (c.addTask task).2 := by
  cases task with
  | none => exact hm
  | some task =>
    have hmarks := marks_addTask c task
    intro htask
    by_cases htasks : (c.addTask (some task)).2.tasks = c.tasks
    · rw [htasks, curTask_addTask] at htask
      exact hmarks.writing (hm htask)
    · exact hmarks.added htasks

theorem Marked.settle (hm : Marked c) : Marked (c.settle h w).2 := by
  unfold MysqlAsyncConn.settle
  simp only
  split_ifs
  · exact marked_clearTasks
  · have hdown : Marked { c.setConnected false with
        reconnectCnt := (c.setConnected false).reconnectCnt + 1 } := hm.setConnected false
    exact hdown.connectStart _
  · exact Marked.waitNextTask hm
  · exact hm

theorem Marked.handleTask (hm : Marked c) : Marked (c.handleTask h w).2 :=
  (answerTask_flags hm).2.2.settle

theorem Marked.storeResultStart (hm : Marked c) : Marked (c.storeResultStart h w).2 := by
  unfold MysqlAsyncConn.storeResultStart
  simp only
  split_ifs
  · exact Marked.activeEvIo hm _
  · exact Marked.handleTask hm

theorem Marked.queryStart (hm : Marked c) : Marked (c.queryStart h w).2 := by
  unfold MysqlAsyncConn.queryStart
  simp only
  split_ifs
  · exact hm
  · exact Marked.activeEvIo hm _
  · exact Marked.storeResultStart hm
  · exact Marked.handleTask hm

theorem Marked.execSqlStart (hm : Marked c) : Marked (c.execSqlStart h w).2 := by
  unfold MysqlAsyncConn.execSqlStart
  simp only
  split_ifs
  · exact hm
  · exact Marked.activeEvIo hm _
  · exact Marked.handleTask hm

/-- The task that is fetched was in the queue. -/
theorem Marked.fetched (hm : Marked c) {task : SqlTask} {tasks : List SqlTask}
    (htasks : c.tasks = task :: tasks) : Marked { c with tasks := tasks, curTask := some task } :=
  fun _ => hm (Or.inl (by rw [htasks]; exact List.cons_ne_nil _ _))

theorem Marked.operateWait (hm : Marked c) : Marked (c.operateWait h w).2 := by
  unfold MysqlAsyncConn.operateWait fetchNextTask
  cases htasks : c.tasks with
  | nil =>
    simp only [stopTask_eq]
    rintro (hne | hcur)
    · exact absurd rfl hne
    · exact absurd rfl hcur
  | cons task tasks =>
    simp only
    split_ifs
    · exact (hm.fetched htasks).queryStart
    · exact (hm.fetched htasks).execSqlStart

theorem Marked.waitForMysql (hm : Marked c) : Marked (c.waitForMysql h w).2 := by
  unfold MysqlAsyncConn.waitForMysql
  split
  · unfold connectWait
    simp only
    split_ifs
    · exact hm
    · exact Marked.waitNextTask hm
    · exact ((hm.call _).setConnected false).setConnected false
  · exact hm.operateWait
  · unfold queryWait
    simp only
    split_ifs
    · exact hm
    · exact Marked.handleTask hm
    · exact Marked.storeResultStart hm
  · unfold execSqlWait
    simp only
    split_ifs
    · exact hm
    · exact hm
    · exact Marked.handleTask hm
  · unfold storeResultWait
    simp only
    split_ifs
    · exact hm
    · exact hm
    · exact Marked.handleTask hm
  · unfold pingWait
    simp only
    split_ifs
    · exact hm
    · exact hm
    · exact ((hm.call _).setConnected true).handleTask
    · exact (hm.call _).setConnected false
  · exact hm

theorem Marked.pingStart (hm : Marked c) : Marked (c.pingStart h w).2 := by
  unfold MysqlAsyncConn.pingStart
  simp only
  split_ifs
  · exact hm
  · exact Marked.activeEvIo hm _
  · exact (hm.call _).setConnected true
  · exact Marked.handleTask hm

/-! ## Watched connections -/

/-- `handle_task` finds the server lost, and the socket of the new connect is not watched. -/
structure Strands (c : MysqlAsyncConn) (r : Replies) : Prop where
  lost : lostServer r = true
  again : c.reconnectCnt ≠ maxDisconnectTime
  waits : r.realConnectStart.1 ≠ 0
  flagged : c.Flagged r.realConnectStart.1

theorem Strands.congr {r : Replies} (hs : Strands c r) (hcnt : c'.reconnectCnt = c.reconnectCnt)
    (hr : c'.reading = c.reading) (hw : c'.writing = c.writing) : Strands c' r where
  lost := hs.lost
  again := hcnt ▸ hs.again
  waits := hs.waits
  flagged := by
    unfold Flagged
    rw [hr, hw]
    exact hs.flagged

/-- A connect of a connection that has no task, or is down. -/
theorem watched_connectStart (r : Replies) (hactive : c.watcher.active = false)
    (hidle : c.isConnected = false ∨ c.tasks = []) :
    Watched (c.connectStart r) ↔ ¬ (r.realConnectStart.1 ≠ 0 ∧ c.Flagged r.realConnectStart.1) := by
  unfold connectStart
  simp only
  split_ifs with hstatus hconn
  · rw [watched_iff_of_op (by simp [MysqlState.op]), activeEvIo_active]
    have hflagged : ((c.call (.start .realConnect r.realConnectStart.1)).setState
        .connectWaiting).Flagged r.realConnectStart.1 ↔ c.Flagged r.realConnectStart.1 := Iff.rfl
    rw [hflagged]
    simp [hactive, hstatus]
  · refine iff_of_true ?_ fun hbad => hstatus hbad.1
    rintro (hop | ⟨-, hup, htasks⟩)
    · exact absurd rfl hop
    · rcases hidle with hdown | hnil
      · rw [setState_eq, call_eq, hdown] at hup
        cases hup
      · exact absurd hnil htasks
  · refine iff_of_true (Watched.of_noConnected ?_) fun hbad => hstatus hbad.1
    rw [setConnected_false]

theorem watched_settle (hup : c.isConnected = true → c.watcher.active = true)
    (hwatched : Watched c) : Watched (c.settle h w).2 ↔ ¬ Strands c h.replies := by
  unfold settle
  simp only
  split_ifs with hlost hcnt hconn
  · refine iff_of_true (Watched.of_noConnected ?_) fun hs => hs.again ?_
    · obtain ⟨c', hcalled, heq⟩ := clearTasks_spec (h := h) (w := w)
        (c := { c.setConnected false with
          reconnectCnt := (c.setConnected false).reconnectCnt + 1 })
      rw [heq]
      refine hcalled.state.trans ?_
      simp only [stopTask_eq, setConnected_false]
    · rw [← hcnt, setConnected_false]
  · rw [watched_connectStart]
    · refine not_congr ⟨fun ⟨hstatus, hflagged⟩ => ⟨hlost, ?_, hstatus, ?_⟩,
        fun hs => ⟨hs.waits, ?_⟩⟩
      · rwa [setConnected_false] at hcnt
      · simpa only [Flagged, setConnected_false] using hflagged
      · simpa only [Flagged, setConnected_false] using hs.flagged
    · rw [setConnected_false]
    · rw [setConnected_false]
      exact Or.inl rfl
  · refine iff_of_true (Watched.of_active ?_) fun hs => hlost hs.lost
    unfold waitNextTask
    split_ifs
    · exact hup hconn
    · exact (activeEvIo_active _ _).mpr (Or.inl (hup hconn))
  · exact iff_of_true hwatched fun hs => hlost hs.lost

/-- Callbacks leave a connection watched. One that is down keeps its tasks and its watcher. -/
theorem Watched.called (hwatched : Watched c)
    (hup : c.isConnected = true → c.watcher.active = true) (hcalled : Called c c') :
    Watched c' := by
  intro hwaits
  cases hconn : c.isConnected with
  | true => exact hcalled.active (hup hconn)
  | false =>
    obtain ⟨htasks, hwatcher⟩ := hcalled.down hconn
    rw [hwatcher]
    unfold Waits at hwaits
    rw [hcalled.state, hcalled.isConnected, htasks] at hwaits
    exact hwatched hwaits

/-- `handle_task` of a connection that is up and watched, or down. -/
theorem watched_handleTask (hm : Marked c) (hup : c.isConnected = true → c.watcher.active = true)
    (hwatched : Watched c) : Watched (c.handleTask h w).2 ↔ ¬ Strands c h.replies := by
  have hcalled := called_answerTask (h := h) (w := w) (c := c)
  obtain ⟨hreading, hwriting, -⟩ := answerTask_flags (h := h) (w := w) hm
  have hsettle : Watched (c.handleTask h w).2 ↔ ¬ Strands (c.answerTask h w).2 h.replies := by
    refine watched_settle (fun hconn => ?_) ?_
    · exact hcalled.active (hup (hcalled.isConnected ▸ hconn))
    · exact hwatched.called hup hcalled
  rw [hsettle]
  refine not_congr ⟨fun hs => ?_, fun hs => ?_⟩
  · exact hs.congr hcalled.reconnectCnt.symm hreading.symm hwriting.symm
  · exact hs.congr hcalled.reconnectCnt hreading hwriting

/-! ## The handlers of a watched socket -/

/-- The io event ends with `handle_task`, which strands the connection. -/
def IoStrands (c : MysqlAsyncConn) (r : Replies) : Prop :=
  match c.state with
  | .noConnected | .connectWaiting => False
  | .waitOperate => ∃ task, c.tasks.head? = some task ∧ r.realQueryStart.1 = 0 ∧
      (task.oper = .select → r.realQueryStart.2 = 0 → r.storeResultStart = 0) ∧ c.Strands r
  | .queryWaiting =>
    r.realQueryCont.1 = 0 ∧ (r.realQueryCont.2 = 0 → r.storeResultStart = 0) ∧ c.Strands r
  | .execsqlWaiting => c.curTask ≠ none ∧ r.realQueryCont.1 = 0 ∧ c.Strands r
  | .storeWaiting => c.curTask ≠ none ∧ r.storeResultCont = 0 ∧ c.Strands r
  -- The ping has brought the connection up, and the count of reconnects to zero.
  | .pingWaiting => r.pingCont = (0, 0) ∧ c.isConnected = false ∧ (c.setConnected true).Strands r

/-- The answer of a task of an active connection. -/
theorem watched_handleTask_active (hm : Marked c) (hactive : c.watcher.active = true) :
    Watched (c.handleTask h w).2 ↔ ¬ Strands c h.replies :=
  watched_handleTask hm (fun _ => hactive) (Watched.of_active hactive)

theorem watched_storeResultStart (hm : Marked c) (hactive : c.watcher.active = true) :
    Watched (c.storeResultStart h w).2 ↔
      ¬ (h.replies.storeResultStart = 0 ∧ Strands c h.replies) := by
  unfold storeResultStart
  simp only
  split_ifs with hstatus
  · refine iff_of_true (Watched.of_active ?_) fun hbad => hstatus hbad.1
    exact (activeEvIo_active _ _).mpr (Or.inl hactive)
  · rw [not_not] at hstatus
    rw [watched_handleTask_active (hm.call _) hactive]
    exact not_congr ⟨fun hs => ⟨hstatus, hs.congr rfl rfl rfl⟩, fun hs => hs.2.congr rfl rfl rfl⟩

theorem watched_queryStart (hm : Marked c) (hactive : c.watcher.active = true)
    (hcur : c.curTask ≠ none) : Watched (c.queryStart h w).2 ↔
      ¬ (h.replies.realQueryStart.1 = 0 ∧
        (h.replies.realQueryStart.2 = 0 → h.replies.storeResultStart = 0) ∧
        Strands c h.replies) := by
  unfold queryStart
  simp only
  split_ifs with hnone hstatus hret
  · exact absurd (Option.isNone_iff_eq_none.mp hnone) hcur
  · refine iff_of_true (Watched.of_active ?_) fun hbad => hstatus hbad.1
    exact (activeEvIo_active _ _).mpr (Or.inl hactive)
  · rw [not_not] at hstatus
    rw [watched_storeResultStart (hm.call _) hactive]
    refine not_congr ⟨fun hs => ⟨hstatus, fun _ => hs.1, hs.2.congr rfl rfl rfl⟩, fun hs => ?_⟩
    exact ⟨hs.2.1 hret, hs.2.2.congr rfl rfl rfl⟩
  · rw [not_not] at hstatus
    rw [watched_handleTask_active (hm.call _) hactive]
    refine not_congr ⟨fun hs => ⟨hstatus, fun hzero => absurd hzero hret, ?_⟩, fun hs => ?_⟩
    · exact hs.congr rfl rfl rfl
    · exact hs.2.2.congr rfl rfl rfl

theorem watched_execSqlStart (hm : Marked c) (hactive : c.watcher.active = true)
    (hcur : c.curTask ≠ none) : Watched (c.execSqlStart h w).2 ↔
      ¬ (h.replies.realQueryStart.1 = 0 ∧ Strands c h.replies) := by
  unfold execSqlStart
  simp only
  split_ifs with hnone hstatus
  · exact absurd (Option.isNone_iff_eq_none.mp hnone) hcur
  · refine iff_of_true (Watched.of_active ?_) fun hbad => hstatus hbad.1
    exact (activeEvIo_active _ _).mpr (Or.inl hactive)
  · rw [not_not] at hstatus
    rw [watched_handleTask_active (hm.call _) hactive]
    exact not_congr ⟨fun hs => ⟨hstatus, hs.congr rfl rfl rfl⟩, fun hs => hs.2.congr rfl rfl rfl⟩

theorem watched_operateWait (hm : Marked c) (hactive : c.watcher.active = true)
    (hstate : c.state = .waitOperate) :
    Watched (c.operateWait h w).2 ↔ ¬ IoStrands c h.replies := by
  have hio : IoStrands c h.replies ↔ ∃ task, c.tasks.head? = some task ∧
      h.replies.realQueryStart.1 = 0 ∧ (task.oper = .select → h.replies.realQueryStart.2 = 0 →
        h.replies.storeResultStart = 0) ∧ c.Strands h.replies := by
    unfold IoStrands
    rw [hstate]
  rw [hio]
  unfold operateWait fetchNextTask
  cases htasks : c.tasks with
  | nil =>
    -- Without a task the connection does not wait.
    simp only [stopTask_eq]
    refine iff_of_true ?_ fun ⟨task, hhead, _⟩ => by cases hhead
    rintro (hop | ⟨-, -, hne⟩)
    · rw [hstate] at hop
      exact absurd rfl hop
    · exact absurd rfl hne
  | cons task tasks =>
    have hfetched := hm.fetched htasks
    have hcur : (some task : Option SqlTask) ≠ none := Option.some_ne_none task
    simp only [List.head?_cons, Option.some.injEq, exists_eq_left']
    split_ifs with hoper
    · rw [watched_queryStart hfetched hactive hcur]
      refine not_congr ⟨fun hs => ?_, fun hs => ?_⟩
      · exact ⟨hs.1, fun _ => hs.2.1, hs.2.2.congr rfl rfl rfl⟩
      · exact ⟨hs.1, hs.2.1 hoper, hs.2.2.congr rfl rfl rfl⟩
    · rw [watched_execSqlStart hfetched hactive hcur]
      refine not_congr ⟨fun hs => ?_, fun hs => ?_⟩
      · exact ⟨hs.1, fun hselect => absurd hselect hoper, hs.2.congr rfl rfl rfl⟩
      · exact ⟨hs.1, hs.2.2.congr rfl rfl rfl⟩

theorem watched_queryWait (hm : Marked c) (hactive : c.watcher.active = true)
    (hstate : c.state = .queryWaiting) :
    Watched (c.queryWait h w).2 ↔ ¬ IoStrands c h.replies := by
  have hio : IoStrands c h.replies ↔ h.replies.realQueryCont.1 = 0 ∧
      (h.replies.realQueryCont.2 = 0 → h.replies.storeResultStart = 0) ∧ c.Strands h.replies := by
    unfold IoStrands
    rw [hstate]
  rw [hio]
  unfold queryWait
  simp only
  split_ifs with hstatus hret
  · exact iff_of_true (Watched.of_active hactive) fun hbad => hstatus hbad.1
  · rw [not_not] at hstatus
    rw [watched_handleTask_active (hm.call _) hactive]
    refine not_congr ⟨fun hs => ⟨hstatus, fun hzero => absurd hzero hret, ?_⟩, fun hs => ?_⟩
    · exact hs.congr rfl rfl rfl
    · exact hs.2.2.congr rfl rfl rfl
  · rw [not_not] at hstatus hret
    rw [watched_storeResultStart (hm.call _) hactive]
    refine not_congr ⟨fun hs => ⟨hstatus, fun _ => hs.1, hs.2.congr rfl rfl rfl⟩, fun hs => ?_⟩
    exact ⟨hs.2.1 hret, hs.2.2.congr rfl rfl rfl⟩

/-- A handler of a connection that has a task strands it where the connection does. -/
theorem strands_call_iff {op : OpCall MysqlOp} {r : Replies} {status : Prop}
    (hnone : ¬ c.curTask.isNone = true) (hstatus : status) :
    Strands (c.call op) r ↔ c.curTask ≠ none ∧ status ∧ c.Strands r := by
  refine ⟨fun hs => ⟨fun hcur => hnone ?_, hstatus, ?_⟩, fun hs => ?_⟩
  · rw [hcur]
    rfl
  · exact hs.congr rfl rfl rfl
  · exact hs.2.2.congr rfl rfl rfl

theorem watched_execSqlWait (hm : Marked c) (hactive : c.watcher.active = true)
    (hstate : c.state = .execsqlWaiting) :
    Watched (c.execSqlWait h w).2 ↔ ¬ IoStrands c h.replies := by
  have hio : IoStrands c h.replies ↔
      c.curTask ≠ none ∧ h.replies.realQueryCont.1 = 0 ∧ c.Strands h.replies := by
    unfold IoStrands
    rw [hstate]
  rw [hio]
  unfold execSqlWait
  simp only
  split_ifs with hnone hstatus
  · exact iff_of_true (Watched.of_active hactive)
      fun hbad => hbad.1 (Option.isNone_iff_eq_none.mp hnone)
  · exact iff_of_true (Watched.of_active hactive) fun hbad => hstatus hbad.2.1
  · rw [not_not] at hstatus
    rw [watched_handleTask_active (hm.call _) hactive]
    exact not_congr (strands_call_iff hnone hstatus)

theorem watched_storeResultWait (hm : Marked c) (hactive : c.watcher.active = true)
    (hstate : c.state = .storeWaiting) :
    Watched (c.storeResultWait h w).2 ↔ ¬ IoStrands c h.replies := by
  have hio : IoStrands c h.replies ↔
      c.curTask ≠ none ∧ h.replies.storeResultCont = 0 ∧ c.Strands h.replies := by
    unfold IoStrands
    rw [hstate]
  rw [hio]
  unfold storeResultWait
  simp only
  split_ifs with hnone hstatus
  · exact iff_of_true (Watched.of_active hactive)
      fun hbad => hbad.1 (Option.isNone_iff_eq_none.mp hnone)
  · exact iff_of_true (Watched.of_active hactive) fun hbad => hstatus hbad.2.1
  · rw [not_not] at hstatus
    rw [watched_handleTask_active (hm.call _) hactive]
    exact not_congr (strands_call_iff hnone hstatus)

theorem watched_pingWait (hm : Marked c) (hactive : c.watcher.active = true)
    (hstate : c.state = .pingWaiting) :
    Watched (c.pingWait h w).2 ↔ ¬ IoStrands c h.replies := by
  have hio : IoStrands c h.replies ↔ h.replies.pingCont = (0, 0) ∧ c.isConnected = false ∧
      (c.setConnected true).Strands h.replies := by
    unfold IoStrands
    rw [hstate]
  rw [hio, Prod.ext_iff]
  unfold pingWait
  simp only
  split_ifs with hstatus hret hconn
  · exact iff_of_true (Watched.of_active hactive) fun hbad => hstatus hbad.1.1
  · refine iff_of_true (Watched.of_active hactive) fun hbad => ?_
    rw [call_eq, hbad.2.1] at hconn
    cases hconn
  · rw [not_not] at hstatus
    rw [call_eq, Bool.not_eq_true] at hconn
    rw [watched_handleTask_active ((hm.call _).setConnected true) hactive]
    refine not_congr ⟨fun hs => ⟨⟨hstatus, hret⟩, hconn, ?_⟩, fun hs => ?_⟩
    · exact hs.congr rfl rfl rfl
    · exact hs.2.2.congr rfl rfl rfl
  · refine iff_of_true (Watched.of_noConnected ?_) fun hbad => hret hbad.1.2
    rw [setConnected_false]

/-- An io event of an active watcher. -/
theorem watched_waitForMysql (hm : Marked c) (hactive : c.watcher.active = true) :
    Watched (c.waitForMysql h w).2 ↔ ¬ IoStrands c h.replies := by
  unfold waitForMysql
  split
  case h_1 hstate =>
    refine iff_of_true ?_ fun hio => ?_
    · unfold connectWait
      simp only
      split_ifs
      · exact Watched.of_active hactive
      · refine Watched.of_active ?_
        unfold waitNextTask
        split_ifs
        · exact hactive
        · exact (activeEvIo_active _ _).mpr (Or.inl hactive)
      · refine Watched.of_noConnected ?_
        rw [setConnected_false]
    · unfold IoStrands at hio
      rw [hstate] at hio
      exact hio
  case h_2 hstate => exact watched_operateWait hm hactive hstate
  case h_3 hstate => exact watched_queryWait hm hactive hstate
  case h_4 hstate => exact watched_execSqlWait hm hactive hstate
  case h_5 hstate => exact watched_storeResultWait hm hactive hstate
  case h_6 hstate => exact watched_pingWait hm hactive hstate
  case h_7 hstate =>
    refine iff_of_true (Watched.of_active hactive) fun hio => ?_
    unfold IoStrands at hio
    rw [hstate] at hio
    exact hio

/-! ## The timer and the new tasks -/

/-- The ping waits for a socket that is not watched, or brings up a connection that has tasks and
no active watcher, or strands the connection. -/
def TimerStrands (c : MysqlAsyncConn) (r : Replies) : Prop :=
  c.isConnected = false ∧
    if r.pingStart.1 ≠ 0 then c.watcher.active = false ∧ c.Flagged r.pingStart.1
    else if r.pingStart.2 = 0 then
      c.state = .waitOperate ∧ c.tasks ≠ [] ∧ c.watcher.active = false
    else c.Strands r

theorem watched_pingStart (hm : Marked c) (hwatched : Watched c) :
    Watched (c.pingStart h w).2 ↔ ¬ TimerStrands c h.replies := by
  unfold pingStart TimerStrands
  simp only
  cases hconn : c.isConnected with
  | true =>
    rw [if_pos rfl]
    exact iff_of_true hwatched fun hbad => by cases hbad.1
  | false =>
    simp only [Bool.false_eq_true, if_false, true_and]
    split_ifs with hstatus hret
    · rw [watched_iff_of_op (by simp [MysqlState.op]), activeEvIo_active]
      have hflagged : ((c.call (.start .ping h.replies.pingStart.1)).setState
          .pingWaiting).Flagged h.replies.pingStart.1 ↔ c.Flagged h.replies.pingStart.1 := Iff.rfl
      rw [hflagged, setState_eq, call_eq]
      cases c.watcher.active with
      | true => simp
      | false => simp
    · -- The connection is up now, in the state that it had before.
      cases hactive : c.watcher.active with
      | true => exact iff_of_true (Watched.of_active hactive) fun hbad => by cases hbad.2.2
      | false =>
        have hop : c.state.op = none := by
          by_contra hop
          rw [hwatched (Or.inl hop)] at hactive
          cases hactive
        constructor
        · rintro hafter ⟨hstate, htasks, -⟩
          have hon : c.watcher.active = true := hafter (Or.inr ⟨hstate, rfl, htasks⟩)
          rw [hactive] at hon
          cases hon
        · rintro hgood (hop' | ⟨hstate, -, htasks⟩)
          · exact absurd hop hop'
          · exact absurd ⟨hstate, htasks, rfl⟩ hgood
    · rw [not_not] at hstatus
      have hdown : (c.call (.start .ping h.replies.pingStart.1)).isConnected = true →
          c.watcher.active = true := fun hup => by
        rw [call_eq, hconn] at hup
        cases hup
      rw [watched_handleTask (hm.call _) hdown hwatched]
      exact not_congr ⟨fun hs => hs.congr rfl rfl rfl, fun hs => hs.congr rfl rfl rfl⟩

/-- The task goes to an idle connection that has flagged the writing before. -/
def AddStrands (c : MysqlAsyncConn) (task : Option SqlTask) : Prop :=
  task ≠ none ∧ c.isConnected = true ∧ c.state = .waitOperate ∧ c.watcher.active = false ∧
    c.writing = true

theorem watched_addTask (hwatched : Watched c) (task : Option SqlTask) :
    Watched (c.addTask task).2 ↔ ¬ AddStrands c task := by
  unfold addTask AddStrands
  cases task with
  | none => exact iff_of_true hwatched fun hbad => hbad.1 rfl
  | some task =>
    simp only
    split_ifs with hconn
    · have hne : isTaskEmpty { c with tasks := c.tasks ++ [task] } = false := by
        simp [isTaskEmpty]
      simp only [waitNextTask, hne, Bool.false_eq_true, if_false]
      have hafter : (activeEvIo { c with tasks := c.tasks ++ [task] } mysqlWaitWrite).watcher.active
          = true ↔ c.watcher.active = true ∨ ¬ c.writing = true := by
        rw [activeEvIo_active, flagged_write]
      constructor
      · rintro hall ⟨-, -, hstate, hactive, hwriting⟩
        rcases hafter.mp (hall (Or.inr ⟨hstate, hconn, by simp⟩)) with hon | hoff
        · rw [hactive] at hon
          cases hon
        · exact hoff hwriting
      · rintro hgood (hop | ⟨hstate, -, -⟩)
        · exact hafter.mpr (Or.inl (hwatched (Or.inl hop)))
        · refine hafter.mpr ?_
          by_contra hneither
          rw [not_or, not_not, Bool.not_eq_true] at hneither
          exact hgood ⟨Option.some_ne_none _, hconn, hstate, hneither⟩
    · exact iff_of_true hwatched fun hbad => hconn hbad.2.1

end MysqlAsyncConn

/-! ## Runs -/

/-- The steps after which a connection waits for a socket that it does not watch. -/
def LosesWakeup {σ : Type*} (s : σ × MysqlAsyncConn) : ConnEvent σ → Prop
  | .io host => s.2.watcher.active = true ∧ s.2.IoStrands host.replies
  | .timer host => s.2.TimerStrands host.replies
  | .addTask task => s.2.AddStrands task

variable {σ : Type*}

theorem MysqlAsyncConn.Marked.step {s : σ × MysqlAsyncConn} (hm : s.2.Marked) (e : ConnEvent σ) :
    ((connMachine σ).step s e).2.Marked := by
  obtain ⟨w, c⟩ := s
  cases e with
  | io host =>
    simp only [connMachine, connStep]
    split_ifs
    · exact Marked.waitForMysql hm
    · exact hm
  | timer host => exact Marked.pingStart hm
  | addTask task => exact Marked.addTask hm task

/-- One step from a watched connection. -/
theorem MysqlAsyncConn.watched_step {s : σ × MysqlAsyncConn} (hm : s.2.Marked)
    (hwatched : s.2.Watched) (e : ConnEvent σ) :
    ((connMachine σ).step s e).2.Watched ↔ ¬ LosesWakeup s e := by
  obtain ⟨w, c⟩ := s
  cases e with
  | io host =>
    simp only [connMachine, connStep, LosesWakeup]
    split_ifs with hactive
    · rw [watched_waitForMysql hm hactive]
      exact not_congr ⟨fun hio => ⟨hactive, hio⟩, And.right⟩
    · exact iff_of_true hwatched fun hbad => hactive hbad.1
  | timer host => exact watched_pingStart hm hwatched
  | addTask task => exact watched_addTask hwatched task

/-- The connect of `init` is watched, if it has to wait for a direction of the socket. -/
theorem MysqlAsyncConn.watched_init (dbInfo : DbInfo) (r : Replies) :
    Watched (init dbInfo r) ↔
      (r.realConnectStart.1 ≠ 0 → mysqlStatusToLibevEvent r.realConnectStart.1 ≠ 0) := by
  unfold init
  rw [watched_connectStart r rfl (Or.inr rfl), not_and]
  refine imp_congr_right fun _ => not_congr ?_
  have hevents : ∀ status, mysqlStatusToLibevEvent status = 0 ↔
      mysqlStatusToLibevEvent status &&& evRead = 0 ∧
        mysqlStatusToLibevEvent status &&& evWrite = 0 := by
    intro status
    unfold mysqlStatusToLibevEvent
    split_ifs <;> decide
  rw [hevents]
  simp [Flagged]

/-- **No lost wake-up**: in every state of a run of a connection the watcher is active whenever an
operation is in flight, or the connection is up and has a task, exactly when the connect of
`init` waits for a direction of the socket, if it waits, and no step strands the connection. -/
theorem watched_run_iff (dbInfo : DbInfo) (r : Replies) (w : σ) (es : List (ConnEvent σ)) :
    ((r.realConnectStart.1 ≠ 0 → mysqlStatusToLibevEvent r.realConnectStart.1 ≠ 0) ∧
        (connMachine σ).Meets (fun s e => ¬ LosesWakeup s e)
          (w, MysqlAsyncConn.init dbInfo r) es) ↔
      ∀ past, past <+: es →
        ((connMachine σ).run (w, MysqlAsyncConn.init dbInfo r) past).2.Watched := by
  rw [← MysqlAsyncConn.watched_init dbInfo r]
  have hexact : MysqlAsyncConn.Watched (MysqlAsyncConn.init dbInfo r) →
      ((connMachine σ).Meets (fun s e => ¬ LosesWakeup s e)
          (w, MysqlAsyncConn.init dbInfo r) es ↔
        ∀ past, past <+: es →
          ((connMachine σ).run (w, MysqlAsyncConn.init dbInfo r) past).2.Watched) := by
    intro hinit
    refine Machine.Meets.iff_forall_prefix
      (I := fun s : σ × MysqlAsyncConn => s.2.Marked ∧ s.2.Watched)
      (P := fun s => s.2.Watched) (Q := fun _ => True) ?_ ?_ ?_ ?_ fun _ _ => trivial
    · exact fun s hs => hs.2
    · exact fun s e _ hs he => ⟨hs.1.step e, (MysqlAsyncConn.watched_step hs.1 hs.2 e).mpr he⟩
    · exact fun s e _ hs hafter => (MysqlAsyncConn.watched_step hs.1 hs.2 e).mp hafter
    · exact ⟨MysqlAsyncConn.marked_init dbInfo r, hinit⟩
  constructor
  · rintro ⟨hinit, hmeets⟩
    exact (hexact hinit).mp hmeets
  · intro hall
    have hinit := hall [] List.nil_prefix
    exact ⟨hinit, (hexact hinit).mpr hall⟩

/-- A connection comes up, finds no task, and stops its watcher. The next task does not start it
again. -/
theorem watched_idle_fails :
    ¬ ((connMachine Unit).run
      ((), MysqlAsyncConn.init sampleDb { realConnectStart := (2, false) })
      [.io (quiet { realConnectCont := (0, true) }), .io (quiet {}),
        .addTask (some { id := 1, sql := text "select 1", fnQuery := some 1 })]).2.Watched := by
  intro hwatched
  have hwaits : MysqlAsyncConn.Waits ((connMachine Unit).run
      ((), MysqlAsyncConn.init sampleDb { realConnectStart := (2, false) })
      [.io (quiet { realConnectCont := (0, true) }), .io (quiet {}),
        .addTask (some { id := 1, sql := text "select 1", fnQuery := some 1 })]).2 :=
    Or.inr ⟨by decide, by decide, by decide⟩
  have hactive := hwatched hwaits
  revert hactive
  decide

end Kimserver
