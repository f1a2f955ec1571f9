import Kimserver.Db.MysqlAsyncConn

/-!
# The tasks of a connection

A task waits in the queue of its connection, is the current task while its statement runs, and
is answered by its callback, which is gone from the task afterwards. A connection owes the
callbacks of the tasks in its queue, and that of the current task until it ran.

What a connection owes is read off its fields. The world keeps its own account: `J w owed` says
that the world `w` waits for the callbacks of the tasks `owed`.

## Main definitions

* `MysqlAsyncConn.owed`: the tasks that a connection has to answer
* `MysqlAsyncConn.Orderly`: the invariant of a connection
* `Host.Answers`: a callback settles its task, and adds the tasks that it submits
* `MysqlAsyncConn.Kept`: the account of the world agrees with an orderly connection

## Main results

* `MysqlAsyncConn.Kept.waitForMysql`, `MysqlAsyncConn.Kept.pingStart`: the handlers drop no task
* `MysqlAsyncConn.done_clearTasks`: nor does the end of a connection
-/

namespace Kimserver

/-- A task has one callback. -/
def SqlTask.Single (task : SqlTask) : Prop := task.fnQuery.isSome ≠ task.fnExec.isSome

/-- The callback of the task did not run. -/
def SqlTask.isOpen (task : SqlTask) : Bool := task.fnQuery.isSome || task.fnExec.isSome

theorem SqlTask.Single.isOpen {task : SqlTask} (h : task.Single) : task.isOpen = true := by
  unfold SqlTask.Single at h
  unfold SqlTask.isOpen
  cases hquery : task.fnQuery.isSome with
  | true => rfl
  | false =>
    cases hexec : task.fnExec.isSome with
    | true => rfl
    | false => exact absurd (hquery.trans hexec.symm) h

/-- The states in which a task runs. -/
def MysqlState.Runs (state : MysqlState) : Prop :=
  state = .queryWaiting ∨ state = .execsqlWaiting ∨ state = .storeWaiting

namespace MysqlAsyncConn

/-- The tasks that the connection has to answer. -/
def owed (c : MysqlAsyncConn) : List ℕ :=
  ((c.curTask.filter SqlTask.isOpen).toList ++ c.tasks).map SqlTask.id

/-- A connection that is down runs no task, and does not look for one. -/
def Resting (c : MysqlAsyncConn) : Prop :=
  c.state = .noConnected ∨ c.state = .connectWaiting ∨ c.state = .pingWaiting ∨
    c.state = .waitOperate ∧ c.watcher.active = false

/-- The callbacks of the tasks are in place, and an open current task runs. -/
structure Orderly (c : MysqlAsyncConn) : Prop where
  queued : ∀ task ∈ c.tasks, task.Single
  current : ∀ task ∈ c.curTask, task.isOpen = true → task.Single ∧ c.state.Runs
  down : c.isConnected = false → c.Resting

end MysqlAsyncConn

section Hosts

variable {σ : Type*}

/-- In this host a callback settles its task, and adds the tasks that it submits. -/
def Host.Answers (h : Host σ) (J : σ → List ℕ → Prop) : Prop :=
  ∀ task w (c : MysqlAsyncConn) rest, (∀ t ∈ c.tasks, t.Single) → J w (task.id :: rest) →
    ∃ added, (∀ t ∈ added, SqlTask.Single t) ∧ (h.run task w c).2.tasks = c.tasks ++ added ∧
      J (h.run task w c).1 (rest ++ added.map SqlTask.id)

end Hosts

namespace MysqlAsyncConn

variable {σ : Type*} {h : Host σ} {w : σ} {c c' : MysqlAsyncConn} {J : σ → List ℕ → Prop}

/-- The account of the world agrees with an orderly connection. -/
structure Kept (J : σ → List ℕ → Prop) (p : σ × MysqlAsyncConn) : Prop where
  world : J p.1 p.2.owed
  orderly : p.2.Orderly

/-- The current task is answered, or there is none. -/
structure Done (J : σ → List ℕ → Prop) (p : σ × MysqlAsyncConn) : Prop where
  world : J p.1 p.2.owed
  queued : ∀ task ∈ p.2.tasks, task.Single
  current : ∀ task ∈ p.2.curTask, task.isOpen = false

/-- A connection that is up, and may have an open current task. -/
structure Busy (J : σ → List ℕ → Prop) (p : σ × MysqlAsyncConn) : Prop where
  world : J p.1 p.2.owed
  queued : ∀ task ∈ p.2.tasks, task.Single
  current : ∀ task ∈ p.2.curTask, task.isOpen = true → task.Single
  up : p.2.isConnected = true

/-! ## What is owed -/

theorem owed_congr (htasks : c'.tasks = c.tasks) (hcur : c'.curTask = c.curTask) :
    c'.owed = c.owed := by
  unfold owed
  rw [htasks, hcur]

/-- An answered task is not owed. -/
theorem owed_of_closed (hcur : ∀ task ∈ c.curTask, task.isOpen = false) :
    c.owed = c.tasks.map SqlTask.id := by
  unfold owed
  cases htask : c.curTask with
  | none => rfl
  | some task => simp [hcur task htask]

theorem owed_answered {task : SqlTask} (hclosed : task.isOpen = false) :
    owed { c with curTask := some task } = c.tasks.map SqlTask.id :=
  owed_of_closed (c := { c with curTask := some task }) fun _ ht => Option.some.inj ht ▸ hclosed

/-- An open current task is owed first. -/
theorem owed_of_open {task : SqlTask} (hcur : c.curTask = some task)
    (hopen : task.isOpen = true) : c.owed = task.id :: c.tasks.map SqlTask.id := by
  unfold owed
  simp [hcur, Option.filter, hopen]

theorem Done.congr {p p' : σ × MysqlAsyncConn} (hd : Done J p) (hworld : p'.1 = p.1)
    (htasks : p'.2.tasks = p.2.tasks) (hcur : p'.2.curTask = p.2.curTask) : Done J p' where
  world := by
    rw [hworld, owed_congr htasks hcur]
    exact hd.world
  queued := htasks ▸ hd.queued
  current := hcur ▸ hd.current

theorem Done.kept {p : σ × MysqlAsyncConn} (hd : Done J p)
    (hdown : p.2.isConnected = false → p.2.Resting) : Kept J p where
  world := hd.world
  orderly :=
    { queued := hd.queued
      current := fun task htask hopen => by
        rw [hd.current task htask] at hopen
        cases hopen
      down := hdown }

/-- A step that leaves the tasks alone. -/
theorem Done.move {p p' : σ × MysqlAsyncConn} (hd : Done J p) (hworld : p'.1 = p.1)
    (htasks : p'.2.tasks = p.2.tasks) (hcur : p'.2.curTask = p.2.curTask)
    (hdown : p'.2.isConnected = false → p'.2.Resting) : Kept J p' :=
  (hd.congr hworld htasks hcur).kept hdown

theorem Done.busy {p : σ × MysqlAsyncConn} (hd : Done J p) (hup : p.2.isConnected = true) :
    Busy J p where
  world := hd.world
  queued := hd.queued
  current task htask hopen := by
    rw [hd.current task htask] at hopen
    cases hopen
  up := hup

/-- Outside of the states in which a task runs, the current task is answered. -/
theorem Kept.done {p : σ × MysqlAsyncConn} (hk : Kept J p) (hstate : ¬ p.2.state.Runs) :
    Done J p where
  world := hk.world
  queued := hk.orderly.queued
  current task htask := by
    by_contra hopen
    rw [Bool.not_eq_false] at hopen
    exact hstate (hk.orderly.current task htask hopen).2

theorem Resting.not_runs (hrest : c.Resting) : ¬ c.state.Runs := by
  unfold MysqlState.Runs
  rcases hrest with hstate | hstate | hstate | ⟨hstate, -⟩
  · simp [hstate]
  · simp [hstate]
  · simp [hstate]
  · simp [hstate]

/-- Callbacks leave a connection that is down at rest. -/
theorem Called.resting (hcalled : Called c c') (hdown : c.isConnected = false → c.Resting)
    (hfalse : c'.isConnected = false) : c'.Resting := by
  have hconn : c.isConnected = false := hcalled.isConnected ▸ hfalse
  unfold Resting
  rw [hcalled.state, (hcalled.down hconn).2]
  exact hdown hconn

/-- A task runs on a connection that is up. -/
theorem Kept.busy {p : σ × MysqlAsyncConn} (hk : Kept J p) (hstate : p.2.state.Runs) :
    Busy J p where
  world := hk.world
  queued := hk.orderly.queued
  current task htask hopen := (hk.orderly.current task htask hopen).1
  up := by
    by_contra hdown
    rw [Bool.not_eq_true] at hdown
    exact (hk.orderly.down hdown).not_runs hstate

/-- A step that leaves the tasks, the state and the connection alone. -/
theorem Kept.congr {p p' : σ × MysqlAsyncConn} (hk : Kept J p) (hworld : p'.1 = p.1)
    (htasks : p'.2.tasks = p.2.tasks) (hcur : p'.2.curTask = p.2.curTask)
    (hstate : p'.2.state = p.2.state) (hconn : p'.2.isConnected = p.2.isConnected)
    (hwatcher : p'.2.watcher = p.2.watcher) : Kept J p' where
  world := by
    rw [hworld, owed_congr htasks hcur]
    exact hk.world
  orderly :=
    { queued := htasks ▸ hk.orderly.queued
      current := by
        rw [hcur, hstate]
        exact hk.orderly.current
      down := by
        unfold Resting
        rw [hconn, hstate, hwatcher]
        exact hk.orderly.down }

/-- The operation of the task has to wait. -/
theorem Busy.wait {p p' : σ × MysqlAsyncConn} (hb : Busy J p) (hworld : p'.1 = p.1)
    (htasks : p'.2.tasks = p.2.tasks) (hcur : p'.2.curTask = p.2.curTask)
    (hconn : p'.2.isConnected = p.2.isConnected) (hstate : p'.2.state.Runs) : Kept J p' where
  world := by
    rw [hworld, owed_congr htasks hcur]
    exact hb.world
  orderly :=
    { queued := htasks ▸ hb.queued
      current := fun task htask hopen => ⟨hb.current task (hcur ▸ htask) hopen, hstate⟩
      down := fun hdown => by
        rw [hconn, hb.up] at hdown
        cases hdown }

/-! ## Callbacks -/

/-- The callback of a task that is answered does nothing. -/
theorem callback_of_closed {task : SqlTask} (hclosed : task.isOpen = false) :
    (c.callback h w task).2 = (w, c) ∧ (c.callback h w task).1.isOpen = false := by
  obtain ⟨hquery, hexec⟩ := Bool.or_eq_false_iff.mp hclosed
  unfold callback
  rw [hquery]
  simp only [Bool.false_eq_true, if_false]
  rw [hexec]
  exact ⟨rfl, rfl⟩

/-- The callback of a task runs once. -/
theorem callback_of_single {task : SqlTask} (hsingle : task.Single) :
    ∃ t : SqlTask, t.id = task.id ∧ (c.callback h w task).2 = h.run t w c ∧
      (c.callback h w task).1.isOpen = false := by
  unfold SqlTask.Single at hsingle
  unfold callback
  cases hquery : task.fnQuery.isSome with
  | true =>
    have hexec : task.fnExec.isSome = false := by
      rw [hquery] at hsingle
      exact Bool.not_eq_true _ ▸ Ne.symm hsingle
    simp only [hexec, if_true, Bool.false_eq_true, if_false]
    exact ⟨task, rfl, rfl, rfl⟩
  | false =>
    have hexec : task.fnExec.isSome = true := by
      rw [hquery] at hsingle
      exact Bool.not_eq_false _ ▸ Ne.symm hsingle
    simp only [hexec, if_true, Bool.false_eq_true, if_false]
    exact ⟨{ task with fnQuery := none }, rfl, rfl, rfl⟩

theorem callbackCur_of_some {task : SqlTask} (htask : c.curTask = some task) :
    c.callbackCur h w = ((c.callback h w task).2.1,
      { (c.callback h w task).2.2 with curTask := some (c.callback h w task).1 }) := by
  unfold callbackCur
  rw [htask]

/-- The callback of the current task. -/
theorem done_callbackCur (hh : h.Answers J) (hw : J w c.owed) (hq : ∀ task ∈ c.tasks, task.Single)
    (hcur : ∀ task ∈ c.curTask, task.isOpen = true → task.Single) :
    Done J (c.callbackCur h w) := by
  cases htask : c.curTask with
  | none =>
    unfold callbackCur
    rw [htask]
    exact ⟨hw, hq, fun task hmem => by rw [htask] at hmem; cases hmem⟩
  | some task =>
    rw [callbackCur_of_some htask]
    cases hopen : task.isOpen with
    | false =>
      obtain ⟨hrun, hclosed⟩ := callback_of_closed (h := h) (w := w) (c := c) hopen
      rw [hrun]
      refine ⟨?_, hq, fun t ht => Option.some.inj ht ▸ hclosed⟩
      rw [owed_answered hclosed]
      rw [owed_of_closed fun t ht => ?_] at hw
      · exact hw
      · rw [htask] at ht
        exact Option.some.inj ht ▸ hopen
    | true =>
      obtain ⟨t, hid, hrun, hclosed⟩ := callback_of_single (h := h) (w := w) (c := c)
        (hcur task htask hopen)
      rw [owed_of_open htask hopen, ← hid] at hw
      obtain ⟨added, hadded, htasks, hworld⟩ := hh t w c _ hq hw
      rw [hrun]
      refine ⟨?_, fun t' ht' => ?_, fun t' ht' => Option.some.inj ht' ▸ hclosed⟩
      · rw [owed_answered hclosed, htasks, List.map_append]
        exact hworld
      · rw [htasks] at ht'
        exact (List.mem_append.mp ht').elim (hq t') (hadded t')

/-- Writing an error into the current task does not change what is owed. -/
theorem owed_setErrInfo (error : ℤ) (errstr : Bytes) :
    (c.setErrInfo error errstr).owed = c.owed := by
  unfold owed setErrInfo
  cases c.curTask with
  | none => rfl
  | some task =>
    have hsame : SqlTask.isOpen { task with error := error, errstr := errstr } = task.isOpen := rfl
    simp only [Option.map_some, Option.filter, hsame]
    split_ifs
    · rfl
    · rfl

/-- Answering the current task. -/
theorem done_answerTask (hh : h.Answers J) (hw : J w c.owed) (hq : ∀ task ∈ c.tasks, task.Single)
    (hcur : ∀ task ∈ c.curTask, task.isOpen = true → task.Single) :
    Done J (c.answerTask h w) := by
  refine done_callbackCur hh ?_ hq ?_
  · rw [owed_setErrInfo]
    exact hw
  · intro task htask
    obtain ⟨t, ht, rfl⟩ := Option.map_eq_some_iff.mp htask
    exact hcur t ht

/-- The tasks of a queue are answered one after the other, if their callbacks add no task to the
connection. -/
theorem clearQueue_settles (hh : h.Answers J) {conn : Bool}
    (hstay : ∀ task w (c : MysqlAsyncConn) rest, c.isConnected = conn → J w rest →
      (h.run task w c).2.tasks = c.tasks)
    (hconn : c.isConnected = conn) (hq : ∀ task ∈ c.tasks, task.Single) {tasks : List SqlTask}
    (htasks : ∀ task ∈ tasks, task.Single) (hw : J w (tasks.map SqlTask.id)) :
    J (clearQueue h (w, c) tasks).1 [] := by
  induction tasks generalizing w c with
  | nil => exact hw
  | cons task tasks ih =>
    have hsingle : SqlTask.Single { task with error := -1, errstr := text "terminated!" } :=
      htasks task List.mem_cons_self
    obtain ⟨t, hid, hrun, -⟩ := callback_of_single (h := h) (w := w) (c := c) hsingle
    have hw' : J w (t.id :: tasks.map SqlTask.id) := by
      rw [hid]
      exact hw
    obtain ⟨added, -, hadded, hworld⟩ := hh t w c _ hq hw'
    have hsame := hstay t w c _ hconn hw'
    have hnone : added = [] := List.append_right_eq_self.mp (hadded.symm.trans hsame)
    unfold clearQueue
    rw [hrun]
    refine ih (w := (h.run t w c).1) (c := (h.run t w c).2) ?_ ?_ ?_ ?_
    · exact (called_run t).isConnected.trans hconn
    · rw [hsame]
      exact hq
    · exact fun t' ht' => htasks t' (List.mem_cons_of_mem _ ht')
    · rw [hnone, List.map_nil, List.append_nil] at hworld
      exact hworld

/-- `clear_tasks` answers all tasks. -/
theorem done_clearTasks (hh : h.Answers J)
    (hstay : ∀ task w (c' : MysqlAsyncConn) rest, c'.isConnected = c.isConnected → J w rest →
      (h.run task w c').2.tasks = c'.tasks)
    (hw : J w c.owed) (hq : ∀ task ∈ c.tasks, task.Single)
    (hcur : ∀ task ∈ c.curTask, task.isOpen = true → task.Single) :
    Done J (c.clearTasks h w) := by
  have hmarked : ∀ c' : MysqlAsyncConn, c'.owed = c.owed → c'.tasks = c.tasks →
      c'.isConnected = c.isConnected → (∀ task ∈ c'.curTask, task.isOpen = true → task.Single) →
      Done J (c'.callbackCur h w) ∧ (c'.callbackCur h w).2.isConnected = c.isConnected := by
    intro c' howed htasks hconn hcur'
    refine ⟨done_callbackCur hh (howed ▸ hw) (htasks ▸ hq) hcur', ?_⟩
    exact called_callbackCur.isConnected.trans hconn
  have hstop : c.stopTask.owed = c.owed ∧ c.stopTask.tasks = c.tasks ∧
      c.stopTask.isConnected = c.isConnected ∧ c.stopTask.curTask = c.curTask := by
    rw [stopTask_eq]
    exact ⟨rfl, rfl, rfl, rfl⟩
  obtain ⟨howed, htasks, hconn, hcurTask⟩ := hstop
  unfold clearTasks
  simp only
  have hdone : ∀ p : σ × MysqlAsyncConn, Done J p → p.2.isConnected = c.isConnected →
      Done J ((clearQueue h (p.1, { p.2 with curTask := none }) p.2.tasks).1,
        { (clearQueue h (p.1, { p.2 with curTask := none }) p.2.tasks).2 with tasks := [] }) := by
    intro p hp hpconn
    have hworld := hp.world
    rw [owed_of_closed hp.current] at hworld
    have hnone := curTask_clearQueue (h := h) (w := p.1) (c := { p.2 with curTask := none })
      p.2.tasks
    have hempty := clearQueue_settles (c := { p.2 with curTask := none }) hh hstay hpconn
      hp.queued hp.queued hworld
    refine ⟨?_, (fun task htask => by cases htask), fun task htask => ?_⟩
    · unfold owed
      rw [hnone]
      exact hempty
    · rw [hnone] at htask
      cases htask
  split_ifs
  · have hset := hmarked (c.stopTask.setErrInfo (-1) (text "terminated!"))
      ((owed_setErrInfo _ _).trans howed) htasks hconn ?_
    · exact hdone _ hset.1 hset.2
    · intro task htask
      obtain ⟨t, ht, rfl⟩ := Option.map_eq_some_iff.mp htask
      exact hcur t (hcurTask ▸ ht)
  · have hset := hmarked c.stopTask howed htasks hconn (hcurTask ▸ hcur)
    exact hdone _ hset.1 hset.2

theorem owed_clearTasks : (c.clearTasks h w).2.owed = [] := by
  unfold owed clearTasks
  simp only
  rw [curTask_clearQueue]
  rfl

/-! ## The handlers -/

/-- `clear_tasks` of a connection that rests, or is up. -/
theorem kept_clearTasks (hdone : Done J (c.clearTasks h w))
    (hdown : c.isConnected = false → c.Resting) : Kept J (c.clearTasks h w) := by
  refine hdone.kept fun hfalse => ?_
  obtain ⟨c', hcalled, heq⟩ := clearTasks_spec (h := h) (w := w) (c := c)
  rw [stopTask_eq] at hcalled
  rw [heq] at hfalse ⊢
  have hconn : c.isConnected = false := hcalled.isConnected.symm.trans hfalse
  have hwatcher : c'.watcher.active = false := by rw [(hcalled.down hconn).2]
  unfold Resting
  rw [show c'.state = c.state from hcalled.state]
  rcases hdown hconn with hstate | hstate | hstate | ⟨hstate, -⟩
  · exact Or.inl hstate
  · exact Or.inr (Or.inl hstate)
  · exact Or.inr (Or.inr (Or.inl hstate))
  · exact Or.inr (Or.inr (Or.inr ⟨hstate, hwatcher⟩))

theorem Done.connectStart (hd : Done J (w, c))
    (hdown : c.isConnected = false → c.watcher.active = false) (r : Replies) :
    Kept J (w, c.connectStart r) := by
  unfold MysqlAsyncConn.connectStart
  simp only
  split_ifs
  · exact hd.move rfl rfl rfl fun _ => Or.inr (Or.inl rfl)
  · exact hd.move rfl rfl rfl fun hfalse => Or.inr (Or.inr (Or.inr ⟨rfl, hdown hfalse⟩))
  · rw [setConnected_false]
    exact hd.move rfl rfl rfl fun _ => Or.inl rfl

/-- An up connection goes on to its next task. -/
theorem Done.next (hd : Done J (w, c)) (hup : c.isConnected = true) :
    Kept J (w, (c.setState .waitOperate).waitNextTask) := by
  have hdown : ∀ {c' : MysqlAsyncConn}, c'.isConnected = c.isConnected →
      c'.isConnected = false → c'.Resting := by
    intro c' hc' hfalse
    rw [hc', hup] at hfalse
    cases hfalse
  unfold waitNextTask
  split_ifs
  · exact hd.move rfl rfl rfl (hdown rfl)
  · exact hd.move rfl rfl rfl (hdown rfl)

theorem Done.settle (hh : h.Answers J) (hd : Done J (w, c))
    (hdown : c.isConnected = false → c.Resting) : Kept J (c.settle h w) := by
  unfold MysqlAsyncConn.settle
  simp only [setConnected_false]
  split_ifs with hlost hcnt hup
  · -- The connection is down, so that the callbacks cannot add tasks to it.
    refine kept_clearTasks (done_clearTasks hh ?_ hd.world hd.queued ?_) fun _ => Or.inl rfl
    · exact fun task w c' rest hconn _ => ((called_run task).down hconn).1
    · intro task htask hopen
      rw [hd.current task htask] at hopen
      cases hopen
  · refine Done.connectStart ?_ ?_ _
    · exact hd.congr rfl rfl rfl
    · exact fun _ => rfl
  · exact hd.next hup
  · exact hd.kept hdown

/-- `handle_task` of a connection that rests, or is up. -/
theorem kept_handleTask (hh : h.Answers J) (hw : J w c.owed) (hq : ∀ task ∈ c.tasks, task.Single)
    (hcur : ∀ task ∈ c.curTask, task.isOpen = true → task.Single)
    (hdown : c.isConnected = false → c.Resting) : Kept J (c.handleTask h w) := by
  have hcalled := called_answerTask (h := h) (w := w) (c := c)
  exact Done.settle hh (done_answerTask hh hw hq hcur) (hcalled.resting hdown)

theorem Busy.handleTask (hh : h.Answers J) (hb : Busy J (w, c)) : Kept J (c.handleTask h w) := by
  refine kept_handleTask hh hb.world hb.queued hb.current fun hfalse => ?_
  rw [show c.isConnected = true from hb.up] at hfalse
  cases hfalse

/-- A call on `m_mysql` leaves the tasks alone. -/
theorem Busy.call (hb : Busy J (w, c)) (op : OpCall MysqlOp) : Busy J (w, c.call op) :=
  ⟨hb.world, hb.queued, hb.current, hb.up⟩

theorem Done.call (hd : Done J (w, c)) (op : OpCall MysqlOp) : Done J (w, c.call op) :=
  hd.congr rfl rfl rfl

theorem Busy.storeResultStart (hh : h.Answers J) (hb : Busy J (w, c)) :
    Kept J (c.storeResultStart h w) := by
  unfold MysqlAsyncConn.storeResultStart
  simp only
  split_ifs
  · exact hb.wait rfl rfl rfl rfl (Or.inr (Or.inr rfl))
  · exact (hb.call _).handleTask hh

/-- Without a current task nothing starts. -/
theorem Busy.kept (hb : Busy J (w, c)) (hnone : c.curTask.isNone = true) : Kept J (w, c) := by
  refine Done.kept ⟨hb.world, hb.queued, fun task htask => ?_⟩ fun hfalse => ?_
  · rw [show c.curTask = some task from htask] at hnone
    cases hnone
  · rw [hb.up] at hfalse
    cases hfalse

theorem Busy.queryStart (hh : h.Answers J) (hb : Busy J (w, c)) : Kept J (c.queryStart h w) := by
  unfold MysqlAsyncConn.queryStart
  simp only
  split_ifs with hnone
  · exact hb.kept hnone
  · exact hb.wait rfl rfl rfl rfl (Or.inl rfl)
  · exact (hb.call _).storeResultStart hh
  · exact (hb.call _).handleTask hh

theorem Busy.execSqlStart (hh : h.Answers J) (hb : Busy J (w, c)) :
    Kept J (c.execSqlStart h w) := by
  unfold MysqlAsyncConn.execSqlStart
  simp only
  split_ifs with hnone
  · exact hb.kept hnone
  · exact hb.wait rfl rfl rfl rfl (Or.inr (Or.inl rfl))
  · exact (hb.call _).handleTask hh

theorem Kept.connectWait (hk : Kept J (w, c)) (hstate : c.state = .connectWaiting) (r : Replies) :
    Kept J (w, c.connectWait r) := by
  have hd : Done J (w, c) := hk.done (Resting.not_runs (Or.inr (Or.inl hstate)))
  unfold MysqlAsyncConn.connectWait
  simp only
  split_ifs
  · exact hk.congr rfl rfl rfl rfl rfl rfl
  · refine Done.next (c := (c.call _).setConnected true) ?_ rfl
    exact hd.congr rfl rfl rfl
  · simp only [setConnected_false]
    exact hd.move rfl rfl rfl fun _ => Or.inl rfl

/-- The current task was answered before the next one is fetched. -/
theorem Kept.operateWait (hh : h.Answers J) (hk : Kept J (w, c)) (hstate : c.state = .waitOperate)
    (hup : c.isConnected = true) : Kept J (c.operateWait h w) := by
  have hruns : ¬ c.state.Runs := by simp [MysqlState.Runs, hstate]
  have hd : Done J (w, c) := hk.done hruns
  have howed : c.owed = c.tasks.map SqlTask.id := owed_of_closed hd.current
  unfold MysqlAsyncConn.operateWait fetchNextTask
  cases htasks : c.tasks with
  | nil =>
    simp only [stopTask_eq]
    refine Done.kept ⟨?_, (fun task htask => by cases htask), fun task htask => by cases htask⟩ ?_
    · have hworld : J w c.owed := hd.world
      rw [howed, htasks] at hworld
      exact hworld
    · intro hfalse
      rw [show c.isConnected = true from hup] at hfalse
      cases hfalse
  | cons task tasks =>
    have hsingle : task.Single := hd.queued task (by rw [htasks]; exact List.mem_cons_self)
    have hbusy : Busy J (w, { c with curTask := some task, tasks := tasks }) := by
      refine ⟨?_, ?_, ?_, hup⟩
      · rw [owed_of_open rfl hsingle.isOpen]
        have hworld : J w c.owed := hd.world
        rw [howed, htasks] at hworld
        exact hworld
      · intro t ht
        exact hd.queued t (by rw [htasks]; exact List.mem_cons_of_mem _ ht)
      · rintro t ht -
        exact Option.some.inj ht ▸ hsingle
    simp only
    split_ifs
    · exact hbusy.queryStart hh
    · exact hbusy.execSqlStart hh

theorem Kept.queryWait (hh : h.Answers J) (hk : Kept J (w, c)) (hstate : c.state = .queryWaiting) :
    Kept J (c.queryWait h w) := by
  have hb : Busy J (w, c) := hk.busy (Or.inl hstate)
  unfold MysqlAsyncConn.queryWait
  simp only
  split_ifs
  · exact hb.wait rfl rfl rfl rfl (Or.inl rfl)
  · exact (hb.call _).handleTask hh
  · exact (hb.call _).storeResultStart hh

theorem Kept.execSqlWait (hh : h.Answers J) (hk : Kept J (w, c))
    (hstate : c.state = .execsqlWaiting) : Kept J (c.execSqlWait h w) := by
  have hb : Busy J (w, c) := hk.busy (Or.inr (Or.inl hstate))
  unfold MysqlAsyncConn.execSqlWait
  simp only
  split_ifs
  · exact hk
  · exact hb.wait rfl rfl rfl rfl (Or.inr (Or.inl rfl))
  · exact (hb.call _).handleTask hh

theorem Kept.storeResultWait (hh : h.Answers J) (hk : Kept J (w, c))
    (hstate : c.state = .storeWaiting) : Kept J (c.storeResultWait h w) := by
  have hb : Busy J (w, c) := hk.busy (Or.inr (Or.inr hstate))
  unfold MysqlAsyncConn.storeResultWait
  simp only
  split_ifs
  · exact hk
  · exact hb.wait rfl rfl rfl rfl (Or.inr (Or.inr rfl))
  · exact (hb.call _).handleTask hh

theorem Kept.pingWait (hh : h.Answers J) (hk : Kept J (w, c)) (hstate : c.state = .pingWaiting) :
    Kept J (c.pingWait h w) := by
  have hrest : c.Resting := Or.inr (Or.inr (Or.inl hstate))
  have hd : Done J (w, c) := hk.done hrest.not_runs
  unfold MysqlAsyncConn.pingWait
  simp only
  split_ifs
  · exact hd.move rfl rfl rfl fun _ => Or.inr (Or.inr (Or.inl rfl))
  · exact hk.congr rfl rfl rfl rfl rfl rfl
  · refine Busy.handleTask (c := (c.call _).setConnected true) hh ?_
    exact Done.busy (hd.congr rfl rfl rfl) rfl
  · rw [setConnected_false]
    exact hd.move rfl rfl rfl fun _ => Or.inl rfl

/-- A connection that is down and watched waits for a connect or a ping, not for a task. -/
theorem Orderly.up_of_waitOperate (ho : Orderly c) (hactive : c.watcher.active = true)
    (hstate : c.state = .waitOperate) : c.isConnected = true := by
  by_contra hdown
  rw [Bool.not_eq_true] at hdown
  rcases ho.down hdown with hno | hno | hno | ⟨-, hoff⟩
  · rw [hstate] at hno
    cases hno
  · rw [hstate] at hno
    cases hno
  · rw [hstate] at hno
    cases hno
  · rw [hactive] at hoff
    cases hoff

/-- **An io event of an active watcher drops no task.** -/
theorem Kept.waitForMysql (hh : h.Answers J) (hk : Kept J (w, c))
    (hactive : c.watcher.active = true) : Kept J (c.waitForMysql h w) := by
  unfold MysqlAsyncConn.waitForMysql
  split
  case h_1 hstate => exact hk.connectWait hstate _
  case h_2 hstate => exact hk.operateWait hh hstate (hk.orderly.up_of_waitOperate hactive hstate)
  case h_3 hstate => exact hk.queryWait hh hstate
  case h_4 hstate => exact hk.execSqlWait hh hstate
  case h_5 hstate => exact hk.storeResultWait hh hstate
  case h_6 hstate => exact hk.pingWait hh hstate
  case h_7 => exact hk

/-- **A tick of the timer drops no task.** -/
theorem Kept.pingStart (hh : h.Answers J) (hk : Kept J (w, c)) : Kept J (c.pingStart h w) := by
  unfold MysqlAsyncConn.pingStart
  cases hconn : c.isConnected with
  | true =>
    rw [if_pos rfl]
    exact hk
  | false =>
    have hrest := hk.orderly.down hconn
    have hd : Done J (w, c) := hk.done hrest.not_runs
    simp only [Bool.false_eq_true, if_false]
    split_ifs
    · exact hd.move rfl rfl rfl fun _ => Or.inr (Or.inr (Or.inl rfl))
    · refine hd.move rfl rfl rfl fun hfalse => ?_
      rw [setConnected_true] at hfalse
      cases hfalse
    · refine kept_handleTask hh hd.world hd.queued ?_ fun _ => hrest
      intro task htask hopen
      rw [hd.current task htask] at hopen
      cases hopen

/-! ## New connections and new tasks -/

theorem orderly_init (dbInfo : DbInfo) (r : Replies) : Orderly (init dbInfo r) := by
  have hd : Done (fun _ _ => True) ((), ({ dbInfo := dbInfo } : MysqlAsyncConn)) :=
    ⟨trivial, (fun task htask => by cases htask), fun task htask => by cases htask⟩
  exact (hd.connectStart (fun _ => rfl) r).orderly

theorem owed_init (dbInfo : DbInfo) (r : Replies) : (init dbInfo r).owed = [] := by
  unfold init connectStart
  simp only [setConnected_false]
  split_ifs
  · rfl
  · rfl
  · rfl

/-- A task that is accepted. -/
theorem addTask_up (task : SqlTask) (hup : c.isConnected = true) :
    (c.addTask (some task)).2.tasks = c.tasks ++ [task] := by
  have hne : isTaskEmpty { c with tasks := c.tasks ++ [task] } = false := by simp [isTaskEmpty]
  simp only [addTask, if_pos hup, waitNextTask, hne, Bool.false_eq_true, if_false,
    activeEvIo_tasks]

theorem owed_addTask (task : SqlTask) (hup : c.isConnected = true) :
    (c.addTask (some task)).2.owed = c.owed ++ [task.id] := by
  unfold owed
  rw [addTask_up task hup, curTask_addTask, ← List.append_assoc, List.map_append]
  rfl

theorem Orderly.addTask (ho : Orderly c) {task : SqlTask} (hsingle : task.Single) :
    Orderly (c.addTask (some task)).2 := by
  have hcalled := called_addTask c (some task)
  refine ⟨fun t ht => ?_, ?_, hcalled.resting ho.down⟩
  · cases hup : c.isConnected with
    | true =>
      rw [addTask_up task hup] at ht
      rcases List.mem_append.mp ht with ht | ht
      · exact ho.queued t ht
      · exact List.mem_singleton.mp ht ▸ hsingle
    | false =>
      rw [(hcalled.down hup).1] at ht
      exact ho.queued t ht
  · rw [curTask_addTask, hcalled.state]
    exact ho.current

end MysqlAsyncConn

end Kimserver
