import Kimserver.Db.Answers
import Kimserver.Db.Results

/-!
# The results of queries in runs

A result comes right before the callback of its query: while it may come, the current task is a
query with its callback in place. Between two events no result waits. A callback then sees its own
result, or what the `MysqlResult` refers to since the last query that had one, which was freed.

## Main definitions

* `SqlTask.Formed`, `Host.Submits`: the tasks are those of `handle_sql`
* `MysqlAsyncConn.Fetching`: a query whose result may come has its callback

## Main results

* `ResultConn.waitForMysql_eq`: the connection runs as it does without results
* `queries_see_results_iff`: when all callbacks of a run see the results of their queries
-/

namespace Kimserver

/-! ## Tasks that wait for a result -/

/-- A task as `handle_sql` makes it: it has one callback, a query that of a query. -/
structure SqlTask.Formed (task : SqlTask) : Prop where
  single : task.Single
  query : task.oper = .select → task.fnQuery.isSome

/-- The callbacks of this host submit such tasks. -/
def Host.Submits {σ : Type*} (h : Host σ) : Prop :=
  ∀ task w c, ∃ tasks, (∀ t ∈ tasks, SqlTask.Formed t) ∧ (h.run task w c).2 = c.addTasks tasks

/-- The states in which the result of a query may come. -/
def MysqlState.Fetches (state : MysqlState) : Prop := state = .queryWaiting ∨ state = .storeWaiting

namespace MysqlAsyncConn

/-- The tasks are as `handle_sql` makes them. -/
def Queued (c : MysqlAsyncConn) : Prop := ∀ task ∈ c.tasks, task.Formed

/-- A query whose result may come has its callback. -/
structure Fetching (c : MysqlAsyncConn) : Prop where
  queued : c.Queued
  current : c.state.Fetches → ∃ task, c.curTask = some task ∧ task.fnQuery.isSome = true

variable {σ : Type*} {h : Host σ} {w : σ} {c c' : MysqlAsyncConn}

theorem Queued.fetching (hq : c.Queued) (hstate : ¬ c.state.Fetches) : c.Fetching :=
  ⟨hq, fun hfetches => absurd hfetches hstate⟩

/-- An added task is at the end of the queue, or refused. -/
theorem tasks_addTask (task : SqlTask) :
    (c.addTask (some task)).2.tasks = c.tasks ++ [task] ∨
      (c.addTask (some task)).2.tasks = c.tasks := by
  cases hup : c.isConnected with
  | true => exact Or.inl (addTask_up task hup)
  | false => exact Or.inr ((called_addTask c (some task)).down hup).1

/-- The tasks after some were added are the old ones and some of the added ones. -/
theorem tasks_addTasks (tasks : List SqlTask) (c : MysqlAsyncConn) :
    ∃ added, (∀ t ∈ added, t ∈ tasks) ∧ (c.addTasks tasks).tasks = c.tasks ++ added := by
  induction tasks generalizing c with
  | nil => exact ⟨[], by simp, (List.append_nil _).symm⟩
  | cons task tasks ih =>
    obtain ⟨added, hadded, heq⟩ := ih (c.addTask (some task)).2
    have hstep : (c.addTasks (task :: tasks)).tasks =
        ((c.addTask (some task)).2.addTasks tasks).tasks := rfl
    rcases tasks_addTask (c := c) task with hnew | hold
    · refine ⟨task :: added, fun t ht => ?_, ?_⟩
      · rcases List.mem_cons.mp ht with rfl | ht
        · exact List.mem_cons_self
        · exact List.mem_cons_of_mem _ (hadded t ht)
      · rw [hstep, heq, hnew, List.append_assoc]
        rfl
    · refine ⟨added, fun t ht => List.mem_cons_of_mem _ (hadded t ht), ?_⟩
      rw [hstep, heq, hold]

theorem queued_run (hh : h.Submits) (hq : c.Queued) (task : SqlTask) :
    (h.run task w c).2.Queued := by
  obtain ⟨tasks, htasks, heq⟩ := hh task w c
  obtain ⟨added, hadded, hnew⟩ := tasks_addTasks tasks c
  intro t ht
  rw [heq, hnew] at ht
  rcases List.mem_append.mp ht with ht | ht
  · exact hq t ht
  · exact htasks t (hadded t ht)

theorem queued_callback (hh : h.Submits) (hq : c.Queued) (task : SqlTask) :
    (c.callback h w task).2.2.Queued := by
  have hif : ∀ (c : MysqlAsyncConn) (w : σ) (b : Bool) (task : SqlTask), c.Queued →
      (if b then h.run task w c else (w, c)).2.Queued := by
    intro c w b task hq
    cases b with
    | false => exact hq
    | true => exact queued_run hh hq task
  exact hif _ _ _ _ (hif _ _ _ _ hq)

theorem queued_answerTask (hh : h.Submits) (hq : c.Queued) : (c.answerTask h w).2.Queued := by
  unfold answerTask callbackCur
  split
  · exact hq
  · intro t ht
    exact queued_callback (w := w) (c := c.setErrInfo h.replies.errno h.replies.error) hh hq _ t ht

theorem Queued.connectStart (hq : c.Queued) (r : Replies) : (c.connectStart r).Fetching := by
  unfold MysqlAsyncConn.connectStart
  simp only [setConnected_false]
  split_ifs
  · exact Queued.fetching hq (by simp [MysqlState.Fetches])
  · exact Queued.fetching hq (by simp [MysqlState.Fetches])
  · exact Queued.fetching hq (by simp [MysqlState.Fetches])

theorem Queued.next (hq : c.Queued) (status : ℕ) :
    ((c.setState .waitOperate).waitNextTask status).Fetching := by
  unfold waitNextTask
  split_ifs
  · exact Queued.fetching hq (by simp [MysqlState.Fetches])
  · exact Queued.fetching hq (by simp [MysqlState.Fetches])

/-- Behind the callback a connection that is up goes on to the next task. -/
theorem Queued.settle (hq : c.Queued) (hidle : c.isConnected = true ∨ ¬ c.state.Fetches) :
    (c.settle h w).2.Fetching := by
  unfold MysqlAsyncConn.settle
  simp only [setConnected_false]
  split_ifs with hlost hcnt hup
  · obtain ⟨c', hcalled, heq⟩ := clearTasks_spec (h := h) (w := w) (c :=
      { c with
        isConnected := false, watcher := { c.watcher with active := false }
        state := .noConnected, reconnectCnt := c.reconnectCnt + 1 })
    rw [heq]
    refine ⟨fun t ht => (List.not_mem_nil ht).elim, fun hfetches => ?_⟩
    rw [stopTask_eq] at hcalled
    change c'.state.Fetches at hfetches
    rw [hcalled.state] at hfetches
    simp [MysqlState.Fetches] at hfetches
  · refine Queued.connectStart ?_ _
    exact hq
  · exact Queued.next hq _
  · exact hq.fetching (hidle.resolve_left hup)

theorem Queued.handleTask (hh : h.Submits) (hq : c.Queued)
    (hidle : c.isConnected = true ∨ ¬ c.state.Fetches) : (c.handleTask h w).2.Fetching := by
  have hcalled := called_answerTask (h := h) (w := w) (c := c)
  refine (queued_answerTask hh hq).settle ?_
  rw [hcalled.isConnected, hcalled.state]
  exact hidle

theorem Fetching.storeResultStart (hh : h.Submits) (hq : c.Queued) (hup : c.isConnected = true)
    {task : SqlTask} (htask : c.curTask = some task) (hquery : task.fnQuery.isSome = true) :
    (c.storeResultStart h w).2.Fetching := by
  unfold MysqlAsyncConn.storeResultStart
  simp only
  split_ifs
  · exact ⟨hq, fun _ => ⟨task, htask, hquery⟩⟩
  · exact Queued.handleTask hh hq (Or.inl hup)

theorem Fetching.queryStart (hh : h.Submits) (hq : c.Queued) (hup : c.isConnected = true)
    {task : SqlTask} (htask : c.curTask = some task) (hquery : task.fnQuery.isSome = true) :
    (c.queryStart h w).2.Fetching := by
  unfold MysqlAsyncConn.queryStart
  simp only [htask, Option.isNone_some, Bool.false_eq_true, if_false]
  split_ifs
  · exact ⟨hq, fun _ => ⟨task, htask, hquery⟩⟩
  · exact Fetching.storeResultStart hh hq hup htask hquery
  · exact Queued.handleTask hh hq (Or.inl hup)

theorem Queued.execSqlStart (hh : h.Submits) (hq : c.Queued) (hup : c.isConnected = true)
    (hstate : ¬ c.state.Fetches) : (c.execSqlStart h w).2.Fetching := by
  unfold MysqlAsyncConn.execSqlStart
  simp only
  split_ifs
  · exact hq.fetching hstate
  · exact Queued.fetching hq (by simp [MysqlState.Fetches])
  · exact Queued.handleTask hh hq (Or.inl hup)

theorem Queued.operateWait (hh : h.Submits) (hq : c.Queued) (hup : c.isConnected = true)
    (hstate : c.state = .waitOperate) : (c.operateWait h w).2.Fetching := by
  have hidle : ¬ c.state.Fetches := by simp [MysqlState.Fetches, hstate]
  unfold MysqlAsyncConn.operateWait fetchNextTask
  cases htasks : c.tasks with
  | nil =>
    simp only [stopTask_eq]
    exact Queued.fetching (fun t ht => hq t (htasks ▸ ht)) hidle
  | cons task tasks =>
    have hq' : ∀ t ∈ tasks, t.Formed := fun t ht =>
      hq t (by rw [htasks]; exact List.mem_cons_of_mem _ ht)
    simp only
    split_ifs with hselect
    · have hformed : task.Formed := hq task (by rw [htasks]; exact List.mem_cons_self)
      exact Fetching.queryStart hh hq' hup rfl (hformed.query hselect)
    · exact Queued.execSqlStart hh hq' hup hidle

/-- **An io event of an active watcher** keeps the callbacks of the queries. -/
theorem Fetching.waitForMysql (hh : h.Submits) (hf : c.Fetching) (ho : c.Orderly)
    (hactive : c.watcher.active = true) : (c.waitForMysql h w).2.Fetching := by
  have hrunning : c.state.Runs → c.isConnected = true := by
    intro hruns
    by_contra hdown
    rw [Bool.not_eq_true] at hdown
    exact (ho.down hdown).not_runs hruns
  -- one case for each handler; no connection has none
  unfold MysqlAsyncConn.waitForMysql
  split
  case h_1 hstate =>
    unfold connectWait
    simp only [setConnected_true, setConnected_false]
    split_ifs
    · exact Queued.fetching hf.queued (by simp [MysqlState.Fetches, hstate])
    · refine Queued.next ?_ _
      exact hf.queued
    · exact Queued.fetching hf.queued (by simp [MysqlState.Fetches])
  case h_2 hstate => exact hf.queued.operateWait hh (ho.up_of_waitOperate hactive hstate) hstate
  case h_3 hstate =>
    -- a query that waits for its result goes on to the result
    have hup := hrunning (Or.inl hstate)
    obtain ⟨task, htask, hquery⟩ := hf.current (Or.inl hstate)
    unfold MysqlAsyncConn.queryWait
    simp only
    split_ifs
    · exact ⟨hf.queued, fun _ => ⟨task, htask, hquery⟩⟩
    · exact Queued.handleTask hh hf.queued (Or.inl hup)
    · exact Fetching.storeResultStart hh hf.queued hup htask hquery
  case h_4 hstate =>
    have hup := hrunning (Or.inr (Or.inl hstate))
    unfold MysqlAsyncConn.execSqlWait
    simp only
    split_ifs
    · exact hf
    · exact Queued.fetching hf.queued (by simp [MysqlState.Fetches])
    · exact Queued.handleTask hh hf.queued (Or.inl hup)
  case h_5 hstate =>
    -- the result came, or is waited for again
    have hup := hrunning (Or.inr (Or.inr hstate))
    obtain ⟨task, htask, hquery⟩ := hf.current (Or.inr hstate)
    unfold MysqlAsyncConn.storeResultWait
    simp only
    split_ifs
    · exact hf
    · exact ⟨hf.queued, fun _ => ⟨task, htask, hquery⟩⟩
    · exact Queued.handleTask hh hf.queued (Or.inl hup)
  case h_6 hstate =>
    unfold MysqlAsyncConn.pingWait
    simp only [setConnected_true, setConnected_false]
    split_ifs
    · exact Queued.fetching hf.queued (by simp [MysqlState.Fetches])
    · exact Queued.fetching hf.queued (by simp [MysqlState.Fetches, hstate])
    · exact Queued.handleTask hh hf.queued (Or.inl rfl)
    · exact Queued.fetching hf.queued (by simp [MysqlState.Fetches])
  case h_7 => exact hf

/-- **A tick of the timer** keeps them. -/
theorem Fetching.pingStart (hh : h.Submits) (hf : c.Fetching) (ho : c.Orderly) :
    (c.pingStart h w).2.Fetching := by
  unfold MysqlAsyncConn.pingStart
  cases hconn : c.isConnected with
  | true =>
    rw [if_pos rfl]
    exact hf
  | false =>
    have hidle : ¬ c.state.Fetches := by
      intro hfetches
      refine (ho.down hconn).not_runs ?_
      rcases hfetches with hstate | hstate
      · exact Or.inl hstate
      · exact Or.inr (Or.inr hstate)
    simp only [Bool.false_eq_true, if_false, setConnected_true]
    split_ifs
    · exact Queued.fetching hf.queued (by simp [MysqlState.Fetches])
    · exact Queued.fetching hf.queued hidle
    · exact Queued.handleTask hh hf.queued (Or.inr hidle)

theorem Fetching.addTask (hf : c.Fetching) {task : SqlTask} (htask : task.Formed) :
    (c.addTask (some task)).2.Fetching := by
  refine ⟨fun t ht => ?_, ?_⟩
  · rcases tasks_addTask (c := c) task with hnew | hold
    · rw [hnew] at ht
      rcases List.mem_append.mp ht with ht | ht
      · exact hf.queued t ht
      · exact List.mem_singleton.mp ht ▸ htask
    · rw [hold] at ht
      exact hf.queued t ht
  · rw [curTask_addTask, (called_addTask c _).state]
    exact hf.current

end MysqlAsyncConn

/-! ## The results in the handlers -/

namespace ResultConn

variable {σ : Type*} {c : MysqlAsyncConn} {h : Host σ} {res : Option MysqlRes}
  {p : σ × QueryResults}

/-- The members after a result came, if one came. -/
def Receives (res : Option MysqlRes) (r r' : QueryResults) : Prop :=
  r' = r ∨ ∃ task, r' = r.store task res

theorem receives_stored (status : ℕ) (r : QueryResults) :
    Receives res r (stored c res status r) := by
  unfold stored
  split_ifs
  · exact Or.inl rfl
  · exact Or.inr ⟨_, rfl⟩

theorem queryStart_eq : ∃ r, Receives res p.2 r ∧
    queryStart c h res p = c.queryStart h.withResults (p.1, r) := by
  unfold queryStart MysqlAsyncConn.queryStart
  by_cases hnone : c.curTask.isNone = true
  · exact ⟨p.2, Or.inl rfl, (if_pos hnone).trans (if_pos hnone).symm⟩
  · rw [if_neg hnone]
    by_cases hstatus : h.replies.realQueryStart.1 ≠ 0
    · refine ⟨p.2, Or.inl rfl, (if_pos hstatus).trans ?_⟩
      exact ((if_neg hnone).trans (if_pos hstatus)).symm
    · by_cases hret : h.replies.realQueryStart.2 = 0
      · refine ⟨_, receives_stored (c := c) h.replies.storeResultStart p.2,
          (if_neg hstatus).trans ((if_pos hret).trans ?_)⟩
        exact ((if_neg hnone).trans ((if_neg hstatus).trans (if_pos hret))).symm
      · refine ⟨p.2, Or.inl rfl, (if_neg hstatus).trans ((if_neg hret).trans ?_)⟩
        exact ((if_neg hnone).trans ((if_neg hstatus).trans (if_neg hret))).symm

theorem queryWait_eq : ∃ r, Receives res p.2 r ∧
    queryWait c h res p = c.queryWait h.withResults (p.1, r) := by
  unfold queryWait MysqlAsyncConn.queryWait
  by_cases hstatus : h.replies.realQueryCont.1 ≠ 0
  · exact ⟨p.2, Or.inl rfl, (if_pos hstatus).trans (if_pos hstatus).symm⟩
  · by_cases hret : h.replies.realQueryCont.2 ≠ 0
    · refine ⟨p.2, Or.inl rfl, (if_neg hstatus).trans ((if_pos hret).trans ?_)⟩
      exact ((if_neg hstatus).trans (if_pos hret)).symm
    · refine ⟨_, receives_stored (c := c) h.replies.storeResultStart p.2,
        (if_neg hstatus).trans ((if_neg hret).trans ?_)⟩
      exact ((if_neg hstatus).trans (if_neg hret)).symm

theorem storeResultWait_eq : ∃ r, Receives res p.2 r ∧
    storeResultWait c h res p = c.storeResultWait h.withResults (p.1, r) := by
  unfold storeResultWait MysqlAsyncConn.storeResultWait
  by_cases hnone : c.curTask.isNone = true
  · exact ⟨p.2, Or.inl rfl, (if_pos hnone).trans (if_pos hnone).symm⟩
  · rw [if_neg hnone]
    by_cases hstatus : h.replies.storeResultCont ≠ 0
    · refine ⟨p.2, Or.inl rfl, (if_pos hstatus).trans ?_⟩
      exact ((if_neg hnone).trans (if_pos hstatus)).symm
    · refine ⟨_, receives_stored (c := c) h.replies.storeResultCont p.2,
        (if_neg hstatus).trans ?_⟩
      exact ((if_neg hnone).trans (if_neg hstatus)).symm

theorem operateWait_eq : ∃ r, Receives res p.2 r ∧
    operateWait c h res p = c.operateWait h.withResults (p.1, r) := by
  unfold operateWait MysqlAsyncConn.operateWait MysqlAsyncConn.fetchNextTask
  cases c.tasks with
  | nil => exact ⟨p.2, Or.inl rfl, rfl⟩
  | cons task tasks =>
    by_cases hselect : task.oper = .select
    · simp only [if_pos hselect]
      exact queryStart_eq
    · simp only [if_neg hselect]
      exact ⟨p.2, Or.inl rfl, rfl⟩

/-- **The connection runs as it does without results**: a handler is the one of the connection, in
the world in which the result that comes is in place. -/
theorem waitForMysql_eq : ∃ r, Receives res p.2 r ∧
    waitForMysql c h res p = c.waitForMysql h.withResults (p.1, r) := by
  cases hstate : c.state with
  | waitOperate =>
    simp only [waitForMysql, MysqlAsyncConn.waitForMysql, hstate]
    exact operateWait_eq
  | queryWaiting =>
    simp only [waitForMysql, MysqlAsyncConn.waitForMysql, hstate]
    exact queryWait_eq
  | storeWaiting =>
    simp only [waitForMysql, MysqlAsyncConn.waitForMysql, hstate]
    exact storeResultWait_eq
  | noConnected | connectWaiting | execsqlWaiting | pingWaiting =>
    simp only [waitForMysql, MysqlAsyncConn.waitForMysql, hstate]
    exact ⟨p.2, Or.inl rfl, rfl⟩

/-- Callbacks of queries without a result keep the results settled. -/
theorem settled_run (h : Host σ) {info : DbInfo} (task : SqlTask) (p : σ × QueryResults)
    (c : MysqlAsyncConn) (_ : c.dbInfo = info) (hp : p.2.Settled) :
    (h.withResults.run task p c).1.2.Settled := by
  unfold Host.withResults
  simp only
  split_ifs
  · exact hp.callQuery _ _
  · exact hp

theorem settled_handleTask (hp : p.2.Settled) : (c.handleTask h.withResults p).1.2.Settled :=
  MysqlAsyncConn.world_handleTask (J := fun p : σ × QueryResults => p.2.Settled) (settled_run h) rfl
    hp

/-- The callback of a query gets the result that came for it. -/
theorem settled_handleTask_store (hp : p.2.Settled) {task : SqlTask} (htask : c.curTask = some task)
    (hquery : task.fnQuery.isSome = true) (res : Option MysqlRes) :
    (c.handleTask h.withResults (p.1, p.2.store (some task.id) res)).1.2.Settled := by
  cases res with
  | none => exact settled_handleTask (hp.store_none (some task.id))
  | some res =>
    have hcur : (c.setErrInfo h.replies.errno h.replies.error).curTask =
        some { task with error := h.replies.errno, errstr := h.replies.error } := by
      rw [MysqlAsyncConn.setErrInfo, htask]
      rfl
    have hanswer : (c.answerTask h.withResults
        (p.1, p.2.store (some task.id) (some res))).1.2.Settled := by
      unfold MysqlAsyncConn.answerTask
      rw [Host.replies_withResults, MysqlAsyncConn.callbackCur_of_some hcur]
      unfold MysqlAsyncConn.callback Host.withResults
      simp only [hquery, if_true, Option.isSome_none, Bool.false_eq_true, if_false]
      split_ifs
      · exact hp.callQuery_store _ _ _
      · exact hp.callQuery_store _ _ _
    exact MysqlAsyncConn.world_settle (J := fun p : σ × QueryResults => p.2.Settled) (settled_run h)
      rfl hanswer

theorem settled_storeResultStart (hp : p.2.Settled) {task : SqlTask}
    (htask : c.curTask = some task) (hquery : task.fnQuery.isSome = true) :
    (storeResultStart c h res p).1.2.Settled := by
  unfold storeResultStart MysqlAsyncConn.storeResultStart stored
  simp only [Host.replies_withResults]
  split_ifs with hstatus
  · exact hp
  · rw [htask]
    exact settled_handleTask_store (c := c.call _) hp htask hquery res

theorem settled_queryStart (hp : p.2.Settled) {task : SqlTask} (htask : c.curTask = some task)
    (hquery : task.fnQuery.isSome = true) : (queryStart c h res p).1.2.Settled := by
  unfold queryStart
  simp only
  split_ifs
  · exact hp
  · exact hp
  · exact settled_storeResultStart hp htask hquery
  · exact settled_handleTask hp

theorem settled_operateWait (hp : p.2.Settled) (hq : c.Queued) :
    (operateWait c h res p).1.2.Settled := by
  unfold operateWait MysqlAsyncConn.fetchNextTask
  cases htasks : c.tasks with
  | nil => exact hp
  | cons task tasks =>
    simp only
    split_ifs with hselect
    · have hformed : task.Formed := hq task (by rw [htasks]; exact List.mem_cons_self)
      exact settled_queryStart hp rfl (hformed.query hselect)
    · unfold MysqlAsyncConn.execSqlStart
      simp only
      split_ifs
      · exact hp
      · exact hp
      · exact settled_handleTask hp

theorem settled_waitForMysql (hp : p.2.Settled) (hf : c.Fetching) :
    (waitForMysql c h res p).1.2.Settled := by
  unfold waitForMysql
  -- no handler leaves a result behind that it did not free
  split
  case h_1 => exact hp
  case h_2 => exact settled_operateWait hp hf.queued
  case h_3 hstate =>
    obtain ⟨task, htask, hquery⟩ := hf.current (Or.inl hstate)
    unfold queryWait
    simp only
    split_ifs
    · exact hp
    · exact settled_handleTask hp
    · exact settled_storeResultStart hp htask hquery
  case h_4 =>
    unfold MysqlAsyncConn.execSqlWait
    simp only
    split_ifs
    · exact hp
    · exact hp
    · exact settled_handleTask hp
  case h_5 hstate =>
    obtain ⟨task, htask, hquery⟩ := hf.current (Or.inr hstate)
    unfold storeResultWait stored
    simp only
    split_ifs
    · exact hp
    · exact hp
    · rw [show (c.call _).curTask = some task from htask]
      exact settled_handleTask_store (c := c.call _) hp htask hquery res
  case h_6 =>
    unfold MysqlAsyncConn.pingWait
    simp only
    split_ifs
    · exact hp
    · exact hp
    · exact settled_handleTask hp
    · exact hp
  case h_7 => exact hp

theorem settled_pingStart (hp : p.2.Settled) : (c.pingStart h.withResults p).1.2.Settled :=
  MysqlAsyncConn.world_pingStart (J := fun p : σ × QueryResults => p.2.Settled) (settled_run h) rfl
    hp

theorem settled_clearTasks (hp : p.2.Settled) : (c.clearTasks h.withResults p).1.2.Settled :=
  MysqlAsyncConn.world_clearTasks (J := fun p : σ × QueryResults => p.2.Settled) (settled_run h) rfl
    hp

end ResultConn

/-! ## Runs -/

section Runs

variable {σ : Type*}

/-- The tasks of the event, and of the callbacks in it, are made by `handle_sql`. -/
def ResultEvent.Formed : ResultEvent σ → Prop
  | .io host _ | .timer host | .destroy host => host.Submits
  | .addTask task => ∀ t ∈ task, SqlTask.Formed t

/-- The results are settled, and the tasks of the connection in order. -/
structure InOrder (s : (σ × QueryResults) × Option MysqlAsyncConn) : Prop where
  settled : s.1.2.Settled
  fetching : ∀ c ∈ s.2, c.Fetching
  orderly : ∀ c ∈ s.2, c.Orderly

/-- What is submitted in the world with results. -/
theorem Host.Submits.withResults {h : Host σ} (hh : h.Submits) : h.withResults.Submits :=
  fun task p c => hh task p.1 c

/-- The tasks that callbacks submit have one callback. -/
theorem Host.Submits.answers {h : Host σ} (hh : h.Submits) : h.Answers fun _ _ => True := by
  intro task w c rest _ _
  obtain ⟨tasks, htasks, heq⟩ := hh task w c
  obtain ⟨added, hadded, hnew⟩ := MysqlAsyncConn.tasks_addTasks tasks c
  exact ⟨added, fun t ht => (htasks t (hadded t ht)).single, heq ▸ hnew, trivial⟩

theorem InOrder.step {s : (σ × QueryResults) × Option MysqlAsyncConn} (hs : InOrder s)
    {e : ResultEvent σ} (he : e.Formed) : InOrder ((resultMachine σ).step s e) := by
  obtain ⟨p, _ | c⟩ := s
  · exact hs
  · have hf : c.Fetching := hs.fetching c rfl
    have ho : c.Orderly := hs.orderly c rfl
    cases e with
    | io host res =>
      simp only [resultMachine]
      split_ifs with hactive
      · -- the world without the results runs in step
        have hreads : ∃ r, ResultConn.Receives res p.2 r ∧
            ResultConn.waitForMysql c host res p = c.waitForMysql host.withResults (p.1, r) :=
          ResultConn.waitForMysql_eq
        obtain ⟨r, -, heq⟩ := hreads
        have hsettled : (ResultConn.waitForMysql c host res p).1.2.Settled :=
          ResultConn.settled_waitForMysql hs.settled hf
        have hkept := MysqlAsyncConn.Kept.waitForMysql (w := (p.1, r)) he.withResults.answers
          ⟨trivial, ho⟩ hactive
        have hfetching := hf.waitForMysql (w := (p.1, r)) he.withResults ho hactive
        rw [← heq] at hkept hfetching
        exact ⟨hsettled, fun _ hc => Option.some.inj hc ▸ hfetching,
          fun _ hc => Option.some.inj hc ▸ hkept.orderly⟩
      · exact hs
    | timer host =>
      have hkept := MysqlAsyncConn.Kept.pingStart (w := p) he.withResults.answers ⟨trivial, ho⟩
      have hfetching := hf.pingStart (w := p) he.withResults ho
      exact ⟨ResultConn.settled_pingStart hs.settled, fun _ hc => Option.some.inj hc ▸ hfetching,
        fun _ hc => Option.some.inj hc ▸ hkept.orderly⟩
    | addTask task =>
      cases task with
      | none => exact hs
      | some task =>
        have hformed : task.Formed := he task rfl
        exact ⟨hs.settled, fun _ hc => Option.some.inj hc ▸ hf.addTask hformed,
          fun _ hc => Option.some.inj hc ▸ ho.addTask hformed.single⟩
    | destroy host =>
      -- no connection is left
      exact ⟨ResultConn.settled_clearTasks hs.settled, fun _ hc => (by cases hc),
        fun _ hc => (by cases hc)⟩

/-- A connection that was just made. -/
theorem inOrder_init (dbInfo : DbInfo) (replies : Replies) (w : σ) :
    InOrder ((w, {}), some (MysqlAsyncConn.init dbInfo replies)) where
  settled := QueryResults.settled_empty
  fetching c hc := by
    obtain rfl := Option.some.inj hc
    refine MysqlAsyncConn.Queued.connectStart ?_ _
    exact fun t ht => (List.not_mem_nil ht).elim
  orderly c hc := Option.some.inj hc ▸ MysqlAsyncConn.orderly_init dbInfo replies

end Runs

/-- **Callbacks see their own results** in the runs in which no query that failed, was terminated
or produced no result set is called back after one that produced a result set, and in no others. -/
theorem queries_see_results_iff {σ : Type*} (dbInfo : DbInfo) (replies : Replies) (w : σ)
    (es : List (ResultEvent σ)) (hes : ∀ e ∈ es, e.Formed) :
    (∀ call ∈ ((resultMachine σ).run ((w, {}), some (MysqlAsyncConn.init dbInfo replies))
        es).1.2.calls, call.Sees) ↔
      EmptyFirst ((resultMachine σ).run ((w, {}), some (MysqlAsyncConn.init dbInfo replies))
        es).1.2.calls := by
  have hmeets : (resultMachine σ).Meets (fun _ e => e.Formed)
      ((w, {}), some (MysqlAsyncConn.init dbInfo replies)) es :=
    Machine.Meets.iff_forall_step.mpr fun past e hp =>
      hes e (hp.subset (List.mem_append_right _ (List.mem_singleton_self e)))
  exact (hmeets.invariant (P := InOrder) (fun _ _ h he => h.step he)
    (inOrder_init dbInfo replies w)).settled.exact

/-! ## Two queries -/

/-- A query. -/
def oneQuery (id : ℕ) : SqlTask := { id := id, sql := text "select 1", fnQuery := some 1 }

/-- A result with one row. -/
def oneRow : MysqlRes := { fields := [text "1"], rows := [[some (text "1")]] }

/-- The first query fails, the second has a result. -/
def failsFirst : List (ResultEvent Unit) :=
  [.addTask (some (oneQuery 1)), .io (quiet { realQueryStart := (0, 1), errno := 1064 }) none,
    .addTask (some (oneQuery 2)), .io (quiet {}) (some oneRow)]

/-- The first query has a result, the second fails. -/
def failsSecond : List (ResultEvent Unit) :=
  [.addTask (some (oneQuery 1)), .io (quiet {}) (some oneRow),
    .addTask (some (oneQuery 2)), .io (quiet { realQueryStart := (0, 1), errno := 1064 }) none]

/-- Both callbacks see what they should. -/
theorem queries_failsFirst :
    ((resultMachine Unit).run (((), {}), some (MysqlAsyncConn.init sampleDb {}))
      failsFirst).1.2.calls.map QueryCall.task = [1, 2] ∧
    ∀ call ∈ ((resultMachine Unit).run (((), {}), some (MysqlAsyncConn.init sampleDb {}))
      failsFirst).1.2.calls, call.Sees := by
  refine ⟨by decide +kernel, (queries_see_results_iff sampleDb {} () failsFirst fun e he => ?_).mpr
    (by decide +kernel)⟩
  have hformed : ∀ id, (oneQuery id).Formed :=
    fun _ => ⟨by simp [SqlTask.Single, oneQuery], fun _ => rfl⟩
  have hquiet : ∀ replies, (quiet replies).Submits := fun _ _ _ _ => ⟨[], by simp, rfl⟩
  simp only [failsFirst, List.mem_cons, List.not_mem_nil, or_false] at he
  rcases he with rfl | rfl | rfl | rfl
  · exact fun t ht => Option.some.inj ht ▸ hformed 1
  · exact hquiet _
  · exact fun t ht => Option.some.inj ht ▸ hformed 2
  · exact hquiet _

/-- The callback of the second query sees the result of the first one, which was freed. -/
theorem query_failsSecond :
    ∃ call ∈ ((resultMachine Unit).run (((), {}), some (MysqlAsyncConn.init sampleDb {}))
      failsSecond).1.2.calls, call.own = none ∧ call.result.res = some 0 ∧
        call.heap.find 0 = none ∧ ¬ call.Sees := by
  have hcall : ((resultMachine Unit).run (((), {}), some (MysqlAsyncConn.init sampleDb {}))
      failsSecond).1.2.calls[1]? = some
        { task := 2
          own := none
          result :=
            { error := -1, errstr := text "invalid param!", res := some 0, fieldCnt := 1 }
          heap := [none] } := by decide +kernel
  exact ⟨_, List.mem_of_getElem? hcall, rfl, rfl, rfl, QueryCall.not_sees_of_freed rfl rfl⟩

end Kimserver
