import Kimserver.Db.MysqlAsyncConn

/-!
# One operation at a time

`m_mysql` carries one non-blocking operation at a time, and `m_state` says which. Every
handler keeps this but the timer: it pings a connection that is down, whatever the state, and
a connection is also down while it reconnects and while a ping is on its way.

## Main definitions

* `MysqlAsyncConn.Tracked`: the calls were legal so far, and the state says what is in flight
* `PingOverlaps`: a tick during a reconnect or a ping

## Main results

* `MysqlAsyncConn.Tracked.waitForMysql`, `MysqlAsyncConn.Tracked.pingStart`: the handlers
* `oneInFlight_run_iff`: the runs in which one operation is in flight at a time
-/

namespace Kimserver

open OpCall

namespace MysqlAsyncConn

variable {σ : Type*} {h : Host σ} {w : σ} {c c' : MysqlAsyncConn}

/-- No operation is in flight. -/
structure Free (c : MysqlAsyncConn) : Prop where
  legal : OneInFlight c.mysql
  done : unfinished c.mysql = []

/-- A connection that is down waits for a connect or a ping, or for nothing. -/
def DownIdle (c : MysqlAsyncConn) : Prop :=
  c.isConnected = false →
    c.state = .noConnected ∨ c.state = .waitOperate ∧ c.watcher.active = false

/-- The state says which operation is in flight. -/
structure Tracked (c : MysqlAsyncConn) : Prop where
  legal : OneInFlight c.mysql
  flight : unfinished c.mysql = c.state.op.toList
  last : ∀ op, c.state.op = some op → lastStarted c.mysql = some op
  ping : c.state = .pingWaiting → c.isConnected = false
  down : c.state ≠ .connectWaiting → c.state ≠ .pingWaiting → c.DownIdle

/-- A connection that is down runs no task. -/
theorem Tracked.connected (ht : Tracked c) (hop : c.state.op ≠ none)
    (hconnect : c.state ≠ .connectWaiting) (hping : c.state ≠ .pingWaiting) :
    c.isConnected = true := by
  by_contra hdown
  rw [Bool.not_eq_true] at hdown
  rcases ht.down hconnect hping hdown with hstate | ⟨hstate, -⟩
  · exact hop (by rw [hstate]; rfl)
  · exact hop (by rw [hstate]; rfl)

/-! ## Starting and continuing an operation -/

theorem Free.congr (hfree : Free c) (hmysql : c'.mysql = c.mysql) : Free c' :=
  ⟨hmysql ▸ hfree.legal, hmysql ▸ hfree.done⟩

/-- No operation is in flight, and the state says so. -/
theorem Free.tracked (hfree : Free c) (hmysql : c'.mysql = c.mysql) (hop : c'.state.op = none)
    (hdown : c'.DownIdle) : Tracked c' where
  legal := (hfree.congr hmysql).legal
  flight := by rw [(hfree.congr hmysql).done, hop]; rfl
  last op h := by rw [hop] at h; cases h
  ping h := by rw [h] at hop; cases hop
  down _ _ := hdown

/-- An operation that is done at once. -/
theorem Free.start_zero (hfree : Free c) (op : MysqlOp) : Free (c.call (.start op 0)) where
  legal := (oneInFlight_snoc _).mpr ⟨hfree.legal, hfree.done⟩
  done := by
    rw [call_eq, unfinished_snoc, hfree.done]
    rfl

/-- An operation that has to wait. -/
theorem Free.start (hfree : Free c) {op : MysqlOp} {status : ℕ} (hstatus : status ≠ 0)
    (hmysql : c'.mysql = c.mysql ++ [.start op status]) (hop : c'.state.op = some op)
    (hping : c'.state = .pingWaiting → c'.isConnected = false)
    (hdown : c'.state ≠ .connectWaiting → c'.state ≠ .pingWaiting → c'.isConnected = true) :
    Tracked c' where
  legal := by
    rw [hmysql]
    exact (oneInFlight_snoc _).mpr ⟨hfree.legal, hfree.done⟩
  flight := by
    rw [hmysql, hop, unfinished_snoc, hfree.done]
    simp only [note, if_neg hstatus, Option.toList_some]
  last op' hop' := by
    rw [hmysql, lastStarted_start, ← hop, hop']
  ping := hping
  down hconnect hwait hfalse := by
    rw [hdown hconnect hwait] at hfalse
    cases hfalse

/-- The operation in flight goes on. -/
theorem Tracked.cont (ht : Tracked c) {op : MysqlOp} {status : ℕ} (hstatus : status ≠ 0)
    (hop : c.state.op = some op) (hmysql : c'.mysql = c.mysql ++ [.cont op status])
    (hstate : c'.state = c.state) (hconn : c'.isConnected = c.isConnected)
    (hwatcher : c'.watcher = c.watcher) : Tracked c' where
  legal := by
    rw [hmysql]
    exact (oneInFlight_snoc _).mpr ⟨ht.legal, ht.last op hop⟩
  flight := by
    rw [hmysql, hstate, unfinished_snoc, ht.flight]
    simp only [note, if_neg hstatus]
  last op' hop' := by
    rw [hmysql, lastStarted_cont]
    exact ht.last op' (hstate ▸ hop')
  ping hping := hconn ▸ ht.ping (hstate ▸ hping)
  down := by
    unfold DownIdle
    rw [hstate, hconn, hwatcher]
    exact ht.down

/-- The operation in flight is done. -/
theorem Tracked.cont_zero (ht : Tracked c) {op : MysqlOp} (hop : c.state.op = some op) :
    Free (c.call (.cont op 0)) where
  legal := (oneInFlight_snoc _).mpr ⟨ht.legal, ht.last op hop⟩
  done := by
    rw [call_eq, unfinished_snoc, ht.flight, hop]
    simp only [note, if_true, Option.toList_some, List.erase_cons_head]

/-! ## The steps between the operations -/

theorem Free.connectStart (hfree : Free c)
    (hdown : c.isConnected = false → c.watcher.active = false) (r : Replies) :
    Tracked (c.connectStart r) := by
  unfold MysqlAsyncConn.connectStart
  by_cases hstatus : r.realConnectStart.1 = 0
  · simp only [hstatus, ne_eq, not_true, if_false]
    have hfree' := hfree.start_zero .realConnect
    split_ifs
    · exact hfree'.tracked rfl rfl fun hfalse => Or.inr ⟨rfl, hdown hfalse⟩
    · rw [setConnected_false]
      exact hfree'.tracked rfl rfl fun _ => Or.inl rfl
  · simp only [ne_eq, hstatus, not_false_eq_true, if_true]
    refine hfree.start hstatus rfl rfl ?_ ?_
    · intro hping
      cases hping
    · intro hconnect
      exact absurd rfl hconnect

theorem Free.clearTasks (hfree : Free c) (hstate : c.state = .noConnected) :
    Tracked (c.clearTasks h w).2 := by
  obtain ⟨c', hcalled, heq⟩ := clearTasks_spec (h := h) (w := w) (c := c)
  have hstate' : c'.state = .noConnected := by rw [hcalled.state, stopTask_eq, ← hstate]
  rw [heq]
  refine hfree.tracked ?_ ?_ fun _ => Or.inl hstate'
  · rw [hcalled.mysql, stopTask_eq]
  · rw [hstate']
    rfl

/-- An up connection without an operation in flight may go on to its next task. -/
theorem Free.next (hfree : Free c) (hconn : c.isConnected = true) :
    Tracked (c.setState .waitOperate).waitNextTask := by
  have hdown : ∀ {c' : MysqlAsyncConn}, c'.isConnected = c.isConnected → c'.DownIdle := by
    intro c' hc' hfalse
    rw [hc', hconn] at hfalse
    cases hfalse
  unfold MysqlAsyncConn.waitNextTask
  split_ifs
  · exact hfree.tracked rfl rfl (hdown rfl)
  · exact hfree.tracked rfl rfl (hdown rfl)

theorem Free.settle (hfree : Free c)
    (hdown : c.isConnected = false → c.state.op = none ∧ c.DownIdle) :
    Tracked (c.settle h w).2 := by
  unfold MysqlAsyncConn.settle
  cases hlost : lostServer h.replies with
  | true =>
    simp only [if_true, setConnected_false]
    split_ifs
    · exact Free.clearTasks ⟨hfree.legal, hfree.done⟩ rfl
    · refine Free.connectStart ?_ ?_ _
      · exact ⟨hfree.legal, hfree.done⟩
      · exact fun _ => rfl
  | false =>
    simp only [Bool.false_eq_true, if_false]
    cases hconn : c.isConnected with
    | true => exact hfree.next hconn
    | false => exact hfree.tracked rfl (hdown hconn).1 (hdown hconn).2

/-- `handle_task`, when the operation of the task is done. -/
theorem Free.handleTask (hfree : Free c)
    (hdown : c.isConnected = false → c.state.op = none ∧ c.DownIdle) :
    Tracked (c.handleTask h w).2 := by
  have hcalled := called_answerTask (h := h) (w := w) (c := c)
  refine (hfree.congr hcalled.mysql).settle ?_
  -- A connection that was down before the callback is down after it, and idle.
  intro hconn
  have hfalse : c.isConnected = false := hcalled.isConnected ▸ hconn
  refine ⟨hcalled.state ▸ (hdown hfalse).1, fun _ => ?_⟩
  rw [hcalled.state, (hcalled.down hfalse).2]
  exact (hdown hfalse).2 hfalse

theorem Free.handleTask_up (hfree : Free c) (hconn : c.isConnected = true) :
    Tracked (c.handleTask h w).2 := by
  refine hfree.handleTask fun hfalse => ?_
  rw [hconn] at hfalse
  cases hfalse

theorem Free.storeResultStart (hfree : Free c) (hconn : c.isConnected = true) :
    Tracked (c.storeResultStart h w).2 := by
  unfold MysqlAsyncConn.storeResultStart
  by_cases hstatus : h.replies.storeResultStart = 0
  · simp only [hstatus, ne_eq, not_true, if_false]
    exact (hfree.start_zero .storeResult).handleTask_up hconn
  · simp only [ne_eq, hstatus, not_false_eq_true, if_true]
    exact hfree.start hstatus rfl rfl (fun hping => by cases hping) (fun _ _ => hconn)

theorem Free.queryStart (hfree : Free c) (hop : c.state.op = none) (hconn : c.isConnected = true) :
    Tracked (c.queryStart h w).2 := by
  unfold MysqlAsyncConn.queryStart
  by_cases hcur : c.curTask.isNone = true
  · rw [if_pos hcur]
    exact hfree.tracked rfl hop fun hfalse => by rw [hconn] at hfalse; cases hfalse
  · rw [if_neg hcur]
    by_cases hstatus : h.replies.realQueryStart.1 = 0
    · simp only [hstatus, ne_eq, not_true, if_false]
      split_ifs
      · exact (hfree.start_zero .realQuery).storeResultStart hconn
      · exact (hfree.start_zero .realQuery).handleTask_up hconn
    · simp only [ne_eq, hstatus, not_false_eq_true, if_true]
      exact hfree.start hstatus rfl rfl (fun hping => by cases hping) (fun _ _ => hconn)

theorem Free.execSqlStart (hfree : Free c) (hop : c.state.op = none)
    (hconn : c.isConnected = true) : Tracked (c.execSqlStart h w).2 := by
  unfold MysqlAsyncConn.execSqlStart
  by_cases hcur : c.curTask.isNone = true
  · rw [if_pos hcur]
    exact hfree.tracked rfl hop fun hfalse => by rw [hconn] at hfalse; cases hfalse
  · rw [if_neg hcur]
    by_cases hstatus : h.replies.realQueryStart.1 = 0
    · simp only [hstatus, ne_eq, not_true, if_false]
      exact (hfree.start_zero .realQuery).handleTask_up hconn
    · simp only [ne_eq, hstatus, not_false_eq_true, if_true]
      exact hfree.start hstatus rfl rfl (fun hping => by cases hping) (fun _ _ => hconn)

/-! ## The handlers -/

theorem Tracked.connectWait (ht : Tracked c) (hstate : c.state = .connectWaiting) (r : Replies) :
    Tracked (c.connectWait r) := by
  have hop : c.state.op = some .realConnect := by rw [hstate]; rfl
  unfold MysqlAsyncConn.connectWait
  by_cases hstatus : r.realConnectCont.1 = 0
  · have hfree := ht.cont_zero hop
    simp only [hstatus, ne_eq, not_true, if_false]
    cases r.realConnectCont.2 with
    | true => exact Free.next ⟨hfree.legal, hfree.done⟩ rfl
    | false =>
      simp only [Bool.false_eq_true, if_false, setConnected_false]
      exact hfree.tracked rfl rfl fun _ => Or.inl rfl
  · simp only [ne_eq, hstatus, not_false_eq_true, if_true]
    exact ht.cont hstatus hop rfl rfl rfl rfl

theorem Tracked.operateWait (ht : Tracked c) (hstate : c.state = .waitOperate)
    (hconn : c.isConnected = true) : Tracked (c.operateWait h w).2 := by
  have hop : c.state.op = none := by rw [hstate]; rfl
  have hfree : Free c := ⟨ht.legal, by rw [ht.flight, hop]; rfl⟩
  unfold MysqlAsyncConn.operateWait fetchNextTask
  cases c.tasks with
  | nil =>
    simp only [stopTask_eq]
    exact hfree.tracked rfl hop fun _ => Or.inr ⟨hstate, rfl⟩
  | cons task tasks =>
    simp only
    split_ifs
    · exact Free.queryStart ⟨hfree.legal, hfree.done⟩ hop hconn
    · exact Free.execSqlStart ⟨hfree.legal, hfree.done⟩ hop hconn

theorem Tracked.queryWait (ht : Tracked c) (hstate : c.state = .queryWaiting) :
    Tracked (c.queryWait h w).2 := by
  have hop : c.state.op = some .realQuery := by rw [hstate]; rfl
  have hconn : c.isConnected = true := ht.connected (by simp [hop]) (by simp [hstate])
    (by simp [hstate])
  unfold MysqlAsyncConn.queryWait
  by_cases hstatus : h.replies.realQueryCont.1 = 0
  · have hfree := ht.cont_zero hop
    simp only [hstatus, ne_eq, not_true, if_false]
    split_ifs
    · exact hfree.storeResultStart hconn
    · exact hfree.handleTask_up hconn
  · simp only [ne_eq, hstatus, not_false_eq_true, if_true]
    exact ht.cont hstatus hop rfl hstate.symm rfl rfl

theorem Tracked.execSqlWait (ht : Tracked c) (hstate : c.state = .execsqlWaiting) :
    Tracked (c.execSqlWait h w).2 := by
  have hop : c.state.op = some .realQuery := by rw [hstate]; rfl
  have hconn : c.isConnected = true := ht.connected (by simp [hop]) (by simp [hstate])
    (by simp [hstate])
  unfold MysqlAsyncConn.execSqlWait
  by_cases hcur : c.curTask.isNone = true
  · rw [if_pos hcur]
    exact ht
  · rw [if_neg hcur]
    by_cases hstatus : h.replies.realQueryCont.1 = 0
    · simp only [hstatus, ne_eq, not_true, if_false]
      exact (ht.cont_zero hop).handleTask_up hconn
    · simp only [ne_eq, hstatus, not_false_eq_true, if_true]
      exact ht.cont hstatus hop rfl hstate.symm rfl rfl

theorem Tracked.storeResultWait (ht : Tracked c) (hstate : c.state = .storeWaiting) :
    Tracked (c.storeResultWait h w).2 := by
  have hop : c.state.op = some .storeResult := by rw [hstate]; rfl
  have hconn : c.isConnected = true := ht.connected (by simp [hop]) (by simp [hstate])
    (by simp [hstate])
  unfold MysqlAsyncConn.storeResultWait
  by_cases hcur : c.curTask.isNone = true
  · rw [if_pos hcur]
    exact ht
  · rw [if_neg hcur]
    by_cases hstatus : h.replies.storeResultCont = 0
    · simp only [hstatus, ne_eq, not_true, if_false]
      exact (ht.cont_zero hop).handleTask_up hconn
    · simp only [ne_eq, hstatus, not_false_eq_true, if_true]
      exact ht.cont hstatus hop rfl hstate.symm rfl rfl

theorem Tracked.pingWait (ht : Tracked c) (hstate : c.state = .pingWaiting) :
    Tracked (c.pingWait h w).2 := by
  have hop : c.state.op = some .ping := by rw [hstate]; rfl
  have hdown : c.isConnected = false := ht.ping hstate
  unfold MysqlAsyncConn.pingWait
  by_cases hstatus : h.replies.pingCont.1 = 0
  · have hfree := ht.cont_zero hop
    simp only [hstatus, ne_eq, not_true, if_false, call_eq, hdown, Bool.false_eq_true]
    split_ifs
    · exact Free.handleTask_up ⟨hfree.legal, hfree.done⟩ rfl
    · rw [setConnected_false]
      exact hfree.tracked rfl rfl fun _ => Or.inl rfl
  · simp only [ne_eq, hstatus, not_false_eq_true, if_true]
    exact ht.cont hstatus hop rfl hstate.symm rfl rfl

/-- An io event, which comes while the watcher is active. -/
theorem Tracked.waitForMysql (ht : Tracked c) (hactive : c.watcher.active = true) :
    Tracked (c.waitForMysql h w).2 := by
  unfold MysqlAsyncConn.waitForMysql
  split
  case h_1 hstate => exact ht.connectWait hstate _
  case h_2 hstate =>
    -- A connection that waits for a task with an active watcher is up.
    refine ht.operateWait hstate ?_
    by_contra hdown
    rw [Bool.not_eq_true] at hdown
    rcases ht.down (by simp [hstate]) (by simp [hstate]) hdown with hno | ⟨-, hoff⟩
    · rw [hstate] at hno
      cases hno
    · rw [hactive] at hoff
      cases hoff
  case h_3 hstate => exact ht.queryWait hstate
  case h_4 hstate => exact ht.execSqlWait hstate
  case h_5 hstate => exact ht.storeResultWait hstate
  case h_6 hstate => exact ht.pingWait hstate
  case h_7 => exact ht

/-- The timer, when no reconnect and no ping is under way. -/
theorem Tracked.pingStart (ht : Tracked c)
    (hwait : c.isConnected = false → c.state ≠ .connectWaiting ∧ c.state ≠ .pingWaiting) :
    Tracked (c.pingStart h w).2 := by
  unfold MysqlAsyncConn.pingStart
  cases hconn : c.isConnected with
  | true =>
    rw [if_pos rfl]
    exact ht
  | false =>
    simp only [Bool.false_eq_true, if_false]
    obtain ⟨hconnect, hping⟩ := hwait hconn
    have hidle := ht.down hconnect hping
    have hop : c.state.op = none := by
      rcases hidle hconn with hstate | ⟨hstate, -⟩
      · rw [hstate]; rfl
      · rw [hstate]; rfl
    have hfree : Free c := ⟨ht.legal, by rw [ht.flight, hop]; rfl⟩
    by_cases hstatus : h.replies.pingStart.1 = 0
    · have hfree' := hfree.start_zero .ping
      simp only [hstatus, ne_eq, not_true, if_false]
      split_ifs
      · refine hfree'.tracked rfl hop fun hfalse => ?_
        rw [setConnected_true] at hfalse
        cases hfalse
      · exact hfree'.handleTask fun _ => ⟨hop, hidle⟩
    · simp only [ne_eq, hstatus, not_false_eq_true, if_true]
      exact hfree.start hstatus rfl rfl (fun _ => hconn) fun _ hping' => absurd rfl hping'

theorem Tracked.addTask (ht : Tracked c) (task : Option SqlTask) : Tracked (c.addTask task).2 := by
  have hcalled := called_addTask c task
  refine ⟨hcalled.mysql ▸ ht.legal, ?_, ?_, ?_, ?_⟩
  · rw [hcalled.mysql, hcalled.state]
    exact ht.flight
  · rw [hcalled.mysql, hcalled.state]
    exact ht.last
  · rw [hcalled.state, hcalled.isConnected]
    exact ht.ping
  · intro hconnect hping hdown
    have hdown' : c.isConnected = false := hcalled.isConnected ▸ hdown
    rw [hcalled.state, (hcalled.down hdown').2]
    rw [hcalled.state] at hconnect hping
    exact ht.down hconnect hping hdown'

/-! ## The timer during an operation -/

theorem mysql_clearTasks : (c.clearTasks h w).2.mysql = c.mysql := by
  obtain ⟨c', hcalled, heq⟩ := clearTasks_spec (h := h) (w := w) (c := c)
  rw [heq]
  exact hcalled.mysql.trans (by rw [stopTask_eq])

theorem mysql_prefix_connectStart (r : Replies) : c.mysql <+: (c.connectStart r).mysql := by
  unfold MysqlAsyncConn.connectStart
  simp only [setConnected_false]
  split_ifs
  · exact List.prefix_append _ _
  · exact List.prefix_append _ _
  · exact List.prefix_append _ _

theorem mysql_prefix_handleTask : c.mysql <+: (c.handleTask h w).2.mysql := by
  have hcalled := called_answerTask (h := h) (w := w) (c := c)
  unfold MysqlAsyncConn.handleTask MysqlAsyncConn.settle
  rw [← hcalled.mysql]
  cases lostServer h.replies with
  | true =>
    simp only [if_true, setConnected_false]
    split_ifs
    · rw [mysql_clearTasks]
    · refine List.IsPrefix.trans ?_ (mysql_prefix_connectStart _)
      exact List.prefix_refl _
  | false =>
    simp only [Bool.false_eq_true, if_false, MysqlAsyncConn.waitNextTask]
    split_ifs
    · exact List.prefix_refl _
    · exact List.prefix_refl _
    · exact List.prefix_refl _

/-- A ping of a connection that is down goes on `m_mysql`, whatever is in flight there. -/
theorem mysql_prefix_pingStart (hconn : c.isConnected = false) :
    c.mysql ++ [.start .ping h.replies.pingStart.1] <+: (c.pingStart h w).2.mysql := by
  unfold MysqlAsyncConn.pingStart
  simp only [hconn, Bool.false_eq_true, if_false]
  split_ifs
  · exact List.prefix_refl _
  · exact List.prefix_refl _
  · refine List.IsPrefix.trans ?_ mysql_prefix_handleTask
    exact List.prefix_refl _

theorem tracked_init (dbInfo : DbInfo) (r : Replies) : Tracked (init dbInfo r) :=
  Free.connectStart ⟨oneInFlight_nil, rfl⟩ (fun _ => rfl) r

end MysqlAsyncConn

/-! ## Runs -/

variable {σ : Type*}

/-- A tick of the timer while a connection that is down reconnects, or waits for a ping. -/
def PingOverlaps (s : σ × MysqlAsyncConn) : ConnEvent σ → Prop
  | .timer _ =>
    s.2.isConnected = false ∧ (s.2.state = .connectWaiting ∨ s.2.state = .pingWaiting)
  | _ => False

theorem MysqlAsyncConn.Tracked.step {s : σ × MysqlAsyncConn} {e : ConnEvent σ}
    (ht : s.2.Tracked) (he : ¬ PingOverlaps s e) : ((connMachine σ).step s e).2.Tracked := by
  obtain ⟨w, c⟩ := s
  cases e with
  | io host =>
    simp only [connMachine, connStep]
    split_ifs with hactive
    · exact ht.waitForMysql hactive
    · exact ht
  | timer host =>
    refine ht.pingStart fun hconn => ⟨fun hstate => he ?_, fun hstate => he ?_⟩
    · exact ⟨hconn, Or.inl hstate⟩
    · exact ⟨hconn, Or.inr hstate⟩
  | addTask task => exact ht.addTask task

/-- A ping that overlaps another operation is not allowed. -/
theorem MysqlAsyncConn.Tracked.not_legal {s : σ × MysqlAsyncConn} {e : ConnEvent σ}
    (ht : s.2.Tracked) (he : PingOverlaps s e) :
    ¬ OneInFlight ((connMachine σ).step s e).2.mysql := by
  obtain ⟨w, c⟩ := s
  cases e with
  | timer host =>
    intro hlegal
    obtain ⟨hconn, hstate⟩ := he
    have hallowed := ((oneInFlight_snoc _).mp
      (hlegal.of_prefix (mysql_prefix_pingStart (h := host) (w := w) hconn))).2
    -- The operation of the state is unfinished when the ping starts.
    have hflight : unfinished c.mysql = c.state.op.toList := ht.flight
    rw [show unfinished c.mysql = [] from hallowed] at hflight
    rcases hstate with hstate | hstate
    · rw [hstate] at hflight
      cases hflight
    · rw [hstate] at hflight
      cases hflight
  | io host => exact he.elim
  | addTask task => exact he.elim

/-- **One operation in flight**: in a run of a connection every start finds no operation
unfinished, and every continuation belongs to the operation started last, exactly when no tick
of the timer falls into a reconnect or a ping of a connection that is down. -/
theorem oneInFlight_run_iff (dbInfo : DbInfo) (r : Replies) (w : σ) (es : List (ConnEvent σ)) :
    (connMachine σ).Meets (fun s e => ¬ PingOverlaps s e) (w, MysqlAsyncConn.init dbInfo r) es ↔
      ∀ past, past <+: es →
        OneInFlight ((connMachine σ).run (w, MysqlAsyncConn.init dbInfo r) past).2.mysql := by
  refine Machine.Meets.iff_forall_prefix (I := fun s : σ × MysqlAsyncConn => s.2.Tracked)
    (P := fun s => OneInFlight s.2.mysql) (Q := fun _ => True) ?_ ?_ ?_ ?_ fun _ _ => trivial
  · exact fun s ht => ht.legal
  · exact fun s e _ ht he => ht.step he
  · exact fun s e _ ht hlegal he => ht.not_legal he hlegal
  · exact MysqlAsyncConn.tracked_init dbInfo r

/-- A database for the examples. -/
def sampleDb : DbInfo where
  port := 3306
  maxConnCnt := 10
  host := text "127.0.0.1"
  dbName := text "mysql"
  password := text "123456"
  charset := text "utf8mb4"
  user := text "root"

/-- The events of an event loop whose callbacks do nothing. -/
def quiet (replies : Replies) : Host Unit where
  replies := replies
  run _ w c := (w, c)
  adds _ _ _ := ⟨[], rfl⟩

/-- The server is lost during a query, and the timer ticks before the new connection is up: the
ping starts while the connect is in flight. -/
theorem oneInFlight_reconnect_fails :
    ¬ OneInFlight ((connMachine Unit).run
      ((), MysqlAsyncConn.init sampleDb { realConnectStart := (2, false) })
      [.io (quiet { realConnectCont := (0, true) }),
        .addTask (some { id := 1, sql := text "select 1", fnQuery := some 1 }),
        .io (quiet { realQueryStart := (1, 0) }),
        .io (quiet
          { realQueryCont := (0, 1), errno := crServerLost, realConnectStart := (2, false) }),
        .timer (quiet { pingStart := (1, 0) })]).2.mysql := by
  intro hlegal
  have hallowed := hlegal
    [.start .realConnect 2, .cont .realConnect 0, .start .realQuery 1, .cont .realQuery 0,
      .start .realConnect 2] (.start .ping 1) (by decide)
  revert hallowed
  decide

end Kimserver
