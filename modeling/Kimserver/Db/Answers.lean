import Kimserver.Db.DbMgr
import Kimserver.Db.OneInFlight
import Kimserver.Db.Tasks

/-!
# Every accepted task is answered

The manager hands each accepted task to a connection, and its callback is called there. While a
connection handles an event, its callbacks run in the manager, where they may submit tasks to
this connection and to others, so that the books of the manager are kept while one connection
is at work.

`handle_sql` returns true without a look at the result of `add_task`. A connection refuses the
task when it is down already, and a new connection is, if its connect failed at once.

## Main definitions

* `DbMgr.AnsweredOnce`: no task is answered twice, or lost
* `DbMgr.Ledger`: the books of the manager, with what a connection at work still owes
* `DbEvent.Connects`: no connect of a call fails at once

## Main results

* `DbMgr.Ledger.handled`: a call keeps the books
* `DbMgr.Ledger.step`: so does every event
* `answeredOnce_run`: the tasks of a run
-/

namespace Kimserver

/-- The connect of a call fails at once, if the call opens a connection. -/
def Opening.FailsAtOnce (o : Opening) : Prop := o.connect.1 = 0 ∧ o.connect.2 = false

namespace DbMgr

/-- The callbacks that ran are those of calls that returned true, each ran once, and the tasks of
the other calls that returned true wait in a connection. -/
structure AnsweredOnce (s : DbMgr) : Prop where
  once : s.called.Nodup
  accepted : ∀ t ∈ s.called, t ∈ s.accepted
  kept : ∀ t ∈ s.accepted, t ∈ s.called ∨ ∃ c ∈ s.objs, t ∈ c.owed

/-- How often the connections owe a task. -/
def load (t : ℕ) (objs : List MysqlAsyncConn) : ℕ := (objs.map fun c => c.owed.count t).sum

theorem load_append (t : ℕ) (objs objs' : List MysqlAsyncConn) :
    load t (objs ++ objs') = load t objs + load t objs' := by
  unfold load
  rw [List.map_append, List.sum_append]

/-- Replacing a connection replaces its share. -/
theorem load_set (t : ℕ) {objs : List MysqlAsyncConn} {i : ℕ} {c : MysqlAsyncConn}
    (hc : objs[i]? = some c) (c' : MysqlAsyncConn) :
    load t (objs.set i c') + c.owed.count t = load t objs + c'.owed.count t := by
  induction objs generalizing i with
  | nil => cases hc
  | cons obj objs ih =>
    unfold load at ih ⊢
    cases i with
    | zero =>
      obtain rfl := Option.some.inj hc
      simp only [List.set_cons_zero, List.map_cons, List.sum_cons]
      omega
    | succ i =>
      have hrest := ih (i := i) hc
      simp only [List.set_cons_succ, List.map_cons, List.sum_cons]
      omega

/-- A connection owes what the connections owe. -/
theorem load_pos_iff {t : ℕ} {objs : List MysqlAsyncConn} :
    0 < load t objs ↔ ∃ c ∈ objs, t ∈ c.owed := by
  unfold load
  rw [List.sum_pos_iff_exists_pos_nat]
  simp only [List.mem_map, exists_exists_and_eq_and, List.count_pos_iff]

/-- The books of the manager. The connection `ex` is at work: its object is out of date, owing
`stale`, and in fact it owes `due`. -/
structure Ledger (ex : Option ℕ) (stale due : List ℕ) (s : DbMgr) : Prop where
  fresh : ∀ t ∈ s.accepted, t < s.nextTask
  once : s.accepted.Nodup
  balance : ∀ t, s.accepted.count t + stale.count t =
    s.called.count t + load t s.objs + due.count t
  queued : ∀ (i : ℕ) (c : MysqlAsyncConn), s.objs[i]? = some c → ∀ task ∈ c.tasks, task.Single
  orderly : ∀ (i : ℕ) (c : MysqlAsyncConn), s.objs[i]? = some c → ex ≠ some i → c.Orderly

variable {s s' : DbMgr} {ex : Option ℕ} {stale due : List ℕ}

theorem ledger_empty (dbs : FiniteMap Bytes DbInfo) : Ledger none [] [] { dbs := dbs } where
  fresh t ht := by cases ht
  once := List.nodup_nil
  balance _ := rfl
  queued i c hc := by cases hc
  orderly i c hc := by cases hc

/-- Books without a connection at work. -/
theorem Ledger.answeredOnce (h : Ledger none [] [] s) : s.AnsweredOnce := by
  have hbalance : ∀ t, s.accepted.count t = s.called.count t + load t s.objs := h.balance
  refine ⟨List.nodup_iff_count_le_one.mpr fun t => ?_, fun t ht => ?_, fun t ht => ?_⟩
  · have hone := List.nodup_iff_count_le_one.mp h.once t
    have heq := hbalance t
    omega
  · have hpos := List.count_pos_iff.mpr ht
    have heq := hbalance t
    exact List.count_pos_iff.mp (by omega)
  · have hpos := List.count_pos_iff.mpr ht
    have heq := hbalance t
    by_cases hcalled : t ∈ s.called
    · exact Or.inl hcalled
    · rw [List.count_eq_zero_of_not_mem hcalled, Nat.zero_add] at heq
      exact Or.inr (load_pos_iff.mp (heq ▸ hpos))

/-! ## Calls -/

theorem newTask_single (s : DbMgr) (call : SqlCall) (fn : ℕ) (sql : Bytes) :
    (s.newTask call fn sql).Single := by
  unfold SqlTask.Single newTask
  cases call.isQuery with
  | true => simp
  | false => simp

/-- A connection is up from the start, unless its connect fails at once. -/
theorem isConnected_init {o : Opening} (ho : ¬ o.FailsAtOnce) (info : DbInfo) :
    (MysqlAsyncConn.init info { realConnectStart := o.connect }).isConnected = true := by
  unfold MysqlAsyncConn.init MysqlAsyncConn.connectStart
  simp only
  split_ifs with hstatus hptr
  · rfl
  · rfl
  · rw [not_not] at hstatus
    exact absurd ⟨hstatus, Bool.not_eq_true _ ▸ hptr⟩ ho

/-- Another entry of a pool changes no book. -/
theorem Ledger.congr (h : Ledger ex stale due s) (hnext : s'.nextTask = s.nextTask)
    (haccepted : s'.accepted = s.accepted) (hcalled : s'.called = s.called)
    (hobjs : s'.objs = s.objs) : Ledger ex stale due s' where
  fresh := by rw [haccepted, hnext]; exact h.fresh
  once := haccepted ▸ h.once
  balance := by rw [haccepted, hcalled, hobjs]; exact h.balance
  queued := hobjs ▸ h.queued
  orderly := hobjs ▸ h.orderly

/-- A new connection owes nothing. -/
theorem Ledger.asyncConnect (h : Ledger ex stale due s) (info : DbInfo) (o : Opening) :
    Ledger ex stale due (s.asyncConnect info o) := by
  have hnew : ∀ (i : ℕ) (c : MysqlAsyncConn), (s.asyncConnect info o).objs[i]? = some c →
      s.objs[i]? = some c ∨ c = MysqlAsyncConn.init info { realConnectStart := o.connect } := by
    intro i c hc
    have hmem : (s.objs ++ [MysqlAsyncConn.init info { realConnectStart := o.connect }])[i]? =
        some c := hc
    rw [List.getElem?_append] at hmem
    split_ifs at hmem
    · exact Or.inl hmem
    · exact Or.inr (List.mem_singleton.mp (List.mem_of_getElem? hmem))
  refine ⟨h.fresh, h.once, fun t => ?_, fun i c hc => ?_, fun i c hc hne => ?_⟩
  · have hload : load t (s.asyncConnect info o).objs = load t s.objs := by
      refine (load_append t s.objs _).trans ?_
      unfold load
      rw [List.map_singleton, MysqlAsyncConn.owed_init]
      rfl
    rw [hload]
    exact h.balance t
  · rcases hnew i c hc with hold | rfl
    · exact h.queued i c hold
    · exact (MysqlAsyncConn.orderly_init _ _).queued
  · rcases hnew i c hc with hold | rfl
    · exact h.orderly i c hold hne
    · exact MysqlAsyncConn.orderly_init _ _

/-- `get_conn` keeps the books, and returns a connection that is up. -/
theorem Ledger.got (h : Ledger ex stale due s) {node : Bytes} {o : Opening} {r : Option ℕ}
    (hgot : Got s node o r s') (ho : ¬ o.FailsAtOnce) :
    Ledger ex stale due s' ∧
      ∀ c, r = some c → ∃ obj, s'.objs[c]? = some obj ∧ obj.isConnected = true := by
  have hopened : ∀ info c, some s.objs.length = some c →
      ∃ obj, (s.asyncConnect info o).objs[c]? = some obj ∧ obj.isConnected = true := by
    rintro info c ⟨⟩
    exact ⟨_, List.getElem?_concat_length, isConnected_init ho info⟩
  cases hgot with
  | unknown => exact ⟨h, fun c hc => by cases hc⟩
  | opens info => exact ⟨(h.asyncConnect info o).congr rfl rfl rfl rfl, hopened info⟩
  | grows info => exact ⟨(h.asyncConnect info o).congr rfl rfl rfl rfl, hopened info⟩
  | walks info pair i c =>
    refine ⟨h.congr rfl rfl rfl rfl, fun c' hc' => ?_⟩
    split_ifs at hc' with hup
    obtain rfl := Option.some.inj hc'
    unfold DbMgr.isConnected at hup
    cases hobj : s.objs[c]? with
    | none =>
      rw [hobj] at hup
      cases hup
    | some obj =>
      rw [hobj] at hup
      exact ⟨obj, rfl, hup⟩

/-- A task that its connection accepts. -/
theorem Ledger.addTask (h : Ledger ex stale due s) {c : ℕ} {obj : MysqlAsyncConn}
    (hobj : s.objs[c]? = some obj) (hup : obj.isConnected = true) {task : SqlTask}
    (hid : task.id = s.nextTask) (hsingle : task.Single) (hnext : s'.nextTask = s.nextTask + 1)
    (haccepted : s'.accepted = s.accepted ++ [s.nextTask]) (hcalled : s'.called = s.called)
    (hobjs : s'.objs = s.objs.set c (obj.addTask (some task)).2) : Ledger ex stale due s' := by
  have hlt : c < s.objs.length := (List.getElem?_eq_some_iff.mp hobj).1
  have hset : ∀ (i : ℕ) (c' : MysqlAsyncConn), s'.objs[i]? = some c' →
      s.objs[i]? = some c' ∨ i = c ∧ c' = (obj.addTask (some task)).2 := by
    intro i c' hc'
    rw [hobjs, List.getElem?_set] at hc'
    split_ifs at hc' with heq
    · exact Or.inr ⟨heq.symm, (Option.some.inj hc').symm⟩
    · exact Or.inl hc'
  refine ⟨fun t ht => ?_, ?_, fun t => ?_, fun i c' hc' => ?_, fun i c' hc' hne => ?_⟩
  · rw [haccepted] at ht
    rw [hnext]
    rcases List.mem_append.mp ht with ht | ht
    · exact Nat.lt_succ_of_lt (h.fresh t ht)
    · exact List.mem_singleton.mp ht ▸ Nat.lt_succ_self _
  · rw [haccepted]
    refine List.nodup_append.mpr ⟨h.once, List.nodup_singleton _, fun t ht t' ht' => ?_⟩
    rw [List.mem_singleton.mp ht']
    exact Nat.ne_of_lt (h.fresh t ht)
  · have hload := load_set t hobj (obj.addTask (some task)).2
    rw [MysqlAsyncConn.owed_addTask task hup, List.count_append, hid] at hload
    rw [haccepted, hcalled, hobjs, List.count_append]
    have hbalance := h.balance t
    omega
  · rcases hset i c' hc' with hold | ⟨-, rfl⟩
    · exact h.queued i c' hold
    · intro t ht
      rw [MysqlAsyncConn.addTask_up task hup] at ht
      rcases List.mem_append.mp ht with ht | ht
      · exact h.queued c obj hobj t ht
      · exact List.mem_singleton.mp ht ▸ hsingle
  · rcases hset i c' hc' with hold | ⟨rfl, rfl⟩
    · exact h.orderly i c' hold hne
    · exact (h.orderly i obj hobj hne).addTask hsingle

/-- **A call keeps the books**, whichever connection is at work. -/
theorem Ledger.handled (h : Ledger ex stale due s) {call : SqlCall} {b : Bool}
    (hsql : Handled s call b s') (ho : ¬ call.opening.FailsAtOnce) : Ledger ex stale due s' := by
  cases hsql with
  | invalid => exact h
  | refused node s' hgot => exact (h.got hgot ho).1
  | accepted node fn sql c s₁ hgot =>
    obtain ⟨hledger, hready⟩ := h.got hgot ho
    obtain ⟨obj, hobj, hup⟩ := hready c rfl
    refine hledger.addTask hobj hup rfl (newTask_single s₁ call fn sql) rfl rfl rfl ?_
    show s₁.objs.modify c _ = _
    rw [List.modify_eq_set_getElem?, hobj]
    rfl

theorem Ledger.runCalls (h : Ledger ex stale due s) {calls : List SqlCall}
    (hcalls : ∀ call ∈ calls, ¬ call.opening.FailsAtOnce)
    (hrun : DbMgr.runCalls s calls = some s') : Ledger ex stale due s' := by
  induction calls generalizing s with
  | nil =>
    cases hrun
    exact h
  | cons call calls ih =>
    unfold DbMgr.runCalls at hrun
    cases hsql : s.handleSql call with
    | none =>
      rw [hsql] at hrun
      cases hrun
    | some p =>
      rw [hsql] at hrun
      refine ih (h.handled (handled_of_handleSql hsql) (hcalls call List.mem_cons_self)) ?_ hrun
      exact fun call' hcall' => hcalls call' (List.mem_cons_of_mem _ hcall')

/-! ## A connection at work -/

/-- The books while the connection `i` is at work, if the run has a meaning. -/
def AtWork (i : ℕ) (w : Option DbMgr) (due : List ℕ) : Prop :=
  ∀ s, w = some s → ∃ c, s.objs[i]? = some c ∧ Ledger (some i) c.owed due s

/-- The connection at work is written back. -/
theorem Ledger.write {i : ℕ} {c₀ c : MysqlAsyncConn} {due' : List ℕ}
    (h : Ledger (some i) c₀.owed due s) (hc₀ : s.objs[i]? = some c₀)
    (hq : ∀ task ∈ c.tasks, task.Single) (haccepted : s'.accepted = s.accepted)
    (hnext : s'.nextTask = s.nextTask) (hobjs : s'.objs = s.objs.set i c)
    (hdue : ∀ t, s.called.count t + due.count t = s'.called.count t + due'.count t) :
    Ledger (some i) c.owed due' s' := by
  have hset : ∀ (j : ℕ) (c' : MysqlAsyncConn), s'.objs[j]? = some c' →
      s.objs[j]? = some c' ∧ i ≠ j ∨ i = j ∧ c' = c := by
    intro j c' hc'
    rw [hobjs, List.getElem?_set] at hc'
    split_ifs at hc' with heq
    · exact Or.inr ⟨heq, (Option.some.inj hc').symm⟩
    · exact Or.inl ⟨hc', heq⟩
  refine ⟨?_, haccepted ▸ h.once, fun t => ?_, fun j c' hc' => ?_, fun j c' hc' hne => ?_⟩
  · rw [haccepted, hnext]
    exact h.fresh
  · have hload := load_set t hc₀ c
    rw [haccepted, hobjs]
    have hbalance := h.balance t
    have hdue' := hdue t
    omega
  · rcases hset j c' hc' with ⟨hold, -⟩ | ⟨-, rfl⟩
    · exact h.queued j c' hold
    · exact hq
  · rcases hset j c' hc' with ⟨hold, -⟩ | ⟨rfl, -⟩
    · exact h.orderly j c' hold hne
    · exact absurd rfl hne

/-- The object of the connection at work is replaced by one that owes more. -/
theorem Ledger.more {i : ℕ} {c : MysqlAsyncConn} (h : Ledger (some i) stale due s)
    {added : List ℕ} (hc : c.owed = stale ++ added) : Ledger (some i) c.owed (due ++ added) s where
  fresh := h.fresh
  once := h.once
  balance t := by
    rw [hc, List.count_append, List.count_append]
    have hbalance := h.balance t
    omega
  queued := h.queued
  orderly := h.orderly

/-- The tasks that a connection got are at the end of its queue. -/
theorem tasks_of_keeps {i : ℕ} {c : MysqlAsyncConn} (h : Keeps s s') (hc : s.objs[i]? = some c) :
    ∃ (c' : MysqlAsyncConn) (added : List SqlTask), s'.objs[i]? = some c' ∧
      c'.tasks = c.tasks ++ added ∧ c'.owed = c.owed ++ added.map SqlTask.id := by
  obtain ⟨tasks, hc'⟩ := h i c hc
  obtain ⟨added, hadded⟩ := (MysqlAsyncConn.called_addTasks c tasks).tasks
  refine ⟨_, added, hc', hadded.symm, ?_⟩
  unfold MysqlAsyncConn.owed
  rw [← hadded, MysqlAsyncConn.curTask_addTasks, ← List.append_assoc, List.map_append]

/-- A callback settles its task in the books. -/
theorem host_answers {i : ℕ} {replies : Replies} {reactions : ℕ → List SqlCall}
    (hcalls : ∀ t, ∀ call ∈ reactions t, ¬ call.opening.FailsAtOnce) :
    (host i replies reactions).Answers (AtWork i) := by
  intro task w c rest hq hw
  cases w with
  | none => exact ⟨[], by simp, by simp [host, runCallback], fun s hs => by cases hs⟩
  | some s =>
    obtain ⟨c₀, hc₀, hledger⟩ := hw s rfl
    have hlt : i < s.objs.length := (List.getElem?_eq_some_iff.mp hc₀).1
    have hstart : Ledger (some i) c.owed rest
        { s with objs := s.objs.set i c, called := s.called ++ [task.id] } := by
      refine hledger.write hc₀ hq rfl rfl rfl fun t => ?_
      rw [List.count_append, ← List.singleton_append, List.count_append]
      omega
    cases hrun : DbMgr.runCalls { s with objs := s.objs.set i c, called := s.called ++ [task.id] }
        (reactions task.id) with
    | none =>
      have heq : runCallback i reactions task (some s) c = (none, c) := by
        unfold runCallback
        simp only [if_pos hlt, hrun]
      refine ⟨[], by simp, ?_, fun s' hs' => ?_⟩
      · simp only [host, heq, List.append_nil]
      · simp only [host, heq] at hs'
        cases hs'
    | some s₁ =>
      have hend := hstart.runCalls (hcalls task.id) hrun
      obtain ⟨c', added, hc', htasks, howed⟩ := tasks_of_keeps (keeps_runCalls hrun) (i := i)
        (c := c) (by simp [hlt])
      have heq : runCallback i reactions task (some s) c = (some s₁, c') := by
        unfold runCallback
        simp only [if_pos hlt, hrun, hc', Option.getD_some]
      refine ⟨added, fun t ht => ?_, ?_, fun s' hs' => ?_⟩
      · exact hend.queued i c' hc' t (by rw [htasks]; exact List.mem_append_right _ ht)
      · simp only [host, heq]
        exact htasks
      · simp only [host, heq] at hs'
        cases hs'
        exact ⟨c', hc', hend.more howed⟩

/-! ## Events -/

/-- A connection comes back from work. -/
theorem Ledger.back {i : ℕ} {c₀ c : MysqlAsyncConn} (h : Ledger (some i) c₀.owed c.owed s)
    (hc₀ : s.objs[i]? = some c₀) (hc : c.Orderly) :
    Ledger none [] [] { s with objs := s.objs.set i c } := by
  have hwrite : Ledger (some i) c.owed c.owed { s with objs := s.objs.set i c } :=
    h.write hc₀ hc.queued rfl rfl rfl fun _ => rfl
  have hlt : i < s.objs.length := (List.getElem?_eq_some_iff.mp hc₀).1
  refine ⟨hwrite.fresh, hwrite.once, fun t => ?_, hwrite.queued, fun j c' hc' _ => ?_⟩
  · have hbalance : s.accepted.count t + c.owed.count t =
        s.called.count t + load t (s.objs.set i c) + c.owed.count t := hwrite.balance t
    exact Nat.add_right_cancel hbalance
  · by_cases hj : i = j
    · obtain rfl := hj
      have hsame : (s.objs.set i c)[i]? = some c := by simp [hlt]
      obtain rfl := Option.some.inj (hsame.symm.trans hc')
      exact hc
    · exact hwrite.orderly j c' hc' fun heq => hj (Option.some.inj heq)

/-- A connection goes to work. -/
theorem Ledger.start (h : Ledger none [] [] s) {i : ℕ} {c : MysqlAsyncConn}
    (hc : s.objs[i]? = some c) : MysqlAsyncConn.Kept (AtWork i) (some s, c) where
  world s' hs' := by
    cases hs'
    refine ⟨c, hc, h.fresh, h.once, fun t => ?_, h.queued, fun j c' hc' _ => ?_⟩
    · exact congrArg (· + c.owed.count t) (h.balance t)
    · exact h.orderly j c' hc' (Option.some_ne_none j).symm
  orderly := h.orderly i c hc (Option.some_ne_none i).symm

/-- An event of a connection keeps the books, if its handler does. -/
theorem Ledger.onConn (h : Ledger none [] [] s) {i : ℕ}
    {f : Option DbMgr → MysqlAsyncConn → Option DbMgr × MysqlAsyncConn}
    (hf : ∀ c, MysqlAsyncConn.Kept (AtWork i) (some s, c) →
      MysqlAsyncConn.Kept (AtWork i) (f (some s) c))
    (hs' : DbMgr.onConn i f s = some s') : Ledger none [] [] s' := by
  unfold DbMgr.onConn at hs'
  cases hc : s.objs[i]? with
  | none =>
    rw [hc] at hs'
    cases hs'
    exact h
  | some c =>
    simp only [hc] at hs'
    have hend := hf c (h.start hc)
    generalize f (some s) c = p at hend hs'
    obtain ⟨_ | s₁, c'⟩ := p
    · cases hs'
    · cases hs'
      obtain ⟨c₀, hc₀, hledger⟩ := hend.world s₁ rfl
      exact hledger.back hc₀ hend.orderly

/-! ## The end of a manager -/

/-- Without databases a call returns false. -/
theorem handleSql_of_empty (hdbs : s.dbs = ∅) (call : SqlCall) :
    s.handleSql call = some (false, s) := by
  unfold handleSql getConn
  split
  · split_ifs
    · rfl
    · simp [hdbs]
  · rfl

theorem runCalls_of_empty (hdbs : s.dbs = ∅) (calls : List SqlCall) :
    DbMgr.runCalls s calls = some s := by
  induction calls with
  | nil => rfl
  | cons call calls ih =>
    unfold DbMgr.runCalls
    rw [handleSql_of_empty hdbs]
    exact ih

/-- A callback in a manager without databases changes only the books. -/
theorem runCallback_of_empty (hdbs : s.dbs = ∅) {i : ℕ} (hlt : i < s.objs.length)
    (reactions : ℕ → List SqlCall) (task : SqlTask) (c : MysqlAsyncConn) :
    runCallback i reactions task (some s) c =
      (some { s with objs := s.objs.set i c, called := s.called ++ [task.id] }, c) := by
  have hdbs' : ({ s with objs := s.objs.set i c, called := s.called ++ [task.id] } : DbMgr).dbs =
      ∅ := hdbs
  have hrun := runCalls_of_empty hdbs' (reactions task.id)
  unfold runCallback
  simp only [if_pos hlt, hrun]
  simp [hlt]

/-- There are no databases, and the connections before `i` owe nothing. -/
structure Ending (i : ℕ) (s : DbMgr) : Prop where
  dbs : s.dbs = ∅
  answered : ∀ (j : ℕ) (c : MysqlAsyncConn), s.objs[j]? = some c → j < i → c.owed = []

/-- The account of the end, while the connection `i` of `n` is deleted. -/
def AtEnd (i n : ℕ) (w : Option DbMgr) (due : List ℕ) : Prop :=
  AtWork i w due ∧ ∀ s, w = some s → Ending i s ∧ s.objs.length = n

/-- Writing the connection `i` does not touch those before it. -/
theorem Ending.set {i : ℕ} (h : Ending i s) (hdbs : s'.dbs = s.dbs) {c : MysqlAsyncConn}
    (hobjs : s'.objs = s.objs.set i c) : Ending i s' where
  dbs := hdbs.trans h.dbs
  answered j c' hc' hj := by
    rw [hobjs, List.getElem?_set_ne (Nat.ne_of_gt hj)] at hc'
    exact h.answered j c' hc' hj

theorem run_atEnd {i n : ℕ} {replies : Replies} {reactions : ℕ → List SqlCall} {task : SqlTask}
    {c : MysqlAsyncConn} {due : List ℕ} (h : AtEnd i n (some s) due) :
    (host i replies reactions).run task (some s) c =
      (some { s with objs := s.objs.set i c, called := s.called ++ [task.id] }, c) := by
  obtain ⟨hwork, hend⟩ := h
  obtain ⟨c₀, hc₀, -⟩ := hwork s rfl
  exact runCallback_of_empty (hend s rfl).1.dbs (List.getElem?_eq_some_iff.mp hc₀).1 _ _ _

/-- At the end the calls of a callback do not matter. -/
theorem host_answers_atEnd (i n : ℕ) (replies : Replies) (reactions : ℕ → List SqlCall) :
    (host i replies reactions).Answers (AtEnd i n) := by
  intro task w c rest hq hw
  cases w with
  | none =>
    refine ⟨[], by simp, by simp [host, runCallback], ?_, fun s hs => by cases hs⟩
    exact fun s hs => by cases hs
  | some s =>
    rw [run_atEnd hw]
    obtain ⟨hwork, hend⟩ := hw
    obtain ⟨c₀, hc₀, hledger⟩ := hwork s rfl
    have hlt : i < s.objs.length := (List.getElem?_eq_some_iff.mp hc₀).1
    obtain ⟨hending, hlength⟩ := hend s rfl
    refine ⟨[], by simp, (List.append_nil _).symm, fun s' hs' => ?_, fun s' hs' => ?_⟩
    · cases hs'
      refine ⟨c, by simp [hlt], hledger.write hc₀ hq rfl rfl rfl fun t => ?_⟩
      rw [List.map_nil, List.append_nil, List.count_append, ← List.singleton_append,
        List.count_append]
      omega
    · cases hs'
      exact ⟨hending.set rfl rfl, by simpa using hlength⟩

/-- The deletion of a connection. -/
theorem delete_conn {i : ℕ} {reactions : ℕ → List SqlCall} (h : Ledger none [] [] s)
    (hend : Ending i s) (hlt : i < s.objs.length)
    (hs' : DbMgr.onConn i (fun w c => c.clearTasks (host i {} reactions) w) s = some s') :
    Ledger none [] [] s' ∧ Ending (i + 1) s' ∧ s'.objs.length = s.objs.length := by
  obtain ⟨c, hc⟩ : ∃ c, s.objs[i]? = some c := ⟨_, List.getElem?_eq_getElem hlt⟩
  have hstart := h.start hc
  have hatEnd : AtEnd i s.objs.length (some s) c.owed := by
    refine ⟨hstart.world, fun s₁ hs₁ => ?_⟩
    cases hs₁
    exact ⟨hend, rfl⟩
  have hdone : MysqlAsyncConn.Done (AtEnd i s.objs.length)
      (c.clearTasks (host i {} reactions) (some s)) := by
    refine MysqlAsyncConn.done_clearTasks (host_answers_atEnd i _ {} reactions) ?_ hatEnd
      hstart.orderly.queued fun task htask hopen => (hstart.orderly.current task htask hopen).1
    intro task w c' rest _ hw
    cases w with
    | none => rfl
    | some s₁ => rw [run_atEnd hw]
  have hkept := MysqlAsyncConn.kept_clearTasks hdone hstart.orderly.down
  have howed : (c.clearTasks (host i {} reactions) (some s)).2.owed = [] :=
    MysqlAsyncConn.owed_clearTasks
  unfold DbMgr.onConn at hs'
  simp only [hc] at hs'
  generalize c.clearTasks (host i {} reactions) (some s) = p at hkept howed hs'
  obtain ⟨_ | s₁, c'⟩ := p
  · cases hs'
  · cases hs'
    obtain ⟨hwork, hending⟩ := hkept.world
    obtain ⟨c₀, hc₀, hledger⟩ := hwork s₁ rfl
    obtain ⟨hbefore, hlength⟩ := hending s₁ rfl
    have hset : Ending i { s₁ with objs := s₁.objs.set i c' } := hbefore.set rfl rfl
    refine ⟨hledger.back hc₀ hkept.orderly, ⟨hbefore.dbs, fun j c'' hc'' hj => ?_⟩, ?_⟩
    · rcases Nat.lt_succ_iff_lt_or_eq.mp hj with hj | rfl
      · exact hset.answered j c'' hc'' hj
      · have hsame : (s₁.objs.set j c')[j]? = some c' := by
          simp [(List.getElem?_eq_some_iff.mp hc₀).1]
        obtain rfl := Option.some.inj (hsame.symm.trans hc'')
        exact howed
    · simpa using hlength

/-- The connections are deleted one after the other. -/
theorem Ledger.deleteConns {reactions : ℕ → List SqlCall} {i n : ℕ} (h : Ledger none [] [] s)
    (hend : Ending i s) (hlength : s.objs.length = i + n)
    (hs' : DbMgr.deleteConns reactions s (List.range' i n) = some s') :
    Ledger none [] [] s' ∧ Ending (i + n) s' ∧ s'.objs.length = i + n := by
  induction n generalizing s i with
  | zero =>
    cases hs'
    exact ⟨h, hend, hlength⟩
  | succ n ih =>
    rw [List.range'_succ] at hs'
    unfold DbMgr.deleteConns at hs'
    cases hconn : DbMgr.onConn i (fun w c => c.clearTasks (host i {} reactions) w) s with
    | none =>
      rw [hconn] at hs'
      cases hs'
    | some s₁ =>
      simp only [hconn] at hs'
      obtain ⟨h₁, hend₁, hlength₁⟩ := delete_conn h hend (by omega) hconn
      have hrest := ih h₁ hend₁ (by omega) hs'
      rwa [Nat.add_right_comm, Nat.add_assoc] at hrest

/-- Connections that owe nothing may go. -/
theorem load_of_answered (t : ℕ) {objs : List MysqlAsyncConn} (h : ∀ c ∈ objs, c.owed = []) :
    load t objs = 0 := by
  unfold load
  refine List.sum_eq_zero fun n hn => ?_
  obtain ⟨c, hc, rfl⟩ := List.mem_map.mp hn
  rw [h c hc]
  rfl

theorem Ledger.destroy (h : Ledger none [] [] s) {reactions : ℕ → List SqlCall}
    (hs' : s.destroy reactions = some s') : Ledger none [] [] s' := by
  unfold DbMgr.destroy at hs'
  rw [List.range_eq_range'] at hs'
  cases hdel : DbMgr.deleteConns reactions { s with dbs := ∅ }
      (List.range' 0 s.objs.length) with
  | none =>
    rw [hdel] at hs'
    cases hs'
  | some s₁ =>
    rw [hdel] at hs'
    cases hs'
    have hstart : Ledger none [] [] { s with dbs := ∅ } := h.congr rfl rfl rfl rfl
    obtain ⟨h₁, hend, hlength⟩ := hstart.deleteConns ⟨rfl, fun j c _ hj => absurd hj j.not_lt_zero⟩
      (Nat.zero_add _).symm hdel
    have hload : ∀ t, load t s₁.objs = 0 := by
      intro t
      refine load_of_answered t fun c hc => ?_
      obtain ⟨j, hj, rfl⟩ := List.mem_iff_getElem.mp hc
      exact hend.answered j _ (List.getElem?_eq_getElem hj) (hlength ▸ hj)
    refine ⟨h₁.fresh, h₁.once, fun t => ?_, (fun i c hc => by cases hc), fun i c hc => by cases hc⟩
    have hbalance := h₁.balance t
    rw [hload t] at hbalance
    exact hbalance

end DbMgr

/-! ## Runs -/

/-- No call of the event, from outside or by a callback, has a connect that fails at once. The
calls at the end of a manager open no connection. -/
def DbEvent.Connects : DbEvent → Prop
  | .sql call => ¬ call.opening.FailsAtOnce
  | .io _ _ reactions => ∀ t, ∀ call ∈ reactions t, ¬ call.opening.FailsAtOnce
  | .timer _ _ reactions => ∀ t, ∀ call ∈ reactions t, ¬ call.opening.FailsAtOnce
  | .destroy _ => True

namespace DbMgr

variable {s s' : DbMgr}

/-- **Every event keeps the books**, if no connect of a call fails at once. -/
theorem Ledger.step (h : Ledger none [] [] s) {e : DbEvent} (he : e.Connects)
    (hs' : s.step e = some s') : Ledger none [] [] s' := by
  cases e with
  | sql call =>
    obtain ⟨⟨b, s₁⟩, hsql, rfl⟩ := Option.map_eq_some_iff.mp hs'
    exact h.handled (handled_of_handleSql hsql) he
  | io i replies reactions =>
    simp only [DbMgr.step] at hs'
    refine h.onConn (fun c hk => ?_) hs'
    simp only [connStep]
    split_ifs with hactive
    · exact hk.waitForMysql (host_answers he) hactive
    · exact hk
  | timer i replies reactions =>
    simp only [DbMgr.step] at hs'
    exact h.onConn (fun c hk => hk.pingStart (host_answers he)) hs'
  | destroy reactions => exact h.destroy hs'

theorem ledger_run {dbs : FiniteMap Bytes DbInfo} {es : List DbEvent} (hes : ∀ e ∈ es, e.Connects)
    (hrun : dbMachine.run (some { dbs := dbs }) es = some s) : Ledger none [] [] s := by
  induction es using List.reverseRecOn generalizing s with
  | nil =>
    cases hrun
    exact ledger_empty dbs
  | append_singleton es e ih =>
    rw [Machine.run_snoc] at hrun
    obtain ⟨s₁, hs₁, hstep⟩ := Option.bind_eq_some_iff.mp hrun
    have h₁ := ih (fun e' he' => hes e' (List.mem_append_left _ he')) hs₁
    exact h₁.step (hes e (List.mem_append_right _ (List.mem_singleton_self e))) hstep

/-- A connection whose connect failed at once refuses a task. -/
theorem addTask_init {o : Opening} (ho : o.FailsAtOnce) (info : DbInfo) (task : Option SqlTask) :
    ((MysqlAsyncConn.init info { realConnectStart := o.connect }).addTask task).2 =
      MysqlAsyncConn.init info { realConnectStart := o.connect } := by
  have hdown :
      (MysqlAsyncConn.init info { realConnectStart := o.connect }).isConnected = false := by
    unfold MysqlAsyncConn.init MysqlAsyncConn.connectStart
    simp only [ho.1, ho.2, ne_eq, not_true, if_false, Bool.false_eq_true,
      MysqlAsyncConn.setConnected_false]
  cases task with
  | none => rfl
  | some task => simp only [MysqlAsyncConn.addTask, hdown, Bool.false_eq_true, if_false]

/-- The task of a call whose new connection refuses it is nowhere. -/
theorem not_answeredOnce_of_refused (h : Ledger none [] [] s) {info : DbInfo} {o : Opening}
    (ho : o.FailsAtOnce) {task : Option SqlTask} (hcalled : s'.called = s.called)
    (haccepted : s'.accepted = s.accepted ++ [s.nextTask])
    (hobjs : s'.objs = (s.asyncConnect info o).objs.modify s.objs.length
      fun obj => (obj.addTask task).2) : ¬ s'.AnsweredOnce := by
  have hnew : s.nextTask ∉ s.accepted := fun hmem => Nat.lt_irrefl _ (h.fresh _ hmem)
  have hbalance := h.balance s.nextTask
  rw [List.count_eq_zero_of_not_mem hnew] at hbalance
  simp only [List.count_nil] at hbalance
  have hload : load s.nextTask s'.objs = 0 := by
    have hsame : s'.objs =
        s.objs ++ [MysqlAsyncConn.init info { realConnectStart := o.connect }] := by
      rw [hobjs, List.modify_eq_set_getElem?]
      simp [asyncConnect, addTask_init ho]
    rw [hsame, load_append]
    unfold load
    rw [List.map_singleton, MysqlAsyncConn.owed_init]
    simp only [load] at hbalance
    simp only [List.count_nil, List.sum_singleton]
    omega
  intro hanswered
  rcases hanswered.kept s.nextTask (by simp [haccepted]) with hmem | howed
  · rw [hcalled] at hmem
    have hpos := List.count_pos_iff.mpr hmem
    omega
  · exact absurd (load_pos_iff.mpr howed) (hload ▸ Nat.lt_irrefl 0)

/-- A call that opens a connection whose connect fails at once returns true and loses its task. -/
theorem Ledger.lost (h : Ledger none [] [] s) {call : SqlCall}
    (hsql : s.handleSql call = some (true, s')) (hopen : s.objs.length < s'.objs.length)
    (ho : call.opening.FailsAtOnce) : ¬ s'.AnsweredOnce := by
  have hhandled := handled_of_handleSql hsql
  generalize hb : true = b at hhandled
  cases hhandled with
  | invalid => cases hb
  | refused => cases hb
  | accepted node fn sql c s₁ hgot =>
    generalize hr : some c = r at hgot
    cases hgot with
    | unknown => cases hr
    | opens info =>
      obtain rfl := Option.some.inj hr
      exact not_answeredOnce_of_refused h ho rfl rfl rfl
    | grows info =>
      obtain rfl := Option.some.inj hr
      exact not_answeredOnce_of_refused h ho rfl rfl rfl
    | walks => simp at hopen

end DbMgr

/-- **Every accepted task is answered**: in every state of a run of a manager whose calls open no
connection with a connect that fails at once, the callbacks that ran are those of calls that
returned true, each ran once, and the tasks of the other calls that returned true wait in a
connection. -/
theorem answeredOnce_run (dbs : FiniteMap Bytes DbInfo) (es : List DbEvent)
    (hes : ∀ e ∈ es, e.Connects) (past : List DbEvent) (hpast : past <+: es) (s : DbMgr)
    (hrun : dbMachine.run (some { dbs := dbs }) past = some s) : s.AnsweredOnce :=
  (DbMgr.ledger_run (fun e he => hes e (hpast.subset he)) hrun).answeredOnce

/-- The databases and a query of the examples. -/
def sampleDbs : FiniteMap Bytes DbInfo := (∅ : FiniteMap Bytes DbInfo).insert (text "test") sampleDb

def sampleQuery (connect : ℕ × Bool) : SqlCall where
  isQuery := true
  node := some (text "test")
  fn := some 1
  sql := some (text "select 1")
  opening := { connect := connect }

/-- A query opens a connection, which comes up and answers it. -/
theorem answeredOnce_query :
    ∃ s, dbMachine.run (some { dbs := sampleDbs })
      [.sql (sampleQuery (2, false)), .io 0 { realConnectCont := (0, true) } (fun _ => []),
        .io 0 {} (fun _ => [])] = some s ∧ s.called = [0] ∧ s.AnsweredOnce := by
  have hanswered := answeredOnce_run sampleDbs
    [.sql (sampleQuery (2, false)), .io 0 { realConnectCont := (0, true) } (fun _ => []),
      .io 0 {} (fun _ => [])]
    (by simp [DbEvent.Connects, Opening.FailsAtOnce, sampleQuery]) _ (List.prefix_refl _)
  exact ⟨_, rfl, rfl, hanswered _ rfl⟩

/-- A query opens a connection whose connect fails at once: it returns true, and its callback never
runs. -/
theorem answeredOnce_fails :
    ∃ s, dbMachine.run (some { dbs := sampleDbs }) [.sql (sampleQuery (0, false))] = some s ∧
      s.accepted = [0] ∧ ¬ s.AnsweredOnce := by
  refine ⟨_, rfl, rfl, fun h => ?_⟩
  rcases h.kept 0 List.mem_cons_self with hcalled | ⟨c, hc, howed⟩
  · cases hcalled
  · obtain rfl := List.mem_singleton.mp hc
    cases howed

end Kimserver
