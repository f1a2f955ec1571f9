import Kimserver.Db.MysqlAsyncConn
import Kimserver.Lib.FiniteMap

/-!
# The pools of database connections

`DBMgr` knows the configured databases by the name of their node. It keeps the connections in
pools. The key of a pool is formatted from the host, the port and the name of the database.
A call that finds no pool, or a pool that is not full, opens a connection. In a full pool the
calls take turns with the connections, along an iterator into the list of the pool.

Connections are objects on the heap. They are numbered in the order in which they are made,
and none is deleted before the manager is. What the environment chooses comes with the call:
the answers to `mysql_real_connect_start`, if the call opens a connection, and the entry that
`m_conns.begin()` finds, since the order of a hash map is not specified.

Some runs walk an iterator into a list that is gone, and have no meaning from there on: the
state is an `Option`.

## Main definitions

* `DbMgr`: the members of `DBMgr`, with what its calls returned and which callbacks ran
* `DbMgr.init`, `DbMgr.getConn`, `DbMgr.handleSql`, `DbMgr.destroy`: the operations
* `DbEvent`, `dbMachine`: their runs, with the events of the connections

## Main results

* `DbMgr.got_of_getConn`, `DbMgr.handled_of_handleSql`: what a call can do
* `DbMgr.runCallback_adds`: a callback adds tasks to the connection that calls it
-/

namespace Kimserver

/-- The strings of a database in the configuration. -/
structure DbConf where
  host : Bytes := []
  name : Bytes := []
  password : Bytes := []
  charset : Bytes := []
  user : Bytes := []
  port : Bytes := []
  maxConnCnt : Bytes := []
  deriving DecidableEq, Repr

/-- `DEF_CONN_CNT`, `MAX_CONN_CNT`. -/
def defConnCnt : ℤ := 10
def maxConnCntLimit : ℤ := 30

/-- The `db_info_t` that `init` makes of a configured database. -/
def DbConf.info (conf : DbConf) : Except StoiError DbInfo := do
  let port ← strToInt conf.port
  let cnt ← strToInt conf.maxConnCnt
  let cnt := if cnt = 0 then defConnCnt else if cnt > maxConnCntLimit then maxConnCntLimit else cnt
  return {
    port := port, maxConnCnt := cnt, host := conf.host
    dbName := if conf.name = [] then text "mysql" else conf.name
    password := conf.password, charset := conf.charset, user := conf.user }

/-- The databases that `init` refuses. -/
def DbInfo.invalid (info : DbInfo) : Bool :=
  info.host.isEmpty || info.port = 0 || info.password.isEmpty || info.charset.isEmpty ||
    info.user.isEmpty

/-- `format_identity`, which writes at most 63 characters. -/
def formatIdentity (host : Bytes) (port : ℤ) (dbName : Bytes) : Bytes :=
  (cStr host ++ 58 :: (toDecimal port ++ 58 :: cStr dbName)).take 63

/-- The key of the pool of a database. -/
def DbInfo.identity (info : DbInfo) : Bytes := formatIdentity info.host info.port info.dbName

/-- `MysqlConnPair`: an iterator into a list of connections, and the list. The iterator is
`none` when it points into another list, which is gone. -/
structure MysqlConnPair where
  iter : Option ℕ
  list : List ℕ
  deriving DecidableEq, Repr

/-- The iterator after `i`, which starts again at the end of the list. -/
def MysqlConnPair.next (pair : MysqlConnPair) (i : ℕ) : ℕ :=
  if i + 1 = pair.list.length then 0 else i + 1

/-- The members of `DBMgr`, and the connections on the heap. -/
structure DbMgr where
  dbs : FiniteMap Bytes DbInfo := ∅
  conns : FiniteMap Bytes MysqlConnPair := ∅
  objs : List MysqlAsyncConn := []
  /-- the address of the next task -/
  nextTask : ℕ := 0
  /-- the nodes that `get_conn` returned a connection for, and what this was opened with -/
  got : List (Bytes × Option DbInfo) := []
  /-- the tasks of the calls that returned true -/
  accepted : List ℕ := []
  /-- the tasks whose callback ran -/
  called : List ℕ := []
  deriving DecidableEq

/-- What the environment chooses when a call opens a connection: the answer of
`mysql_real_connect_start`, and the entry at `m_conns.begin()`. -/
structure Opening where
  connect : ℕ × Bool := (0, true)
  front : Bytes := []
  deriving DecidableEq, Repr

/-- A call of `async_query` or `async_exec`. -/
structure SqlCall where
  isQuery : Bool
  node : Option Bytes
  fn : Option ℕ
  sql : Option Bytes
  privdata : ℕ := 0
  opening : Opening := {}
  deriving DecidableEq, Repr

/-- `tolower` of a letter. -/
def toLower (c : UInt8) : UInt8 := if 65 ≤ c ∧ c ≤ 90 then c + 32 else c

/-- `check_query_sql`. -/
def checkQuerySql (sql : Bytes) : Bool :=
  let oper := (sql.dropWhile isSpace).takeWhile fun c => !isSpace c
  [text "select", text "show", text "explain", text "desc"].contains (oper.map toLower)

namespace DbMgr

/-- The databases of a configuration, in the order of its keys; `none` when one is refused. -/
def loadDbs : List (Bytes × DbConf) → FiniteMap Bytes DbInfo →
    Except StoiError (Option (FiniteMap Bytes DbInfo))
  | [], dbs => .ok (some dbs)
  | (node, conf) :: config, dbs => do
    let info ← conf.info
    if info.invalid then return none
    else loadDbs config (if (dbs.lookup node).isSome then dbs else dbs.insert node info)

/-- `init`. -/
def init (config : List (Bytes × DbConf)) : Except StoiError (Bool × DbMgr) := do
  match ← loadDbs config ∅ with
  | none => return (false, {})
  | some dbs => return (true, { dbs := dbs })

/-- `async_connect`. -/
def asyncConnect (s : DbMgr) (info : DbInfo) (o : Opening) : DbMgr :=
  { s with objs := s.objs ++ [MysqlAsyncConn.init info { realConnectStart := o.connect }] }

/-- `is_connected` of the connection with this number. -/
def isConnected (s : DbMgr) (c : ℕ) : Bool := (s.objs[c]?).any MysqlAsyncConn.isConnected

/-- `get_conn` without a pool. The pair that goes into the map has an iterator into a list that
is about to go; the pair that gets the right iterator is the one at `m_conns.begin()`. -/
def openPool (s : DbMgr) (info : DbInfo) (o : Opening) : DbMgr :=
  let conns := s.conns.insert info.identity { iter := none, list := [s.objs.length] }
  { s.asyncConnect info o with
    conns :=
      match conns.lookup o.front with
      | none => conns
      | some pair => conns.insert o.front { pair with iter := some 0 } }

/-- `get_conn` in a pool that is not full. -/
def growPool (s : DbMgr) (info : DbInfo) (pair : MysqlConnPair) (o : Opening) : DbMgr :=
  { s.asyncConnect info o with
    conns := s.conns.insert info.identity { pair with list := pair.list ++ [s.objs.length] } }

/-- `get_conn` in a full pool. -/
def walkPool (s : DbMgr) (info : DbInfo) (pair : MysqlConnPair) : Option (Option ℕ × DbMgr) :=
  match pair.iter with
  | none => none
  | some i =>
    let s := { s with
      conns := s.conns.insert info.identity { pair with iter := some (pair.next i) } }
    match pair.list[pair.next i]? with
    | none => none
    | some c => some (if s.isConnected c then some c else none, s)

/-- `get_conn`. -/
def getConn (s : DbMgr) (node : Bytes) (o : Opening) : Option (Option ℕ × DbMgr) :=
  match s.dbs.lookup node with
  | none => some (none, s)
  | some info =>
    match s.conns.lookup info.identity with
    | none => some (some s.objs.length, s.openPool info o)
    | some pair =>
      if (pair.list.length : ℤ) < info.maxConnCnt then
        some (some s.objs.length, s.growPool info pair o)
      else s.walkPool info pair

/-- The task of a call. -/
def newTask (s : DbMgr) (call : SqlCall) (fn : ℕ) (sql : Bytes) : SqlTask where
  id := s.nextTask
  sql := sql
  oper := if call.isQuery then .select else .exec
  fnQuery := if call.isQuery then some fn else none
  fnExec := if call.isQuery then none else some fn
  privdata := call.privdata

/-- `handle_sql`. -/
def handleSql (s : DbMgr) (call : SqlCall) : Option (Bool × DbMgr) :=
  match call.node, call.fn, call.sql with
  | some node, some fn, some sql =>
    if call.isQuery && !checkQuerySql sql then some (false, s)
    else
      match s.getConn node call.opening with
      | none => none
      | some (none, s) => some (false, s)
      | some (some c, s) =>
        let task := s.newTask call fn sql
        -- The result of `add_task` is not looked at.
        some (true, { s with
          objs := s.objs.modify c fun obj => (obj.addTask (some task)).2
          nextTask := s.nextTask + 1
          got := s.got ++ [(node, (s.objs[c]?).map MysqlAsyncConn.dbInfo)]
          accepted := s.accepted ++ [task.id] })
  | _, _, _ => some (false, s)

/-- The calls that a callback makes, one after the other. -/
def runCalls : DbMgr → List SqlCall → Option DbMgr
  | s, [] => some s
  | s, call :: calls =>
    match s.handleSql call with
    | none => none
    | some (_, s) => runCalls s calls

/-- The callback of a task of the connection `i`: it is noted, and makes its calls. -/
def runCallback (i : ℕ) (reactions : ℕ → List SqlCall) (task : SqlTask) :
    Option DbMgr → MysqlAsyncConn → Option DbMgr × MysqlAsyncConn
  | none, c => (none, c)
  | some s, c =>
    if i < s.objs.length then
      match runCalls { s with objs := s.objs.set i c, called := s.called ++ [task.id] }
        (reactions task.id) with
      | none => (none, c)
      | some s => (some s, (s.objs[i]?).getD c)
    else (some s, c)

/-! ## What a call does to the connections -/

/-- What `get_conn` does: the connection it returns, and the manager after it. -/
inductive Got (s : DbMgr) (node : Bytes) (o : Opening) : Option ℕ → DbMgr → Prop
  | unknown (hdb : s.dbs.lookup node = none) : Got s node o none s
  | opens (info : DbInfo) (hdb : s.dbs.lookup node = some info)
      (hpool : s.conns.lookup info.identity = none) :
      Got s node o (some s.objs.length) (s.openPool info o)
  | grows (info : DbInfo) (pair : MysqlConnPair) (hdb : s.dbs.lookup node = some info)
      (hpool : s.conns.lookup info.identity = some pair) :
      Got s node o (some s.objs.length) (s.growPool info pair o)
  | walks (info : DbInfo) (pair : MysqlConnPair) (i c : ℕ) (hdb : s.dbs.lookup node = some info)
      (hpool : s.conns.lookup info.identity = some pair) (hiter : pair.iter = some i)
      (hc : pair.list[pair.next i]? = some c) :
      Got s node o (if s.isConnected c then some c else none)
        { s with conns := s.conns.insert info.identity { pair with iter := some (pair.next i) } }

theorem got_of_getConn {s s' : DbMgr} {node : Bytes} {o : Opening} {r : Option ℕ}
    (h : s.getConn node o = some (r, s')) : Got s node o r s' := by
  unfold getConn at h
  cases hdb : s.dbs.lookup node with
  | none =>
    rw [hdb] at h
    cases h
    exact .unknown hdb
  | some info =>
    simp only [hdb] at h
    cases hpool : s.conns.lookup info.identity with
    | none =>
      rw [hpool] at h
      cases h
      exact .opens info hdb hpool
    | some pair =>
      simp only [hpool] at h
      split_ifs at h with hfull
      · cases h
        exact .grows info pair hdb hpool
      · unfold walkPool at h
        cases hiter : pair.iter with
        | none =>
          rw [hiter] at h
          cases h
        | some i =>
          simp only [hiter] at h
          cases hc : pair.list[pair.next i]? with
          | none =>
            rw [hc] at h
            cases h
          | some c =>
            rw [hc] at h
            cases h
            exact .walks info pair i c hdb hpool hiter hc

/-- The connections of a manager are those of another one, some with more tasks. -/
def Keeps (s s' : DbMgr) : Prop :=
  ∀ (i : ℕ) (c : MysqlAsyncConn), s.objs[i]? = some c →
    ∃ tasks, s'.objs[i]? = some (c.addTasks tasks)

theorem Keeps.refl (s : DbMgr) : Keeps s s := fun _ _ h => ⟨[], h⟩

theorem Keeps.trans {s s' s'' : DbMgr} (h : Keeps s s') (h' : Keeps s' s'') : Keeps s s'' := by
  intro i c hc
  obtain ⟨tasks, hc'⟩ := h i c hc
  obtain ⟨tasks', hc''⟩ := h' i _ hc'
  refine ⟨tasks ++ tasks', ?_⟩
  rw [hc'', MysqlAsyncConn.addTasks, MysqlAsyncConn.addTasks, MysqlAsyncConn.addTasks,
    List.foldl_append]

/-- New connections come after the old ones. -/
theorem keeps_of_append {s s' : DbMgr} {new : List MysqlAsyncConn} (h : s'.objs = s.objs ++ new) :
    Keeps s s' := by
  intro i c hc
  refine ⟨[], ?_⟩
  rw [h, List.getElem?_append_left (List.getElem?_eq_some_iff.mp hc).1]
  exact hc

variable {s s' : DbMgr} {node : Bytes} {o : Opening} {r : Option ℕ}

theorem keeps_addTask (c : ℕ) (task : SqlTask)
    (h : s'.objs = s.objs.modify c fun obj => (obj.addTask (some task)).2) : Keeps s s' := by
  intro i obj hobj
  by_cases hi : c = i
  · exact ⟨[task], by simp [h, hobj, hi, MysqlAsyncConn.addTasks]⟩
  · exact ⟨[], by simp [h, hobj, hi, MysqlAsyncConn.addTasks]⟩

theorem Got.keeps (h : Got s node o r s') : Keeps s s' := by
  cases h with
  | unknown => exact .refl s
  | opens => exact keeps_of_append rfl
  | grows => exact keeps_of_append rfl
  | walks => exact keeps_of_append (List.append_nil _).symm

/-- What `handle_sql` does: it returns false, or makes a task for the connection it got. -/
inductive Handled (s : DbMgr) (call : SqlCall) : Bool → DbMgr → Prop
  | invalid : Handled s call false s
  | refused (node : Bytes) (s' : DbMgr) (hgot : Got s node call.opening none s') :
      Handled s call false s'
  | accepted (node : Bytes) (fn : ℕ) (sql : Bytes) (c : ℕ) (s' : DbMgr)
      (hgot : Got s node call.opening (some c) s') :
      Handled s call true { s' with
        objs := s'.objs.modify c fun obj => (obj.addTask (some (s'.newTask call fn sql))).2
        nextTask := s'.nextTask + 1
        got := s'.got ++ [(node, (s'.objs[c]?).map MysqlAsyncConn.dbInfo)]
        accepted := s'.accepted ++ [s'.nextTask] }

theorem handled_of_handleSql {call : SqlCall} {b : Bool} (h : s.handleSql call = some (b, s')) :
    Handled s call b s' := by
  unfold handleSql at h
  split at h
  case h_1 node fn sql _ _ _ =>
    split_ifs at h
    · cases h
      exact .invalid
    · cases hgot : s.getConn node call.opening with
      | none =>
        rw [hgot] at h
        cases h
      | some p =>
        obtain ⟨_ | c, s₁⟩ := p
        · rw [hgot] at h
          cases h
          exact .refused node s' (got_of_getConn hgot)
        · rw [hgot] at h
          cases h
          exact .accepted node fn sql c s₁ (got_of_getConn hgot)
  case h_2 =>
    cases h
    exact .invalid

theorem Handled.keeps {call : SqlCall} {b : Bool} (h : Handled s call b s') : Keeps s s' := by
  cases h with
  | invalid => exact .refl s
  | refused node s' hgot => exact hgot.keeps
  | accepted node fn sql c s₁ hgot =>
    exact hgot.keeps.trans (keeps_addTask c _ rfl)

theorem keeps_runCalls {calls : List SqlCall} (h : runCalls s calls = some s') :
    Keeps s s' := by
  induction calls generalizing s with
  | nil =>
    cases h
    exact .refl _
  | cons call calls ih =>
    unfold runCalls at h
    cases hsql : s.handleSql call with
    | none =>
      rw [hsql] at h
      cases h
    | some p =>
      rw [hsql] at h
      exact (handled_of_handleSql hsql).keeps.trans (ih h)

/-- A callback adds tasks to the connection that calls it, and does not touch it otherwise. -/
theorem runCallback_adds (i : ℕ) (reactions : ℕ → List SqlCall) (task : SqlTask)
    (w : Option DbMgr) (c : MysqlAsyncConn) :
    ∃ tasks, (runCallback i reactions task w c).2 = c.addTasks tasks := by
  cases w with
  | none => exact ⟨[], rfl⟩
  | some s =>
    unfold runCallback
    simp only
    split_ifs with hi
    · cases hrun : runCalls { s with objs := s.objs.set i c, called := s.called ++ [task.id] }
        (reactions task.id) with
      | none => exact ⟨[], rfl⟩
      | some s' =>
        obtain ⟨tasks, hc⟩ := keeps_runCalls hrun i c (by simp [hi])
        refine ⟨tasks, ?_⟩
        show (s'.objs[i]?).getD c = c.addTasks tasks
        rw [hc]
        rfl
    · exact ⟨[], rfl⟩

/-- The outside of the connection `i` in one event. -/
def host (i : ℕ) (replies : Replies) (reactions : ℕ → List SqlCall) : Host (Option DbMgr) where
  replies := replies
  run := runCallback i reactions
  adds := runCallback_adds i reactions

/-- An event of the connection `i`, if there is such a connection. -/
def onConn (i : ℕ) (f : Option DbMgr → MysqlAsyncConn → Option DbMgr × MysqlAsyncConn)
    (s : DbMgr) : Option DbMgr :=
  match s.objs[i]? with
  | none => some s
  | some c =>
    match f (some s) c with
    | (none, _) => none
    | (some s, c) => some { s with objs := s.objs.set i c }

/-- The connections from the number `i` on are deleted. -/
def deleteConns (reactions : ℕ → List SqlCall) (s : DbMgr) : List ℕ → Option DbMgr
  | [] => some s
  | i :: is =>
    match onConn i (fun w c => c.clearTasks (host i {} reactions) w) s with
    | none => none
    | some s => deleteConns reactions s is

/-- The destructor. The databases go first, so that the callbacks of the tasks that are left find
no node. The connections are deleted in the order of their numbers, which the callbacks cannot
tell from the order of the pools. -/
def destroy (s : DbMgr) (reactions : ℕ → List SqlCall) : Option DbMgr :=
  match deleteConns reactions { s with dbs := ∅ } (List.range s.objs.length) with
  | none => none
  | some s => some { s with conns := ∅, objs := [] }

end DbMgr

/-! ## Runs -/

/-- What happens to a manager: calls from outside of the callbacks, the events of its
connections, and its end. The callback of the task `t` makes the calls `reactions t`. -/
inductive DbEvent
  | sql (call : SqlCall)
  | io (i : ℕ) (replies : Replies) (reactions : ℕ → List SqlCall)
  | timer (i : ℕ) (replies : Replies) (reactions : ℕ → List SqlCall)
  | destroy (reactions : ℕ → List SqlCall)

/-- The handler of an event. -/
def DbMgr.step (s : DbMgr) : DbEvent → Option DbMgr
  | .sql call => (s.handleSql call).map Prod.snd
  | .io i replies reactions =>
    DbMgr.onConn i (fun w c => connStep (w, c) (.io (host i replies reactions))) s
  | .timer i replies reactions =>
    DbMgr.onConn i (fun w c => connStep (w, c) (.timer (host i replies reactions))) s
  | .destroy reactions => s.destroy reactions

/-- The runs of a manager. A run that has no meaning goes on without one. -/
def dbMachine : Machine (Option DbMgr) DbEvent where
  step s e := s.bind fun s => s.step e

end Kimserver
