import Kimserver.Db.MysqlAsyncConn
import Kimserver.Lib.FiniteMap

/-!
# The results of queries

A connection has one `MYSQL_RES` pointer, `m_query_res`, which `mysql_store_result` writes, and one
`MysqlResult`, which it passes to the callbacks of all queries. `callback` initialises the
`MysqlResult` with the pointer, calls the user and frees what the pointer refers to. With a null
pointer `init` returns early and leaves the pointer of the `MysqlResult` as it was. A query without
a result set therefore sees the result of an earlier one, which was freed.

The functions of the connection run here in a world that has these members beside the world of the
callbacks.

## Main definitions

* `MysqlRes`, `MysqlResult`: a result of the library, and the class around it
* `QueryResults`: the two members, the results on the heap, and the calls of the callbacks
* `resultMachine`: the runs of a connection with its results
* `QueryCall.Sees`: a callback sees the result of its query

## Main results

* `QueryResults.Settled.callQuery`, `QueryResults.Settled.callQuery_store`: what the callback of a
  query does to the members, without a result and with one
-/

namespace Kimserver

/-! ## Results -/

/-- `MYSQL_RES`: the names of its columns and its rows, in which a column may be `NULL`. -/
structure MysqlRes where
  fields : List Bytes
  rows : List (List (Option Bytes))
  deriving DecidableEq

/-- The results that the library made, by their address; `none` is one that was freed. -/
abbrev MysqlHeap := List (Option MysqlRes)

/-- What an address refers to. -/
def MysqlHeap.find (heap : MysqlHeap) (p : ℕ) : Option MysqlRes := heap[p]?.join

/-- `MysqlResult`, with the members that its functions read. -/
structure MysqlResult where
  error : ℤ := -1
  errstr : Bytes := []
  res : Option ℕ := none
  fieldCnt : ℕ := 0
  deriving DecidableEq

namespace MysqlResult

variable (m : MysqlResult) (heap : MysqlHeap)

/-- `init`, with a connection whose last error is given. -/
def init (errno : ℤ) (error : Bytes) (res : Option ℕ) : MysqlResult :=
  match res with
  | none => { m with error := -1, errstr := text "invalid param!" }
  | some p =>
    { error := errno
      errstr := error
      res := some p
      fieldCnt := ((heap.find p).map fun r => r.fields.length).getD 0 }

/-- `num_rows`. There is no answer about a result that was freed. -/
def numRows : Option UInt32 :=
  match m.res with
  | none => some 0
  | some p => (heap.find p).map fun r => UInt32.ofNat r.rows.length

/-- `fetch_row`, called until it returns null. -/
def fetchRows : Option (List (List (Option Bytes))) :=
  match m.res with
  | none => some []
  | some p => (heap.find p).map MysqlRes.rows

/-- A row of `result_data`. -/
def rowItems (fieldCnt : ℕ) (fields : List Bytes) (row : List (Option Bytes)) :
    FiniteMap Bytes Bytes :=
  FiniteMap.assignAll ∅ (((fields.zip row).take fieldCnt).map fun e => (e.1, cStr (e.2.getD [])))

/-- `result_data`. -/
def resultData : Option (List (FiniteMap Bytes Bytes)) :=
  match m.res with
  | none => some []
  | some p => (heap.find p).map fun r => r.rows.map (rowItems m.fieldCnt r.fields)

end MysqlResult

/-- A call of the callback of a query: what the library produced for this query, if it did, and the
`MysqlResult` that the callback gets, with the results at this time. -/
structure QueryCall where
  task : ℕ
  own : Option MysqlRes
  result : MysqlResult
  heap : MysqlHeap
  deriving DecidableEq

namespace QueryCall

/-- The rows that the library produced for the query. -/
def rows (call : QueryCall) : List (List (Option Bytes)) := (call.own.map MysqlRes.rows).getD []

/-- The callback sees the rows of its query, and none where there are none. -/
structure Sees (call : QueryCall) : Prop where
  numRows : call.result.numRows call.heap = some (UInt32.ofNat call.rows.length)
  fetchRows : call.result.fetchRows call.heap = some call.rows
  resultData : call.result.resultData call.heap =
    some (call.rows.map (MysqlResult.rowItems ((call.own.map MysqlRes.fields).getD []).length
      ((call.own.map MysqlRes.fields).getD [])))

end QueryCall

/-- `m_query_res` and `m_mysql_result`, with the results on the heap. Behind them what the library
produced for the query of a task that was not called back yet, and the calls. -/
structure QueryResults where
  heap : MysqlHeap := []
  queryRes : Option ℕ := none
  mysqlResult : MysqlResult := {}
  produced : Option (ℕ × MysqlRes) := none
  calls : List QueryCall := []
  deriving DecidableEq

namespace QueryResults

variable (r : QueryResults)

/-- `mysql_store_result_start` and `mysql_store_result_cont` are done for the query of a task: they
write the new result, or null. -/
def store (task : Option ℕ) (res : Option MysqlRes) : QueryResults :=
  match res with
  | none => { r with queryRes := none, produced := none }
  | some res =>
    { r with
      heap := r.heap ++ [some res]
      queryRes := some r.heap.length
      produced := task.map (·, res) }

/-- The result that was produced for the query of this task. -/
def ownOf (task : ℕ) : Option MysqlRes := (r.produced.filter fun p => p.1 = task).map Prod.snd

/-- The part of `callback` for a query. -/
def callQuery (replies : Replies) (task : ℕ) : QueryResults :=
  let result := r.mysqlResult.init r.heap replies.errno replies.error r.queryRes
  { heap := match r.queryRes with
      | none => r.heap
      | some p => r.heap.set p none
    queryRes := none
    mysqlResult := result
    produced := none
    calls := r.calls ++ [{ task, own := r.ownOf task, result, heap := r.heap }] }

end QueryResults

/-! ## The connection -/

/-- The callbacks of a connection, with its results. The first of the two callbacks is the one of a
query. -/
def Host.withResults {σ : Type*} (h : Host σ) : Host (σ × QueryResults) where
  replies := h.replies
  run task p c :=
    let (w, c) := h.run task p.1 c
    ((w, if task.fnQuery.isSome then p.2.callQuery h.replies task.id else p.2), c)
  adds task p c := h.adds task p.1 c

@[simp] theorem Host.replies_withResults {σ : Type*} (h : Host σ) :
    h.withResults.replies = h.replies := rfl

namespace ResultConn

variable {σ : Type*} (c : MysqlAsyncConn) (h : Host σ) (res : Option MysqlRes)

/-- What the call of the library leaves in `m_query_res`. It writes nothing while it waits. -/
def stored (status : ℕ) (r : QueryResults) : QueryResults :=
  if status ≠ 0 then r else r.store (c.curTask.map SqlTask.id) res

/-- `store_result_start`. -/
def storeResultStart (p : σ × QueryResults) : (σ × QueryResults) × MysqlAsyncConn :=
  c.storeResultStart h.withResults (p.1, stored c res h.replies.storeResultStart p.2)

/-- `query_start`. -/
def queryStart (p : σ × QueryResults) : (σ × QueryResults) × MysqlAsyncConn :=
  if c.curTask.isNone then (p, c)
  else
    let (status, ret) := h.replies.realQueryStart
    let c := c.call (.start .realQuery status)
    if status ≠ 0 then (p, (c.setState .queryWaiting).activeEvIo status)
    else if ret = 0 then storeResultStart c h res p
    else c.handleTask h.withResults p

/-- `query_wait`. -/
def queryWait (p : σ × QueryResults) : (σ × QueryResults) × MysqlAsyncConn :=
  let (status, ret) := h.replies.realQueryCont
  let c := c.call (.cont .realQuery status)
  if status ≠ 0 then (p, c.setState .queryWaiting)
  else if ret ≠ 0 then c.handleTask h.withResults p
  else storeResultStart c h res p

/-- `store_result_wait`. -/
def storeResultWait (p : σ × QueryResults) : (σ × QueryResults) × MysqlAsyncConn :=
  if c.curTask.isNone then (p, c)
  else
    let status := h.replies.storeResultCont
    let c := c.call (.cont .storeResult status)
    if status ≠ 0 then (p, c.setState .storeWaiting)
    else c.handleTask h.withResults (p.1, stored c res status p.2)

/-- `operate_wait`. -/
def operateWait (p : σ × QueryResults) : (σ × QueryResults) × MysqlAsyncConn :=
  let (task, c) := MysqlAsyncConn.fetchNextTask { c with curTask := none }
  let c := { c with curTask := task }
  match task with
  | none => (p, c.stopTask)
  | some task =>
    if task.oper = .select then queryStart c h res p else c.execSqlStart h.withResults p

/-- `wait_for_mysql`. The other states do not get a result. -/
def waitForMysql (p : σ × QueryResults) : (σ × QueryResults) × MysqlAsyncConn :=
  match c.state with
  | .connectWaiting => (p, c.connectWait h.replies)
  | .waitOperate => operateWait c h res p
  | .queryWaiting => queryWait c h res p
  | .execsqlWaiting => c.execSqlWait h.withResults p
  | .storeWaiting => storeResultWait c h res p
  | .pingWaiting => c.pingWait h.withResults p
  | .noConnected => (p, c)

end ResultConn

/-- The events of a connection; with an io event comes the result that `mysql_store_result` makes,
if it is done in this event. Its destructor ends a connection. -/
inductive ResultEvent (σ : Type*)
  | io (host : Host σ) (res : Option MysqlRes)
  | timer (host : Host σ)
  | addTask (task : Option SqlTask)
  | destroy (host : Host σ)

/-- The runs of a connection with its results. -/
def resultMachine (σ : Type*) :
    Machine ((σ × QueryResults) × Option MysqlAsyncConn) (ResultEvent σ) where
  step
    | (p, none), _ => (p, none)
    | (p, some c), .io host res =>
      if c.watcher.active then
        let (p, c) := ResultConn.waitForMysql c host res p
        (p, some c)
      else (p, some c)
    | (p, some c), .timer host =>
      let (p, c) := c.pingStart host.withResults p
      (p, some c)
    | (p, some c), .addTask task => (p, some (c.addTask task).2)
    | (p, some c), .destroy host => ((c.clearTasks host.withResults p).1, none)

/-! ## What the callbacks see -/

/-- No query without a result is called back after one with a result. -/
def EmptyFirst (calls : List QueryCall) : Prop :=
  calls.Pairwise fun call later => later.own = none → call.own = none

instance (calls : List QueryCall) : Decidable (EmptyFirst calls) :=
  inferInstanceAs (Decidable (List.Pairwise _ _))

namespace QueryCall

variable {call : QueryCall}

/-- Without a result of its own, a callback sees none if the `MysqlResult` never had one. -/
theorem sees_of_none (hown : call.own = none) (hres : call.result.res = none) : call.Sees := by
  have hrows : call.rows = [] := by rw [rows, hown]; rfl
  constructor
  · rw [MysqlResult.numRows, hres, hrows]
    rfl
  · rw [MysqlResult.fetchRows, hres, hrows]
  · rw [MysqlResult.resultData, hres, hrows]
    rfl

/-- A result that was freed shows nothing. -/
theorem not_sees_of_freed {p : ℕ} (hres : call.result.res = some p)
    (hfreed : call.heap.find p = none) : ¬ call.Sees := by
  intro h
  have hrows := h.fetchRows
  rw [MysqlResult.fetchRows, hres] at hrows
  simp only [hfreed] at hrows
  cases hrows

/-- A result of its own is seen. -/
theorem sees_of_some {own : MysqlRes} {p : ℕ} (hown : call.own = some own)
    (hres : call.result.res = some p) (hheap : call.heap.find p = some own)
    (hfields : call.result.fieldCnt = own.fields.length) : call.Sees := by
  have hrows : call.rows = own.rows := by rw [rows, hown]; rfl
  constructor
  · rw [MysqlResult.numRows, hres, hrows]
    simp only [hheap, Option.map_some]
  · rw [MysqlResult.fetchRows, hres, hrows]
    simp only [hheap, Option.map_some]
  · rw [MysqlResult.resultData, hres, hrows, hown, hfields]
    simp only [hheap, Option.map_some, Option.getD_some]

end QueryCall

namespace QueryResults

variable {r : QueryResults}

/-- No result waits for its callback. What the `MysqlResult` refers to was freed, and it refers to
something if a query had a result. -/
structure Settled (r : QueryResults) : Prop where
  queryRes : r.queryRes = none
  produced : r.produced = none
  freed : ∀ p, r.mysqlResult.res = some p → r.heap[p]? = some none
  res : r.mysqlResult.res = none ↔ ∀ call ∈ r.calls, call.own = none
  exact : (∀ call ∈ r.calls, call.Sees) ↔ EmptyFirst r.calls

theorem settled_empty : Settled {} where
  queryRes := rfl
  produced := rfl
  freed p h := by cases h
  res := ⟨fun _ call h => (List.not_mem_nil h).elim, fun _ => rfl⟩
  exact := ⟨fun _ => List.Pairwise.nil, fun _ call h => (List.not_mem_nil h).elim⟩

/-- One more call keeps the equivalence if it is right exactly when it may follow the others. -/
theorem exact_snoc {calls : List QueryCall} {call : QueryCall}
    (h : (∀ c ∈ calls, c.Sees) ↔ EmptyFirst calls)
    (hcall : call.Sees ↔ (call.own = none → ∀ c ∈ calls, c.own = none)) :
    (∀ c ∈ calls ++ [call], c.Sees) ↔ EmptyFirst (calls ++ [call]) := by
  rw [EmptyFirst, List.pairwise_append, ← EmptyFirst, ← h]
  constructor
  · intro hall
    refine ⟨fun c hc => hall c (List.mem_append_left _ hc), List.pairwise_singleton _ _, ?_⟩
    intro c hc last hlast hown
    rw [List.mem_singleton.mp hlast] at hown
    exact hcall.mp (hall call (List.mem_append_right _ (List.mem_singleton_self _))) hown c hc
  · rintro ⟨hold, -, hlast⟩ c hc
    rcases List.mem_append.mp hc with hc | hc
    · exact hold c hc
    · rw [List.mem_singleton.mp hc]
      exact hcall.mpr fun hown c hc => hlast c hc call (List.mem_singleton_self _) hown

/-- The callback of a query that has no result. -/
theorem Settled.callQuery (h : r.Settled) (replies : Replies) (task : ℕ) :
    (r.callQuery replies task).Settled := by
  have hown : r.ownOf task = none := by rw [ownOf, h.produced]; rfl
  -- no result came, so `init` leaves the old pointer
  have hresult : (r.mysqlResult.init r.heap replies.errno replies.error r.queryRes).res =
      r.mysqlResult.res := by rw [h.queryRes]; rfl
  simp only [QueryResults.callQuery, h.queryRes] at hresult ⊢
  refine ⟨rfl, rfl, ?_, ?_, exact_snoc h.exact ?_⟩
  · rw [hresult]
    exact h.freed
  · rw [hresult, h.res]
    refine ⟨fun hall c hc => ?_, fun hall c hc => hall c (List.mem_append_left _ hc)⟩
    rcases List.mem_append.mp hc with hc | hc
    · exact hall c hc
    · rw [List.mem_singleton.mp hc]
      exact hown
  · rw [← h.res]
    constructor
    · intro hsees _
      cases hres : r.mysqlResult.res with
      | none => rfl
      | some p =>
        -- a pointer that is left is one that was freed
        refine absurd hsees (QueryCall.not_sees_of_freed (hresult.trans hres) ?_)
        rw [MysqlHeap.find, h.freed p hres]
        rfl
    · exact fun hres => QueryCall.sees_of_none hown (hresult.trans (hres hown))

/-- The library made no result. -/
theorem Settled.store_none (h : r.Settled) (task : Option ℕ) : (r.store task none).Settled :=
  ⟨rfl, rfl, h.freed, h.res, h.exact⟩

/-- The callback of a query for which the library made a result. -/
theorem Settled.callQuery_store (h : r.Settled) (replies : Replies) (task : ℕ) (res : MysqlRes) :
    ((r.store (some task) (some res)).callQuery replies task).Settled := by
  have hown : (r.store (some task) (some res)).ownOf task = some res := by
    simp [ownOf, store]
  -- the result is the newest one
  have hheap : (r.heap ++ [some res])[r.heap.length]? = some (some res) :=
    List.getElem?_concat_length
  have hfind : MysqlHeap.find (r.heap ++ [some res]) r.heap.length = some res := by
    rw [MysqlHeap.find, hheap]
    rfl
  refine ⟨rfl, rfl, ?_, ?_, exact_snoc h.exact ?_⟩
  · intro p hp
    obtain rfl : r.heap.length = p := Option.some.inj hp
    -- and it is freed behind the callback
    refine List.getElem?_set_self ?_
    exact (List.getElem?_eq_some_iff.mp hheap).1
  · refine ⟨fun hres => absurd hres (Option.some_ne_none _), fun hall => ?_⟩
    have hlast := hall _ (List.mem_append_right _ (List.mem_singleton_self _))
    exact absurd (hown.symm.trans hlast) (Option.some_ne_none _)
  · refine iff_of_true ?_ fun hnone => absurd (hown.symm.trans hnone) (Option.some_ne_none _)
    refine QueryCall.sees_of_some (p := r.heap.length) hown rfl hfind ?_
    simp only [MysqlResult.init, store, hfind, Option.map_some, Option.getD_some]

end QueryResults

end Kimserver
