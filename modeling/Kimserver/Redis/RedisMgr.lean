import Kimserver.Lib.FiniteMap
import Kimserver.Lib.Machine
import Kimserver.Util.Text

/-!
# Connections to Redis

`RedisMgr` knows the address of every node and keeps one `RdsConnection` for each address. A
command that is sent while the connection is being set up waits in `m_wait_tasks`. The connect
callback sends the waiting commands, or fails them, and the callback of a command that fails may
send again, through the manager, while the list is still being walked.

The objects and the contexts of hiredis are on heaps, where they are known by their numbers. A
context calls back the connection that its `data` points to. hiredis itself is given by what it
documents: a context is connected or fails once, it calls the callback of each command it
accepted once, and it reports a disconnection when no command is pending. What it decides is part
of the events and the calls.

A run that uses a deleted object, or goes on walking a list after it was cleared, has no meaning:
the state is an `Option`.

## Main definitions

* `RdsConnection`, `RedisCtx`, `RedisMgr`: the members of the classes and of a context
* `RedisMgr.connect`, `RedisMgr.getConn`, `RedisMgr.sendTo`: sending a command
* `RedisMgr.onConnectCallback`, `RedisMgr.destory`: the two walks over the waiting commands
* `RedisEvent`, `redisMachine`: the runs

## Main results

* `RedisMgr.got_of_getConn`, `RedisMgr.sent_of_sendTo`: what a call can do
-/

namespace Kimserver

/-- `format_addr`, which writes at most 63 characters. -/
def formatAddr (host : Bytes) (port : ℤ) : Bytes := (cStr host ++ 58 :: toDecimal port).take 63

/-- `task_t`, a command with the number of the call that sent it. Its callback is not null. -/
structure RdsTask where
  id : ℕ
  argv : List Bytes
  fn : ℕ
  privdata : ℕ := 0
  deriving DecidableEq, Repr

/-- `RdsConnection::STATE`. -/
inductive RdsState
  | connecting
  | connected
  | closed
  deriving DecidableEq, Repr

/-- The members of `RdsConnection`, and whether a loop over `m_wait_tasks` is running. The loops
delete the tasks they pass, and the list holds those to come. -/
structure RdsConnection where
  waitTasks : List RdsTask := []
  state : RdsState := .closed
  ctx : Option ℕ := none
  deleted : Bool := false
  walking : Bool := false
  /-- the address it was opened to last -/
  addr : Option (Bytes × ℤ) := none
  /-- the commands that were added to the list -/
  queued : List ℕ := []
  /-- the commands that a loop sent or failed -/
  settled : List ℕ := []
  deriving DecidableEq, Repr

/-- `is_active`. -/
def RdsConnection.isActive (c : RdsConnection) : Bool :=
  c.state = .connecting || c.state = .connected

/-- `destory` of a connection without a context: the list is cleared. -/
def RdsConnection.clear (obj : RdsConnection) : RdsConnection :=
  { obj with waitTasks := [], state := .closed, ctx := none }

/-- What is left of a connection when its destructor has run. -/
def RdsConnection.dead (obj : RdsConnection) : RdsConnection :=
  { obj.clear with walking := false, deleted := true }

/-- What `on_redis_connect_callback` writes before its loop. -/
def RdsConnection.onConnect (ok : Bool) (obj : RdsConnection) : RdsConnection :=
  if ok then { obj with state := .connected, walking := true }
  else { obj with ctx := none, state := .closed, walking := true }

/-- How far a context is: `disconnecting` is a context that was connected and was told to
disconnect, and `gone` one that was freed. -/
inductive CtxPhase
  | connecting
  | connected
  | disconnecting
  | gone
  deriving DecidableEq, Repr

/-- A context of hiredis: the connection it calls back, its address, and the commands it
accepted and did not call back. -/
structure RedisCtx where
  data : ℕ
  host : Bytes
  port : ℤ
  phase : CtxPhase := .connecting
  pending : List RdsTask := []
  deriving DecidableEq, Repr

/-- The members of `RedisMgr`, and the heaps. -/
structure RedisMgr where
  addrs : FiniteMap Bytes (Bytes × ℤ) := ∅
  conns : FiniteMap Bytes ℕ := ∅
  objs : List RdsConnection := []
  ctxs : List RedisCtx := []
  /-- the number of the next call -/
  nextSend : ℕ := 0
  /-- the nodes that `get_conn` returned a connection for, and what this was opened to -/
  got : List (Bytes × Option (Bytes × ℤ)) := []
  /-- the calls of `send_to` that returned true -/
  accepted : List ℕ := []
  /-- the calls whose callback ran -/
  called : List ℕ := []
  deriving DecidableEq

/-- The results of `redisAsyncConnect` and `redisLibevAttach`. -/
inductive ConnectReply
  | null
  | error
  | attachFailed
  | ok
  deriving DecidableEq, Repr

/-- A call of `RedisMgr::send_to`. What hiredis answers comes with it: to the connect, if there
is one, and to the command, if it is sent. -/
structure RdsSend where
  node : Option Bytes
  argv : List Bytes
  fn : Option ℕ
  privdata : ℕ := 0
  connect : ConnectReply := .ok
  accepts : Bool := true
  deriving DecidableEq, Repr

/-- The addresses that `connect` accepts. -/
def Openable (addr : Bytes × ℤ) : Prop := addr.1 ≠ [] ∧ addr.2 ≠ 0

namespace RedisMgr

/-- The addresses of a configuration; `none` when one is refused. -/
def loadAddrs : List (Bytes × Bytes × Bytes) → FiniteMap Bytes (Bytes × ℤ) →
    Except StoiError (Option (FiniteMap Bytes (Bytes × ℤ)))
  | [], addrs => .ok (some addrs)
  | (node, host, port) :: config, addrs => do
    let port ← strToInt port
    if host = [] ∨ port = 0 then return none
    else loadAddrs config (if (addrs.lookup node).isSome then addrs else addrs.insert node (host, port))

/-- `init`, of the nodes with the texts of their host and port. -/
def init (config : List (Bytes × Bytes × Bytes)) : Except StoiError (Bool × RedisMgr) := do
  match ← loadAddrs config ∅ with
  | none => return (false, {})
  | some addrs => return (true, { addrs := addrs })

/-- Write members of a connection. -/
def setObj (s : RedisMgr) (c : ℕ) (f : RdsConnection → RdsConnection) : RedisMgr :=
  { s with objs := s.objs.modify c f }

/-- Write members of a context. -/
def setCtx (s : RedisMgr) (k : ℕ) (f : RedisCtx → RedisCtx) : RedisMgr :=
  { s with ctxs := s.ctxs.modify k f }

/-- Write the phase of a context. -/
def setPhase (s : RedisMgr) (k : ℕ) (phase : CtxPhase) : RedisMgr :=
  s.setCtx k fun ctx => { ctx with phase := phase }

/-- A connection after a connect that is under way, with its new context. -/
def opened (s : RedisMgr) (c : ℕ) (host : Bytes) (port : ℤ) : RedisMgr :=
  { s.setObj c fun obj => { obj.clear with
      state := .connecting, ctx := some s.ctxs.length, addr := some (host, port) } with
    ctxs := s.ctxs ++ [{ data := c, host := host, port := port }] }

/-- `RdsConnection::connect`. `get_conn` calls it on connections that are closed, and these have
no context; `destory` then clears the list, which must not be walked at the time. -/
def connect (s : RedisMgr) (c : ℕ) (host : Bytes) (port : ℤ) (r : ConnectReply) :
    Option (Bool × RedisMgr) :=
  if host = [] ∨ port = 0 then some (false, s)
  else
    match s.objs[c]? with
    | none => none
    | some obj =>
      if obj.ctx.isSome || obj.walking then none
      else
        match r with
        -- `c->err` of a null pointer
        | .null => none
        | .error | .attachFailed => some (false, s.setObj c RdsConnection.clear)
        | .ok => some (true, s.opened c host port)

/-- `delete` of a connection without a context. -/
def deleteClosed (s : RedisMgr) (c : ℕ) : Option RedisMgr :=
  match s.objs[c]? with
  | none => none
  | some obj =>
    if obj.ctx.isSome || obj.walking then none
    else some (s.setObj c fun obj => { obj.clear with deleted := true })

/-- `get_conn`, from `connect` on. -/
def openConn (s : RedisMgr) (c : ℕ) (host : Bytes) (port : ℤ) (r : ConnectReply) :
    Option (Option ℕ × RedisMgr) :=
  match s.connect c host port r with
  | none => none
  | some (false, s) =>
    -- The entry of `m_conns`, if there is one, still points to the object.
    (s.deleteClosed c).map fun s => (none, s)
  | some (true, s) => some (some c, { s with conns := s.conns.insert (formatAddr host port) c })

/-- `get_conn`. -/
def getConn (s : RedisMgr) (node : Bytes) (r : ConnectReply) : Option (Option ℕ × RedisMgr) :=
  match s.addrs.lookup node with
  | none => some (none, s)
  | some (host, port) =>
    match s.conns.lookup (formatAddr host port) with
    | none => openConn { s with objs := s.objs ++ [{}] } s.objs.length host port r
    | some c =>
      match s.objs[c]? with
      | none => none
      | some obj =>
        if obj.deleted then none
        else if obj.isActive then some (some c, s)
        else s.openConn c host port r

/-- `RdsConnection::send_to`. A command that has to wait is added to the list; no call adds one
while the list is walked. -/
def connSendTo (s : RedisMgr) (c : ℕ) (task : RdsTask) (accepts : Bool) :
    Option (Bool × RedisMgr) :=
  match s.objs[c]? with
  | none => none
  | some obj =>
    match obj.ctx with
    | none => some (false, s)
    | some k =>
      match obj.state with
      | .closed => some (false, s)
      | .connecting =>
        if task.argv = [] then some (false, s)
        else if obj.walking then none
        else
          some (true, s.setObj c fun obj =>
            { obj with waitTasks := obj.waitTasks ++ [task], queued := obj.queued ++ [task.id] })
      | .connected =>
        if accepts then some (true, s.setCtx k fun ctx => { ctx with pending := ctx.pending ++ [task] })
        else some (false, s)

/-- `RedisMgr::send_to`. -/
def sendTo (s : RedisMgr) (call : RdsSend) : Option (Bool × RedisMgr) :=
  let id := s.nextSend
  let s := { s with nextSend := s.nextSend + 1 }
  match call.node, call.fn with
  | some node, some fn =>
    if call.argv = [] then some (false, s)
    else
      match s.getConn node call.connect with
      | none => none
      | some (none, s) => some (false, s)
      | some (some c, s) =>
        let s := { s with got := s.got ++ [(node, (s.objs[c]?).bind RdsConnection.addr)] }
        let task := { id := id, argv := call.argv, fn := fn, privdata := call.privdata }
        match s.connSendTo c task call.accepts with
        | none => none
        | some (false, s) => some (false, s)
        | some (true, s) => some (true, { s with accepted := s.accepted ++ [id] })
  | _, _ => some (false, s)

/-- The calls of a callback, one after the other. -/
def runSends : RedisMgr → List RdsSend → Option RedisMgr
  | s, [] => some s
  | s, call :: calls =>
    match s.sendTo call with
    | none => none
    | some (_, s) => runSends s calls

/-- The callback of a command. -/
def invoke (s : RedisMgr) (task : RdsTask) (reactions : ℕ → List RdsSend) : Option RedisMgr :=
  runSends { s with called := s.called ++ [task.id] } (reactions task.id)

/-- A waiting command leaves the list when the loop passes it. -/
def passed (s : RedisMgr) (c : ℕ) (task : RdsTask) (tasks : List RdsTask) : RedisMgr :=
  s.setObj c fun obj => { obj with waitTasks := tasks, settled := obj.settled ++ [task.id] }

/-- The loop of `on_redis_connect_callback` over the waiting commands. -/
def walk (c : ℕ) (ok : Bool) (accepts : ℕ → Bool) (reactions : ℕ → List RdsSend) :
    RedisMgr → List RdsTask → Option RedisMgr
  | s, [] => some s
  | s, task :: tasks =>
    let s := s.passed c task tasks
    let sent := if ok then s.connSendTo c task (accepts task.id) else some (false, s)
    match sent with
    | none => none
    | some (true, s) => walk c ok accepts reactions s tasks
    | some (false, s) =>
      match s.invoke task reactions with
      | none => none
      | some s => walk c ok accepts reactions s tasks

/-- `on_redis_connect_callback` of the connection `c`. -/
def onConnectCallback (s : RedisMgr) (c : ℕ) (ok : Bool) (accepts : ℕ → Bool)
    (reactions : ℕ → List RdsSend) : Option RedisMgr :=
  match s.objs[c]? with
  | none => none
  | some obj =>
    if obj.deleted then none
    else
      match walk c ok accepts reactions (s.setObj c (.onConnect ok)) obj.waitTasks with
      | none => none
      | some s => some (s.setObj c fun obj => { obj with waitTasks := [], walking := false })

/-- `redisAsyncDisconnect`, when the tasks `waited` of the list are deleted. The disconnect
callback is called at once when the context was connected and no command is pending; this
callback runs `on_redis_connect_callback`, too, over that list. -/
def disconnect (s : RedisMgr) (k : ℕ) (waited : List RdsTask) : Option RedisMgr :=
  match s.ctxs[k]? with
  | none => none
  | some ctx =>
    match ctx.phase with
    | .connecting => some (s.setPhase k .gone)
    | .connected =>
      if ctx.pending = [] then
        if waited ≠ [] then none
        else
          (s.setPhase k .gone).onConnectCallback ctx.data true
            (fun _ => false) fun _ => []
      else some (s.setPhase k .disconnecting)
    | .disconnecting | .gone => none

/-- `delete` of a connection: its destructor runs `destory`, which fails the waiting commands. -/
def destory (s : RedisMgr) (c : ℕ) (reactions : ℕ → List RdsSend) : Option RedisMgr :=
  match s.objs[c]? with
  | none => none
  | some obj =>
    if obj.deleted then none
    else
      let s' :=
        match obj.ctx with
        | none => some s
        | some k =>
          match walk c false (fun _ => false) reactions
            (s.setObj c fun obj => { obj with walking := true }) obj.waitTasks with
          | none => none
          | some s => s.disconnect k obj.waitTasks
      match s' with
      | none => none
      | some s => some (s.setObj c .dead)

/-- The connections of the entries of a map are deleted. -/
def deleteAll (reactions : ℕ → List RdsSend) : RedisMgr → List (Bytes × ℕ) → Option RedisMgr
  | s, [] => some s
  | s, (_, c) :: entries =>
    match s.destory c reactions with
    | none => none
    | some s => deleteAll reactions s entries

/-! ## What a call can do -/

/-- The connection that `get_conn` connects: a new one, or one that is closed. -/
inductive Picked (s : RedisMgr) (key : Bytes) : RedisMgr → ℕ → RdsConnection → Prop
  | fresh (hconn : s.conns.lookup key = none) :
      Picked s key { s with objs := s.objs ++ [{}] } s.objs.length {}
  | closed (c : ℕ) (obj : RdsConnection) (hconn : s.conns.lookup key = some c)
      (hobj : s.objs[c]? = some obj) (hdeleted : obj.deleted = false)
      (hactive : obj.isActive = false) : Picked s key s c obj

/-- What `get_conn` does: the connection it returns, and the manager after it. -/
inductive Got (s : RedisMgr) (node : Bytes) : Option ℕ → RedisMgr → Prop
  | unknown (haddr : s.addrs.lookup node = none) : Got s node none s
  | active (host : Bytes) (port : ℤ) (c : ℕ) (obj : RdsConnection)
      (haddr : s.addrs.lookup node = some (host, port))
      (hconn : s.conns.lookup (formatAddr host port) = some c) (hobj : s.objs[c]? = some obj)
      (hdeleted : obj.deleted = false) (hactive : obj.isActive = true) : Got s node (some c) s
  | failed (host : Bytes) (port : ℤ) (s₁ : RedisMgr) (c : ℕ) (obj : RdsConnection)
      (haddr : s.addrs.lookup node = some (host, port))
      (hpick : Picked s (formatAddr host port) s₁ c obj) (hctx : obj.ctx = none)
      (hwalk : obj.walking = false) :
      Got s node none (s₁.setObj c fun obj => { obj.clear with deleted := true })
  | opened (host : Bytes) (port : ℤ) (s₁ : RedisMgr) (c : ℕ) (obj : RdsConnection)
      (haddr : s.addrs.lookup node = some (host, port)) (hvalid : Openable (host, port))
      (hpick : Picked s (formatAddr host port) s₁ c obj) (hctx : obj.ctx = none)
      (hwalk : obj.walking = false) :
      Got s node (some c) { s₁.opened c host port with
        conns := s₁.conns.insert (formatAddr host port) c }

theorem Picked.hobj {s s₁ : RedisMgr} {key : Bytes} {c : ℕ} {obj : RdsConnection}
    (h : Picked s key s₁ c obj) : s₁.objs[c]? = some obj := by
  cases h with
  | fresh => exact List.getElem?_concat_length
  | closed _ _ _ hobj => exact hobj

/-- Clearing a connection before it is deleted changes nothing. -/
theorem setObj_clear_deleted (s : RedisMgr) (c : ℕ) :
    ((s.setObj c RdsConnection.clear).setObj c fun obj => { obj.clear with deleted := true }) =
      s.setObj c fun obj => { obj.clear with deleted := true } := by
  simp only [setObj, List.modify_modify_eq]
  rfl

theorem getElem?_setObj (s : RedisMgr) (c i : ℕ) (f : RdsConnection → RdsConnection) :
    (s.setObj c f).objs[i]? = (s.objs[i]?).map fun obj => if c = i then f obj else obj :=
  List.getElem?_modify ..

theorem getElem?_setObj_self {s : RedisMgr} {c : ℕ} {obj : RdsConnection}
    (h : s.objs[c]? = some obj) (f : RdsConnection → RdsConnection) :
    (s.setObj c f).objs[c]? = some (f obj) := by
  rw [getElem?_setObj, h, Option.map_some, if_pos rfl]

theorem getElem?_setObj_of_ne {c i : ℕ} (h : c ≠ i) (s : RedisMgr)
    (f : RdsConnection → RdsConnection) : (s.setObj c f).objs[i]? = s.objs[i]? := by
  rw [getElem?_setObj, funext fun obj => if_neg h]
  exact Option.map_id'

theorem deleteClosed_eq {s s' : RedisMgr} {c : ℕ} {obj : RdsConnection}
    (hobj : s.objs[c]? = some obj) (h : s.deleteClosed c = some s') :
    obj.ctx = none ∧ obj.walking = false ∧
      s' = s.setObj c fun obj => { obj.clear with deleted := true } := by
  unfold deleteClosed at h
  simp only [hobj] at h
  split_ifs at h with hbusy
  rw [Bool.or_eq_true, not_or, Bool.not_eq_true, Bool.not_eq_true,
    Option.isSome_eq_false_iff, Option.isNone_iff_eq_none] at hbusy
  exact ⟨hbusy.1, hbusy.2, (Option.some.inj h).symm⟩

/-- `connect` and what `get_conn` makes of it. -/
theorem openConn_cases {s s' : RedisMgr} {c : ℕ} {obj : RdsConnection} {host : Bytes} {port : ℤ}
    {r : ConnectReply} {res : Option ℕ} (hobj : s.objs[c]? = some obj)
    (h : s.openConn c host port r = some (res, s')) :
    obj.ctx = none ∧ obj.walking = false ∧
      (res = none ∧ s' = (s.setObj c fun obj => { obj.clear with deleted := true }) ∨
        Openable (host, port) ∧ res = some c ∧ s' = { s.opened c host port with
          conns := s.conns.insert (formatAddr host port) c }) := by
  unfold openConn connect at h
  by_cases hinvalid : host = [] ∨ port = 0
  · simp only [if_pos hinvalid] at h
    obtain ⟨s₁, hdel, heq⟩ := Option.map_eq_some_iff.mp h
    cases heq
    obtain ⟨hctx, hwalk, rfl⟩ := deleteClosed_eq hobj hdel
    exact ⟨hctx, hwalk, Or.inl ⟨rfl, rfl⟩⟩
  · simp only [if_neg hinvalid, hobj] at h
    by_cases hbusy : (obj.ctx.isSome || obj.walking) = true
    · rw [if_pos hbusy] at h
      cases h
    · rw [if_neg hbusy] at h
      rw [Bool.or_eq_true, not_or, Bool.not_eq_true, Bool.not_eq_true,
        Option.isSome_eq_false_iff, Option.isNone_iff_eq_none] at hbusy
      refine ⟨hbusy.1, hbusy.2, ?_⟩
      have hfailed : ((s.setObj c RdsConnection.clear).deleteClosed c).map (fun s => (none, s)) =
          some (res, s') →
          res = none ∧ s' = s.setObj c fun obj => { obj.clear with deleted := true } := by
        intro h
        obtain ⟨s₁, hdel, heq⟩ := Option.map_eq_some_iff.mp h
        cases heq
        obtain ⟨-, -, rfl⟩ := deleteClosed_eq (getElem?_setObj_self hobj RdsConnection.clear) hdel
        exact ⟨rfl, setObj_clear_deleted s c⟩
      cases r with
      | null => cases h
      | error => exact Or.inl (hfailed h)
      | attachFailed => exact Or.inl (hfailed h)
      | ok =>
        cases h
        exact Or.inr ⟨not_or.mp hinvalid, rfl, rfl⟩

theorem got_of_getConn {s s' : RedisMgr} {node : Bytes} {r : ConnectReply} {res : Option ℕ}
    (h : s.getConn node r = some (res, s')) : Got s node res s' := by
  have hopen : ∀ {host port s₁ c obj}, s.addrs.lookup node = some (host, port) →
      Picked s (formatAddr host port) s₁ c obj →
      s₁.openConn c host port r = some (res, s') → Got s node res s' := by
    intro host port s₁ c obj haddr hpick h
    rcases openConn_cases hpick.hobj h with ⟨hctx, hwalk, ⟨rfl, rfl⟩ | ⟨hvalid, rfl, rfl⟩⟩
    · exact .failed host port s₁ c obj haddr hpick hctx hwalk
    · exact .opened host port s₁ c obj haddr hvalid hpick hctx hwalk
  unfold getConn at h
  cases haddr : s.addrs.lookup node with
  | none =>
    rw [haddr] at h
    cases h
    exact .unknown haddr
  | some addr =>
    obtain ⟨host, port⟩ := addr
    simp only [haddr] at h
    cases hconn : s.conns.lookup (formatAddr host port) with
    | none =>
      rw [hconn] at h
      exact hopen haddr (.fresh hconn) h
    | some c =>
      simp only [hconn] at h
      cases hobj : s.objs[c]? with
      | none =>
        rw [hobj] at h
        cases h
      | some obj =>
        simp only [hobj] at h
        cases hdeleted : obj.deleted with
        | true =>
          rw [if_pos hdeleted] at h
          cases h
        | false =>
          rw [hdeleted, if_neg Bool.false_ne_true] at h
          cases hactive : obj.isActive with
          | true =>
            rw [if_pos hactive] at h
            cases h
            exact .active host port c obj haddr hconn hobj hdeleted hactive
          | false =>
            rw [hactive, if_neg Bool.false_ne_true] at h
            exact hopen haddr (.closed c obj hconn hobj hdeleted hactive) h

/-- What `RdsConnection::send_to` does: it refuses the command, lets it wait, or gives it to
hiredis. -/
inductive ConnSent (s : RedisMgr) (c : ℕ) (task : RdsTask) : Bool → RedisMgr → Prop
  | refused : ConnSent s c task false s
  | waits (obj : RdsConnection) (hobj : s.objs[c]? = some obj) (hstate : obj.state = .connecting)
      (hwalk : obj.walking = false) :
      ConnSent s c task true (s.setObj c fun obj =>
        { obj with waitTasks := obj.waitTasks ++ [task], queued := obj.queued ++ [task.id] })
  | sent (obj : RdsConnection) (k : ℕ) (hobj : s.objs[c]? = some obj)
      (hstate : obj.state = .connected) (hctx : obj.ctx = some k) :
      ConnSent s c task true (s.setCtx k fun ctx => { ctx with pending := ctx.pending ++ [task] })

theorem connSent_of_connSendTo {s s' : RedisMgr} {c : ℕ} {task : RdsTask} {accepts b : Bool}
    (h : s.connSendTo c task accepts = some (b, s')) : ConnSent s c task b s' := by
  unfold connSendTo at h
  cases hobj : s.objs[c]? with
  | none =>
    rw [hobj] at h
    cases h
  | some obj =>
    simp only [hobj] at h
    cases hctx : obj.ctx with
    | none =>
      rw [hctx] at h
      cases h
      exact .refused
    | some k =>
      simp only [hctx] at h
      cases hstate : obj.state with
      | closed =>
        rw [hstate] at h
        cases h
        exact .refused
      | connecting =>
        simp only [hstate] at h
        split_ifs at h with hargv hwalk
        · cases h
          exact .refused
        · cases h
          exact .waits obj hobj hstate (Bool.not_eq_true _ ▸ hwalk)
      | connected =>
        simp only [hstate] at h
        split_ifs at h
        · cases h
          exact .sent obj k hobj hstate hctx
        · cases h
          exact .refused

/-- What `RedisMgr::send_to` does, after the call got its number. -/
inductive Sent (s : RedisMgr) (call : RdsSend) : Bool → RedisMgr → Prop
  | invalid : Sent s call false { s with nextSend := s.nextSend + 1 }
  | refused (node : Bytes) (s' : RedisMgr)
      (hgot : Got { s with nextSend := s.nextSend + 1 } node none s') : Sent s call false s'
  | answered (node : Bytes) (fn c : ℕ) (b : Bool) (s₁ s' : RedisMgr)
      (hgot : Got { s with nextSend := s.nextSend + 1 } node (some c) s₁)
      (hsent : ConnSent { s₁ with got := s₁.got ++ [(node, (s₁.objs[c]?).bind RdsConnection.addr)] }
        c { id := s.nextSend, argv := call.argv, fn := fn, privdata := call.privdata } b s') :
      Sent s call b { s' with
        accepted := if b then s'.accepted ++ [s.nextSend] else s'.accepted }

theorem sent_of_sendTo {s s' : RedisMgr} {call : RdsSend} {b : Bool}
    (h : s.sendTo call = some (b, s')) : Sent s call b s' := by
  unfold sendTo at h
  simp only at h
  split at h
  case h_1 node fn _ _ =>
    split_ifs at h
    · cases h
      exact .invalid
    · split at h
      · cases h
      · next s₁ hgot =>
        cases h
        exact .refused node _ (got_of_getConn hgot)
      · next c s₁ hgot =>
        split at h
        · cases h
        · next s₂ hsent =>
          cases h
          exact .answered node fn c false s₁ _ (got_of_getConn hgot) (connSent_of_connSendTo hsent)
        · next s₂ hsent =>
          cases h
          exact .answered node fn c true s₁ _ (got_of_getConn hgot) (connSent_of_connSendTo hsent)
  case h_2 =>
    cases h
    exact .invalid

/-- One turn of the loop over the waiting commands: the command is sent, or its callback is
called. -/
theorem walk_cons_cases {s s' : RedisMgr} {c : ℕ} {ok : Bool} {accepts : ℕ → Bool}
    {reactions : ℕ → List RdsSend} {task : RdsTask} {tasks : List RdsTask}
    (h : walk c ok accepts reactions s (task :: tasks) = some s') :
    ∃ s₁, (ok = true ∧ ConnSent (s.passed c task tasks) c task true s₁ ∨
        (s.passed c task tasks).invoke task reactions = some s₁) ∧
      walk c ok accepts reactions s₁ tasks = some s' := by
  unfold walk at h
  simp only at h
  split at h
  · cases h
  · next s₁ hsent =>
    refine ⟨s₁, Or.inl ?_, h⟩
    cases ok with
    | true => exact ⟨rfl, connSent_of_connSendTo hsent⟩
    | false => cases hsent
  · next s₁ hsent =>
    split at h
    · cases h
    · next s₁ hinvoke =>
      refine ⟨s₁, Or.inr ?_, h⟩
      cases ok with
      | true =>
        cases connSent_of_connSendTo hsent
        exact hinvoke
      | false =>
        cases hsent
        exact hinvoke

/-- A connection when its callback begins. -/
theorem onConnectCallback_cases {s s' : RedisMgr} {c : ℕ} {ok : Bool} {accepts : ℕ → Bool}
    {reactions : ℕ → List RdsSend}
    (h : s.onConnectCallback c ok accepts reactions = some s') :
    ∃ obj s₁, s.objs[c]? = some obj ∧ obj.deleted = false ∧
      walk c ok accepts reactions (s.setObj c (.onConnect ok)) obj.waitTasks = some s₁ ∧
      s' = s₁.setObj c fun obj => { obj with waitTasks := [], walking := false } := by
  unfold onConnectCallback at h
  cases hobj : s.objs[c]? with
  | none =>
    rw [hobj] at h
    cases h
  | some obj =>
    simp only [hobj] at h
    by_cases hdel : obj.deleted = true
    · rw [if_pos hdel] at h
      cases h
    · rw [if_neg hdel] at h
      cases hwalk : walk c ok accepts reactions (s.setObj c (.onConnect ok)) obj.waitTasks with
      | none =>
        rw [hwalk] at h
        cases h
      | some s₁ =>
        rw [hwalk] at h
        exact ⟨obj, s₁, rfl, (Bool.not_eq_true _).mp hdel, hwalk, (Option.some.inj h).symm⟩

/-- What `redisAsyncDisconnect` does to the context, and whether it calls back. -/
theorem disconnect_cases {s s' : RedisMgr} {k : ℕ} {waited : List RdsTask}
    (h : s.disconnect k waited = some s') :
    ∃ ctx, s.ctxs[k]? = some ctx ∧
      (ctx.phase = .connecting ∧ s' = (s.setPhase k .gone) ∨
        ctx.phase = .connected ∧ ctx.pending = [] ∧ waited = [] ∧
          (s.setPhase k .gone).onConnectCallback ctx.data true
            (fun _ => false) (fun _ => []) = some s' ∨
        ctx.phase = .connected ∧ ctx.pending ≠ [] ∧
          s' = s.setPhase k .disconnecting) := by
  unfold disconnect at h
  cases hctx : s.ctxs[k]? with
  | none =>
    rw [hctx] at h
    cases h
  | some ctx =>
    simp only [hctx] at h
    refine ⟨ctx, rfl, ?_⟩
    cases hphase : ctx.phase with
    | connecting =>
      simp only [hphase] at h
      exact Or.inl ⟨rfl, (Option.some.inj h).symm⟩
    | connected =>
      simp only [hphase] at h
      split_ifs at h with hpending hwaited
      · exact Or.inr (Or.inl ⟨rfl, hpending, not_not.mp hwaited, h⟩)
      · exact Or.inr (Or.inr ⟨rfl, hpending, (Option.some.inj h).symm⟩)
    | disconnecting =>
      rw [hphase] at h
      cases h
    | gone =>
      rw [hphase] at h
      cases h

/-- The destructor of a connection: the callbacks of the waiting commands, and the end of the
context. -/
theorem destory_cases {s s' : RedisMgr} {c : ℕ} {reactions : ℕ → List RdsSend}
    (h : s.destory c reactions = some s') :
    ∃ obj s₁, s.objs[c]? = some obj ∧ obj.deleted = false ∧
      (obj.ctx = none ∧ s₁ = s ∨ ∃ k s₂, obj.ctx = some k ∧
        walk c false (fun _ => false) reactions
          (s.setObj c fun obj => { obj with walking := true }) obj.waitTasks = some s₂ ∧
        s₂.disconnect k obj.waitTasks = some s₁) ∧
      s' = s₁.setObj c .dead := by
  unfold destory at h
  cases hobj : s.objs[c]? with
  | none =>
    rw [hobj] at h
    cases h
  | some obj =>
    simp only [hobj] at h
    by_cases hdel : obj.deleted = true
    · rw [if_pos hdel] at h
      cases h
    · rw [if_neg hdel] at h
      split at h
      · cases h
      · next s₁ hs₁ =>
        refine ⟨obj, s₁, rfl, (Bool.not_eq_true _).mp hdel, ?_, (Option.some.inj h).symm⟩
        cases hctx : obj.ctx with
        | none =>
          rw [hctx] at hs₁
          exact Or.inl ⟨rfl, (Option.some.inj hs₁).symm⟩
        | some k =>
          simp only [hctx] at hs₁
          split at hs₁
          · cases hs₁
          · next s₂ hwalk => exact Or.inr ⟨k, s₂, rfl, hwalk, hs₁⟩

end RedisMgr

/-! ## Runs -/

/-- What happens to a manager: the calls from outside of the callbacks, the callbacks of hiredis,
and the destructor, which visits the entries of `m_conns` in some order. The callback of the call
`t` sends `reactions t`. -/
inductive RedisEvent
  | send (call : RdsSend)
  | connected (k : ℕ) (ok : Bool) (accepts : ℕ → Bool) (reactions : ℕ → List RdsSend)
  | reply (k : ℕ) (reactions : ℕ → List RdsSend)
  | disconnected (k : ℕ) (reactions : ℕ → List RdsSend)
  | destroy (entries : List (Bytes × ℕ)) (reactions : ℕ → List RdsSend)

namespace RedisMgr

/-- hiredis calls the connect callback of a context, once. -/
def onConnected (s : RedisMgr) (k : ℕ) (ok : Bool) (accepts : ℕ → Bool)
    (reactions : ℕ → List RdsSend) : Option RedisMgr :=
  match s.ctxs[k]? with
  | none => some s
  | some ctx =>
    if ctx.phase = .connecting then
      (s.setPhase k (if ok then .connected else .gone)).onConnectCallback ctx.data ok accepts
        reactions
    else some s

/-- hiredis calls the callback of the first pending command. -/
def onReply (s : RedisMgr) (k : ℕ) (reactions : ℕ → List RdsSend) : Option RedisMgr :=
  match s.ctxs[k]? with
  | none => some s
  | some ctx =>
    match ctx.pending with
    | [] => some s
    | task :: tasks =>
      (s.setCtx k fun ctx => { ctx with pending := tasks }).invoke task reactions

/-- hiredis calls the disconnect callback, when no command is pending: with an error, unless the
context was told to disconnect. -/
def onDisconnected (s : RedisMgr) (k : ℕ) (reactions : ℕ → List RdsSend) : Option RedisMgr :=
  match s.ctxs[k]? with
  | none => some s
  | some ctx =>
    if ctx.pending ≠ [] then some s
    else
      match ctx.phase with
      | .connected =>
        (s.setPhase k .gone).onConnectCallback ctx.data false (fun _ => false) reactions
      | .disconnecting =>
        (s.setPhase k .gone).onConnectCallback ctx.data true (fun _ => false) reactions
      | .connecting | .gone => some s

/-- The destructor of the manager. -/
def delete (s : RedisMgr) (entries : List (Bytes × ℕ)) (reactions : ℕ → List RdsSend) :
    Option RedisMgr :=
  if s.conns.Enumerates entries then
    (deleteAll reactions { s with addrs := ∅ } entries).map fun s => { s with conns := ∅ }
  else some s

/-- The handler of an event. A callback that hiredis does not make in this state leaves it as it
is. -/
def step (s : RedisMgr) : RedisEvent → Option RedisMgr
  | .send call => (s.sendTo call).map Prod.snd
  | .connected k ok accepts reactions => s.onConnected k ok accepts reactions
  | .reply k reactions => s.onReply k reactions
  | .disconnected k reactions => s.onDisconnected k reactions
  | .destroy entries reactions => s.delete entries reactions

end RedisMgr

/-- The runs of a manager. A run that has no meaning goes on without one. -/
def redisMachine : Machine (Option RedisMgr) RedisEvent where
  step s e := s.bind fun s => s.step e

end Kimserver
