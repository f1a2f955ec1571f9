import Kimserver.Net.NodeConns
import Kimserver.Net.SysCmd

/-!
# The lifetime of connections

`close_conn` deletes a connection and frees its watcher, while functions further up the stack
still hold pointers to them: the loop of `process_tcp_msg` goes on reading the connection after
a handler returned, and `on_io_callback` reads the watcher again for the write part of an event.

A run of `on_io_callback` is followed access by access. What is decoded, what the handlers
return, whom they send to, and which sends succeed is part of the event. A handler can reach
connections only through the calls of `INet`, so it is the list of these calls.

## Main definitions

* `Handling`: the tables, and whether something was used after it was gone
* `HandlerCall`, `Turn`, `Reads`, `IoEvent`: what happens while an event is handled
* `Handling.sendTo`, `Handling.processTcpMsg`, `Handling.processHttpMsg`,
  `Handling.onIoRead`, `Handling.onIoWrite`, `Handling.onIoCallback`: the functions
* `Handling.CallOk`, `Handling.ReadOk`, `Handling.EventOk`: no write fails, and the read part
  leaves the connection open when a write part follows

## Main results

* `Handling.onIoCallback_unused_iff`: nothing is used after it is gone exactly in such events
-/

namespace Kimserver

/-! ## Events -/

/-- The calls of a handler that reach connections. -/
inductive HandlerCall
  /-- `send_to`, `send_req` and `send_ack` of a descriptor -/
  | sendFd (f : FdT) (sent : Bool)
  /-- the sends of `send_to_parent` and `send_to_children`, which look a descriptor up -/
  | sendFound (fd : ℤ) (sent : Bool)
  /-- `send_to_node`, for a node that the registry gave -/
  | sendToNode (host : Bytes) (port workerIndex : ℤ) (res : ConnectResult) (sent : Bool)
  | updateConnState (fd : ℤ) (state : ConnState)
  | addClientConn (nodeId : Bytes) (f : FdT)
  deriving DecidableEq

/-- A message in the loop of `process_tcp_msg`: the calls of the system command, its status,
whether a write event can be added, and the calls of the module. -/
structure Turn where
  sys : List HandlerCall := []
  status : CmdStatus := .unknown
  writeEvent : Bool := true
  module : List HandlerCall := []
  deriving DecidableEq

/-- What `conn_read` and `fetch_data` decode, one after the other. -/
inductive Reads
  /-- `PAUSE`, or a failure: `ERR` or `CLOSED` -/
  | stop (failed : Bool)
  | message (t : Turn) (rest : Reads)
  deriving DecidableEq

/-- The read part of an event. -/
inductive ReadPart
  /-- descriptors are accepted from a listening socket, or read from the channel -/
  | accepts (system : Bool) (fds : List ConnectResult)
  | messages (http : Bool) (reads : Reads)
  deriving DecidableEq

/-- The write part of an event: whether the node of the connection is registered, and whether
the write succeeds. -/
structure WritePart where
  known : Bool
  sent : Bool
  deriving DecidableEq

/-- An event of a watcher. -/
structure IoEvent where
  read : Option ReadPart := none
  write : Option WritePart := none
  deriving DecidableEq

/-- While an event is handled: the tables, and whether a connection or its watcher was used
after the connection was gone. -/
structure Handling where
  table : ConnTable
  used : Bool := false

namespace Handling

/-! ## The functions -/

section Functions

variable (m : Handling)

/-- The connection is there. -/
def Live (p : FdT) : Prop := (m.table.getConn p).isSome

instance (p : FdT) : Decidable (m.Live p) := inferInstanceAs (Decidable (_ = true))

/-- A connection, or its watcher, is read or written. -/
def touch (p : FdT) : Handling := { m with used := m.used || (m.table.getConn p).isNone }

/-- `close_conn` of a connection. -/
def closeConn (p : FdT) : Handling :=
  { m.touch p with table := m.table.closeConn p.fd }

/-- `send_to` of a connection. It is logged after it was closed. -/
def sendTo (p : FdT) (sent : Bool) : Handling :=
  if sent then m.touch p else ((m.touch p).closeConn p).touch p

/-- A descriptor that the system hands out is not open, so no connection has it. -/
def CanOpen : ConnectResult → Prop
  | .refused => True
  | .failed fd => m.table.conns.lookup (fd : ℤ) = none
  | .ok fd => m.table.conns.lookup (fd : ℤ) = none

instance : ∀ res, Decidable (m.CanOpen res)
  | .refused => inferInstanceAs (Decidable True)
  | .failed fd => inferInstanceAs (Decidable (m.table.conns.lookup (fd : ℤ) = none))
  | .ok fd => inferInstanceAs (Decidable (m.table.conns.lookup (fd : ℤ) = none))

/-- One call of a handler. -/
def call : HandlerCall → Handling
  | .sendFd f sent =>
    match m.table.getConn f with
    | none => m
    | some _ => m.sendTo f sent
  | .sendFound fd sent =>
    match m.table.conns.lookup fd with
    | none => m
    | some c => m.sendTo ⟨fd, c.id⟩ sent
  | .sendToNode host port workerIndex res sent =>
    match m.table.nodeConns.lookup (formatNodesId host port workerIndex) with
    | none =>
      if m.CanOpen res then { m with table := m.table.autoSend host port workerIndex res } else m
    | some p =>
      match m.table.getConn p with
      | none => m.touch p
      | some c => if c.state = .connected then (m.touch p).sendTo p sent else m.touch p
  | .updateConnState fd state => { m with table := m.table.updateConnState fd state }
  | .addClientConn nodeId f => { m with table := m.table.addClientConn nodeId f }

end Functions

/-- The calls of a handler, one after the other. -/
def callMachine : Machine Handling HandlerCall := ⟨call⟩

section Functions

variable (m : Handling)

/-- `is_system`. -/
def isSystem (p : FdT) : Bool :=
  match m.table.getConn p with
  | none => false
  | some c => c.system

/-- Whether the loop goes on after the system command of a message. -/
def Turn.goesOn (t : Turn) : Bool :=
  t.status ≠ .completed && (t.status ≠ .running || t.writeEvent)

/-- `process_tcp_msg` from the first message on. -/
def tcpLoop (p : FdT) : Reads → Handling → Handling
  | .stop failed, m => if failed then m.closeConn p else m
  | .message t rest, m =>
    let m := m.touch p
    if m.isSystem p then
      let m := callMachine.run m t.sys
      let m := if t.status = .running then m.touch p else m
      if Turn.goesOn t then
        let m := if t.status = .unknown then callMachine.run m t.module else m
        tcpLoop p rest (m.touch p)
      else m.closeConn p
    else tcpLoop p rest ((callMachine.run m t.module).touch p)

/-- `process_tcp_msg`. -/
def processTcpMsg (p : FdT) (reads : Reads) : Handling := tcpLoop p reads (m.touch p)

/-- `process_http_msg` from the first message on. -/
def httpLoop (p : FdT) : Reads → Handling → Handling
  | .stop failed, m => if failed then (m.touch p).closeConn p else m
  | .message t rest, m => httpLoop p rest ((callMachine.run m t.module).touch p)

/-- `process_http_msg`. -/
def processHttpMsg (p : FdT) (reads : Reads) : Handling := httpLoop p reads (m.touch p)

/-- A descriptor that was accepted or transferred. -/
def acceptFd (system : Bool) (res : ConnectResult) : Handling :=
  if m.CanOpen res then { m with table := m.table.transferFd system res } else m

/-- `on_io_read` for the descriptor of a connection. -/
def onIoRead (fd : ℤ) : ReadPart → Handling
  | .accepts system fds => fds.foldl (fun m res => m.acceptFd system res) m
  | .messages http reads =>
    match m.table.conns.lookup fd with
    | none => { m with table := m.table.closeConn fd }
    | some c =>
      let p : FdT := ⟨fd, c.id⟩
      let m := m.touch p
      match c.state with
      | .unknown | .closed | .error => { m with table := m.table.closeConn fd }
      | _ => if http then m.processHttpMsg p reads else m.processTcpMsg p reads

/-- `on_io_write` for the descriptor of a connection. -/
def onIoWrite (fd : ℤ) (w : WritePart) : Handling :=
  match m.table.conns.lookup fd with
  | none => m
  | some c =>
    let p : FdT := ⟨fd, c.id⟩
    let m := m.touch p
    match c.state with
    | .unknown | .closed | .error => (m.touch p).closeConn p
    | .connected | .connecting =>
      let m := m.touch p
      if w.sent then m else (m.closeConn p).touch p
    | .tryConnect =>
      if w.known then
        let m := m.sendTo p w.sent
        if w.sent then
          { m.touch p with table := m.table.updateConnState fd .connecting }
        else (m.touch p).closeConn p
      else (m.touch p).closeConn p

/-- `on_io_callback` for the watcher of a connection. -/
def onIoCallback (p : FdT) (e : IoEvent) : Handling :=
  let m := m.touch p
  let m :=
    match e.read with
    | none => m
    | some r => m.onIoRead p.fd r
  match e.write with
  | none => m
  | some w => (m.touch p).onIoWrite p.fd w

end Functions

/-! ## The condition -/

section Condition

variable (m : Handling)

/-- A call does not fail to write, and uses no entry of the index that is stale. -/
def CallOk : HandlerCall → Prop
  | .sendFd f sent => m.Live f → sent = true
  | .sendFound fd sent => (m.table.conns.lookup fd).isSome → sent = true
  | .sendToNode host port workerIndex _ sent =>
    ∀ p ∈ m.table.nodeConns.lookup (formatNodesId host port workerIndex),
      ∃ c, m.table.getConn p = some c ∧ (c.state = .connected → sent = true)
  | _ => True

/-- No call fails to write, in the loop of `process_tcp_msg`. -/
def TcpOk (p : FdT) : Reads → Handling → Prop
  | .stop _, _ => True
  | .message t rest, m =>
    if m.isSystem p then
      callMachine.Meets CallOk m t.sys ∧ (Turn.goesOn t = true →
        (t.status = .unknown → callMachine.Meets CallOk (callMachine.run m t.sys) t.module) ∧
        TcpOk p rest (if t.status = .unknown then
          callMachine.run (callMachine.run m t.sys) t.module else callMachine.run m t.sys))
    else callMachine.Meets CallOk m t.module ∧ TcpOk p rest (callMachine.run m t.module)

/-- The loop of `process_tcp_msg` closes the connection. -/
def tcpCloses (system : Bool) : Reads → Bool
  | .stop failed => failed
  | .message t rest => system && !Turn.goesOn t || tcpCloses system rest

/-- No call fails to write, in the loop of `process_http_msg`. -/
def HttpOk : Reads → Handling → Prop
  | .stop _, _ => True
  | .message t rest, m =>
    callMachine.Meets CallOk m t.module ∧ HttpOk rest (callMachine.run m t.module)

/-- The loop of `process_http_msg` closes the connection. -/
def httpCloses : Reads → Bool
  | .stop failed => failed
  | .message _ rest => httpCloses rest

/-- The connection is invalid, so that an event closes it. -/
def IsInvalid (p : FdT) : Prop :=
  ∀ c ∈ m.table.getConn p, c.state = .unknown ∨ c.state = .closed ∨ c.state = .error

/-- The read part does not fail to write. -/
def ReadOk (p : FdT) : ReadPart → Prop
  | .accepts _ _ => True
  | .messages http reads =>
    ¬ m.IsInvalid p → if http then HttpOk reads m else TcpOk p reads m

/-- The read part leaves the connection open. -/
def ReadKeeps (p : FdT) : ReadPart → Prop
  | .accepts _ _ => True
  | .messages http reads =>
    ¬ m.IsInvalid p ∧ (if http then httpCloses reads else tcpCloses (m.isSystem p) reads) = false

/-- The write part does not fail to write. -/
def WriteOk (p : FdT) (w : WritePart) : Prop :=
  ∀ c ∈ m.table.getConn p, (c.state = .connected ∨ c.state = .connecting → w.sent = true) ∧
    (c.state = .tryConnect → w.known = true → w.sent = true)

/-- The state in which the write part is handled. -/
def afterRead (p : FdT) : Option ReadPart → Handling
  | none => m
  | some r => m.onIoRead p.fd r

/-- No write fails while the event is handled, and the connection is still open when a write
part follows. -/
def EventOk (p : FdT) (e : IoEvent) : Prop :=
  (∀ r ∈ e.read, m.ReadOk p r) ∧
    ∀ w ∈ e.write, (∀ r ∈ e.read, m.ReadKeeps p r) ∧ (m.afterRead p e.read).WriteOk p w

end Condition

/-! ## Accesses -/

section Access

variable {m : Handling} {p : FdT}

theorem live_iff : m.Live p ↔ ∃ c, m.table.getConn p = some c := Option.isSome_iff_exists

theorem touch_of_live (h : m.Live p) : m.touch p = m := by
  obtain ⟨c, hc⟩ := live_iff.mp h
  simp [touch, hc]

theorem touch_unused : (m.touch p).used = false ↔ m.used = false ∧ m.Live p := by
  simp [touch, Live, Option.isSome_iff_ne_none]

theorem closeConn_of_live (h : m.Live p) :
    m.closeConn p = { m with table := m.table.closeConn p.fd } := by
  unfold closeConn
  rw [touch_of_live h]

/-- A connection that was closed is gone. -/
theorem not_live_closeConn (h : m.table.Numbered) : ¬ (m.closeConn p).Live p := by
  unfold Live closeConn
  dsimp only
  rw [ConnTable.getConn_closeConn h, if_pos rfl]
  simp

/-- **A send** uses nothing that is gone exactly when it succeeds. -/
theorem sendTo_unused_iff (hnumbered : m.table.Numbered) (hused : m.used = false)
    (h : m.Live p) (sent : Bool) : (m.sendTo p sent).used = false ↔ sent = true := by
  unfold sendTo
  rw [touch_of_live h]
  split_ifs with hsent
  · exact iff_of_true hused hsent
  · refine iff_of_false (fun hfalse => ?_) hsent
    exact not_live_closeConn hnumbered (touch_unused.mp hfalse).2

theorem sendTo_of_sent (h : m.Live p) : m.sendTo p true = m := by
  unfold sendTo
  rw [if_pos rfl, touch_of_live h]

theorem used_touch (h : m.used = true) : (m.touch p).used = true := by simp [touch, h]

theorem used_closeConn (h : m.used = true) : (m.closeConn p).used = true := by
  simp [closeConn, touch, h]

theorem used_sendTo (h : m.used = true) (sent : Bool) : (m.sendTo p sent).used = true := by
  unfold sendTo
  split_ifs
  · exact used_touch h
  · exact used_touch (used_closeConn (used_touch h))

/-- What was used after it was gone stays so. -/
theorem used_call (h : m.used = true) (c : HandlerCall) : (m.call c).used = true := by
  cases c with
  | sendFd f sent =>
    unfold call
    dsimp only
    split
    · exact h
    · exact used_sendTo h sent
  | sendFound fd sent =>
    unfold call
    dsimp only
    split
    · exact h
    · exact used_sendTo h sent
  | sendToNode host port workerIndex res sent =>
    unfold call
    dsimp only
    split
    · split_ifs <;> exact h
    · split
      · exact used_touch h
      · split_ifs
        · exact used_sendTo (used_touch h) sent
        · exact used_touch h
  | updateConnState fd state => exact h
  | addClientConn nodeId f => exact h

theorem used_run (h : m.used = true) (cs : List HandlerCall) :
    (callMachine.run m cs).used = true :=
  callMachine.run_invariant (P := fun m => m.used = true) (fun _ c hm => used_call hm c) h cs

end Access

/-! ## Calls -/

section Calls

variable {m : Handling} {p : FdT}

/-- What the calls of a handler keep, as long as no write fails: nothing was used after it was
gone, and the connection of the event is there and the same. -/
structure Kept (p : FdT) (m m' : Handling) : Prop where
  unused : m'.used = false
  numbered : m'.table.Numbered
  live : m'.Live p
  system : m'.isSystem p = m.isSystem p

theorem Kept.refl (hunused : m.used = false) (hnumbered : m.table.Numbered) (hlive : m.Live p) :
    Kept p m m := ⟨hunused, hnumbered, hlive, rfl⟩

theorem Kept.trans {m' m'' : Handling} (h : Kept p m m') (h' : Kept p m' m'') : Kept p m m'' :=
  ⟨h'.unused, h'.numbered, h'.live, h'.system.trans h.system⟩

/-- A table that leaves the connection as it is, up to its state. -/
theorem Kept.of_table {t : ConnTable} (hunused : m.used = false) (ht : t.Numbered)
    (hlive : m.Live p)
    (hsame : ∀ c, m.table.getConn p = some c → ∃ d, t.getConn p = some d ∧ d.system = c.system) :
    Kept p m { m with table := t } := by
  obtain ⟨c, hc⟩ := live_iff.mp hlive
  obtain ⟨d, hd, hsystem⟩ := hsame c hc
  refine ⟨hunused, ht, live_iff.mpr ⟨d, hd⟩, ?_⟩
  simp only [isSystem, hc, hd, hsystem]

/-- A connection that is opened under a free descriptor leaves the others as they are. -/
theorem getConn_createConn_of_free {t : ConnTable} (ht : t.Numbered) {fd : ℤ}
    (hfree : t.conns.lookup fd = none) {c : Conn} (hc : t.getConn p = some c) :
    (t.createConn fd).getConn p = some c ∧ p.fd ≠ fd := by
  have hne : p.fd ≠ fd := by
    intro heq
    have hlookup := (ConnTable.getConn_eq_some.mp hc).1
    rw [heq, hfree] at hlookup
    exact absurd hlookup (by simp)
  rw [ConnTable.getConn_createConn ht, if_neg hne]
  exact ⟨hc, hne⟩

/-- Opening a connection that may fail leaves the others as they are. -/
theorem kept_open (hunused : m.used = false) (hnumbered : m.table.Numbered) (hlive : m.Live p)
    {t : ConnTable} {res : ConnectResult} (hcan : m.CanOpen res)
    (hrefused : res = .refused → t = m.table)
    (hfailed : ∀ fd, res = .failed fd → t = (m.table.createConn fd).closeConn fd)
    (hok : ∀ fd, res = .ok fd → ∃ set : Conn → Conn, (∀ c, (set c).id = c.id) ∧
      t.conns = ((m.table.createConn fd).setConn fd set).conns ∧
      t.seq = ((m.table.createConn fd).setConn fd set).seq) :
    Kept p m { m with table := t } := by
  cases res with
  | refused =>
    rw [hrefused rfl]
    exact Kept.refl hunused hnumbered hlive
  | failed fd =>
    have hcreated : (m.table.createConn fd).Numbered := hnumbered.createConn (by omega)
    rw [hfailed fd rfl]
    refine Kept.of_table hunused (hcreated.closeConn _) hlive fun c hc => ⟨c, ?_, rfl⟩
    obtain ⟨hkept, hne⟩ := getConn_createConn_of_free hnumbered hcan hc
    rw [ConnTable.getConn_closeConn hcreated, if_neg hne, hkept]
  | ok fd =>
    have hcreated : (m.table.createConn fd).Numbered := hnumbered.createConn (by omega)
    obtain ⟨set, hset, hconns, hseq⟩ := hok fd rfl
    refine Kept.of_table hunused ((hcreated.setConn fd hset).congr hconns hseq) hlive
      fun c hc => ⟨c, ?_, rfl⟩
    obtain ⟨hkept, hne⟩ := getConn_createConn_of_free hnumbered hcan hc
    have hget := ConnTable.getConn_setConn (m.table.createConn fd) fd set hset p
    rw [if_neg hne, hkept] at hget
    rw [← hget]
    simp only [ConnTable.getConn, hconns]

/-- A call that is fine keeps the connection of the event. -/
theorem kept_call (hunused : m.used = false) (hnumbered : m.table.Numbered) (hlive : m.Live p)
    {c : HandlerCall} (hc : m.CallOk c) : Kept p m (m.call c) := by
  have hself := Kept.refl hunused hnumbered hlive
  cases c with
  | sendFd f sent =>
    unfold call
    dsimp only
    split
    · exact hself
    · next d hd =>
      have hf := live_iff.mpr ⟨d, hd⟩
      -- a call that is sent changes no table
      rw [hc hf, sendTo_of_sent hf]
      exact hself
  | sendFound fd sent =>
    unfold call
    dsimp only
    split
    · exact hself
    · next d hd =>
      have hf : m.Live ⟨fd, d.id⟩ :=
        live_iff.mpr ⟨d, ConnTable.getConn_eq_some.mpr ⟨hd, rfl⟩⟩
      rw [hc (by rw [hd]; rfl), sendTo_of_sent hf]
      exact hself
  | sendToNode host port workerIndex res sent =>
    unfold call
    dsimp only
    split
    · split_ifs with hcan
      · -- a new connection gets a new number
        refine kept_open hunused hnumbered hlive hcan ?_ ?_ ?_
        · rintro rfl
          rfl
        · rintro fd rfl
          rfl
        · rintro fd rfl
          exact ⟨fun c => { c with
            system := true, state := .tryConnect
            nodeId := formatNodesId host port workerIndex }, fun _ => rfl, rfl, rfl⟩
      · exact hself
    · next q hq =>
      obtain ⟨d, hd, hsent⟩ := hc q hq
      have hf := live_iff.mpr ⟨d, hd⟩
      rw [hd, touch_of_live hf]
      dsimp only
      split_ifs with hconnected
      · rw [hsent hconnected, sendTo_of_sent hf]
        exact hself
      · exact hself
  | updateConnState fd state =>
    refine Kept.of_table hunused (hnumbered.setConn fd fun _ => rfl) hlive fun c hc => ?_
    have hget := ConnTable.getConn_updateConnState m.table fd state p
    rw [hc] at hget
    split_ifs at hget
    · exact ⟨_, hget, rfl⟩
    · exact ⟨c, hget, rfl⟩
  | addClientConn nodeId f =>
    obtain ⟨hconns, hseq⟩ := ConnTable.addClientConn_conns m.table nodeId f
    refine Kept.of_table hunused (hnumbered.congr hconns hseq) hlive fun c hc => ⟨c, ?_, rfl⟩
    rw [← hc]
    simp only [ConnTable.getConn, hconns]

/-- A call that is not fine uses something that is gone. -/
theorem used_call_of_not_ok (hunused : m.used = false) (hnumbered : m.table.Numbered)
    {c : HandlerCall} (hc : ¬ m.CallOk c) : (m.call c).used = true := by
  -- a failing send on a connection that is there
  have hsend : ∀ {q : FdT} {sent : Bool}, m.Live q → sent ≠ true →
      (m.sendTo q sent).used = true := by
    intro q sent hq hsent
    by_contra hfalse
    exact hsent ((sendTo_unused_iff hnumbered hunused hq sent).mp (by simpa using hfalse))
  cases c with
  | sendFd f sent =>
    obtain ⟨hf, hsent⟩ := Classical.not_imp.mp hc
    obtain ⟨d, hd⟩ := live_iff.mp hf
    simp only [call, hd]
    exact hsend hf hsent
  | sendFound fd sent =>
    obtain ⟨hfd, hsent⟩ := Classical.not_imp.mp hc
    obtain ⟨d, hd⟩ := Option.isSome_iff_exists.mp hfd
    simp only [call, hd]
    exact hsend (live_iff.mpr ⟨d, ConnTable.getConn_eq_some.mpr ⟨hd, rfl⟩⟩) hsent
  | sendToNode host port workerIndex res sent =>
    simp only [CallOk, not_forall] at hc
    obtain ⟨q, hq, hnot⟩ := hc
    rw [Option.mem_def] at hq
    simp only [call, hq]
    cases hd : m.table.getConn q with
    | none => simp [touch, hd]
    | some d =>
      have hf := live_iff.mpr ⟨d, hd⟩
      dsimp only
      split_ifs with hconnected
      · rw [touch_of_live hf]
        exact hsend hf fun hsent => hnot ⟨d, hd, fun _ => hsent⟩
      · exact absurd ⟨d, hd, fun h => absurd h hconnected⟩ hnot
  | updateConnState fd state => exact absurd trivial hc
  | addClientConn nodeId f => exact absurd trivial hc

/-- **The calls of a handler** use nothing that is gone exactly when each of them is fine, and
then the connection of the event is kept. -/
theorem run_calls (hunused : m.used = false) (hnumbered : m.table.Numbered) (hlive : m.Live p)
    (cs : List HandlerCall) :
    ((callMachine.run m cs).used = false ↔ callMachine.Meets CallOk m cs) ∧
      (callMachine.Meets CallOk m cs → Kept p m (callMachine.run m cs)) := by
  induction cs generalizing m with
  | nil => exact ⟨iff_of_true hunused trivial, fun _ => Kept.refl hunused hnumbered hlive⟩
  | cons c cs ih =>
    by_cases hc : m.CallOk c
    · have hkept := kept_call hunused hnumbered hlive hc
      obtain ⟨hiff, hrun⟩ := ih hkept.unused hkept.numbered hkept.live
      refine ⟨hiff.trans ⟨fun h => ⟨hc, h⟩, fun h => h.2⟩, fun h => hkept.trans (hrun h.2)⟩
    · refine ⟨iff_of_false ?_ fun h => hc h.1, fun h => absurd h.1 hc⟩
      have hused := used_run (used_call_of_not_ok hunused hnumbered hc) cs
      exact fun hfalse => absurd (hused.symm.trans hfalse) (by decide)

end Calls

/-! ## Loops -/

section Loops

variable {m : Handling} {p : FdT}

theorem used_tcpLoop (h : m.used = true) (reads : Reads) : (tcpLoop p reads m).used = true := by
  induction reads generalizing m with
  | stop failed =>
    unfold tcpLoop
    split_ifs
    · exact used_closeConn h
    · exact h
  | message t rest ih =>
    have htouch := used_touch (p := p) h
    unfold tcpLoop
    dsimp only
    split_ifs
    · exact ih (used_touch (used_run (used_touch (used_run htouch _)) _))
    · exact ih (used_touch (used_run (used_run htouch _) _))
    · exact ih (used_touch (used_touch (used_run htouch _)))
    · exact ih (used_touch (used_run htouch _))
    · exact used_closeConn (used_touch (used_run htouch _))
    · exact used_closeConn (used_run htouch _)
    · exact ih (used_touch (used_run htouch _))

theorem used_httpLoop (h : m.used = true) (reads : Reads) : (httpLoop p reads m).used = true := by
  induction reads generalizing m with
  | stop failed =>
    unfold httpLoop
    split_ifs
    · exact used_closeConn (used_touch h)
    · exact h
  | message t rest ih =>
    unfold httpLoop
    exact ih (used_touch (used_run h _))

/-- What a loop leaves when no write failed: nothing was used after it was gone, and the
connection is there unless the loop closed it. -/
structure LoopDone (p : FdT) (closes : Bool) (m' : Handling) : Prop where
  unused : m'.used = false
  numbered : m'.table.Numbered
  live : m'.Live p ↔ closes = false

theorem loopDone_closeConn (hunused : m.used = false) (hnumbered : m.table.Numbered)
    (hlive : m.Live p) : LoopDone p true (m.closeConn p) := by
  refine ⟨?_, hnumbered.closeConn p.fd, iff_of_false (not_live_closeConn hnumbered) (by decide)⟩
  rw [closeConn_of_live hlive]
  exact hunused

/-- The calls of a handler and what follows them: exact when the rest is, from a state that is
kept. -/
theorem run_calls_then (hunused : m.used = false) (hnumbered : m.table.Numbered)
    (hlive : m.Live p) (cs : List HandlerCall) (rest : Handling → Handling)
    (ok : Handling → Prop) (closes : Bool)
    (hused : ∀ m', m'.used = true → (rest m').used = true)
    (hrest : ∀ m', Kept p m m' → ((rest m').used = false ↔ ok m') ∧
      (ok m' → LoopDone p closes (rest m'))) :
    ((rest (callMachine.run m cs)).used = false ↔
        callMachine.Meets CallOk m cs ∧ ok (callMachine.run m cs)) ∧
      (callMachine.Meets CallOk m cs ∧ ok (callMachine.run m cs) →
        LoopDone p closes (rest (callMachine.run m cs))) := by
  obtain ⟨hiff, hkept⟩ := run_calls hunused hnumbered hlive cs
  by_cases hcs : callMachine.Meets CallOk m cs
  · obtain ⟨hrestIff, hdone⟩ := hrest _ (hkept hcs)
    exact ⟨hrestIff.trans ⟨fun h => ⟨hcs, h⟩, fun h => h.2⟩, fun h => hdone h.2⟩
  · refine ⟨iff_of_false (fun hfalse => ?_) fun h => hcs h.1, fun h => absurd h.1 hcs⟩
    have hrun : (callMachine.run m cs).used = true := by
      by_contra hnot
      exact hcs (hiff.mp (by simpa using hnot))
    exact absurd ((hused _ hrun).symm.trans hfalse) (by decide)

/-- **The loop of `process_tcp_msg`** uses nothing that is gone exactly when no write fails. -/
theorem tcpLoop_unused_iff (hunused : m.used = false) (hnumbered : m.table.Numbered)
    (hlive : m.Live p) (reads : Reads) :
    ((tcpLoop p reads m).used = false ↔ TcpOk p reads m) ∧
      (TcpOk p reads m → LoopDone p (tcpCloses (m.isSystem p) reads) (tcpLoop p reads m)) := by
  induction reads generalizing m with
  | stop failed =>
    cases failed with
    | false =>
      exact ⟨iff_of_true hunused trivial, fun _ => ⟨hunused, hnumbered, iff_of_true hlive rfl⟩⟩
    | true =>
      have hdone := loopDone_closeConn hunused hnumbered hlive
      exact ⟨iff_of_true hdone.unused trivial, fun _ => hdone⟩
  | message t rest ih =>
    -- the message that follows is read from a connection that is there
    have hnext : ∀ m', Kept p m m' →
        ((tcpLoop p rest (m'.touch p)).used = false ↔ TcpOk p rest m') ∧
          (TcpOk p rest m' →
            LoopDone p (tcpCloses (m.isSystem p) rest) (tcpLoop p rest (m'.touch p))) := by
      intro m' hm'
      rw [touch_of_live hm'.live, ← hm'.system]
      exact ih hm'.unused hm'.numbered hm'.live
    have hnextUsed : ∀ m' : Handling, m'.used = true →
        (tcpLoop p rest (m'.touch p)).used = true := fun m' h => used_tcpLoop (used_touch h) rest
    unfold tcpLoop TcpOk tcpCloses
    rw [touch_of_live hlive]
    by_cases hsystem : m.isSystem p = true
    · simp only [hsystem, if_true, Bool.true_and]
      rw [hsystem] at hnext
      have htouch : ∀ m', Kept p m m' →
          (if t.status = .running then m'.touch p else m') = m' := by
        intro m' hm'
        rw [touch_of_live hm'.live, ite_self]
      by_cases hgoes : Turn.goesOn t = true
      · simp only [hgoes, if_true, forall_const, Bool.not_true, Bool.false_or]
        refine run_calls_then hunused hnumbered hlive t.sys
          (fun m' => tcpLoop p rest (((if t.status = .unknown then
            callMachine.run (if t.status = .running then m'.touch p else m') t.module
            else if t.status = .running then m'.touch p else m')).touch p))
          (fun m' => (t.status = .unknown → callMachine.Meets CallOk m' t.module) ∧
            TcpOk p rest (if t.status = .unknown then callMachine.run m' t.module else m'))
          _ ?_ ?_
        · intro m' h
          refine hnextUsed _ ?_
          split_ifs
          · exact used_run (used_touch h) _
          · exact used_run h _
          · exact used_touch h
          · exact h
        · intro m' hm'
          rw [htouch m' hm']
          split_ifs with hunknown
          · simp only [hunknown, forall_const]
            exact run_calls_then hm'.unused hm'.numbered hm'.live t.module _ _ _ hnextUsed
              fun m'' hm'' => hnext m'' (hm'.trans hm'')
          · simp only [hunknown, false_imp_iff, true_and]
            exact hnext m' hm'
      · -- the loop ends here and closes the connection
        simp only [Bool.not_eq_true] at hgoes
        simp only [hgoes, Bool.false_eq_true, if_false, false_imp_iff, and_true, Bool.not_false,
          Bool.true_or]
        have hcalls := run_calls_then hunused hnumbered hlive t.sys
          (fun m' => (if t.status = .running then m'.touch p else m').closeConn p)
          (fun _ => True) true ?_ ?_
        · simpa only [and_true] using hcalls
        · intro m' h
          refine used_closeConn ?_
          split_ifs
          · exact used_touch h
          · exact h
        · intro m' hm'
          rw [htouch m' hm']
          have hdone := loopDone_closeConn hm'.unused hm'.numbered hm'.live
          exact ⟨iff_of_true hdone.unused trivial, fun _ => hdone⟩
    · simp only [hsystem, if_false, Bool.false_and, Bool.false_or, Bool.false_eq_true]
      simp only [Bool.not_eq_true] at hsystem
      rw [hsystem] at hnext
      exact run_calls_then hunused hnumbered hlive t.module _ _ _ hnextUsed hnext

/-- **The loop of `process_http_msg`** uses nothing that is gone exactly when no write
fails. -/
theorem httpLoop_unused_iff (hunused : m.used = false) (hnumbered : m.table.Numbered)
    (hlive : m.Live p) (reads : Reads) :
    ((httpLoop p reads m).used = false ↔ HttpOk reads m) ∧
      (HttpOk reads m → LoopDone p (httpCloses reads) (httpLoop p reads m)) := by
  induction reads generalizing m with
  | stop failed =>
    unfold httpLoop HttpOk httpCloses
    cases failed with
    | false =>
      exact ⟨iff_of_true hunused trivial, fun _ => ⟨hunused, hnumbered, iff_of_true hlive rfl⟩⟩
    | true =>
      have hdone := loopDone_closeConn hunused hnumbered hlive
      rw [touch_of_live hlive]
      exact ⟨iff_of_true hdone.unused trivial, fun _ => hdone⟩
  | message t rest ih =>
    unfold httpLoop HttpOk httpCloses
    refine run_calls_then hunused hnumbered hlive t.module
      (fun m' => httpLoop p rest (m'.touch p)) (HttpOk rest) (httpCloses rest)
      (fun m' h => used_httpLoop (used_touch h) rest) fun m' hm' => ?_
    rw [touch_of_live hm'.live]
    exact ih hm'.unused hm'.numbered hm'.live

end Loops

/-! ## The parts of an event -/

section Parts

variable {m : Handling} {p : FdT}

theorem used_onIoWrite (h : m.used = true) (fd : ℤ) (w : WritePart) :
    (m.onIoWrite fd w).used = true := by
  unfold onIoWrite
  split
  · exact h
  · dsimp only
    split
    · exact used_closeConn (used_touch (used_touch h))
    · exact used_closeConn (used_touch (used_touch h))
    · exact used_closeConn (used_touch (used_touch h))
    · split_ifs
      · exact used_touch (used_touch h)
      · exact used_touch (used_closeConn (used_touch (used_touch h)))
    · split_ifs
      · exact used_touch (used_touch h)
      · exact used_touch (used_closeConn (used_touch (used_touch h)))
    · split_ifs
      · exact used_touch (used_sendTo (used_touch h) _)
      · exact used_closeConn (used_touch (used_sendTo (used_touch h) _))
      · exact used_closeConn (used_touch (used_touch h))

/-- Descriptors that are accepted leave the connection of the event as it is. -/
theorem kept_accepts (hunused : m.used = false) (hnumbered : m.table.Numbered)
    (hlive : m.Live p) (system : Bool) (fds : List ConnectResult) :
    Kept p m (fds.foldl (fun m res => m.acceptFd system res) m) := by
  induction fds generalizing m with
  | nil => exact Kept.refl hunused hnumbered hlive
  | cons res fds ih =>
    have hfirst : Kept p m (m.acceptFd system res) := by
      unfold acceptFd
      split_ifs with hcan
      · refine kept_open hunused hnumbered hlive hcan ?_ ?_ ?_
        · rintro rfl
          rfl
        · rintro fd rfl
          rfl
        · rintro fd rfl
          exact ⟨fun c => { c with state := .connected, system := system }, fun _ => rfl, rfl,
            rfl⟩
      · exact Kept.refl hunused hnumbered hlive
    exact hfirst.trans (ih hfirst.unused hfirst.numbered hfirst.live)

/-- **The read part** uses nothing that is gone exactly when no write fails. -/
theorem onIoRead_unused_iff (hunused : m.used = false) (hnumbered : m.table.Numbered)
    (hlive : m.Live p) (r : ReadPart) :
    ((m.onIoRead p.fd r).used = false ↔ m.ReadOk p r) ∧
      (m.ReadOk p r → (m.onIoRead p.fd r).table.Numbered ∧
        ((m.onIoRead p.fd r).Live p ↔ m.ReadKeeps p r)) := by
  cases r with
  | accepts system fds =>
    have hkept := kept_accepts hunused hnumbered hlive system fds
    exact ⟨iff_of_true hkept.unused trivial,
      fun _ => ⟨hkept.numbered, iff_of_true hkept.live trivial⟩⟩
  | messages http reads =>
    obtain ⟨c, hc⟩ := live_iff.mp hlive
    obtain ⟨hlookup, hid⟩ := ConnTable.getConn_eq_some.mp hc
    have hp : (⟨p.fd, c.id⟩ : FdT) = p := by rw [hid]
    have hinvalid : m.IsInvalid p ↔
        c.state = .unknown ∨ c.state = .closed ∨ c.state = .error := by
      refine ⟨fun h => h c hc, fun h d hd => ?_⟩
      rw [hc] at hd
      rwa [← Option.some.inj hd]
    by_cases hstate : m.IsInvalid p
    · -- an invalid connection is closed and nothing else is done
      have hclosed : m.onIoRead p.fd (.messages http reads) = m.closeConn p := by
        rw [closeConn_of_live hlive]
        simp only [onIoRead, hlookup, hp, touch_of_live hlive]
        rcases hinvalid.mp hstate with h | h | h <;> simp only [h]
      have hdone := loopDone_closeConn hunused hnumbered hlive
      rw [hclosed]
      refine ⟨iff_of_true hdone.unused fun h => absurd hstate h, fun _ => ⟨hdone.numbered, ?_⟩⟩
      exact hdone.live.trans (iff_of_false (by decide) fun h => h.1 hstate)
    · have hread : m.onIoRead p.fd (.messages http reads) =
          if http then httpLoop p reads m else tcpLoop p reads m := by
        have hnot : ¬ (c.state = .unknown ∨ c.state = .closed ∨ c.state = .error) :=
          fun h => hstate (hinvalid.mpr h)
        simp only [onIoRead, hlookup, hp, touch_of_live hlive, processHttpMsg, processTcpMsg]
        cases hcs : c.state with
        | unknown => exact absurd (Or.inl hcs) hnot
        | closed => exact absurd (Or.inr (Or.inl hcs)) hnot
        | error => exact absurd (Or.inr (Or.inr hcs)) hnot
        | tryConnect => rfl
        | connecting => rfl
        | connected => rfl
      rw [hread]
      unfold ReadOk ReadKeeps
      simp only [hstate, not_false_eq_true, forall_const, true_and]
      cases http with
      | true =>
        obtain ⟨hiff, hdone⟩ := httpLoop_unused_iff hunused hnumbered hlive reads
        exact ⟨hiff, fun h => ⟨(hdone h).numbered, (hdone h).live⟩⟩
      | false =>
        obtain ⟨hiff, hdone⟩ := tcpLoop_unused_iff hunused hnumbered hlive reads
        exact ⟨hiff, fun h => ⟨(hdone h).numbered, (hdone h).live⟩⟩

/-- **The write part** uses nothing that is gone exactly when the write does not fail. -/
theorem onIoWrite_unused_iff (hunused : m.used = false) (hnumbered : m.table.Numbered)
    (hlive : m.Live p) (w : WritePart) :
    (m.onIoWrite p.fd w).used = false ↔ m.WriteOk p w := by
  obtain ⟨c, hc⟩ := live_iff.mp hlive
  obtain ⟨hlookup, hid⟩ := ConnTable.getConn_eq_some.mp hc
  have hp : (⟨p.fd, c.id⟩ : FdT) = p := by rw [hid]
  have hok : m.WriteOk p w ↔ (c.state = .connected ∨ c.state = .connecting → w.sent = true) ∧
      (c.state = .tryConnect → w.known = true → w.sent = true) := by
    refine ⟨fun h => h c hc, fun h d hd => ?_⟩
    rw [hc] at hd
    rwa [← Option.some.inj hd]
  -- a connection that is closed is not used after it
  have hclose : (m.closeConn p).used = false := by
    rw [closeConn_of_live hlive]
    exact hunused
  have hgone : ((m.closeConn p).touch p).used ≠ false := fun hfalse =>
    not_live_closeConn hnumbered (touch_unused.mp hfalse).2
  have hwrite : (if w.sent = true then m else (m.closeConn p).touch p).used = false ↔
      w.sent = true := by
    split_ifs with hsent
    · exact iff_of_true hunused hsent
    · exact iff_of_false hgone hsent
  rw [hok]
  simp only [onIoWrite, hlookup, hp, touch_of_live hlive]
  cases hcs : c.state with
  | unknown => exact iff_of_true hclose ⟨by simp, by simp⟩
  | closed => exact iff_of_true hclose ⟨by simp, by simp⟩
  | error => exact iff_of_true hclose ⟨by simp, by simp⟩
  | connected => simpa using hwrite
  | connecting => simpa using hwrite
  | tryConnect =>
    dsimp only
    cases hknown : w.known with
    | false => exact iff_of_true hclose ⟨by simp, by simp⟩
    | true =>
      cases hsent : w.sent with
      | true =>
        simp only [if_true, sendTo_of_sent hlive, touch_of_live hlive]
        exact iff_of_true hunused ⟨by simp, by simp⟩
      | false =>
        refine iff_of_false (fun hfalse => ?_) fun h => absurd (h.2 rfl rfl) (by decide)
        -- the failed send used the connection after it was closed
        have hsend : (m.sendTo p false).used = true := by
          by_contra hnot
          have := (sendTo_unused_iff hnumbered hunused hlive false).mp (by simpa using hnot)
          exact absurd this (by decide)
        have hall := used_closeConn (p := p) (used_touch (p := p) hsend)
        simp only [if_true, Bool.false_eq_true, if_false] at hfalse
        rw [hall] at hfalse
        exact absurd hfalse (by decide)

end Parts

/-- **Nothing is used after it is gone exactly in the events in which no write fails** and, when
a write part follows a read part, the read part leaves the connection open: for every table of
connections, every live connection and every event of its watcher, with all that is decoded,
all calls of the handlers and all outcomes of the socket calls. -/
theorem onIoCallback_unused_iff {m : Handling} {p : FdT} (hunused : m.used = false)
    (hnumbered : m.table.Numbered) (hlive : m.Live p) (e : IoEvent) :
    (m.onIoCallback p e).used = false ↔ m.EventOk p e := by
  have hcallback : m.onIoCallback p e =
      match e.write with
      | none => m.afterRead p e.read
      | some w => ((m.afterRead p e.read).touch p).onIoWrite p.fd w := by
    simp only [onIoCallback, touch_of_live hlive, afterRead]
  -- the state between the two parts
  have hread : ((m.afterRead p e.read).used = false ↔ ∀ r ∈ e.read, m.ReadOk p r) ∧
      ((∀ r ∈ e.read, m.ReadOk p r) → (m.afterRead p e.read).table.Numbered ∧
        ((m.afterRead p e.read).Live p ↔ ∀ r ∈ e.read, m.ReadKeeps p r)) := by
    cases hr : e.read with
    | none =>
      exact ⟨iff_of_true hunused (by simp), fun _ => ⟨hnumbered, iff_of_true hlive (by simp)⟩⟩
    | some r =>
      simpa [afterRead] using onIoRead_unused_iff hunused hnumbered hlive r
  obtain ⟨hiff, hafter⟩ := hread
  rw [hcallback]
  unfold EventOk
  cases hw : e.write with
  | none => simpa using hiff
  | some w =>
    dsimp only
    by_cases hok : ∀ r ∈ e.read, m.ReadOk p r
    · obtain ⟨hnumbered', hlive'⟩ := hafter hok
      by_cases hkeeps : ∀ r ∈ e.read, m.ReadKeeps p r
      · have hlive'' := hlive'.mpr hkeeps
        rw [touch_of_live hlive'', onIoWrite_unused_iff (hiff.mpr hok) hnumbered' hlive'']
        exact ⟨fun h => ⟨hok, fun w' hw' => ⟨hkeeps, Option.some.inj hw' ▸ h⟩⟩,
          fun h => (h.2 w rfl).2⟩
      · -- the watcher was freed by the read part
        refine iff_of_false (fun hfalse => ?_) fun h => hkeeps (h.2 w rfl).1
        have hused : ((m.afterRead p e.read).touch p).used = true := by
          by_contra hnot
          exact hkeeps (hlive'.mp (touch_unused.mp (by simpa using hnot)).2)
        exact absurd ((used_onIoWrite hused _ _).symm.trans hfalse) (by decide)
    · refine iff_of_false (fun hfalse => ?_) fun h => hok h.1
      have hused : (m.afterRead p e.read).used = true := by
        by_contra hnot
        exact hok (hiff.mp (by simpa using hnot))
      exact absurd ((used_onIoWrite (used_touch hused) _ _).symm.trans hfalse) (by decide)

/-- A manager with one accepted connection. -/
def acceptedHandling : Handling where
  table := ConnTable.transferFd {} true (.ok 7)

/-- The accepted connection sends a payload, and the answer is sent. -/
def answeredEvent (sent : Bool) : IoEvent where
  read := some (.messages false
    (.message { sys := [.sendFd ⟨7, 1⟩ sent], status := if sent then .ok else .error }
      (.stop false)))

theorem numbered_acceptedHandling : acceptedHandling.table.Numbered := by
  have hcreated : (ConnTable.createConn {} (7 : ℕ)).Numbered :=
    ConnTable.numbered_empty.createConn (by decide)
  show ((ConnTable.createConn {} (7 : ℕ)).setConn (7 : ℕ) fun c =>
    { c with state := .connected, system := true }).Numbered
  refine hcreated.setConn (7 : ℕ) ?_
  exact fun _ => rfl

/-- The connection stays, and the loop reads on. -/
theorem onIoCallback_answered : (acceptedHandling.onIoCallback ⟨7, 1⟩ (answeredEvent true)).used =
    false :=
  (onIoCallback_unused_iff rfl numbered_acceptedHandling (by decide) (answeredEvent true)).mpr
    ⟨by simp [answeredEvent, ReadOk, TcpOk, Machine.Meets, CallOk], by simp [answeredEvent]⟩

/-- When the answer cannot be sent, the connection is used after it was closed. -/
theorem onIoCallback_fails :
    acceptedHandling.Live ⟨7, 1⟩ ∧
      (acceptedHandling.onIoCallback ⟨7, 1⟩ (answeredEvent false)).used = true := by
  refine ⟨by decide, by decide⟩

end Handling

end Kimserver
