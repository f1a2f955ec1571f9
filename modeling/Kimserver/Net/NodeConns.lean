import Kimserver.Lib.Machine
import Kimserver.Net.ConnTable

/-!
# The index of node connections

`m_node_conns` of a worker maps the id of a node to the connection with it. `auto_send` writes
an entry and records the id on the connection; `add_client_conn`, which the handlers of the
handshake call, writes an entry only. `close_conn` erases the entry of the id that is recorded
on the connection, so an entry that `add_client_conn` wrote under another id stays behind when
its connection is closed, and the next `send_to_node` uses a deleted connection.

What a peer sends, what a socket answers and which descriptors the system hands out is part of
an event. The sends of a handler are modelled by whether they succeed.

## Main definitions

* `TargetNode`, `NodeConnsOp`, `nodeConnsMachine`: a worker and what happens to it
* `ConnTable.NodeIndex`: no entry is stale, and none becomes stale when a connection is closed
* `ConnTable.Recorded`: the entries are the ids that are recorded on the connections
* `ConnTable.KeepsRecorded`: the steps that write an entry under the recorded id only

## Main results

* `ConnTable.nodeIndex_run_iff`: the index is never stale exactly in the runs of such steps
-/

namespace Kimserver

/-- `target_node`, as far as the node id goes. -/
structure TargetNode where
  ip : Bytes
  port : UInt32
  workerIndex : UInt32
  deriving DecidableEq, Repr

/-- `format_nodes_id(tn.ip(), tn.port(), tn.worker_index())`. -/
def TargetNode.nodeId (tn : TargetNode) : Bytes :=
  formatNodesId tn.ip (CInt.toInt tn.port.toNat) (CInt.toInt tn.workerIndex.toNat)

theorem formatNodesId_ne_nil (host : Bytes) (port index : ℤ) : formatNodesId host port index ≠ [] := by
  have hlen : 0 < (nodesIdText host port index).length := by simp [nodesIdText]
  intro hnil
  have hzero := congrArg List.length hnil
  rw [formatNodesId, List.length_take, List.length_nil] at hzero
  omega

/-- What `connect` and the calls after it give. -/
inductive ConnectResult
  /-- no descriptor -/
  | refused
  /-- a descriptor, but a later call fails -/
  | failed (fd : ℕ)
  | ok (fd : ℕ)
  deriving DecidableEq, Repr

/-- What happens to a worker. -/
inductive NodeConnsOp
  /-- a call of `auto_send` -/
  | autoSend (host : Bytes) (port workerIndex : ℤ) (res : ConnectResult)
  /-- a call of `send_to_node` that was routed to this node -/
  | sendToNode (host : Bytes) (port workerIndex : ℤ) (res : ConnectResult) (sent : Bool)
  /-- a descriptor that the manager transferred -/
  | transferFd (system : Bool) (res : ConnectResult)
  /-- `CMD_RSP_CONNECT_TO_WORKER` on a connection -/
  | rspConnectToWorker (fd : ℕ) (ok sent : Bool)
  /-- `CMD_REQ_TELL_WORKER` on a connection, with the node that was parsed -/
  | reqTellWorker (fd : ℕ) (tn : Option TargetNode) (sent : Bool)
  /-- `CMD_RSP_TELL_WORKER` on a connection, with the node that was parsed -/
  | rspTellWorker (fd : ℕ) (ok : Bool) (tn : Option TargetNode) (writeEvent : Bool)
  /-- a call of `add_client_conn` -/
  | addClientConn (nodeId : Bytes) (f : FdT)
  /-- a write event of a connection -/
  | ioWrite (fd : ℕ) (known sent : Bool)
  /-- a connection is closed by an error, by its timer or by the peer -/
  | close (fd : ℕ)
  deriving DecidableEq

namespace ConnTable

/-! ## The worker -/

section Worker

variable (self : TargetNode) (s : ConnTable)

/-- `auto_send`. -/
def autoSend (host : Bytes) (port workerIndex : ℤ) : ConnectResult → ConnTable
  | .refused => s
  | .failed fd => (s.createConn fd).closeConn fd
  | .ok fd =>
    let nodeId := formatNodesId host port workerIndex
    let s := (s.createConn fd).setConn fd fun c =>
      { c with system := true, state := .tryConnect, nodeId := nodeId }
    { s with nodeConns := s.nodeConns.insert nodeId ⟨fd, s.seq⟩ }

/-- A send on a connection, which is closed when the send fails. -/
def sendOn (fd : ℤ) (sent : Bool) : ConnTable := if sent then s else s.closeConn fd

/-- `send_to_node`, for a node that the registry gave. Nothing is defined when the entry is
stale, and nothing happens here. -/
def sendToNode (host : Bytes) (port workerIndex : ℤ) (res : ConnectResult) (sent : Bool) :
    ConnTable :=
  match s.nodeConns.lookup (formatNodesId host port workerIndex) with
  | none => s.autoSend host port workerIndex res
  | some p =>
    match s.getConn p with
    | none => s
    | some c => if c.state = .connected then s.sendOn p.fd sent else s

/-- `read_transfer_fd`, for one descriptor. -/
def transferFd (system : Bool) : ConnectResult → ConnTable
  | .refused => s
  | .failed fd => (s.createConn fd).closeConn fd
  | .ok fd =>
    (s.createConn fd).setConn fd fun c => { c with state := .connected, system := system }

/-- `on_req_tell_worker`: the node that was parsed is overwritten with this worker before its
id is taken. -/
def onReqTellWorker (f : FdT) (tn : Option TargetNode) (sent : Bool) : ConnTable :=
  match tn with
  | none => s.sendOn f.fd sent
  | some _ =>
    if sent then (s.updateConnState f.fd .connected).addClientConn self.nodeId f
    else s.closeConn f.fd

/-- `on_rsp_tell_worker`, and the write event that is added for the answer `RUNNING`. -/
def onRspTellWorker (f : FdT) (ok : Bool) (tn : Option TargetNode) (writeEvent : Bool) :
    ConnTable :=
  if ok then
    match tn with
    | none => s
    | some tn =>
      ((s.updateConnState f.fd .connected).addClientConn tn.nodeId f).sendOn f.fd writeEvent
  else s

/-- `on_io_write`; `known` tells whether the node of the connection is registered. -/
def onIoWrite (fd : ℤ) (known sent : Bool) : ConnTable :=
  match s.conns.lookup fd with
  | none => s
  | some c =>
    match c.state with
    | .unknown | .closed | .error => s.closeConn fd
    | .connected | .connecting => s.sendOn fd sent
    | .tryConnect =>
      if known && sent then s.updateConnState fd .connecting else s.closeConn fd

/-- A message of the handshake, on a system connection. -/
def onSystem (fd : ℤ) (handle : FdT → ConnTable) : ConnTable :=
  match s.conns.lookup fd with
  | none => s
  | some c => if c.system then handle ⟨fd, c.id⟩ else s

/-- One step of a worker. -/
def step : NodeConnsOp → ConnTable
  | .autoSend host port workerIndex res => s.autoSend host port workerIndex res
  | .sendToNode host port workerIndex res sent => s.sendToNode host port workerIndex res sent
  | .transferFd system res => s.transferFd system res
  | .rspConnectToWorker fd ok sent => s.onSystem fd fun f => if ok then s.sendOn f.fd sent else s
  | .reqTellWorker fd tn sent => s.onSystem fd fun f => s.onReqTellWorker self f tn sent
  | .rspTellWorker fd ok tn writeEvent =>
    s.onSystem fd fun f => s.onRspTellWorker f ok tn writeEvent
  | .addClientConn nodeId f => s.addClientConn nodeId f
  | .ioWrite fd known sent => s.onIoWrite fd known sent
  | .close fd => s.closeConn fd

end Worker

/-! ## The index -/

/-- Every entry of the index leads to a connection. -/
def Fresh (s : ConnTable) : Prop :=
  ∀ nodeId p, s.nodeConns.lookup nodeId = some p → (s.getConn p).isSome

/-- No entry is stale, and closing a connection leaves none that is stale and removes only the
entries that point to this connection. -/
structure NodeIndex (s : ConnTable) : Prop where
  fresh : s.Fresh
  closes : ∀ fd c, s.conns.lookup fd = some c →
    (s.closeConn fd).Fresh ∧ ∀ nodeId p, s.nodeConns.lookup nodeId = some p →
      (s.closeConn fd).nodeConns.lookup nodeId = none → p = ⟨fd, c.id⟩

/-- The entries of the index are the ids recorded on the connections. -/
structure Recorded (s : ConnTable) : Prop where
  numbered : s.Numbered
  entry : ∀ nodeId p, s.nodeConns.lookup nodeId = some p ↔
    nodeId ≠ [] ∧ ∃ c, s.getConn p = some c ∧ c.nodeId = nodeId

/-- An entry is added under the id that is recorded on its connection. -/
def AddsRecorded (s : ConnTable) (nodeId : Bytes) (f : FdT) : Prop :=
  ∀ c ∈ s.getConn f, nodeId ≠ [] ∧ c.nodeId = nodeId

/-- The steps that write entries under the recorded ids: `add_client_conn` gets the id that is
recorded on its connection, and `auto_send` is called for a node without a connection. -/
def KeepsRecorded (self : TargetNode) (s : ConnTable) : NodeConnsOp → Prop
  | .addClientConn nodeId f => s.AddsRecorded nodeId f
  | .reqTellWorker fd (some _) true =>
    ∀ c ∈ s.conns.lookup (fd : ℤ), c.system = true → s.AddsRecorded self.nodeId ⟨fd, c.id⟩
  | .rspTellWorker fd true (some tn) _ =>
    ∀ c ∈ s.conns.lookup (fd : ℤ), c.system = true → s.AddsRecorded tn.nodeId ⟨fd, c.id⟩
  | .autoSend host port workerIndex (.ok fd) =>
    ∀ x c, s.conns.lookup x = some c → c.nodeId = formatNodesId host port workerIndex →
      x = (fd : ℤ)
  | _ => True

/-! ## What the operations keep -/

section Keeps

variable {s : ConnTable}

theorem getConn_closeConn (h : s.Numbered) (fd : ℤ) (p : FdT) :
    (s.closeConn fd).getConn p = if p.fd = fd then none else s.getConn p := by
  unfold getConn
  rw [lookup_closeConn h]
  split_ifs <;> rfl

theorem getConn_setConn (s : ConnTable) (fd : ℤ) (set : Conn → Conn)
    (hset : ∀ c, (set c).id = c.id) (p : FdT) :
    (s.setConn fd set).getConn p = if p.fd = fd then (s.getConn p).map set else s.getConn p := by
  unfold getConn
  rw [lookup_setConn]
  split_ifs with hp
  · rw [hp]
    cases s.conns.lookup fd with
    | none => rfl
    | some c =>
      dsimp only [Option.map_some]
      rw [hset]
      split_ifs <;> rfl
  · rfl

theorem getConn_updateConnState (s : ConnTable) (fd : ℤ) (state : ConnState) (p : FdT) :
    (s.updateConnState fd state).getConn p =
      if p.fd = fd then (s.getConn p).map fun c => { c with state := state } else s.getConn p :=
  getConn_setConn s fd (fun c => { c with state := state }) (fun _ => rfl) p

theorem getConn_createConn (h : s.Numbered) (fd : ℤ) (p : FdT) :
    (s.createConn fd).getConn p =
      if p.fd = fd then (if p.id = s.seq + 1 then some { id := s.seq + 1 } else none)
      else s.getConn p := by
  unfold getConn
  rw [lookup_createConn h]
  by_cases hp : p.fd = fd
  · rw [if_pos hp, if_pos hp]
    by_cases hid : p.id = s.seq + 1
    · simp [hid]
    · simp [hid, Ne.symm hid]
  · rw [if_neg hp, if_neg hp]

/-- The entry of an id recorded on a connection leads to this connection. -/
theorem Recorded.entry_of (h : s.Recorded) {fd : ℤ} {c : Conn} (hc : s.conns.lookup fd = some c)
    (hid : c.nodeId ≠ []) : s.nodeConns.lookup c.nodeId = some ⟨fd, c.id⟩ :=
  (h.entry _ _).mpr ⟨hid, c, getConn_eq_some.mpr ⟨hc, rfl⟩, rfl⟩

theorem recorded_empty : Recorded {} where
  numbered := numbered_empty
  entry nodeId p := iff_of_false (by simp) (by simp [getConn])

theorem Recorded.closeConn (h : s.Recorded) (fd : ℤ) : (s.closeConn fd).Recorded := by
  cases hc : s.conns.lookup fd with
  | none => rwa [closeConn_none hc]
  | some c =>
    refine ⟨h.numbered.closeConn fd, fun nodeId p => ?_⟩
    rw [lookup_nodeConns_closeConn h.numbered hc, getConn_closeConn h.numbered]
    constructor
    · intro hp
      split_ifs at hp with hown
      obtain ⟨hid, d, hd, hdid⟩ := (h.entry nodeId p).mp hp
      refine ⟨hid, d, ?_, hdid⟩
      rw [if_neg]
      · exact hd
      · -- the entries of the closed connection were erased
        intro hfd
        have hlookup := (getConn_eq_some.mp hd).1
        rw [hfd, hc] at hlookup
        obtain rfl := Option.some.inj hlookup
        exact hown ⟨by rwa [hdid], hdid.symm⟩
    · rintro ⟨hid, d, hd, hdid⟩
      split_ifs at hd with hfd
      have hp := (h.entry nodeId p).mpr ⟨hid, d, hd, hdid⟩
      rw [if_neg]
      · exact hp
      · rintro ⟨-, heq⟩
        have hentry := h.entry_of hc (by rwa [← heq])
        rw [← heq, hp] at hentry
        exact hfd (congrArg FdT.fd (Option.some.inj hentry))

theorem Recorded.setConn (h : s.Recorded) (fd : ℤ) {set : Conn → Conn}
    (hset : ∀ c, (set c).id = c.id) (hnode : ∀ c, (set c).nodeId = c.nodeId) :
    (s.setConn fd set).Recorded := by
  refine ⟨h.numbered.setConn fd hset, fun nodeId p => ?_⟩
  rw [setConn_nodeConns, h.entry, getConn_setConn s fd set hset]
  refine and_congr_right fun _ => ?_
  split_ifs
  · constructor
    · rintro ⟨c, hc, hid⟩
      exact ⟨set c, by rw [hc]; rfl, (hnode c).trans hid⟩
    · rintro ⟨c, hc, hid⟩
      obtain ⟨d, hd, rfl⟩ := Option.map_eq_some_iff.mp hc
      exact ⟨d, hd, (hnode d).symm.trans hid⟩
  · rfl

theorem Recorded.createConn (h : s.Recorded) {fd : ℤ} (hfd : fd ≠ -1) :
    (s.createConn fd).Recorded := by
  refine ⟨h.numbered.createConn hfd, fun nodeId p => ?_⟩
  rw [createConn_nodeConns, (h.closeConn fd).entry, getConn_closeConn h.numbered,
    getConn_createConn h.numbered]
  refine and_congr_right fun hid => ?_
  split_ifs with hp hnew
  · -- no id is recorded on the new connection
    refine iff_of_false (by simp) ?_
    rintro ⟨c, hc, hcid⟩
    rw [← Option.some.inj hc] at hcid
    exact hid hcid.symm
  · rfl
  · rfl

theorem Recorded.sendOn (h : s.Recorded) (fd : ℤ) (sent : Bool) : (s.sendOn fd sent).Recorded := by
  unfold ConnTable.sendOn
  split_ifs
  · exact h
  · exact h.closeConn fd

theorem Recorded.updateConnState (h : s.Recorded) (fd : ℤ) (state : ConnState) :
    (s.updateConnState fd state).Recorded :=
  h.setConn fd (fun _ => rfl) fun _ => rfl

/-- An entry under the id that is recorded is there already. -/
theorem Recorded.addClientConn (h : s.Recorded) {nodeId : Bytes} {f : FdT}
    (hadds : s.AddsRecorded nodeId f) : (s.addClientConn nodeId f).Recorded := by
  unfold ConnTable.addClientConn
  cases hf : s.getConn f with
  | none => exact h
  | some c =>
    obtain ⟨hid, hc⟩ := hadds c hf
    have hentry := (h.entry nodeId f).mpr ⟨hid, c, hf, hc⟩
    have hsame : s.nodeConns.insert nodeId f = s.nodeConns := by
      refine Finmap.ext_lookup fun x => ?_
      rw [FiniteMap.lookup_insert]
      split_ifs with hx
      · rw [hx, hentry]
      · rfl
    dsimp only
    rw [hsame]
    exact h

theorem Recorded.autoSend (h : s.Recorded) (host : Bytes) (port workerIndex : ℤ) {fd : ℕ}
    (hfree : ∀ x c, s.conns.lookup x = some c →
      c.nodeId = formatNodesId host port workerIndex → x = (fd : ℤ)) :
    (s.autoSend host port workerIndex (.ok fd)).Recorded := by
  have hcreated : (s.createConn fd).Recorded := h.createConn (by omega)
  -- the connection is set up before the entry is written
  obtain ⟨t, ht⟩ : ∃ t, t = (s.createConn fd).setConn fd fun c =>
      { c with
        system := true, state := .tryConnect
        nodeId := formatNodesId host port workerIndex } := ⟨_, rfl⟩
  have hnumbered : t.Numbered := ht ▸ hcreated.numbered.setConn fd fun _ => rfl
  have hentries : t.nodeConns = (s.createConn fd).nodeConns := ht ▸ setConn_nodeConns ..
  have hseq : t.seq = s.seq + 1 := by rw [ht, setConn_seq, createConn_seq]
  have hget : ∀ p, t.getConn p = if p.fd = fd then
      (if p.id = s.seq + 1 then
        some ⟨s.seq + 1, formatNodesId host port workerIndex, .tryConnect, true⟩ else none)
      else s.getConn p := by
    intro p
    rw [ht, getConn_setConn, getConn_createConn h.numbered]
    · split_ifs <;> rfl
    · exact fun _ => rfl
  have hstep : s.autoSend host port workerIndex (.ok fd) =
      { t with
        nodeConns := t.nodeConns.insert (formatNodesId host port workerIndex) ⟨fd, t.seq⟩ } := by
    rw [ht]
    rfl
  rw [hstep]
  refine ⟨hnumbered.congr rfl rfl, fun nodeId p => ?_⟩
  rw [FiniteMap.lookup_insert]
  change _ ↔ nodeId ≠ [] ∧ ∃ c, t.getConn p = some c ∧ c.nodeId = nodeId
  rw [hget, hseq]
  by_cases hid : nodeId = formatNodesId host port workerIndex
  · subst hid
    rw [if_pos rfl]
    constructor
    · intro hp
      rw [← Option.some.inj hp]
      exact ⟨formatNodesId_ne_nil host port workerIndex, _, by rw [if_pos rfl, if_pos rfl], rfl⟩
    · rintro ⟨-, c, hc, hcid⟩
      split_ifs at hc with hfd hnew
      · rw [← hfd, ← hnew]
      · -- another connection with this id
        exact absurd (hfree _ c (getConn_eq_some.mp hc).1 hcid) hfd
  · rw [if_neg hid, hentries, hcreated.entry, getConn_createConn h.numbered]
    refine and_congr_right fun hne => ?_
    split_ifs with hfd hnew
    · -- the new connection has another id
      refine iff_of_false ?_ ?_
      · rintro ⟨c, hc, hcid⟩
        rw [← Option.some.inj hc] at hcid
        exact hne hcid.symm
      · rintro ⟨c, hc, hcid⟩
        rw [← Option.some.inj hc] at hcid
        exact hid hcid.symm
    · rfl
    · rfl

end Keeps

/-! ## Steps -/

section Step

variable {s : ConnTable} {self : TargetNode}

/-- Where the entries are the recorded ids, no entry is stale, now or after a close. -/
theorem Recorded.fresh (h : s.Recorded) : s.Fresh := by
  intro nodeId p hp
  obtain ⟨-, c, hc, -⟩ := (h.entry nodeId p).mp hp
  rw [hc]
  rfl

theorem Recorded.nodeIndex (h : s.Recorded) : s.NodeIndex where
  fresh := h.fresh
  closes fd c hc := by
    refine ⟨(h.closeConn fd).fresh, fun nodeId p hp hnone => ?_⟩
    rw [lookup_nodeConns_closeConn h.numbered hc] at hnone
    split_ifs at hnone with hown
    · have hentry := h.entry_of hc hown.1
      rw [← hown.2, hp] at hentry
      exact Option.some.inj hentry
    · rw [hp] at hnone
      exact absurd hnone (by simp)

/-- A creation that fails leaves the connection that was made, and closes it. -/
theorem Recorded.failedConn (h : s.Recorded) (fd : ℕ) :
    ((s.createConn fd).closeConn fd).Recorded :=
  (h.createConn (by omega)).closeConn fd

theorem Recorded.onSystem (h : s.Recorded) (fd : ℤ) {handle : FdT → ConnTable}
    (hhandle : ∀ c, s.conns.lookup fd = some c → c.system = true →
      (handle ⟨fd, c.id⟩).Recorded) : (s.onSystem fd handle).Recorded := by
  unfold ConnTable.onSystem
  cases hc : s.conns.lookup fd with
  | none => exact h
  | some c =>
    dsimp only
    split_ifs with hsystem
    · exact hhandle c hc hsystem
    · exact h

/-- A change of state keeps what is recorded. -/
theorem addsRecorded_updateConnState {nodeId : Bytes} {f : FdT} (state : ConnState)
    (h : s.AddsRecorded nodeId f) : (s.updateConnState f.fd state).AddsRecorded nodeId f := by
  intro c hc
  rw [getConn_updateConnState, if_pos rfl] at hc
  obtain ⟨d, hd, rfl⟩ := Option.map_eq_some_iff.mp hc
  exact h d hd

/-- **The steps that write entries under recorded ids** keep the entries so. -/
theorem Recorded.step (h : s.Recorded) (op : NodeConnsOp) (hop : s.KeepsRecorded self op) :
    (s.step self op).Recorded := by
  cases op with
  | autoSend host port workerIndex res =>
    cases res with
    | refused => exact h
    | failed fd => exact h.failedConn fd
    | ok fd => exact h.autoSend host port workerIndex hop
  | sendToNode host port workerIndex res sent =>
    unfold ConnTable.step ConnTable.sendToNode
    dsimp only
    cases hentry : s.nodeConns.lookup (formatNodesId host port workerIndex) with
    | none =>
      cases res with
      | refused => exact h
      | failed fd => exact h.failedConn fd
      | ok fd =>
        -- without an entry, no connection has this id
        refine h.autoSend host port workerIndex fun x c hc hid => ?_
        have hsome := h.entry_of hc (by rw [hid]; exact formatNodesId_ne_nil _ _ _)
        rw [hid, hentry] at hsome
        exact absurd hsome (by simp)
    | some p =>
      dsimp only
      split
      · exact h
      · split_ifs
        · exact h.sendOn _ _
        · exact h
  | transferFd system res =>
    cases res with
    | refused => exact h
    | failed fd => exact h.failedConn fd
    | ok fd => exact (h.createConn (by omega)).setConn _ (fun _ => rfl) fun _ => rfl
  | rspConnectToWorker fd ok sent =>
    unfold ConnTable.step
    refine h.onSystem fd fun c _ _ => ?_
    split_ifs
    · exact h.sendOn _ _
    · exact h
  | reqTellWorker fd tn sent =>
    unfold ConnTable.step
    refine h.onSystem fd fun c hc hsystem => ?_
    cases tn with
    | none => exact h.sendOn _ _
    | some tn =>
      unfold ConnTable.onReqTellWorker
      dsimp only
      split_ifs with hsent
      · subst hsent
        have hadds := addsRecorded_updateConnState .connected (hop c hc hsystem)
        exact (h.updateConnState _ _).addClientConn hadds
      · exact h.closeConn _
  | rspTellWorker fd ok tn writeEvent =>
    unfold ConnTable.step
    refine h.onSystem fd fun c hc hsystem => ?_
    unfold ConnTable.onRspTellWorker
    split_ifs with hok
    · subst hok
      cases tn with
      | none => exact h
      | some tn =>
        have hadds := addsRecorded_updateConnState .connected (hop c hc hsystem)
        exact ((h.updateConnState _ _).addClientConn hadds).sendOn _ _
    · exact h
  | addClientConn nodeId f => exact h.addClientConn hop
  | ioWrite fd known sent =>
    unfold ConnTable.step ConnTable.onIoWrite
    dsimp only
    split
    · exact h
    · split
      · exact h.closeConn _
      · exact h.closeConn _
      · exact h.closeConn _
      · exact h.sendOn _ _
      · exact h.sendOn _ _
      · split_ifs
        · exact h.updateConnState _ _
        · exact h.closeConn _
  | close fd => exact h.closeConn fd

/-- An entry survives the close of its connection, unless its id is recorded there. -/
theorem recorded_of_fresh_closeConn (h : s.Numbered) {nodeId : Bytes} {f : FdT} {c : Conn}
    (hentry : s.nodeConns.lookup nodeId = some f) (hc : s.getConn f = some c)
    (hfresh : (s.closeConn f.fd).Fresh) : nodeId ≠ [] ∧ c.nodeId = nodeId := by
  have hlookup := (getConn_eq_some.mp hc).1
  by_contra hnot
  have hstays : (s.closeConn f.fd).nodeConns.lookup nodeId = some f := by
    rw [lookup_nodeConns_closeConn h hlookup, if_neg, hentry]
    rintro ⟨hne, rfl⟩
    exact hnot ⟨hne, rfl⟩
  have hsome := hfresh nodeId f hstays
  rw [getConn_closeConn h, if_pos rfl] at hsome
  exact absurd hsome (by simp)

/-- After an entry was added, its connection can be closed without leaving it behind only if
the id is recorded there. -/
theorem addsRecorded_of_closeConn (h : s.Numbered) {nodeId : Bytes} {f : FdT}
    (hfresh : ∀ c, s.getConn f = some c → ((s.addClientConn nodeId f).closeConn f.fd).Fresh) :
    s.AddsRecorded nodeId f := by
  intro c hc
  obtain ⟨hconns, hseq⟩ := addClientConn_conns s nodeId f
  refine recorded_of_fresh_closeConn (h.congr hconns hseq) ?_ ?_ (hfresh c hc)
  · simp only [addClientConn, Option.mem_def.mp hc, FiniteMap.lookup_insert, if_true]
  · unfold getConn
    rw [hconns]
    exact hc

/-- The same, after the state of the connection was changed. -/
theorem addsRecorded_of_updated (h : s.Numbered) {nodeId : Bytes} {fd : ℤ} {c : Conn}
    (state : ConnState)
    (hfresh : (((s.updateConnState fd state).addClientConn nodeId ⟨fd, c.id⟩).closeConn fd).Fresh) :
    s.AddsRecorded nodeId ⟨fd, c.id⟩ := by
  have hnumbered : (s.updateConnState fd state).Numbered := h.setConn fd fun _ => rfl
  have hadds : (s.updateConnState fd state).AddsRecorded nodeId ⟨fd, c.id⟩ :=
    addsRecorded_of_closeConn hnumbered fun _ _ => hfresh
  intro d hd
  refine hadds { d with state := state } ?_
  rw [getConn_updateConnState, if_pos rfl, Option.mem_def.mp hd]
  rfl

/-- **The steps that leave an index without stale entries**, now and after a close, are the
steps that write entries under recorded ids. -/
theorem keepsRecorded_of_nodeIndex (h : s.Recorded) (op : NodeConnsOp)
    (hafter : (s.step self op).NodeIndex) : s.KeepsRecorded self op := by
  -- an index that is not stale is not stale after a close of `fd`
  have hclose : ∀ {t : ConnTable} (fd : ℤ), t.NodeIndex → (t.closeConn fd).Fresh := by
    intro t fd ht
    cases hc : t.conns.lookup fd with
    | none => rw [closeConn_none hc]; exact ht.fresh
    | some c => exact (ht.closes fd c hc).1
  cases op with
  | autoSend host port workerIndex res =>
    cases res with
    | refused => trivial
    | failed fd => trivial
    | ok fd =>
      intro x c hc hid
      by_contra hx
      -- closing the other connection removes the entry of the new one
      have hkept : (s.step self (.autoSend host port workerIndex (.ok fd))).conns.lookup x =
          some c := by
        simp only [step, autoSend, lookup_setConn, if_neg hx, lookup_createConn h.numbered]
        exact hc
      have hentry : (s.step self (.autoSend host port workerIndex (.ok fd))).nodeConns.lookup
          c.nodeId = some ⟨fd, (s.createConn fd).seq⟩ := by
        simp only [step, autoSend, hid, setConn_seq, FiniteMap.lookup_insert, if_true]
      have hnumbered : (s.step self (.autoSend host port workerIndex (.ok fd))).Numbered := by
        have hcreated : (s.createConn fd).Numbered := h.numbered.createConn (by omega)
        refine (hcreated.setConn (fd : ℤ) ?_).congr rfl rfl
        exact fun _ => rfl
      have hgone : ((s.step self (.autoSend host port workerIndex (.ok fd))).closeConn
          x).nodeConns.lookup c.nodeId = none := by
        rw [lookup_nodeConns_closeConn hnumbered hkept, if_pos]
        exact ⟨by rw [hid]; exact formatNodesId_ne_nil _ _ _, rfl⟩
      have hown := (hafter.closes x c hkept).2 _ _ hentry hgone
      exact hx (congrArg FdT.fd hown).symm
  | reqTellWorker fd tn sent =>
    cases tn with
    | none => trivial
    | some tn =>
      cases sent with
      | false => trivial
      | true =>
        intro c hc hsystem
        refine addsRecorded_of_updated h.numbered .connected (hclose fd ?_)
        simpa only [step, onSystem, Option.mem_def.mp hc, hsystem, if_true, onReqTellWorker]
          using hafter
  | rspTellWorker fd ok tn writeEvent =>
    cases ok with
    | false => cases tn <;> trivial
    | true =>
      cases tn with
      | none => trivial
      | some tn =>
        intro c hc hsystem
        refine addsRecorded_of_updated h.numbered .connected ?_
        simp only [step, onSystem, Option.mem_def.mp hc, hsystem, if_true, onRspTellWorker,
          sendOn] at hafter
        cases writeEvent with
        | true => exact hclose fd hafter
        | false => exact hafter.fresh
  | addClientConn nodeId f =>
    exact addsRecorded_of_closeConn h.numbered fun _ _ => hclose f.fd hafter
  | sendToNode => trivial
  | transferFd => trivial
  | rspConnectToWorker => trivial
  | ioWrite => trivial
  | close => trivial

end Step

end ConnTable

/-- A worker of this node. -/
def nodeConnsMachine (self : TargetNode) : Machine ConnTable NodeConnsOp :=
  ⟨fun s op => s.step self op⟩

namespace ConnTable

/-! ## Runs -/

/-- **The index of node connections is never stale exactly in the runs that write entries under
the recorded ids**: for every worker and every sequence of calls, messages and closes, no entry
is stale in any state, and no close leaves a stale entry or removes one of another connection,
if and only if `add_client_conn` always gets the id recorded on its connection and `auto_send`
is never called for a node whose id is recorded on another connection. -/
theorem nodeIndex_run_iff (self : TargetNode) (ops : List NodeConnsOp) :
    (nodeConnsMachine self).Meets (KeepsRecorded self) {} ops ↔
      ∀ past, past <+: ops → ((nodeConnsMachine self).run {} past).NodeIndex := by
  refine Machine.Meets.iff_forall_prefix (I := Recorded) (Q := fun _ => True)
    (fun s h => h.nodeIndex) ?_ ?_ recorded_empty fun _ _ => trivial
  · intro s op _ h hop
    exact h.step op hop
  · intro s op _ h hafter
    exact keepsRecorded_of_nodeIndex h op hafter

/-- The worker `B1` of a node, which is its second one. The host and the port of a node are not set
in its workers. -/
def sampleSelf : TargetNode := ⟨[], 0, 2⟩

/-- The worker `A1` of another node, its first one, which connects to `B1`. -/
def samplePeer : TargetNode := ⟨[], 0, 1⟩

/-- `A1` connects to `B1`, tells it who it is, and closes the connection: the entry that `B1`
made, under its own id, is stale. -/
theorem nodeIndex_told_fails :
    ¬ ((nodeConnsMachine sampleSelf).run {}
      [.transferFd true (.ok 7), .reqTellWorker 7 (some samplePeer) true, .close 7]).NodeIndex := by
  intro hindex
  have hentry : ((nodeConnsMachine sampleSelf).run {}
      [.transferFd true (.ok 7), .reqTellWorker 7 (some samplePeer) true,
        .close 7]).nodeConns.lookup sampleSelf.nodeId = some ⟨7, 1⟩ := by decide
  exact absurd (hindex.fresh _ _ hentry) (by decide)

end ConnTable

end Kimserver
