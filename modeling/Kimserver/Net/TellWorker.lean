import Kimserver.Net.NodeConns
import Kimserver.Net.SysCmd

/-!
# Who is at the other end

The last two messages of the handshake carry identities. `A1` sends its own in
`CMD_REQ_TELL_WORKER`, `B1` sends its own in the answer, and each enters its end of the connection
in its index of node connections. `A1` uses the identity that it received. `B1` overwrites the
record that it parsed with the one it sends, and enters the connection under its own id.

The two workers do anything else between these messages. The messages on the way to `A1` and the
handshakes that were completed carry the tables of `B1` around its answer, for the statements only.

## Main definitions

* `NodeSelf`, `TargetNodeMsg`: the identity of a worker, and the record that carries it
* `TargetNodeLib`, `TargetNodeLib.wire`: the library that writes and reads the record
* `TellPair`, `tellMachine`: the two workers and one connection between them
* `Meeting.Mutual`: both ends of a completed handshake know each other

## Main results

* `NodeSelf.targetNode_nodeId`: the record keeps the id of a worker
* `TellPair.mutual_iff`: which completed handshakes are mutual
-/

namespace Kimserver

/-! ## The record -/

/-- `target_node`. -/
structure TargetNodeMsg extends TargetNode where
  nodeType : Bytes
  deriving DecidableEq

/-- `m_node_type`, `m_node_host`, `m_node_port` and `m_worker_index` of a worker. Only `create_m`
sets the host and the port, which is for the manager: in a worker they are empty and zero. -/
structure NodeSelf where
  nodeType : Bytes
  nodeHost : Bytes
  nodePort : ℤ
  workerIndex : ℤ
  port_inRange : CInt.InRange nodePort := by decide
  index_inRange : CInt.InRange workerIndex := by decide

/-- The id that the worker gives of itself. -/
def NodeSelf.nodeId (n : NodeSelf) : Bytes := formatNodesId n.nodeHost n.nodePort n.workerIndex

/-- The record as `on_rsp_connect_to_worker` and `on_req_tell_worker` fill it. -/
def NodeSelf.targetNode (n : NodeSelf) : TargetNodeMsg where
  nodeType := n.nodeType
  ip := n.nodeHost
  port := CInt.toUInt32 n.nodePort
  workerIndex := CInt.toUInt32 n.workerIndex

/-- **The record keeps the id of a worker**, also where the port or the index is negative. -/
theorem NodeSelf.targetNode_nodeId (n : NodeSelf) :
    n.targetNode.toTargetNode.nodeId = n.nodeId := by
  unfold NodeSelf.nodeId TargetNode.nodeId
  dsimp only [NodeSelf.targetNode]
  rw [CInt.toInt_toUInt32 n.port_inRange, CInt.toInt_toUInt32 n.index_inRange]

/-- The protobuf library for this record. What it parses of a record that it wrote is this
record. -/
structure TargetNodeLib where
  serialize : TargetNodeMsg → Bytes
  parse : Bytes → Option TargetNodeMsg
  faithful : ∀ {tn tn'}, parse (serialize tn) = some tn' → tn' = tn

section Wire

open Wire (Field encodeFields readFields)

def targetNodeFields (tn : TargetNodeMsg) : List Field :=
  bytesField 1 tn.nodeType (Nat.succ_pos 0) ++ bytesField 2 tn.ip (Nat.succ_pos 1) ++
    intField 3 tn.port.toNat (Nat.succ_pos 2) ++ intField 4 tn.workerIndex.toNat (Nat.succ_pos 3)

def setTargetNodeField (tn : TargetNodeMsg) (f : Field) : TargetNodeMsg :=
  match f.number, f.value with
  | 1, .text bs => { tn with nodeType := bs }
  | 2, .text bs => { tn with ip := bs }
  | 3, .num n => { tn with port := UInt32.ofNat n }
  | 4, .num n => { tn with workerIndex := UInt32.ofNat n }
  | _, _ => tn

theorem foldl_targetNodeBytes (tn : TargetNodeMsg) (bs : Bytes) :
    (bytesField 1 bs).foldl setTargetNodeField { tn with nodeType := [] } =
        { tn with nodeType := bs } ∧
      (bytesField 2 bs).foldl setTargetNodeField { tn with ip := [] } = { tn with ip := bs } := by
  unfold bytesField
  by_cases hbs : bs = []
  · subst hbs
    exact ⟨rfl, rfl⟩
  · simp only [if_neg hbs]
    exact ⟨rfl, rfl⟩

theorem foldl_targetNodeInt (tn : TargetNodeMsg) (u : UInt32) :
    (intField 3 u.toNat).foldl setTargetNodeField { tn with port := 0 } = { tn with port := u } ∧
      (intField 4 u.toNat).foldl setTargetNodeField { tn with workerIndex := 0 } =
        { tn with workerIndex := u } := by
  have hlt := u.toNat_lt
  have hback : UInt32.ofNat ((u.toNat : ℤ) % 18446744073709551616).toNat = u := by
    rw [Int.emod_eq_of_lt (by omega) (by omega), Int.toNat_natCast, UInt32.ofNat_toNat]
  unfold intField
  by_cases hzero : (u.toNat : ℤ) = 0
  · obtain rfl : u = 0 := UInt32.toNat_inj.mp (by simpa using hzero)
    exact ⟨rfl, rfl⟩
  · simp only [if_neg hzero, List.foldl_cons, List.foldl_nil, setTargetNodeField, hback, and_self]

/-- Setting the fields that were written for a record gives the record. -/
theorem foldl_targetNodeFields (tn : TargetNodeMsg) :
    (targetNodeFields tn).foldl setTargetNodeField ⟨⟨[], 0, 0⟩, []⟩ = tn := by
  unfold targetNodeFields
  rw [List.foldl_append, List.foldl_append, List.foldl_append,
    (foldl_targetNodeBytes ⟨⟨[], 0, 0⟩, []⟩ tn.nodeType).1,
    (foldl_targetNodeBytes ⟨⟨[], 0, 0⟩, tn.nodeType⟩ tn.ip).2,
    (foldl_targetNodeInt ⟨⟨tn.ip, 0, 0⟩, tn.nodeType⟩ tn.port).1,
    (foldl_targetNodeInt ⟨⟨tn.ip, tn.port, 0⟩, tn.nodeType⟩ tn.workerIndex).2]

/-- The wire format as such a library. -/
def TargetNodeLib.wire : TargetNodeLib where
  serialize tn := encodeFields (targetNodeFields tn)
  parse bs := (readFields bs).map fun fs => fs.foldl setTargetNodeField ⟨⟨[], 0, 0⟩, []⟩
  faithful {tn tn'} h := by
    rw [Wire.readFields_encodeFields, Option.map_some, foldl_targetNodeFields] at h
    exact (Option.some.inj h).symm

end Wire

/-! ## The two workers -/

/-- A completed handshake: the tables of `B1` before and after it answered, and those of `A1`
after it took the answer. -/
structure Meeting where
  b : ConnTable
  b' : ConnTable
  a' : ConnTable
  deriving DecidableEq

/-- An answer on its way to `A1`, with the tables of `B1` before and after it was sent. -/
structure TellAnswer where
  msg : Message
  b : ConnTable
  b' : ConnTable
  deriving DecidableEq

/-- The workers `A1` and `B1`: their tables, the requests and the answers on the way on one
connection, and the handshakes that were completed on it. -/
structure TellPair where
  a : ConnTable := {}
  b : ConnTable := {}
  toB : List Message := []
  toA : List TellAnswer := []
  met : List Meeting := []
  deriving DecidableEq

/-- What happens. -/
inductive TellOp
  /-- something else in `A1` or in `B1` -/
  | atA (op : NodeConnsOp)
  | atB (op : NodeConnsOp)
  /-- `A1` takes an answer of the manager, and sends its identity -/
  | rspConnectToWorker (seq : UInt32) (ok sent : Bool)
  /-- `B1` takes a request -/
  | reqTellWorker (sent : Bool)
  /-- `A1` takes an answer -/
  | rspTellWorker (writeEvent : Bool)
  deriving DecidableEq

section Pair

variable (pb : Protobuf) (lib : TargetNodeLib) (a b : NodeSelf) (fa fb : FdT)

/-- `on_rsp_connect_to_worker` of `A1`: the request that it sends. -/
def tellRequest (seq : UInt32) : Message :=
  reqMessage pb cmdReqTellWorker seq (lib.serialize a.targetNode)

/-- `on_req_tell_worker` of `B1`: the answer, and the tables. -/
def tellAnswer (s : ConnTable) (req : Message) (sent : Bool) : TellAnswer :=
  match lib.parse req.2.data with
  | none =>
    { msg := ackMessage pb req errInvalidMsgData (text "parse request failed!") []
      b := s
      b' := s.onReqTellWorker b.targetNode.toTargetNode fb none sent }
  | some tn =>
    { msg := ackMessage pb req errOk (text "ok") (lib.serialize b.targetNode)
      b := s
      b' := s.onReqTellWorker b.targetNode.toTargetNode fb (some tn.toTargetNode) sent }

/-- One step. The ends of the connection are `fa` and `fb`; a message that arrives at an end that
is closed is lost. -/
def tellStep (st : TellPair) : TellOp → TellPair
  | .atA op => { st with a := st.a.step a.targetNode.toTargetNode op }
  | .atB op => { st with b := st.b.step b.targetNode.toTargetNode op }
  | .rspConnectToWorker seq ok sent =>
    match st.a.getConn fa with
    | none => st
    | some _ =>
      if ok then
        { st with
          a := st.a.sendOn fa.fd sent
          toB := if sent then st.toB ++ [tellRequest pb lib a seq] else st.toB }
      else st
  | .reqTellWorker sent =>
    match st.toB, st.b.getConn fb with
    | [], _ => st
    | _ :: reqs, none => { st with toB := reqs }
    | req :: reqs, some _ =>
      let answer := tellAnswer pb lib b fb st.b req sent
      { st with
        b := answer.b'
        toB := reqs
        toA := if sent then st.toA ++ [answer] else st.toA }
  | .rspTellWorker writeEvent =>
    match st.toA, st.a.getConn fa with
    | [], _ => st
    | _ :: answers, none => { st with toA := answers }
    | answer :: answers, some _ =>
      let ok := checkRsp answer.msg
      let tn := lib.parse answer.msg.2.data
      let a' := st.a.onRspTellWorker fa ok (tn.map (·.toTargetNode)) writeEvent
      { st with
        a := a'
        toA := answers
        met := if ok && tn.isSome && writeEvent then st.met ++ [⟨answer.b, answer.b', a'⟩]
          else st.met }

/-- The two workers, with anything else that happens to them. -/
def tellMachine : Machine TellPair TellOp := ⟨tellStep pb lib a b fa fb⟩

/-! ## Who knows whom -/

/-- Both ends know each other: each table maps the id of the other worker to the end of the
connection. -/
def Meeting.Mutual (m : Meeting) : Prop :=
  m.a'.nodeConns.lookup b.nodeId = some fa ∧ m.b'.nodeConns.lookup a.nodeId = some fb

instance (m : Meeting) : Decidable (m.Mutual a b fa fb) := inferInstanceAs (Decidable (_ ∧ _))

variable {pb lib a b fa fb}

theorem addClientConn_nodeConns {s : ConnTable} {f : FdT} {c : Conn} (hc : s.getConn f = some c)
    (state : ConnState) (nodeId : Bytes) :
    ((s.updateConnState f.fd state).addClientConn nodeId f).nodeConns =
      s.nodeConns.insert nodeId f := by
  have hlive : (s.updateConnState f.fd state).getConn f = some { c with state := state } := by
    rw [ConnTable.getConn_updateConnState, if_pos rfl, hc]
    rfl
  unfold ConnTable.addClientConn
  rw [hlive]
  exact congrArg (fun conns : FiniteMap Bytes FdT => conns.insert nodeId f)
    (ConnTable.setConn_nodeConns _ _ _)

/-- An answer `ok` carries the identity of `B1`, which entered the connection under it. -/
theorem tellAnswer_spec {s : ConnTable} {c : Conn} (hc : s.getConn fb = some c) (req : Message)
    (hok : checkRsp (tellAnswer pb lib b fb s req true).msg = true) :
    (tellAnswer pb lib b fb s req true).msg.2.data = lib.serialize b.targetNode ∧
      (tellAnswer pb lib b fb s req true).b = s ∧
      (tellAnswer pb lib b fb s req true).b'.nodeConns = s.nodeConns.insert b.nodeId fb := by
  unfold tellAnswer at hok ⊢
  cases hparse : lib.parse req.2.data with
  | none =>
    rw [hparse] at hok
    exact absurd hok (by simp [checkRsp, ackMessage, sizedMessage, errInvalidMsgData, errOk])
  | some tn =>
    refine ⟨rfl, rfl, ?_⟩
    dsimp only [ConnTable.onReqTellWorker]
    rw [if_pos rfl, addClientConn_nodeConns hc, NodeSelf.targetNode_nodeId]

/-- `A1` enters the connection under the id of `B1` that it received. -/
theorem onRspTellWorker_nodeConns {s : ConnTable} {c : Conn} (hc : s.getConn fa = some c)
    (tn : TargetNode) :
    (s.onRspTellWorker fa true (some tn) true).nodeConns = s.nodeConns.insert tn.nodeId fa :=
  addClientConn_nodeConns hc _ _

variable (lib a b fa fb) in
/-- The answers on the way carry the identity of `B1`, and both workers entered the connection
under it in every handshake that was completed. -/
structure TellPair.Genuine (st : TellPair) : Prop where
  answers : ∀ answer ∈ st.toA, checkRsp answer.msg = true →
    answer.msg.2.data = lib.serialize b.targetNode ∧
      answer.b'.nodeConns = answer.b.nodeConns.insert b.nodeId fb
  met : ∀ m ∈ st.met, m.a'.nodeConns.lookup b.nodeId = some fa ∧
    m.b'.nodeConns = m.b.nodeConns.insert b.nodeId fb

theorem TellPair.Genuine.step {st : TellPair} (h : st.Genuine lib b fa fb) (op : TellOp) :
    (tellStep pb lib a b fa fb st op).Genuine lib b fa fb := by
  cases op with
  | atA op => exact ⟨h.answers, h.met⟩
  | atB op => exact ⟨h.answers, h.met⟩
  | rspConnectToWorker seq ok sent =>
    unfold tellStep
    cases st.a.getConn fa with
    | none => exact h
    | some c =>
      dsimp only
      split_ifs
      · exact ⟨h.answers, h.met⟩
      · exact ⟨h.answers, h.met⟩
      · exact h
  | reqTellWorker sent =>
    unfold tellStep
    cases st.toB with
    | nil => exact h
    | cons req reqs =>
      cases hconn : st.b.getConn fb with
      | none => exact ⟨h.answers, h.met⟩
      | some c =>
        cases sent with
        | false => exact ⟨h.answers, h.met⟩
        | true =>
          refine ⟨fun answer hanswer hok => ?_, h.met⟩
          rcases List.mem_append.mp hanswer with hold | hnew
          · exact h.answers answer hold hok
          · obtain rfl := List.mem_singleton.mp hnew
            obtain ⟨hdata, hb, hb'⟩ := tellAnswer_spec hconn req hok
            exact ⟨hdata, by rw [hb', hb]⟩
  | rspTellWorker writeEvent =>
    unfold tellStep
    cases hqueue : st.toA with
    | nil => exact h
    | cons answer answers =>
      have hrest : ∀ x ∈ answers, checkRsp x.msg = true →
          x.msg.2.data = lib.serialize b.targetNode ∧
            x.b'.nodeConns = x.b.nodeConns.insert b.nodeId fb := fun x hx =>
        h.answers x (by rw [hqueue]; exact List.mem_cons_of_mem _ hx)
      cases hconn : st.a.getConn fa with
      | none => exact ⟨hrest, h.met⟩
      | some c =>
        refine ⟨hrest, fun m hm => ?_⟩
        dsimp only at hm
        split_ifs at hm with hdone
        · rcases List.mem_append.mp hm with hold | hnew
          · exact h.met m hold
          · obtain rfl := List.mem_singleton.mp hnew
            simp only [Bool.and_eq_true] at hdone
            obtain ⟨⟨hok, hparse⟩, hevent⟩ := hdone
            have hfirst : answer ∈ st.toA := by rw [hqueue]; exact List.mem_cons_self
            obtain ⟨hdata, hb'⟩ := h.answers answer hfirst hok
            refine ⟨?_, hb'⟩
            -- what `A1` parsed is the record of `B1`
            obtain ⟨tn, htn⟩ := Option.isSome_iff_exists.mp hparse
            have hself : tn = b.targetNode := lib.faithful (by rw [← hdata]; exact htn)
            dsimp only
            rw [hok, htn, hevent, Option.map_some, onRspTellWorker_nodeConns hconn, hself,
              NodeSelf.targetNode_nodeId, FiniteMap.lookup_insert, if_pos rfl]
        · exact h.met m hm

/-- **Which completed handshakes are mutual**: for every two workers, every connection between
them, whatever else happens to both, `A1` always knows `B1`, and `B1` knows `A1` exactly where
the two workers have one id, or where the connection was in the index under the id of `A1` before
`B1` answered. -/
theorem TellPair.mutual_iff (pb : Protobuf) (lib : TargetNodeLib) (a b : NodeSelf) (fa fb : FdT)
    (sa sb : ConnTable) (ops : List TellOp) (m : Meeting)
    (hm : m ∈ ((tellMachine pb lib a b fa fb).run { a := sa, b := sb } ops).met) :
    m.Mutual a b fa fb ↔
      a.nodeId = b.nodeId ∨ m.b.nodeConns.lookup a.nodeId = some fb := by
  have hstart : TellPair.Genuine lib b fa fb { a := sa, b := sb } :=
    ⟨fun _ hx => absurd hx List.not_mem_nil, fun _ hx => absurd hx List.not_mem_nil⟩
  have hgenuine := (tellMachine pb lib a b fa fb).run_invariant (fun _ op h => h.step op) hstart ops
  obtain ⟨ha, hb⟩ := hgenuine.met m hm
  unfold Meeting.Mutual
  rw [hb, FiniteMap.lookup_insert]
  by_cases hid : a.nodeId = b.nodeId
  · rw [if_pos hid]
    exact iff_of_true ⟨ha, rfl⟩ (Or.inl hid)
  · rw [if_neg hid]
    constructor
    · exact fun h => Or.inr h.2
    · rintro (h | h)
      · exact absurd h hid
      · exact ⟨ha, h⟩

end Pair

/-! ## Two nodes -/

/-- The first worker of a node, whose host and port are not set. -/
def nodeA1 : NodeSelf where
  nodeType := text "logic"
  nodeHost := []
  nodePort := 0
  workerIndex := 1
  port_inRange := CInt.inRange_zero

theorem inRange_two : CInt.InRange 2 := by decide

/-- The second worker of another node. -/
def nodeB1 : NodeSelf where
  nodeType := text "gate"
  nodeHost := []
  nodePort := 0
  workerIndex := 2
  port_inRange := CInt.inRange_zero
  index_inRange := inRange_two

/-- `A1` connects to a worker of the node 10.0.0.2:90, the manager hands the connection to `B1`,
and the two tell each other. -/
def tellOps (index : ℤ) : List TellOp :=
  [.atA (.autoSend (text "10.0.0.2") 90 index (.ok 5)), .atB (.transferFd true (.ok 7)),
    .rspConnectToWorker 3 true true, .reqTellWorker true, .rspTellWorker true]

def told : TellPair :=
  (tellMachine .wire .wire nodeA1 nodeB1 ⟨5, 1⟩ ⟨7, 1⟩).run {} (tellOps 2)

/-- `B1` does not know `A1`: the handshake was completed, and the connection is in the index of
`B1` under its own id. -/
theorem told_not_mutual : ∃ m ∈ told.met, ¬ m.Mutual nodeA1 nodeB1 ⟨5, 1⟩ ⟨7, 1⟩ ∧
    m.b'.nodeConns.lookup nodeB1.nodeId = some ⟨7, 1⟩ := by
  decide +kernel

/-- The first workers of two nodes, which have one id. -/
def toldSelf : TellPair :=
  (tellMachine .wire .wire nodeA1 nodeA1 ⟨5, 1⟩ ⟨7, 1⟩).run {} (tellOps 1)

/-- Two workers with one id know each other. -/
theorem toldSelf_mutual : ∃ m ∈ toldSelf.met, m.Mutual nodeA1 nodeA1 ⟨5, 1⟩ ⟨7, 1⟩ := by
  obtain ⟨m, hm⟩ : ∃ m, m ∈ toldSelf.met := List.exists_mem_of_ne_nil _ (by decide +kernel)
  have hiff := TellPair.mutual_iff .wire .wire nodeA1 nodeA1 ⟨5, 1⟩ ⟨7, 1⟩ {} {} (tellOps 1) m hm
  exact ⟨m, hm, hiff.mpr (Or.inl rfl)⟩

end Kimserver
