import Kimserver.Lib.FiniteMap
import Kimserver.Lib.Heap
import Kimserver.Lib.Machine
import Kimserver.Net.SysCmd

/-!
# Acknowledgements and pending commands

A worker numbers its commands with `new_seq`, a counter of 64 bits that it shares with its
connections, its sessions and the system messages, and keeps the commands that wait for something
in `m_cmds`, by their number. A command that sends a request to another node writes its number
into the field `seq` of the head, which has 32 bits. The peer answers with the same `seq`, and
`process_ack` looks the command up by it.

The commands are objects that are known by the order of their creation: two of them may get the
same number when the counter wraps around. What a command does in a step, whether its timer can
be set, and what a peer answers is part of an event.

## Main definitions

* `CmdTable`: `m_seq`, `m_cmds`, the objects, and the requests that were sent
* `CmdTable.handleCmd`, `CmdTable.sendRequest`, `CmdTable.processAck`: the functions
* `AckEvent`, `ackMachine`: what happens to a worker
* `CmdTable.Finds`: the answer to a pending command is delivered to it
* `CmdTable.FitsSeq`: its number fits into the field

## Main results

* `CmdTable.Stored.step`: what the table keeps
* `ack_finds_cmd_iff`: answers find their commands exactly where the numbers fit
-/

namespace Kimserver

/-- `KP_REQ_TEST_PROTO`. -/
def kpReqTestProto : UInt32 := 1001

/-- `m_seq` and `m_cmds` of a worker. The command with the object number `c` has the id
`objs[c]`, and `m_cmds` maps an id to an object number. `sent` has the requests to other nodes,
each with the object that sent it. -/
structure CmdTable where
  seq : ℕ := 0
  cmds : FiniteMap ℕ ℕ := ∅
  objs : List ℕ := []
  sent : List (ℕ × Message) := []

namespace CmdTable

variable (s : CmdTable)

/-- `new_seq`. -/
def newSeq : CmdTable := { s with seq := (s.seq + 1) % 18446744073709551616 }

/-- `add_cmd`: a number that is taken keeps its command. -/
def addCmd (c id : ℕ) : Bool × CmdTable :=
  if (s.cmds.lookup id).isSome then (false, s)
  else (true, { s with cmds := s.cmds.insert id c })

/-- `get_cmd`. -/
def getCmd (id : ℕ) : Option ℕ := s.cmds.lookup id

/-- `del_cmd`: the entry under the number of the command is erased. -/
def delCmd (c : ℕ) : CmdTable :=
  match s.objs[c]? with
  | none => s
  | some id => { s with cmds := s.cmds.erase id }

/-- The command waits in `m_cmds`. -/
def isPending (c : ℕ) : Bool :=
  match s.objs[c]? with
  | none => false
  | some id => s.cmds.lookup id = some c

/-- The request of `STEP_AUTO_SEND`, made from the request the command handles. -/
def autoSendRequest (id : ℕ) (req : Message) : Message :=
  ({ req.1 with seq := UInt32.ofNat id, cmd := kpReqTestProto }, req.2)

/-- A command sends a request to another node. -/
def sendRequest (c : ℕ) (req : Message) : CmdTable :=
  match s.objs[c]? with
  | none => s
  | some id => { s with sent := s.sent ++ [(c, autoSendRequest id req)] }

/-- `HANDLE_CMD` and `execute_cmd`: a command is created and executed, and stored when it has to
wait. -/
def handleCmd (req : Message) (sends running timer : Bool) : CmdTable :=
  let s := s.newSeq
  let c := s.objs.length
  let id := s.seq
  let s := { s with objs := s.objs ++ [id] }
  let s := if sends then s.sendRequest c req else s
  if running then
    match s.addCmd c id with
    | (false, s) => s
    | (true, s) => if timer then s else s.delCmd c
  else s

/-- `process_ack`: the command whose `on_callback` is called, and the table after it. -/
def processAck (ack : Message) (running : Bool) : Option ℕ × CmdTable :=
  match s.getCmd ack.1.seq.toNat with
  | none => (none, s)
  | some c => (some c, if running then s else s.delCmd c)

end CmdTable

/-- What happens to a worker. The requests that were sent are known by their place. -/
inductive AckEvent
  /-- a number is given to something else -/
  | newSeq
  /-- a request of a client, and what its command does in its first step -/
  | request (req : Message) (sends running timer : Bool)
  /-- a pending command sends a request in a later step -/
  | send (c : ℕ) (req : Message)
  /-- the answer to a request that was sent -/
  | ack (i : ℕ) (err : Int32) (errstr data : Bytes) (running : Bool)
  /-- a pending command is deleted by its timer, or by the callback of something else -/
  | timeout (c : ℕ)

namespace CmdTable

section Steps

variable (pb : Protobuf) (s : CmdTable)

/-- The object that sent a request, and the answer to the request. -/
def ackOf (i : ℕ) (err : Int32) (errstr data : Bytes) : Option (ℕ × Message) :=
  s.sent[i]?.map fun p => (p.1, ackMessage pb p.2 err errstr data)

/-- One event. -/
def step : AckEvent → CmdTable
  | .newSeq => s.newSeq
  | .request req sends running timer => s.handleCmd req sends running timer
  | .send c req => if s.isPending c then s.sendRequest c req else s
  | .ack i err errstr data running =>
    match s.ackOf pb i err errstr data with
    | none => s
    | some (_, ack) => (s.processAck ack running).2
  | .timeout c => if s.isPending c then s.delCmd c else s

/-- An answer to a command that is still pending is delivered to this command. -/
def Finds : AckEvent → Prop
  | .ack i err errstr data running => ∀ c ack, s.ackOf pb i err errstr data = some (c, ack) →
      s.isPending c = true → (s.processAck ack running).1 = some c
  | _ => True

/-- The answer is for a command whose number has at most 32 bits, or which is not pending. -/
def FitsSeq : AckEvent → Prop
  | .ack i _ _ _ _ => ∀ c req, s.sent[i]? = some (c, req) → s.isPending c = true →
      ∀ id ∈ s.objs[c]?, id < 4294967296
  | _ => True

end Steps

end CmdTable

/-- The runs of a worker. -/
def ackMachine (pb : Protobuf) : Machine CmdTable AckEvent := ⟨fun s e => s.step pb e⟩

namespace CmdTable

variable {s : CmdTable}

/-! ## The table -/

/-- A command is stored under its number, and a request carries the number of its sender as far
as it fits. -/
structure Stored (s : CmdTable) : Prop where
  key : ∀ {id c : ℕ}, s.cmds.lookup id = some c → s.objs[c]? = some id
  seq : ∀ {i c : ℕ} {req : Message}, s.sent[i]? = some (c, req) →
    ∃ id, s.objs[c]? = some id ∧ req.1.seq = UInt32.ofNat id

theorem stored_empty : Stored {} where
  key h := by simp at h
  seq h := by simp at h

theorem Stored.newSeq (h : s.Stored) : s.newSeq.Stored := ⟨h.key, h.seq⟩

theorem Stored.sendRequest (h : s.Stored) (c : ℕ) (req : Message) : (s.sendRequest c req).Stored := by
  unfold CmdTable.sendRequest
  cases hc : s.objs[c]? with
  | none => exact h
  | some id =>
    refine ⟨h.key, fun {i c' req'} hi => ?_⟩
    rcases Heap.getElem?_snoc_cases hi with hold | ⟨-, hnew⟩
    · exact h.seq hold
    · obtain ⟨rfl, rfl⟩ := Prod.mk.inj hnew
      exact ⟨id, hc, rfl⟩

/-- A new object has a number of its own. -/
theorem Stored.create (h : s.Stored) (id : ℕ) : Stored { s with objs := s.objs ++ [id] } where
  key hc := Heap.getElem?_snoc_of_some (h.key hc) id
  seq hi := by
    obtain ⟨id', hid, hseq⟩ := h.seq hi
    exact ⟨id', Heap.getElem?_snoc_of_some hid id, hseq⟩

theorem Stored.delCmd (h : s.Stored) (c : ℕ) : (s.delCmd c).Stored := by
  unfold CmdTable.delCmd
  cases hc : s.objs[c]? with
  | none => exact h
  | some id =>
    refine ⟨fun {id' c'} hlookup => ?_, h.seq⟩
    rw [FiniteMap.lookup_erase] at hlookup
    split_ifs at hlookup
    exact h.key hlookup

theorem Stored.addCmd (h : s.Stored) {c id : ℕ} (hc : s.objs[c]? = some id) :
    (s.addCmd c id).2.Stored := by
  unfold CmdTable.addCmd
  split_ifs
  · exact h
  · refine ⟨fun {id' c'} hlookup => ?_, h.seq⟩
    rw [FiniteMap.lookup_insert] at hlookup
    split_ifs at hlookup with hid
    · rw [hid, ← Option.some.inj hlookup]
      exact hc
    · exact h.key hlookup

theorem sendRequest_objs (s : CmdTable) (c : ℕ) (req : Message) :
    (s.sendRequest c req).objs = s.objs := by
  unfold sendRequest
  split <;> rfl

theorem Stored.handleCmd (h : s.Stored) (req : Message) (sends running timer : Bool) :
    (s.handleCmd req sends running timer).Stored := by
  -- the table when the command was executed
  have hcreated : Stored { s.newSeq with objs := s.newSeq.objs ++ [s.newSeq.seq] } :=
    h.newSeq.create s.newSeq.seq
  obtain ⟨t, ht⟩ : ∃ t, t = (if sends then
      CmdTable.sendRequest { s.newSeq with objs := s.newSeq.objs ++ [s.newSeq.seq] }
        s.newSeq.objs.length req
      else { s.newSeq with objs := s.newSeq.objs ++ [s.newSeq.seq] }) := ⟨_, rfl⟩
  have hstored : t.Stored := by
    rw [ht]
    split_ifs
    · exact hcreated.sendRequest _ _
    · exact hcreated
  have hobj : t.objs[s.newSeq.objs.length]? = some s.newSeq.seq := by
    rw [ht]
    split_ifs
    · rw [sendRequest_objs]
      exact List.getElem?_concat_length
    · exact List.getElem?_concat_length
  have hadded := hstored.addCmd hobj
  unfold CmdTable.handleCmd
  dsimp only
  rw [← ht]
  cases running with
  | false => exact hstored
  | true =>
    rw [if_pos rfl]
    split
    · next heq =>
      rw [heq] at hadded
      exact hadded
    · next heq =>
      rw [heq] at hadded
      split_ifs
      · exact hadded
      · exact hadded.delCmd _

theorem Stored.processAck (h : s.Stored) (ack : Message) (running : Bool) :
    (s.processAck ack running).2.Stored := by
  unfold CmdTable.processAck
  split
  · exact h
  · dsimp only
    split_ifs
    · exact h
    · exact h.delCmd _

/-- **Every event** keeps the commands under their numbers. -/
theorem Stored.step (pb : Protobuf) (h : s.Stored) (e : AckEvent) : (s.step pb e).Stored := by
  cases e with
  | newSeq => exact h.newSeq
  | request req sends running timer => exact h.handleCmd req sends running timer
  | send c req =>
    simp only [CmdTable.step]
    split_ifs
    · exact h.sendRequest c req
    · exact h
  | ack i err errstr data running =>
    unfold CmdTable.step
    dsimp only
    split
    · exact h
    · exact h.processAck _ _
  | timeout c =>
    simp only [CmdTable.step]
    split_ifs
    · exact h.delCmd c
    · exact h

/-! ## Answers -/

/-- The number that an answer carries leads to the command exactly when it is the whole number
of the command. -/
theorem getCmd_ofNat_iff (h : s.Stored) {c id : ℕ} (hpending : s.isPending c = true)
    (hc : s.objs[c]? = some id) :
    s.getCmd (UInt32.ofNat id).toNat = some c ↔ id < 4294967296 := by
  have hseq : (UInt32.ofNat id).toNat = id % 4294967296 := UInt32.toNat_ofNat'
  have hlookup : s.cmds.lookup id = some c := by simpa only [isPending, hc, decide_eq_true_eq]
    using hpending
  rw [hseq]
  constructor
  · intro hget
    have hsame : id = id % 4294967296 := Option.some.inj (hc.symm.trans (h.key hget))
    omega
  · intro hlt
    rw [Nat.mod_eq_of_lt hlt]
    exact hlookup

theorem processAck_fst (s : CmdTable) (ack : Message) (running : Bool) :
    (s.processAck ack running).1 = s.getCmd ack.1.seq.toNat := by
  unfold processAck
  split
  · next hnone => exact hnone.symm
  · next hsome => exact hsome.symm

/-- **One answer** finds its command exactly when the number of the command fits. -/
theorem finds_iff_fitsSeq (pb : Protobuf) (h : s.Stored) (e : AckEvent) :
    s.Finds pb e ↔ s.FitsSeq e := by
  cases e with
  | ack i err errstr data running =>
    change (∀ c ack, s.ackOf pb i err errstr data = some (c, ack) → s.isPending c = true →
      (s.processAck ack running).1 = some c) ↔ (∀ c req, s.sent[i]? = some (c, req) →
        s.isPending c = true → ∀ id ∈ s.objs[c]?, id < 4294967296)
    -- The answer has the number of the request.
    have htarget : ∀ {c : ℕ} {req : Message} {id : ℕ}, s.sent[i]? = some (c, req) →
        s.objs[c]? = some id → s.isPending c = true →
          ((s.processAck (ackMessage pb req err errstr data) running).1 = some c ↔
            id < 4294967296) := by
      intro c req id hi hc hpending
      obtain ⟨id', hc', hseq⟩ := h.seq hi
      obtain rfl := Option.some.inj (hc.symm.trans hc')
      have hecho : (ackMessage pb req err errstr data).1.seq = UInt32.ofNat id := hseq
      rw [processAck_fst, hecho]
      exact getCmd_ofNat_iff h hpending hc
    constructor
    · intro hfinds c req hi hpending id hc
      apply (htarget hi hc hpending).mp
      apply hfinds c _ _ hpending
      rw [ackOf, hi, Option.map_some]
    · intro hfits c ack hack hpending
      obtain ⟨⟨c', req⟩, hi, heq⟩ := Option.map_eq_some_iff.mp hack
      obtain ⟨rfl, rfl⟩ := Prod.mk.inj heq
      obtain ⟨id, hc, -⟩ := h.seq hi
      exact (htarget hi hc hpending).mpr (hfits _ req hi hpending id hc)
  | newSeq => exact Iff.rfl
  | request => exact Iff.rfl
  | send => exact Iff.rfl
  | timeout => exact Iff.rfl

end CmdTable

/-- **Answers find their commands exactly where the numbers fit**: in every run of a worker, each
answer to a request of a command that is still pending is delivered to this command, and to no
other, if and only if each such command has a number below `2 ^ 32`. -/
theorem ack_finds_cmd_iff (pb : Protobuf) (es : List AckEvent) :
    (ackMachine pb).Meets CmdTable.FitsSeq {} es ↔
      ∀ past e, past ++ [e] <+: es → ((ackMachine pb).run {} past).Finds pb e := by
  rw [← Machine.Meets.iff_forall_step (C := fun s e => CmdTable.Finds pb s e)]
  refine (Machine.Meets.congr (I := CmdTable.Stored) ?_ ?_ CmdTable.stored_empty es).symm
  · exact fun s e hs => CmdTable.finds_iff_fitsSeq pb hs e
  · exact fun s e hs _ => hs.step pb e

/-- Numbers that are given to other things. -/
theorem CmdTable.run_newSeq (pb : Protobuf) {s : CmdTable} (hseq : s.seq < 18446744073709551616)
    (n : ℕ) : (ackMachine pb).run s (List.replicate n .newSeq) =
      { s with seq := (s.seq + n) % 18446744073709551616 } := by
  induction n with
  | zero => rw [List.replicate_zero, Machine.run_nil, Nat.add_zero, Nat.mod_eq_of_lt hseq]
  | succ n ih =>
    rw [List.replicate_succ', Machine.run_snoc, ih]
    change CmdTable.newSeq _ = _
    unfold CmdTable.newSeq
    dsimp only
    rw [Nat.mod_add_mod, Nat.add_assoc]

/-- A request of a client. -/
def sampleClientRequest : Message := (⟨1003, 7, 0, CInt.inRange_zero⟩, {})

/-- A command waits, `2 ^ 32 - 1` other things get a number, and then a second command sends a
request to another node. -/
def longRun : List AckEvent :=
  .request sampleClientRequest false true true :: List.replicate 4294967295 .newSeq ++
    [.request sampleClientRequest true true true]

/-- The worker after it: the second command has the number `2 ^ 32 + 1`. -/
theorem run_longRun : (ackMachine Protobuf.wire).run {} longRun =
    { seq := 4294967297
      cmds := ((∅ : FiniteMap ℕ ℕ).insert 1 0).insert 4294967297 1
      objs := [1, 4294967297]
      sent := [(1, CmdTable.autoSendRequest 4294967297 sampleClientRequest)] } := by
  have hfirst : (ackMachine Protobuf.wire).step {} (.request sampleClientRequest false true true) =
      { seq := 1, cmds := (∅ : FiniteMap ℕ ℕ).insert 1 0, objs := [1] } := by rfl
  unfold longRun
  rw [Machine.run_snoc, Machine.run_cons, hfirst, CmdTable.run_newSeq _ (by decide)]
  rfl

/-- The answer to the second command is delivered to the first one. -/
theorem ack_wrong_cmd :
    ¬ ∀ past e, past ++ [e] <+: longRun ++ [.ack 0 errOk [] [] false] →
      ((ackMachine Protobuf.wire).run {} past).Finds Protobuf.wire e := by
  intro h
  have hfinds := h longRun _ (List.prefix_refl _)
  rw [run_longRun] at hfinds
  have htarget := hfinds 1 _ rfl (by decide)
  exact absurd htarget (by decide)

end Kimserver
