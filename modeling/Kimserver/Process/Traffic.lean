import Mathlib.Algebra.BigOperators.Group.Finset.Basic
import Mathlib.Data.Nat.ModEq
import Kimserver.Lib.CInt
import Kimserver.Lib.Machine
import Kimserver.Process.WorkerData

/-!
# Traffic statistics

A worker counts its traffic in `m_payload`. Once in a second it sends the counters to the manager
and clears them; the manager stores them in the record of the worker, in the place of those that
came before. Also once in a second, the manager adds up the counters of all records, and reports
the sums.

The messages of a worker arrive in their order, and none arrives after its record was deleted,
which closes the channel. What is counted, whether a message can be sent, and the two kinds of
ticks are the events. `counted` has the updates that were delivered before the last report, and
`spent` the records that were in a report since they were written.

## Main definitions

* `TrafficField`, `Payload.get`: the four counters
* `TrafficNet`: the manager, its workers, and the messages on the way
* `TrafficNet.reportPayloadToParent`, `TrafficNet.onReqUpdatePayload`,
  `TrafficNet.reportPayloadToZookeeper`: the functions
* `TrafficEvent`, `trafficMachine`: what happens
* `TrafficNet.Conserved`: the reports have what was delivered before the last of them
* `TrafficNet.Aligned`: an update is in exactly one report before it is replaced

## Main results

* `TrafficNet.Balanced.step`: what is reported and what is not spent is what was delivered
* `traffic_conserved`: the traffic is conserved in the runs whose steps are aligned
-/

namespace Kimserver

/-- The counters of a payload that measure traffic. -/
inductive TrafficField
  | readCnt
  | readBytes
  | writeCnt
  | writeBytes

namespace Payload

/-- The value of a counter. -/
def get (p : Payload) : TrafficField → UInt32
  | .readCnt => p.readCnt
  | .readBytes => p.readBytes
  | .writeCnt => p.writeCnt
  | .writeBytes => p.writeBytes

/-- The payload has no traffic. -/
def Idle (p : Payload) : Prop :=
  p.readCnt = 0 ∧ p.readBytes = 0 ∧ p.writeCnt = 0 ∧ p.writeBytes = 0

instance (p : Payload) : Decidable p.Idle := inferInstanceAs (Decidable (_ ∧ _ ∧ _ ∧ _))

/-- The traffic `d` is counted. -/
def count (p d : Payload) : Payload :=
  { p with
    readCnt := p.readCnt + d.readCnt
    readBytes := p.readBytes + d.readBytes
    writeCnt := p.writeCnt + d.writeCnt
    writeBytes := p.writeBytes + d.writeBytes }

theorem Idle.get {p : Payload} (h : p.Idle) (f : TrafficField) : p.get f = 0 := by
  obtain ⟨hrc, hrb, hwc, hwb⟩ := h
  cases f with
  | readCnt => exact hrc
  | readBytes => exact hrb
  | writeCnt => exact hwc
  | writeBytes => exact hwb

end Payload

/-- `PayloadStats`. -/
structure PayloadStats where
  workers : List Payload
  manager : Payload

/-- What the workers have in a report. -/
def PayloadStats.contributed (pls : PayloadStats) (f : TrafficField) : UInt32 :=
  pls.workers.foldl (fun sum p => sum + p.get f) 0

/-- A worker process: its index, and its `m_payload`. -/
structure TrafficWorker where
  index : ℤ
  payload : Payload := {}

/-- The records and the `m_payload` of the manager, the workers by their process id, and the
messages that are on the way; and the reports that were made, the updates that were delivered, in
all and before the last report, and the addresses of the records that were in a report. -/
structure TrafficNet where
  workers : WorkerDataMgr := {}
  payload : Payload := {}
  procs : FiniteMap ℕ TrafficWorker := ∅
  flight : List (ℕ × Payload) := []
  reports : List PayloadStats := []
  delivered : List Payload := []
  counted : List Payload := []
  spent : Finset ℕ := ∅

namespace TrafficNet

section Functions

variable (s : TrafficNet)

/-- The traffic of a worker. -/
def workerTraffic (pid : ℕ) (d : Payload) : TrafficNet :=
  match s.procs.lookup pid with
  | none => s
  | some w => { s with procs := s.procs.insert pid { w with payload := w.payload.count d } }

/-- `report_payload_to_parent`; `sent` says whether `send_parent_payload` succeeds. -/
def reportPayloadToParent (pid : ℕ) (cmdCnt connCnt : UInt32) (now : Double) (sent : Bool) :
    TrafficNet :=
  match s.procs.lookup pid with
  | none => s
  | some w =>
    let pl := { w.payload with
      workerIndex := CInt.toUInt32 w.index, cmdCnt, connCnt, createTime := now }
    { s with
      procs := s.procs.insert pid { w with payload := {} }
      flight := if sent then s.flight ++ [(pid, pl)] else s.flight }

/-- `on_req_update_payload`: the record that has the index gets the payload. -/
def onReqUpdatePayload (pl : Payload) : TrafficNet :=
  let s := { s with delivered := s.delivered ++ [pl] }
  match s.workers.getWorkerInfo (CInt.toInt pl.workerIndex.toNat) with
  | none => s
  | some a =>
    match s.workers.heap.lookup a with
    | none => s
    | some info =>
      { s with
        workers := { s.workers with heap := s.workers.heap.insert a { info with payload := pl } }
        spent := s.spent.erase a }

/-- The next message of a worker arrives. -/
def deliver (pid : ℕ) : TrafficNet :=
  match s.flight.find? (·.1 = pid) with
  | none => s
  | some (_, pl) =>
    onReqUpdatePayload { s with flight := s.flight.eraseP (·.1 = pid) } pl

/-- A sum over the records, as an iteration adds it up. -/
def sumOf (infos : List WorkerData) (f : Payload → UInt32) : UInt32 :=
  infos.foldl (fun sum info => sum + f info.payload) 0

/-- The statistics of `report_payload_to_zookeeper`, without the data of the node. -/
def stats (workerIndex : ℤ) (conns : UInt32) (now : Double) : PayloadStats :=
  let infos := s.workers.getInfos
  { workers := infos.map fun info =>
      if info.payload.workerIndex = 0 then
        { info.payload with workerIndex := CInt.toUInt32 info.index }
      else info.payload
    manager :=
      { workerIndex := CInt.toUInt32 workerIndex
        cmdCnt := sumOf infos Payload.cmdCnt
        connCnt := sumOf infos Payload.connCnt + conns
        readCnt := sumOf infos Payload.readCnt + s.payload.readCnt
        readBytes := sumOf infos Payload.readBytes + s.payload.readBytes
        writeCnt := sumOf infos Payload.writeCnt + s.payload.writeCnt
        writeBytes := sumOf infos Payload.writeBytes + s.payload.writeBytes
        createTime := now } }

/-- `report_payload_to_zookeeper`; `json` says whether `proto_to_json` succeeds. -/
def reportPayloadToZookeeper (workerIndex : ℤ) (conns : UInt32) (now : Double) (json : Bool) :
    TrafficNet :=
  let pls := s.stats workerIndex conns now
  let s := { s with payload := {} }
  if json then
    { s with
      reports := s.reports ++ [pls]
      counted := s.delivered
      spent := s.workers.heap.keys }
  else s

/-- A worker starts: its record and its process. -/
def addWorker (index : ℤ) (pid : ℕ) (ctrlFd dataFd : ℤ) (hint : ℕ) (order : List ℕ) : TrafficNet :=
  { s with
    workers := s.workers.addWorkerInfo index pid ctrlFd dataFd hint order
    procs := s.procs.insert pid { index } }

/-- A worker terminated: its record is deleted and its channel closed. -/
def delWorker (pid : ℕ) : TrafficNet :=
  { s with
    workers := (s.workers.delWorkerInfo pid).2
    procs := s.procs.erase pid
    flight := s.flight.filter (·.1 ≠ pid)
    spent := (s.workers.workers.lookup pid).elim s.spent s.spent.erase }

end Functions

end TrafficNet

/-- What happens. -/
inductive TrafficEvent
  | workerTraffic (pid : ℕ) (d : Payload)
  | managerTraffic (d : Payload)
  | reportToParent (pid : ℕ) (cmdCnt connCnt : UInt32) (now : Double) (sent : Bool)
  | deliver (pid : ℕ)
  | reportToZookeeper (workerIndex : ℤ) (conns : UInt32) (now : Double) (json : Bool)
  | addWorker (index : ℤ) (pid : ℕ) (ctrlFd dataFd : ℤ) (hint : ℕ) (order : List ℕ)
  | delWorker (pid : ℕ)

namespace TrafficNet

variable (s : TrafficNet)

/-- One event. A worker is started with a process id and an index that no worker has. -/
def step : TrafficEvent → TrafficNet
  | .workerTraffic pid d => s.workerTraffic pid d
  | .managerTraffic d => { s with payload := s.payload.count d }
  | .reportToParent pid cmdCnt connCnt now sent => s.reportPayloadToParent pid cmdCnt connCnt now sent
  | .deliver pid => s.deliver pid
  | .reportToZookeeper workerIndex conns now json =>
    s.reportPayloadToZookeeper workerIndex conns now json
  | .addWorker index pid ctrlFd dataFd hint order =>
    if (s.workers.workers.lookup pid).isSome ∨ (s.workers.indexWorkers.lookup index).isSome ∨
        ¬ CInt.InRange index then s
    else s.addWorker index pid ctrlFd dataFd hint order
  | .delWorker pid => s.delWorker pid

/-- For each counter, the workers' part of all reports is what the updates have that were
delivered before the last report. -/
def Conserved : Prop := ∀ f : TrafficField,
  (s.reports.map fun pls => (pls.contributed f).toNat).sum ≡
    (s.counted.map fun pl => (pl.get f).toNat).sum [MOD 4294967296]

/-- The payload of a record was in a report, or has no traffic. -/
def Told (a : ℕ) : Prop := a ∈ s.spent ∨ ∀ info ∈ s.workers.heap.lookup a, info.payload.Idle

instance (a : ℕ) : Decidable (s.Told a) := inferInstanceAs (Decidable (_ ∨ _))

/-- A payload with traffic is in a report before it is replaced or deleted, and is not in a second
one. -/
def Aligned : TrafficEvent → Prop
  | .deliver pid => (s.flight.find? (·.1 = pid)).isSome = true →
      ∀ a ∈ s.workers.workers.lookup pid, s.Told a
  | .reportToZookeeper _ _ _ json => json = true →
      ∀ a ∈ s.spent, ∀ info ∈ s.workers.heap.lookup a, info.payload.Idle
  | .delWorker pid => ∀ a ∈ s.workers.workers.lookup pid, s.Told a
  | _ => True

instance : ∀ e, Decidable (s.Aligned e)
  | .deliver _ => inferInstanceAs (Decidable (_ → _))
  | .reportToZookeeper .. => inferInstanceAs (Decidable (_ → _))
  | .delWorker _ => inferInstanceAs (Decidable (∀ a ∈ _, _))
  | .workerTraffic .. => inferInstanceAs (Decidable True)
  | .managerTraffic _ => inferInstanceAs (Decidable True)
  | .reportToParent .. => inferInstanceAs (Decidable True)
  | .addWorker .. => inferInstanceAs (Decidable True)

end TrafficNet

/-- The runs of a manager and its workers. -/
def trafficMachine : Machine TrafficNet TrafficEvent := ⟨TrafficNet.step⟩

namespace TrafficNet

variable {s : TrafficNet} {pid a : ℕ} {f : TrafficField}

/-! ## The messages and the records -/

/-- The processes and their messages belong to records. -/
structure Wired (s : TrafficNet) : Prop where
  sound : s.workers.Sound
  range : ∀ {pid : ℕ} {info : WorkerData}, s.workers.find pid = some info →
    CInt.InRange info.index
  procs : ∀ {pid : ℕ} {w : TrafficWorker}, s.procs.lookup pid = some w →
    ∃ info, s.workers.find pid = some info ∧ info.index = w.index
  flight : ∀ m ∈ s.flight, ∃ info, s.workers.find m.1 = some info ∧
    m.2.workerIndex = CInt.toUInt32 info.index
  spent : ∀ a ∈ s.spent, a ∈ s.workers.heap.keys

theorem wired_empty : Wired {} where
  sound := WorkerDataMgr.sound_empty
  range h := by simp [WorkerDataMgr.find] at h
  procs h := by simp at h
  flight _ h := absurd h List.not_mem_nil
  spent _ h := absurd h (Finset.notMem_empty _)

/-- **A message arrives** in the record of its worker. -/
theorem Wired.deliver_cases (h : s.Wired) (pid : ℕ) :
    s.deliver pid = s ∨ ∃ pl a info, s.flight.find? (·.1 = pid) = some (pid, pl) ∧
      s.workers.workers.lookup pid = some a ∧ s.workers.heap.lookup a = some info ∧
      s.deliver pid = { s with
        flight := s.flight.eraseP (·.1 = pid)
        delivered := s.delivered ++ [pl]
        workers := { s.workers with heap := s.workers.heap.insert a { info with payload := pl } }
        spent := s.spent.erase a } := by
  unfold deliver
  cases hfind : s.flight.find? (·.1 = pid) with
  | none => exact Or.inl rfl
  | some m =>
    obtain ⟨pid', pl⟩ := m
    obtain rfl : pid' = pid := of_decide_eq_true (List.find?_some hfind :)
    obtain ⟨info, hinfo, hpl⟩ := h.flight _ (List.mem_of_find?_eq_some hfind)
    obtain ⟨a, ha, hheap⟩ := Option.bind_eq_some_iff.mp hinfo
    obtain ⟨info', hinfo', -, hii⟩ := h.sound.byPid ha
    obtain rfl := Option.some.inj (hheap.symm.trans hinfo')
    -- the index that the message has is that of the record
    have hindex : CInt.toInt pl.workerIndex.toNat = info.index := by
      change pl.workerIndex = _ at hpl
      rw [hpl, CInt.toInt_toUInt32 (h.range hinfo)]
    refine Or.inr ⟨pl, a, info, rfl, ha, hheap, ?_⟩
    dsimp only
    unfold onReqUpdatePayload WorkerDataMgr.getWorkerInfo
    dsimp only
    rw [hindex, hii]
    dsimp only
    rw [hheap]

/-- The records after one got another payload. -/
theorem find_setPayload (info : WorkerData) (pl : Payload) (pid : ℕ) :
    WorkerDataMgr.find { s.workers with heap := s.workers.heap.insert a { info with payload := pl } }
        pid =
      if s.workers.workers.lookup pid = some a then some { info with payload := pl }
      else s.workers.find pid := by
  unfold WorkerDataMgr.find
  dsimp only
  cases hpid : s.workers.workers.lookup pid with
  | none => simp
  | some a' =>
    rw [Option.bind_some, Option.bind_some, FiniteMap.lookup_insert]
    by_cases heq : a' = a
    · rw [if_pos heq, if_pos (by rw [heq])]
    · rw [if_neg heq, if_neg (by simpa using heq)]

/-- A worker counts, or clears its counters. -/
theorem Wired.procs_insert (h : s.Wired) {w : TrafficWorker} (hw : s.procs.lookup pid = some w)
    (pl : Payload) {pid' : ℕ} {w' : TrafficWorker}
    (hw' : (s.procs.insert pid { w with payload := pl }).lookup pid' = some w') :
    ∃ info, s.workers.find pid' = some info ∧ info.index = w'.index := by
  rw [FiniteMap.lookup_insert] at hw'
  split_ifs at hw' with heq
  · obtain rfl := Option.some.inj hw'
    obtain ⟨info, hinfo, hindex⟩ := h.procs hw
    exact ⟨info, heq ▸ hinfo, hindex⟩
  · exact h.procs hw'

theorem Wired.workerTraffic (h : s.Wired) (pid : ℕ) (d : Payload) : (s.workerTraffic pid d).Wired := by
  unfold TrafficNet.workerTraffic
  cases hw : s.procs.lookup pid with
  | none => exact h
  | some w =>
    exact ⟨h.sound, h.range, fun hw' => h.procs_insert hw _ hw', h.flight, h.spent⟩

theorem Wired.reportPayloadToParent (h : s.Wired) (pid : ℕ) (cmdCnt connCnt : UInt32)
    (now : Double) (sent : Bool) :
    (s.reportPayloadToParent pid cmdCnt connCnt now sent).Wired := by
  unfold TrafficNet.reportPayloadToParent
  cases hw : s.procs.lookup pid with
  | none => exact h
  | some w =>
    refine ⟨h.sound, h.range, fun hw' => h.procs_insert hw _ hw', fun msg hmsg => ?_, h.spent⟩
    cases sent with
    | false => exact h.flight msg hmsg
    | true =>
      obtain hold | hnew := List.mem_append.mp hmsg
      · exact h.flight msg hold
      · obtain rfl := List.mem_singleton.mp hnew
        obtain ⟨info, hinfo, hindex⟩ := h.procs hw
        exact ⟨info, hinfo, by rw [hindex]⟩

theorem Wired.deliver (h : s.Wired) (pid : ℕ) : (s.deliver pid).Wired := by
  obtain heq | ⟨pl, a, info, hfind, hpid, ha, heq⟩ := h.deliver_cases pid
  · rw [heq]
    exact h
  · rw [heq]
    -- the records have the same indexes
    have hindex : ∀ {pid' : ℕ} {i : ℤ}, (∃ info', s.workers.find pid' = some info' ∧
        info'.index = i) → ∃ info', WorkerDataMgr.find { s.workers with
          heap := s.workers.heap.insert a { info with payload := pl } } pid' = some info' ∧
            info'.index = i := by
      rintro pid' i ⟨info', hinfo', hi⟩
      rw [find_setPayload]
      split_ifs with hsame
      · obtain ⟨a', ha', hheap⟩ := Option.bind_eq_some_iff.mp hinfo'
        obtain rfl := Option.some.inj (hsame.symm.trans ha')
        obtain rfl := Option.some.inj (ha.symm.trans hheap)
        exact ⟨_, rfl, hi⟩
      · exact ⟨info', hinfo', hi⟩
    refine ⟨h.sound.setPayload ha pl, fun {pid' info'} hinfo' => ?_, fun hw => hindex (h.procs hw),
      fun msg hmsg => ?_, fun a' ha' => ?_⟩
    · rw [find_setPayload] at hinfo'
      split_ifs at hinfo' with hsame
      · obtain rfl := Option.some.inj hinfo'
        have hfind : s.workers.find pid = some info := by
          rw [WorkerDataMgr.find, hpid, Option.bind_some, ha]
        exact @Wired.range _ h pid info hfind
      · exact h.range hinfo'
    · obtain ⟨info', hinfo', hmsgIndex⟩ := h.flight msg (List.mem_of_mem_eraseP hmsg)
      obtain ⟨info'', hinfo'', hsame⟩ := hindex ⟨info', hinfo', rfl⟩
      exact ⟨info'', hinfo'', by rw [hmsgIndex, hsame]⟩
    · refine Finmap.mem_keys.mpr ?_
      have hold := Finmap.mem_keys.mp (h.spent a' (Finset.mem_of_mem_erase ha'))
      exact Finmap.mem_insert.mpr (Or.inr hold)

theorem Wired.addWorker (h : s.Wired) {index : ℤ} (hpid : s.workers.workers.lookup pid = none)
    (hindex : s.workers.indexWorkers.lookup index = none) (hrange : CInt.InRange index)
    (ctrlFd dataFd : ℤ) (hint : ℕ) (order : List ℕ) :
    (s.addWorker index pid ctrlFd dataFd hint order).Wired := by
  have hfind := h.sound.filed.find_addWorkerInfo hpid index ctrlFd dataFd hint order
  -- a record that was there is not that of the new process
  have hold : ∀ {pid' : ℕ} {info : WorkerData}, s.workers.find pid' = some info →
      (s.workers.addWorkerInfo index pid ctrlFd dataFd hint order).find pid' = some info := by
    intro pid' info hinfo
    rw [hfind, if_neg]
    · exact hinfo
    · rintro rfl
      rw [WorkerDataMgr.find, hpid] at hinfo
      cases hinfo
  refine ⟨h.sound.addWorkerInfo hpid hindex ctrlFd dataFd hint order,
    fun {pid' info} hinfo => ?_, fun {pid' w} hw => ?_, fun msg hmsg => ?_, fun a ha => ?_⟩
  · change (s.workers.addWorkerInfo ..).find pid' = some info at hinfo
    rw [hfind] at hinfo
    split_ifs at hinfo
    · obtain rfl := Option.some.inj hinfo
      exact hrange
    · exact h.range hinfo
  · change (s.procs.insert pid _).lookup pid' = some w at hw
    rw [FiniteMap.lookup_insert] at hw
    split_ifs at hw with heq
    · obtain rfl := Option.some.inj hw
      refine ⟨{ pid, index, ctrlFd, dataFd }, ?_, rfl⟩
      change (s.workers.addWorkerInfo ..).find pid' = _
      rw [hfind, if_pos heq]
    · obtain ⟨info, hinfo, hi⟩ := h.procs hw
      exact ⟨info, hold hinfo, hi⟩
  · obtain ⟨info, hinfo, hi⟩ := h.flight msg hmsg
    exact ⟨info, hold hinfo, hi⟩
  · change a ∈ (s.workers.addWorkerInfo ..).heap.keys
    rw [WorkerDataMgr.addWorkerInfo_eq hpid]
    exact Finmap.mem_keys.mpr (Finmap.mem_insert.mpr (Or.inr (Finmap.mem_keys.mp (h.spent a ha))))

theorem Wired.delWorker (h : s.Wired) (pid : ℕ) : (s.delWorker pid).Wired := by
  have hfind := h.sound.filed.find_delWorkerInfo pid
  have hold : ∀ {pid' : ℕ} {info : WorkerData}, pid' ≠ pid → s.workers.find pid' = some info →
      (s.workers.delWorkerInfo pid).2.find pid' = some info := by
    intro pid' info hne hinfo
    rw [hfind, if_neg hne]
    exact hinfo
  refine ⟨h.sound.delWorkerInfo pid, fun {pid' info} hinfo => ?_, fun {pid' w} hw => ?_,
    fun msg hmsg => ?_, fun a ha => ?_⟩
  · change (s.workers.delWorkerInfo pid).2.find pid' = some info at hinfo
    rw [hfind] at hinfo
    split_ifs at hinfo
    exact h.range hinfo
  · change (s.procs.erase pid).lookup pid' = some w at hw
    rw [FiniteMap.lookup_erase] at hw
    split_ifs at hw with hne
    obtain ⟨info, hinfo, hi⟩ := h.procs hw
    exact ⟨info, hold hne hinfo, hi⟩
  · obtain ⟨hmsg, hne⟩ := List.mem_filter.mp hmsg
    obtain ⟨info, hinfo, hi⟩ := h.flight msg hmsg
    exact ⟨info, hold (of_decide_eq_true hne) hinfo, hi⟩
  · change a ∈ (s.workers.workers.lookup pid).elim s.spent s.spent.erase at ha
    change a ∈ (s.workers.delWorkerInfo pid).2.heap.keys
    cases hpid : s.workers.workers.lookup pid with
    | none =>
      rw [hpid] at ha
      rw [WorkerDataMgr.delWorkerInfo_of_none hpid]
      exact h.spent a ha
    | some a' =>
      obtain ⟨info, -, -, -, -, hdel⟩ := h.sound.delWorkerInfo_eq hpid
      rw [hpid] at ha
      rw [hdel]
      obtain ⟨hne, ha⟩ := Finset.mem_erase.mp ha
      exact Finmap.mem_keys.mpr (Finmap.mem_erase.mpr ⟨hne, Finmap.mem_keys.mp (h.spent a ha)⟩)

/-- **Every event** keeps the processes and the records together. -/
theorem Wired.step (h : s.Wired) (e : TrafficEvent) : (s.step e).Wired := by
  cases e with
  | workerTraffic pid d => exact h.workerTraffic pid d
  | managerTraffic d => exact ⟨h.sound, h.range, h.procs, h.flight, h.spent⟩
  | reportToParent pid cmdCnt connCnt now sent =>
    exact h.reportPayloadToParent pid cmdCnt connCnt now sent
  | deliver pid => exact h.deliver pid
  | reportToZookeeper workerIndex conns now json =>
    cases json with
    | false => exact ⟨h.sound, h.range, h.procs, h.flight, h.spent⟩
    | true => exact ⟨h.sound, h.range, h.procs, h.flight, fun _ ha => ha⟩
  | addWorker index pid ctrlFd dataFd hint order =>
    simp only [TrafficNet.step]
    split_ifs with hguard
    · exact h
    · simp only [not_or, Option.not_isSome_iff_eq_none, not_not] at hguard
      exact h.addWorker hguard.1 hguard.2.1 hguard.2.2 ctrlFd dataFd hint order
  | delWorker pid => exact h.delWorker pid

/-! ## The sums -/

/-- What the record of a process has that was in no report yet. -/
def amount (s : TrafficNet) (f : TrafficField) (pid : ℕ) : ℕ :=
  match s.workers.workers.lookup pid with
  | none => 0
  | some a =>
    if a ∈ s.spent then 0
    else (s.workers.heap.lookup a).elim 0 fun info => (info.payload.get f).toNat

/-- What all records have that was in no report yet. -/
def unspent (s : TrafficNet) (f : TrafficField) : ℕ :=
  ∑ pid ∈ s.workers.visit.toFinset, s.amount f pid

/-- The sum of a counter over a list of payloads. -/
def total (f : TrafficField) (pls : List Payload) : ℕ := (pls.map fun pl => (pl.get f).toNat).sum

/-- What all reports have. -/
def reported (s : TrafficNet) (f : TrafficField) : ℕ :=
  (s.reports.map fun pls => total f pls.workers).sum

/-- What was delivered is in the reports or not spent, and what was delivered before the last
report is in the reports. -/
structure Balanced (s : TrafficNet) : Prop where
  delivered : ∀ f, s.reported f + s.unspent f = total f s.delivered
  counted : ∀ f, s.reported f = total f s.counted

theorem balanced_empty : Balanced {} := ⟨fun _ => rfl, fun _ => rfl⟩

/-- An event that reports nothing, delivers nothing and leaves what is not spent. -/
theorem Balanced.of_unspent_eq {s t : TrafficNet} (h : s.Balanced)
    (hunspent : ∀ f, t.unspent f = s.unspent f) (hreports : t.reports = s.reports)
    (hdelivered : t.delivered = s.delivered) (hcounted : t.counted = s.counted) : t.Balanced := by
  refine ⟨fun f => ?_, fun f => ?_⟩
  · have hold := h.delivered f
    unfold reported at hold ⊢
    rw [hunspent, hreports, hdelivered]
    exact hold
  · have hold := h.counted f
    unfold reported at hold ⊢
    rw [hreports, hcounted]
    exact hold

/-- A record that was told has nothing that is not spent. -/
theorem Told.amount (h : s.Told a) (hpid : s.workers.workers.lookup pid = some a) :
    s.amount f pid = 0 := by
  unfold TrafficNet.amount
  rw [hpid]
  dsimp only
  split_ifs with hspent
  · rfl
  · cases hinfo : s.workers.heap.lookup a with
    | none => rfl
    | some info =>
      have hidle := h.resolve_left hspent info hinfo
      rw [Option.elim_some, hidle.get]
      rfl

theorem Wired.mem_visit (h : s.Wired) (hpid : s.workers.workers.lookup pid = some a) :
    pid ∈ s.workers.visit.toFinset :=
  List.mem_toFinset.mpr ((h.sound.visited pid).mpr ⟨a, hpid⟩)

/-- **An update is delivered**: it is not spent, in the place of one that was told. -/
theorem Balanced.deliver (h : s.Balanced) (hwired : s.Wired) (pid : ℕ)
    (haligned : s.Aligned (.deliver pid)) : (s.deliver pid).Balanced := by
  obtain heq | ⟨pl, a, info, hfind, hpid, ha, heq⟩ := hwired.deliver_cases pid
  · rw [heq]
    exact h
  · -- the record was told, so nothing is lost when it is written over
    have htold : s.Told a := haligned (by rw [hfind]; rfl) a hpid
    obtain ⟨t, ht⟩ : ∃ t, t = s.deliver pid := ⟨_, rfl⟩
    rw [← ht]
    rw [← ht] at heq
    have hamount : ∀ f pid', t.amount f pid' =
        if pid' = pid then (pl.get f).toNat else s.amount f pid' := by
      intro f pid'
      rw [heq]
      unfold TrafficNet.amount
      dsimp only
      split_ifs with hsame
      · rw [hsame, hpid]
        dsimp only
        rw [if_neg (Finset.notMem_erase a s.spent), FiniteMap.lookup_insert, if_pos rfl,
          Option.elim_some]
      · cases hpid' : s.workers.workers.lookup pid' with
        | none => rfl
        | some a' =>
          have hne : a' ≠ a := by
            rintro rfl
            exact hsame (hwired.sound.filed.pid_inj hpid' hpid)
          dsimp only
          rw [FiniteMap.lookup_insert, if_neg hne]
          simp only [Finset.mem_erase, ne_eq, hne, not_false_eq_true, true_and]
    -- what comes is what is not spent now
    have hunspent : ∀ f, t.unspent f = s.unspent f + (pl.get f).toNat := by
      intro f
      have hmem := hwired.mem_visit hpid
      have hvisit : t.workers.visit = s.workers.visit := by
        rw [heq]
      unfold unspent
      rw [hvisit, ← Finset.add_sum_erase _ _ hmem, ← Finset.add_sum_erase _ (s.amount f) hmem,
        hamount, if_pos rfl, htold.amount hpid, Nat.zero_add, Nat.add_comm]
      refine congrArg (· + _) (Finset.sum_congr rfl fun pid' hpid' => ?_)
      rw [hamount, if_neg (Finset.ne_of_mem_erase hpid')]
    have hreports : t.reports = s.reports := by
      rw [heq]
    refine ⟨fun f => ?_, fun f => ?_⟩
    · have hdelivered : t.delivered = s.delivered ++ [pl] := by
        rw [heq]
      have hold := h.delivered f
      unfold reported total at hold ⊢
      rw [hunspent, hreports, hdelivered, List.map_append, List.sum_append, ← hold, List.map_cons,
        List.map_nil, List.sum_cons, List.sum_nil]
      omega
    · have hcounted : t.counted = s.counted := by
        rw [heq]
      have hold := h.counted f
      unfold reported at hold ⊢
      rw [hreports, hcounted]
      exact hold

/-- The counters of a report do not depend on the index that is put into it. -/
theorem total_stats (s : TrafficNet) (f : TrafficField) (workerIndex : ℤ) (conns : UInt32)
    (now : Double) : total f (s.stats workerIndex conns now).workers =
      (s.workers.visit.map fun pid =>
        (s.workers.find pid).elim 0 fun info => (info.payload.get f).toNat).sum := by
  unfold total stats WorkerDataMgr.getInfos
  dsimp only
  induction s.workers.visit with
  | nil => rfl
  | cons pid visit ih =>
    rw [List.filterMap_cons, List.map_cons, List.sum_cons, ← ih]
    cases hinfo : s.workers.find pid with
    | none => rw [Option.elim_none, Nat.zero_add]
    | some info =>
      dsimp only
      rw [List.map_cons, List.map_cons, List.sum_cons, Option.elim_some]
      congr 2
      split_ifs
      · cases f <;> rfl
      · rfl

/-- **A report is made**: it has what is not spent, and afterwards everything is. -/
theorem Balanced.reportPayloadToZookeeper (h : s.Balanced) (hwired : s.Wired) (workerIndex : ℤ)
    (conns : UInt32) (now : Double) (json : Bool)
    (haligned : s.Aligned (.reportToZookeeper workerIndex conns now json)) :
    (s.reportPayloadToZookeeper workerIndex conns now json).Balanced := by
  unfold TrafficNet.reportPayloadToZookeeper
  dsimp only
  cases json with
  | false => exact ⟨h.delivered, h.counted⟩
  | true =>
    -- what a record has is what was in no report, for a record that was in one is idle
    have hstats : ∀ f, total f (s.stats workerIndex conns now).workers = s.unspent f := by
      intro f
      rw [total_stats]
      unfold unspent
      rw [List.sum_toFinset _ hwired.sound.nodup]
      refine congrArg List.sum (List.map_congr_left fun pid _ => ?_)
      unfold amount WorkerDataMgr.find
      cases hpid : s.workers.workers.lookup pid with
      | none => rfl
      | some a =>
        dsimp only
        rw [Option.bind_some]
        split_ifs with hspent
        · cases hinfo : s.workers.heap.lookup a with
          | none => rfl
          | some info =>
            rw [Option.elim_some, (haligned rfl a hspent info hinfo).get]
            rfl
        · rfl
    have hreported : ∀ f, ((s.reports ++ [s.stats workerIndex conns now]).map
        fun pls => total f pls.workers).sum = total f s.delivered := by
      intro f
      rw [List.map_append, List.sum_append, List.map_cons, List.map_nil, List.sum_cons,
        List.sum_nil, hstats, Nat.add_zero]
      exact h.delivered f
    refine ⟨fun f => ?_, hreported⟩
    change ((s.reports ++ [s.stats workerIndex conns now]).map
        fun pls => total f pls.workers).sum + unspent _ f = total f s.delivered
    rw [hreported, Nat.add_eq_left]
    refine Finset.sum_eq_zero fun pid _ => ?_
    unfold amount
    change (match s.workers.workers.lookup pid with
      | none => 0
      | some a => if a ∈ s.workers.heap.keys then 0
        else (s.workers.heap.lookup a).elim 0 fun info => (info.payload.get f).toNat) = 0
    cases hpid : s.workers.workers.lookup pid with
    | none => rfl
    | some a =>
      obtain ⟨info, hinfo, -⟩ := hwired.sound.byPid hpid
      refine if_pos (Finmap.mem_keys.mpr ?_)
      rw [← Finmap.lookup_isSome, hinfo]
      rfl

/-- The record of a new worker has nothing, and the others keep what they have. -/
theorem Wired.amount_addWorker (hwired : s.Wired) {index : ℤ}
    (hpid : s.workers.workers.lookup pid = none) (ctrlFd dataFd : ℤ) (hint : ℕ) (order : List ℕ)
    (f : TrafficField) (pid' : ℕ) :
    (s.addWorker index pid ctrlFd dataFd hint order).amount f pid' =
      if pid' = pid then 0 else s.amount f pid' := by
  unfold TrafficNet.addWorker amount
  rw [WorkerDataMgr.addWorkerInfo_eq hpid]
  dsimp only
  rw [FiniteMap.lookup_insert]
  by_cases hsame : pid' = pid
  · rw [if_pos hsame, if_pos hsame]
    dsimp only
    rw [FiniteMap.lookup_insert, if_pos rfl, Option.elim_some, ite_eq_left_iff]
    intro _
    cases f <;> rfl
  · rw [if_neg hsame, if_neg hsame]
    cases hpid' : s.workers.workers.lookup pid' with
    | none => rfl
    | some a' =>
      obtain ⟨info, hinfo, -⟩ := hwired.sound.byPid hpid'
      dsimp only
      rw [WorkerDataMgr.lookup_insert_fresh hinfo, hinfo]

theorem Wired.unspent_addWorker (hwired : s.Wired) {index : ℤ}
    (hpid : s.workers.workers.lookup pid = none) (ctrlFd dataFd : ℤ) (hint : ℕ) (order : List ℕ)
    (f : TrafficField) :
    (s.addWorker index pid ctrlFd dataFd hint order).unspent f = s.unspent f := by
  have hvisit : (s.addWorker index pid ctrlFd dataFd hint order).workers.visit.toFinset =
      insert pid s.workers.visit.toFinset := by
    unfold TrafficNet.addWorker
    rw [WorkerDataMgr.addWorkerInfo_eq hpid, ← List.toFinset_cons]
    dsimp only
    split_ifs with hperm
    · exact List.toFinset_eq_of_perm _ _ hperm
    · rfl
  have hnot : pid ∉ s.workers.visit.toFinset := by
    rw [List.mem_toFinset, hwired.sound.visited, hpid]
    rintro ⟨a, ⟨⟩⟩
  unfold unspent
  rw [hvisit, Finset.sum_insert hnot, hwired.amount_addWorker hpid, if_pos rfl, Nat.zero_add]
  refine Finset.sum_congr rfl fun pid' hpid' => ?_
  rw [hwired.amount_addWorker hpid, if_neg]
  rintro rfl
  exact hnot hpid'

theorem Balanced.addWorker (h : s.Balanced) (hwired : s.Wired) {index : ℤ}
    (hpid : s.workers.workers.lookup pid = none) (ctrlFd dataFd : ℤ) (hint : ℕ)
    (order : List ℕ) : (s.addWorker index pid ctrlFd dataFd hint order).Balanced :=
  h.of_unspent_eq (hwired.unspent_addWorker hpid ctrlFd dataFd hint order) rfl rfl rfl

/-- Deleting a record leaves what the others have. -/
theorem Wired.amount_delWorker (hwired : s.Wired) (hpid : s.workers.workers.lookup pid = some a)
    (f : TrafficField) {pid' : ℕ} (hne : pid' ≠ pid) :
    (s.delWorker pid).amount f pid' = s.amount f pid' := by
  obtain ⟨hheap, hworkers, -, -⟩ := WorkerDataMgr.delWorkerInfo_fields hpid
  unfold TrafficNet.delWorker amount
  dsimp only
  rw [hheap, hworkers, hpid, FiniteMap.lookup_erase, if_neg hne, Option.elim_some]
  cases hpid' : s.workers.workers.lookup pid' with
  | none => rfl
  | some a' =>
    -- another process has another record
    have haddr : a' ≠ a := by
      rintro rfl
      exact hne (hwired.sound.filed.pid_inj hpid' hpid)
    dsimp only
    rw [FiniteMap.lookup_erase, if_neg haddr]
    simp only [Finset.mem_erase, ne_eq, haddr, not_false_eq_true, true_and]

/-- Deleting a record that was told leaves what is not spent. -/
theorem Wired.unspent_delWorker (hwired : s.Wired) (pid : ℕ)
    (haligned : s.Aligned (.delWorker pid)) (f : TrafficField) :
    (s.delWorker pid).unspent f = s.unspent f := by
  cases hpid : s.workers.workers.lookup pid with
  | none =>
    have hsame : (s.delWorker pid).workers = s.workers ∧ (s.delWorker pid).spent = s.spent := by
      unfold TrafficNet.delWorker
      rw [WorkerDataMgr.delWorkerInfo_of_none hpid, hpid]
      exact ⟨rfl, rfl⟩
    unfold unspent amount
    rw [hsame.1, hsame.2]
  | some a =>
    have hvisit : (s.delWorker pid).workers.visit.toFinset = s.workers.visit.toFinset.erase pid := by
      ext pid'
      change pid' ∈ (s.workers.delWorkerInfo pid).2.visit.toFinset ↔ _
      rw [(WorkerDataMgr.delWorkerInfo_fields hpid).2.2.1, List.mem_toFinset, Finset.mem_erase,
        List.mem_toFinset, hwired.sound.nodup.mem_erase_iff]
    unfold unspent
    rw [hvisit, ← Finset.add_sum_erase _ (s.amount f) (hwired.mem_visit hpid),
      (haligned a hpid).amount hpid, Nat.zero_add]
    exact Finset.sum_congr rfl fun pid' hpid' =>
      hwired.amount_delWorker hpid f (Finset.ne_of_mem_erase hpid')

/-- The record of a worker that was told is deleted. -/
theorem Balanced.delWorker (h : s.Balanced) (hwired : s.Wired) (pid : ℕ)
    (haligned : s.Aligned (.delWorker pid)) : (s.delWorker pid).Balanced :=
  h.of_unspent_eq (hwired.unspent_delWorker pid haligned) rfl rfl rfl

/-- **Every aligned event** keeps the sums. -/
theorem Balanced.step (h : s.Balanced) (hwired : s.Wired) (e : TrafficEvent)
    (haligned : s.Aligned e) : (s.step e).Balanced := by
  cases e with
  | workerTraffic pid d =>
    change (s.workerTraffic pid d).Balanced
    unfold workerTraffic
    split
    · exact h
    · exact ⟨h.delivered, h.counted⟩
  | managerTraffic d => exact ⟨h.delivered, h.counted⟩
  | reportToParent pid cmdCnt connCnt now sent =>
    change (s.reportPayloadToParent pid cmdCnt connCnt now sent).Balanced
    unfold reportPayloadToParent
    split
    · exact h
    · exact ⟨h.delivered, h.counted⟩
  | deliver pid => exact h.deliver hwired pid haligned
  | reportToZookeeper workerIndex conns now json =>
    exact h.reportPayloadToZookeeper hwired workerIndex conns now json haligned
  | addWorker index pid ctrlFd dataFd hint order =>
    simp only [TrafficNet.step]
    split_ifs with hguard
    · exact h
    · simp only [not_or, Option.not_isSome_iff_eq_none] at hguard
      exact h.addWorker hwired hguard.1 ctrlFd dataFd hint order
  | delWorker pid => exact h.delWorker hwired pid haligned

/-- A sum that is added up in 32 bits. -/
theorem toNat_foldl_modEq (l : List Payload) (f : TrafficField) (start : UInt32) :
    (l.foldl (fun sum p => sum + p.get f) start).toNat ≡ start.toNat + total f l
      [MOD 4294967296] := by
  induction l generalizing start with
  | nil => exact Nat.ModEq.refl _
  | cons p l ih =>
    rw [List.foldl_cons]
    refine (ih _).trans ?_
    have hadd : (start + p.get f).toNat = (start.toNat + (p.get f).toNat) % 4294967296 :=
      UInt32.toNat_add ..
    unfold total
    rw [hadd, List.map_cons, List.sum_cons, ← Nat.add_assoc]
    exact Nat.ModEq.add_right _ (Nat.mod_modEq _ _)

theorem contributed_modEq (pls : PayloadStats) (f : TrafficField) :
    (pls.contributed f).toNat ≡ total f pls.workers [MOD 4294967296] := by
  refine (toNat_foldl_modEq pls.workers f 0).trans ?_
  rw [UInt32.toNat_zero, Nat.zero_add]

/-- **What the manager reports** of a counter is the part of the workers and its own. -/
theorem stats_manager_get (s : TrafficNet) (f : TrafficField) (workerIndex : ℤ) (conns : UInt32)
    (now : Double) : (s.stats workerIndex conns now).manager.get f =
      (s.stats workerIndex conns now).contributed f + s.payload.get f := by
  have hsum : ∀ (infos : List WorkerData) (start : UInt32),
      (infos.map fun info => if info.payload.workerIndex = 0 then
          { info.payload with workerIndex := CInt.toUInt32 info.index }
        else info.payload).foldl (fun sum p => sum + p.get f) start =
        infos.foldl (fun sum info => sum + info.payload.get f) start := by
    intro infos
    induction infos with
    | nil => exact fun _ => rfl
    | cons info infos ih =>
      intro start
      rw [List.map_cons, List.foldl_cons, List.foldl_cons, ih]
      congr 2
      split_ifs
      · cases f <;> rfl
      · rfl
  unfold PayloadStats.contributed stats
  dsimp only
  rw [hsum]
  cases f <;> rfl

/-- The sums, added up in 32 bits. -/
theorem Balanced.conserved (h : s.Balanced) : s.Conserved := by
  intro f
  have hmod : ∀ reports : List PayloadStats,
      (reports.map fun pls => (pls.contributed f).toNat).sum ≡
        (reports.map fun pls => total f pls.workers).sum [MOD 4294967296] := by
    intro reports
    induction reports with
    | nil => exact Nat.ModEq.refl _
    | cons pls reports ih =>
      rw [List.map_cons, List.map_cons, List.sum_cons, List.sum_cons]
      exact Nat.ModEq.add (contributed_modEq pls f) ih
  refine (hmod s.reports).trans ?_
  rw [show (s.reports.map fun pls => total f pls.workers).sum = total f s.counted from h.counted f]
  exact Nat.ModEq.refl _

end TrafficNet

/-- **Traffic is conserved in aligned runs**: where each update with traffic is in exactly one
report before it is replaced or deleted, the workers' part of all reports is what the updates have
that were delivered before the last report, for each counter and modulo `2 ^ 32`. -/
theorem traffic_conserved (es : List TrafficEvent)
    (h : trafficMachine.Meets TrafficNet.Aligned {} es) (past : List TrafficEvent)
    (hpast : past <+: es) : (trafficMachine.run {} past).Conserved := by
  have hinv : (trafficMachine.run {} past).Wired ∧ (trafficMachine.run {} past).Balanced :=
    h.invariant_prefix (P := fun s => s.Wired ∧ s.Balanced)
      (fun s e hs haligned => ⟨hs.1.step e, hs.2.step hs.1 e haligned⟩)
      ⟨TrafficNet.wired_empty, TrafficNet.balanced_empty⟩ hpast
  exact hinv.2.conserved

/-- A worker reads five bytes and tells the manager, which reports them. -/
def oneUpdate : List TrafficEvent :=
  [.addWorker 1 7 5 6 0 [7], .workerTraffic 7 { readCnt := 1, readBytes := 5 },
    .reportToParent 7 0 0 ⟨0⟩ true, .deliver 7, .reportToZookeeper 0 0 ⟨0⟩ true]

theorem traffic_conserved_oneUpdate : (trafficMachine.run {} oneUpdate).Conserved :=
  traffic_conserved oneUpdate (by decide) oneUpdate (List.prefix_refl _)

/-- The manager reports twice before the next update: the bytes are counted twice. -/
theorem traffic_not_conserved : ¬ ∀ past, past <+: oneUpdate ++ [.reportToZookeeper 0 0 ⟨0⟩ true] →
    (trafficMachine.run {} past).Conserved := by
  intro h
  have hbytes := h _ (List.prefix_refl _) .readBytes
  exact absurd hbytes (by decide)

end Kimserver
