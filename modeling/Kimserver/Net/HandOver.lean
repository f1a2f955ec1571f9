import Kimserver.Net.SysCmd
import Kimserver.Process.Transfer

/-!
# The answer of the manager that hands a descriptor over

A worker of another node asks the manager for one of its workers by index. The manager compares
the index with the number of its workers, answers, looks the data channel of the worker up, and
writes the descriptor into it. An index of no worker passes the comparison when it is negative, or
below the number of workers while another slot is empty; then the write fails after the answer
was given. An index above the number of workers is refused, although it may be in use.

The result of `sendmsg` is an argument. So is whether `send_ack` succeeds: where it does not, the
connection is closed, and nothing is handed over.

## Main definitions

* `writeChannel`: `write_channel` with what the system answers
* `SysCmd.onReqConnectToWorker`: the handler, with the answer and what was handed over
* `HandsOver`: an answer `ok` means that the worker got the descriptor

## Main results

* `onReqConnectToWorker_eq`: the handler as the loop of the manager runs it
* `handsOver_iff`: when the answer is right
-/

namespace Kimserver

open SocketBuffer (SendResult)

/-- `EBADF`. -/
def ebadf : ℤ := 9

/-- `sendmsg`: `errno` where it fails. No file has a negative number. -/
def sendmsg (fd : ℤ) (errno : Option ℤ) : Option ℤ := if fd < 0 then some ebadf else errno

/-- `write_channel`. -/
def writeChannel (fd : ℤ) (errno : Option ℤ) : ℤ :=
  match sendmsg fd errno with
  | none => 0
  | some err => if err = eagain then err else -1

theorem writeChannel_eq_zero_iff {fd : ℤ} {errno : Option ℤ} :
    writeChannel fd errno = 0 ↔ 0 ≤ fd ∧ errno = none := by
  unfold writeChannel sendmsg
  by_cases hfd : fd < 0
  · simp only [if_pos hfd, ebadf, eagain]
    exact iff_of_false (by decide) fun h => absurd h.1 (not_le.mpr hfd)
  · rw [if_neg hfd]
    cases errno with
    | none => exact iff_of_true rfl ⟨not_lt.mp hfd, rfl⟩
    | some err =>
      refine iff_of_false ?_ (by simp)
      dsimp only
      split_ifs with heq
      · rw [heq]
        decide
      · decide

/-- The message with which a descriptor is handed over: of the family `AF_INET` with the codec
`PROTOBUF`, for a connection between nodes. -/
def nodeChannelMsg (fd : ℕ) : ChannelMsg := { fd, family := 2, codec := 1, isSystem := 1 }

/-- What the handler did: the error and the text of its answer, the channel to which the
descriptor was sent, and its status. -/
structure HandOver where
  ack : Int32 × Bytes
  handed : Option (ℤ × ChannelMsg)
  status : CmdStatus

/-- `on_req_connect_to_worker` of the descriptor `fd`; `acked` is what `send_ack` returns. -/
def SysCmd.onReqConnectToWorker (mgr : WorkerDataMgr) (fd : ℕ) (data : Bytes) (acked : Bool)
    (errno : Option ℤ) : Except StoiError HandOver :=
  match strToInt data with
  | .error e => .error e
  | .ok workerIndex =>
    let workerCnt := mgr.getInfos.length
    if workerIndex = 0 ∨ workerCnt < workerIndex then
      .ok ⟨(errInvalidWorkerIndex, text "invalid worker index!"), none, .error⟩
    else if acked = false then .ok ⟨(errOk, text "ok"), none, .error⟩
    else
      let chanel := mgr.getWorkerDataFd workerIndex
      if writeChannel chanel errno ≠ 0 then .ok ⟨(errOk, text "ok"), none, .error⟩
      else .ok ⟨(errOk, text "ok"), some (chanel, nodeChannelMsg fd), .completed⟩

/-- A handler that answers `ok`. -/
theorem ackWith_eq_ite (pb : Protobuf) (stray : ℕ → UInt8) (status : CmdStatus) (w : WriteState)
    (req : Message) (data : Bytes) (res : SendResult) :
    ackWith pb stray status w req data res =
      (if (sendAck pb stray w req errOk (text "ok") data res).1 then status else .error,
        (sendAck pb stray w req errOk (text "ok") data res).2) := by
  unfold ackWith
  split
  · next heq =>
    rw [heq]
    rfl
  · next heq =>
    rw [heq]
    rfl

/-- **The handler in the loop of the manager** gives the same status and sends the same answer. -/
theorem onReqConnectToWorker_eq (pb : Protobuf) (stray : ℕ → UInt8) (mgr : WorkerDataMgr)
    (fd : ℕ) (errno : Option ℤ) (w : WriteState) (req : Message) (res : SendResult) :
    onReqConnectToWorker pb stray mgr.getInfos.length
        (fun i => decide (writeChannel (mgr.getWorkerDataFd i) errno = 0)) w req res =
      (SysCmd.onReqConnectToWorker mgr fd req.2.data
        (sendAck pb stray w req errOk (text "ok") [] res).1 errno).map
          fun h => (h.status, (sendAck pb stray w req h.ack.1 h.ack.2 [] res).2) := by
  unfold onReqConnectToWorker SysCmd.onReqConnectToWorker
  cases strToInt req.2.data with
  | error e => rfl
  | ok workerIndex =>
    dsimp only
    by_cases hindex : workerIndex = 0 ∨ (mgr.getInfos.length : ℤ) < workerIndex
    · rw [if_pos hindex, if_pos hindex]
      rfl
    · rw [if_neg hindex, if_neg hindex, ackWith_eq_ite]
      cases hacked : (sendAck pb stray w req errOk (text "ok") [] res).1 with
      | false => rfl
      | true =>
        by_cases hwrite : writeChannel (mgr.getWorkerDataFd workerIndex) errno = 0
        · rw [if_pos rfl, if_pos (decide_eq_true hwrite), if_neg (by simp),
            if_neg (not_not.mpr hwrite)]
          rfl
        · rw [if_pos rfl, if_neg (by simpa using hwrite), if_neg (by simp), if_pos hwrite]
          rfl

/-- An answer `ok` means that the descriptor was sent to the worker with the index that was asked
for; every request is answered, and that of a worker that lives is not refused. -/
def HandsOver (mgr : WorkerDataMgr) (fd : ℕ) (data : Bytes) (errno : Option ℤ) : Prop :=
  ∃ h, SysCmd.onReqConnectToWorker mgr fd data true errno = .ok h ∧
    (h.ack.1 = errOk → ∃ info ∈ mgr.getInfos, strToInt data = .ok info.index ∧
      h.handed = some (info.dataFd, nodeChannelMsg fd)) ∧
    ∀ info ∈ mgr.getInfos, strToInt data = .ok info.index → h.ack.1 ≠ errInvalidWorkerIndex

/-- **When the answer is right**: the text is a number, and it is the index of a worker that
lives, not zero and not above the number of workers, whose channel takes the descriptor; or it is
the index of no worker, and zero or above the number of workers. -/
theorem handsOver_iff {mgr : WorkerDataMgr} (h : mgr.Sound) (fd : ℕ) (data : Bytes)
    (errno : Option ℤ) :
    HandsOver mgr fd data errno ↔ ∃ i, strToInt data = .ok i ∧
      ((∃ info ∈ mgr.getInfos, info.index = i ∧ i ≠ 0 ∧ i ≤ mgr.getInfos.length ∧
          0 ≤ info.dataFd ∧ errno = none) ∨
        ((∀ info ∈ mgr.getInfos, info.index ≠ i) ∧ (i = 0 ∨ mgr.getInfos.length < i))) := by
  have hcodes : errInvalidWorkerIndex ≠ errOk := by decide
  unfold HandsOver SysCmd.onReqConnectToWorker
  cases hdata : strToInt data with
  | error e =>
    -- the exception leaves the request without an answer
    refine iff_of_false ?_ ?_
    · rintro ⟨r, hr, -⟩
      cases hr
    · rintro ⟨i, hi, -⟩
      cases hi
  | ok i =>
    simp only [Except.ok.injEq, Bool.true_eq_false, if_false, exists_eq_left']
    by_cases hindex : i = 0 ∨ (mgr.getInfos.length : ℤ) < i
    · -- the request is refused
      rw [if_pos hindex]
      constructor
      · rintro ⟨r, hr, -, hrefused⟩
        obtain rfl := Except.ok.inj hr
        exact Or.inr ⟨fun info hinfo heq => hrefused info hinfo heq.symm rfl, hindex⟩
      · rintro (⟨info, -, -, hne, hle, -⟩ | ⟨hnone, -⟩)
        · rcases hindex with hzero | hgt
          · exact absurd hzero hne
          · exact absurd hle (not_le.mpr hgt)
        · exact ⟨_, rfl, fun hok => absurd hok hcodes,
            fun info hinfo heq => absurd heq.symm (hnone info hinfo)⟩
    · rw [if_neg hindex]
      push Not at hindex
      by_cases hwrite : writeChannel (mgr.getWorkerDataFd i) errno = 0
      · -- the answer is `ok`, and the channel of the index takes the descriptor
        rw [if_neg (not_not.mpr hwrite)]
        obtain ⟨hfd, herrno⟩ := writeChannel_eq_zero_iff.mp hwrite
        constructor
        · rintro ⟨r, hr, hok, -⟩
          obtain rfl := Except.ok.inj hr
          obtain ⟨info, hinfo, rfl, -⟩ := hok rfl
          rw [h.getWorkerDataFd_of_mem hinfo] at hfd
          exact Or.inl ⟨info, hinfo, rfl, hindex.1, hindex.2, hfd, herrno⟩
        · rintro (⟨info, hinfo, rfl, -⟩ | ⟨-, hout⟩)
          · refine ⟨_, rfl, fun _ => ⟨info, hinfo, rfl, ?_⟩, fun _ _ _ => hcodes.symm⟩
            dsimp only
            rw [h.getWorkerDataFd_of_mem hinfo]
          · exact absurd hout (not_or.mpr ⟨hindex.1, not_lt.mpr hindex.2⟩)
      · -- the answer is `ok`, and nothing is handed over
        rw [if_pos hwrite]
        refine iff_of_false ?_ ?_
        · rintro ⟨r, hr, hok, -⟩
          obtain rfl := Except.ok.inj hr
          obtain ⟨info, -, -, hhanded⟩ := hok rfl
          cases hhanded
        · rintro (⟨info, hinfo, rfl, -, -, hfd, herrno⟩ | ⟨-, hout⟩)
          · rw [h.getWorkerDataFd_of_mem hinfo] at hwrite
            exact hwrite (writeChannel_eq_zero_iff.mpr ⟨hfd, herrno⟩)
          · exact absurd hout (not_or.mpr ⟨hindex.1, not_lt.mpr hindex.2⟩)

/-- A manager with the workers 1 and 3; the slot 2 is empty. -/
def gapMgr : WorkerDataMgr :=
  ((({} : WorkerDataMgr).addWorkerInfo 1 101 5 6 0 []).addWorkerInfo 3 103 9 10 1 [])

theorem gapMgr_sound : gapMgr.Sound :=
  (WorkerDataMgr.sound_empty.addWorkerInfo (by decide) (by decide) 5 6 0 []).addWorkerInfo
    (by decide) (by decide) 9 10 1 []

/-- The worker 1 gets the descriptor. -/
theorem handsOver_gapMgr : HandsOver gapMgr 20 (text "1") none :=
  (handsOver_iff gapMgr_sound 20 (text "1") none).mpr
    ⟨1, by decide, Or.inl ⟨{ pid := 101, index := 1, ctrlFd := 5, dataFd := 6 }, by decide, rfl,
      by decide, by decide, by decide, rfl⟩⟩

/-- The worker 3 is refused. The empty slot 2, the index -1 and the worker 1 with a full channel
are answered `ok`, and nothing is handed over. -/
theorem gapMgr_wrong :
    ¬ HandsOver gapMgr 20 (text "3") none ∧ ¬ HandsOver gapMgr 20 (text "2") none ∧
      ¬ HandsOver gapMgr 20 (text "-1") none ∧ ¬ HandsOver gapMgr 20 (text "1") (some eagain) := by
  have hhanded : ∀ {data : Bytes} {errno : Option ℤ} {r : HandOver},
      SysCmd.onReqConnectToWorker gapMgr 20 data true errno = .ok r → r.ack.1 = errOk →
        r.handed = none → ¬ HandsOver gapMgr 20 data errno := by
    rintro data errno r hr hok hnone ⟨r', hr', hready, -⟩
    obtain rfl := Except.ok.inj (hr.symm.trans hr')
    obtain ⟨info, -, -, hsome⟩ := hready hok
    rw [hnone] at hsome
    cases hsome
  refine ⟨?_, hhanded (r := ⟨(errOk, text "ok"), none, .error⟩) rfl rfl rfl,
    hhanded (r := ⟨(errOk, text "ok"), none, .error⟩) rfl rfl rfl,
    hhanded (r := ⟨(errOk, text "ok"), none, .error⟩) rfl rfl rfl⟩
  rintro ⟨r, hr, -, hrefused⟩
  obtain rfl := Except.ok.inj hr
  exact hrefused { pid := 103, index := 3, ctrlFd := 9, dataFd := 10 } (by decide) rfl rfl

end Kimserver
