import Kimserver.Lib.FdTable
import Kimserver.Lib.Machine
import Kimserver.Process.WorkerData

/-!
# Handing client descriptors over

The manager accepts the connections of clients, and sends each descriptor to the next worker over
the worker's data channel. When the channel is full the descriptor waits in `m_wait_send_fds`, and
with each tick of the timer it is tried again, three times at most. The descriptor is closed in
the manager when it was sent, or given up.

A client is the file of the manager that was opened for it. The process opens and closes other
files, so that numbers are given out again. The results of `sendmsg`, the numbers of new files and
the workers that come and go are part of an event.

## Main definitions

* `ResendData`, `TransferNet`: an entry of `m_wait_send_fds`, and the state of the manager
* `TransferNet.acceptAndTransferFd`, `TransferNet.checkWaitSendFds`: the functions
* `TransferEvent`, `transferMachine`: what happens to the manager
* `Standing`, `TransferNet.Stands`: the three situations of a client

## Main results

* `TransferNet.Kept.step`: what every event keeps
* `client_stands`: a client is in exactly one of the three situations
-/

namespace Kimserver

/-- `channel_t`. -/
structure ChannelMsg where
  fd : ℕ
  family : ℤ
  codec : ℤ
  isSystem : ℤ

/-- `chanel_resend_data_t`. -/
structure ResendData where
  ch : ChannelMsg
  count : ℤ := 0

/-- `EAGAIN`. -/
def eagain : ℤ := 11

/-- The workers, `m_wait_send_fds` and the files of the manager; and the clients that were
accepted, and those that were sent, each with the channel. -/
structure TransferNet where
  workers : WorkerDataMgr := {}
  waitSendFds : List ResendData := []
  gateCodec : ℤ := 0
  fds : FdTable := {}
  clients : List ℕ := []
  delivered : List (ℕ × ℤ) := []

namespace TransferNet

section Functions

variable (s : TransferNet)

/-- `close_fd`. -/
def closeFd (fd : ℕ) : TransferNet := { s with fds := s.fds.closeFd fd }

/-- `get_next_worker_data_fd`. -/
def getNextWorkerDataFd : ℤ × TransferNet :=
  let (chanelFd, workers) := s.workers.getNextWorkerDataFd
  (chanelFd, { s with workers })

/-- `write_channel` with the result `err`: the file under the number is sent when it succeeds. -/
def writeChannel (chanelFd : ℤ) (ch : ChannelMsg) (err : ℤ) : TransferNet :=
  if err = 0 then
    match s.fds.file ch.fd with
    | none => s
    | some f => { s with delivered := s.delivered ++ [(f, chanelFd)] }
  else s

/-- `accept_and_transfer_fd`; the new file gets the number `hint` if it is free. -/
def acceptAndTransferFd (hint : ℕ) (family err : ℤ) : TransferNet :=
  let fd := s.fds.nextFd hint
  let s := { s with fds := s.fds.openFd hint, clients := s.clients ++ [s.fds.issued] }
  let (chanelFd, s) := s.getNextWorkerDataFd
  if chanelFd ≤ 0 then s.closeFd fd
  else
    let ch := { fd, family, codec := s.gateCodec, isSystem := 0 }
    let s := s.writeChannel chanelFd ch err
    if err = eagain then { s with waitSendFds := s.waitSendFds ++ [{ ch }] }
    else s.closeFd fd

/-- The loop of `check_wait_send_fds` over the rest of the list: the entries that stay, and the
state. `errs` has the results of `write_channel`. -/
def resend : List ResendData → List ℤ → TransferNet → List ResendData × TransferNet
  | [], _, s => ([], s)
  | data :: rest, errs, s =>
    let (chanelFd, s) := s.getNextWorkerDataFd
    if chanelFd ≤ 0 then (data :: rest, s)
    else
      let err := errs.headD eagain
      let s := s.writeChannel chanelFd data.ch err
      if err = eagain ∧ data.count + 1 < 3 then
        let (kept, s) := resend rest errs.tail s
        ({ data with count := data.count + 1 } :: kept, s)
      else resend rest errs.tail (s.closeFd data.ch.fd)

/-- `check_wait_send_fds`. -/
def checkWaitSendFds (errs : List ℤ) : TransferNet :=
  let (kept, s) := resend s.waitSendFds errs s
  { s with waitSendFds := kept }

end Functions

end TransferNet

/-- What happens to the manager. -/
inductive TransferEvent
  | accept (hint : ℕ) (family err : ℤ)
  | repeatTimer (errs : List ℤ)
  | addWorker (index : ℤ) (pid : ℕ) (ctrlFd dataFd : ℤ) (addr : ℕ) (order : List ℕ)
  | delWorker (pid : ℕ)
  /-- the process opens another file -/
  | openOther (hint : ℕ)
  /-- the process closes another file -/
  | closeOther (fd : ℕ)

namespace TransferNet

/-- A number of a client. -/
def IsClient (s : TransferNet) (fd : ℕ) : Prop := ∃ f ∈ s.clients, s.fds.file fd = some f

instance (s : TransferNet) (fd : ℕ) : Decidable (s.IsClient fd) :=
  inferInstanceAs (Decidable (∃ f ∈ s.clients, s.fds.file fd = some f))

/-- One event. The rest of the process does not close the descriptors of clients. -/
def step (s : TransferNet) : TransferEvent → TransferNet
  | .accept hint family err => s.acceptAndTransferFd hint family err
  | .repeatTimer errs => s.checkWaitSendFds errs
  | .addWorker index pid ctrlFd dataFd addr order =>
    { s with workers := s.workers.addWorkerInfo index pid ctrlFd dataFd addr order }
  | .delWorker pid => { s with workers := (s.workers.delWorkerInfo pid).2 }
  | .openOther hint => { s with fds := s.fds.openFd hint }
  | .closeOther fd => if s.IsClient fd then s else s.closeFd fd

end TransferNet

/-- The runs of a manager. -/
def transferMachine : Machine TransferNet TransferEvent := ⟨TransferNet.step⟩

/-- The situations of a client. -/
inductive Standing
  | waiting
  | handedOver
  | givenUp

namespace TransferNet

/-- The client waits: it is open, once in the list, with a count below three, and was not sent. It
is handed over: it was sent once, and closed once. It is given up: it was closed once, and not
sent. A client that is closed is under no number. -/
def Stands (s : TransferNet) (f : ℕ) : Standing → Prop
  | .waiting => f ∉ s.fds.closed ∧ f ∉ s.delivered.map Prod.fst ∧ ∃ fd, s.fds.file fd = some f ∧
      ∃ data, s.waitSendFds.filter (·.ch.fd = fd) = [data] ∧ data.count < 3
  | .handedOver => s.fds.closed.count f = 1 ∧ (s.delivered.map Prod.fst).count f = 1 ∧
      ∀ fd, s.fds.file fd ≠ some f
  | .givenUp => s.fds.closed.count f = 1 ∧ f ∉ s.delivered.map Prod.fst ∧
      ∀ fd, s.fds.file fd ≠ some f

variable {s : TransferNet} {held : List ℕ} {fd f : ℕ}

/-! ## The descriptors that the manager keeps -/

/-- `held` lists the numbers of the clients that are open, and what was sent was closed. -/
structure Kept (held : List ℕ) (s : TransferNet) : Prop where
  sound : s.fds.Sound
  issued : ∀ f ∈ s.clients, f < s.fds.issued
  nodup : held.Nodup
  mem : ∀ fd, fd ∈ held ↔ s.IsClient fd
  once : (s.delivered.map Prod.fst).Nodup
  closed : ∀ f ∈ s.delivered.map Prod.fst, f ∈ s.fds.closed

theorem kept_empty : Kept [] {} where
  sound := FdTable.sound_empty
  issued _ h := absurd h List.not_mem_nil
  nodup := List.nodup_nil
  mem fd := by simp [IsClient]
  once := List.nodup_nil
  closed _ h := absurd h List.not_mem_nil

theorem Kept.perm {held' : List ℕ} (h : s.Kept held) (hp : held'.Perm held) : s.Kept held' :=
  { h with nodup := hp.nodup_iff.mpr h.nodup, mem := fun fd => hp.mem_iff.trans (h.mem fd) }

/-- The workers do not matter. -/
theorem Kept.congr {s' : TransferNet} (h : s.Kept held) (hfds : s'.fds = s.fds)
    (hclients : s'.clients = s.clients) (hdelivered : s'.delivered = s.delivered) :
    s'.Kept held := by
  have hmem : ∀ fd, s'.IsClient fd ↔ s.IsClient fd := fun fd => by
    unfold IsClient
    rw [hfds, hclients]
  exact ⟨hfds ▸ h.sound, by rw [hfds, hclients]; exact h.issued, h.nodup,
    fun fd => (h.mem fd).trans (hmem fd).symm, by rw [hdelivered]; exact h.once,
    by rw [hfds, hdelivered]; exact h.closed⟩

/-- A client is accepted. -/
theorem Kept.accept (h : s.Kept held) (hint : ℕ) :
    Kept (s.fds.nextFd hint :: held)
      { s with fds := s.fds.openFd hint, clients := s.clients ++ [s.fds.issued] } where
  sound := h.sound.openFd hint
  issued f hf := by
    obtain hf | hf := List.mem_append.mp hf
    · exact Nat.lt_succ_of_lt (h.issued f hf)
    · obtain rfl := List.mem_singleton.mp hf
      exact Nat.lt_succ_self _
  nodup := by
    refine List.nodup_cons.mpr ⟨fun hmem => ?_, h.nodup⟩
    obtain ⟨f, -, hf⟩ := (h.mem _).mp hmem
    rw [FdTable.file_nextFd] at hf
    cases hf
  mem fd := by
    rw [List.mem_cons, h.mem]
    unfold IsClient
    simp only [FdTable.file_openFd]
    split_ifs with heq
    · exact iff_of_true (Or.inl heq) ⟨_, List.mem_append_right _ (List.mem_singleton_self _), rfl⟩
    · simp only [heq, false_or]
      constructor
      · rintro ⟨f, hf, hfd⟩
        exact ⟨f, List.mem_append_left _ hf, hfd⟩
      · rintro ⟨f, hf, hfd⟩
        obtain hf | hf := List.mem_append.mp hf
        · exact ⟨f, hf, hfd⟩
        · obtain rfl := List.mem_singleton.mp hf
          exact absurd (h.sound.issued hfd) (Nat.lt_irrefl _)
  once := h.once
  closed := h.closed

/-- **A client is sent or not, and closed**: it is no longer kept, and was sent at most once. -/
theorem Kept.finish (h : s.Kept (fd :: held)) (chanelFd : ℤ) (ch : ChannelMsg) (hch : ch.fd = fd)
    (err : ℤ) : ((s.writeChannel chanelFd ch err).closeFd fd).Kept held := by
  obtain ⟨hnot, hnodup⟩ := List.nodup_cons.mp h.nodup
  obtain ⟨f, hf, hfd⟩ := (h.mem fd).mp List.mem_cons_self
  have hfree : f ∉ s.delivered.map Prod.fst :=
    fun hmem => h.sound.not_closed hfd (h.closed f hmem)
  -- the write changes no table, it only delivers the client
  have hfds : (s.writeChannel chanelFd ch err).fds = s.fds := by
    unfold writeChannel
    split_ifs
    · rw [hch, hfd]
    · rfl
  have hclients : (s.writeChannel chanelFd ch err).clients = s.clients := by
    unfold writeChannel
    split_ifs
    · rw [hch, hfd]
    · rfl
  have hdelivered : (s.writeChannel chanelFd ch err).delivered =
      s.delivered ++ if err = 0 then [(f, chanelFd)] else [] := by
    unfold writeChannel
    split_ifs
    · rw [hch, hfd]
    · exact (List.append_nil _).symm
  -- the copy of this process is closed
  constructor
  · change ((s.writeChannel chanelFd ch err).fds.closeFd fd).Sound
    rw [hfds]
    exact h.sound.closeFd fd
  · intro f' hf'
    change f' < ((s.writeChannel chanelFd ch err).fds.closeFd fd).issued
    rw [hfds, FdTable.closeFd_issued]
    exact h.issued f' (hclients ▸ hf')
  · exact hnodup
  · intro fd'
    change _ ↔ ∃ f' ∈ (s.writeChannel chanelFd ch err).clients,
      ((s.writeChannel chanelFd ch err).fds.closeFd fd).file fd' = some f'
    rw [hclients, hfds]
    simp only [FdTable.file_closeFd]
    have hmem := h.mem fd'
    rw [List.mem_cons] at hmem
    split_ifs with heq
    · subst heq
      exact iff_of_false hnot (by simp)
    · rw [← or_iff_right (b := fd' ∈ held) heq]
      exact hmem
  · change ((s.writeChannel chanelFd ch err).delivered.map Prod.fst).Nodup
    rw [hdelivered, List.map_append]
    split_ifs
    · exact List.nodup_append.mpr ⟨h.once, List.nodup_singleton _, by
        rintro x hx y hy rfl
        have hxf : x = f := List.mem_singleton.mp hy
        exact hfree (hxf ▸ hx)⟩
    · rw [List.map_nil, List.append_nil]
      exact h.once
  · intro f' hf'
    change f' ∈ ((s.writeChannel chanelFd ch err).fds.closeFd fd).closed
    change f' ∈ (s.writeChannel chanelFd ch err).delivered.map Prod.fst at hf'
    rw [hfds, FdTable.mem_closed_closeFd]
    rw [hdelivered, List.map_append, List.mem_append] at hf'
    obtain hold | hnew := hf'
    · exact Or.inl (h.closed f' hold)
    · right
      split_ifs at hnew
      · rw [List.map_cons, List.map_nil, List.mem_singleton] at hnew
        rw [hnew]
        exact hfd
      · exact absurd hnew List.not_mem_nil

theorem Kept.getNext (h : s.Kept held) : s.getNextWorkerDataFd.2.Kept held := h.congr rfl rfl rfl

/-- A result that is not a success sends nothing. -/
theorem writeChannel_of_ne (s : TransferNet) (chanelFd : ℤ) (ch : ChannelMsg) {err : ℤ}
    (herr : err ≠ 0) : s.writeChannel chanelFd ch err = s := if_neg herr

/-! ## The list -/

/-- The entries of `m_wait_send_fds` are the clients that are open, each tried less than three
times. -/
structure Listed (s : TransferNet) : Prop where
  kept : s.Kept (s.waitSendFds.map (·.ch.fd))
  count : ∀ data ∈ s.waitSendFds, data.count < 3

theorem listed_empty : Listed {} := ⟨kept_empty, fun _ h => absurd h List.not_mem_nil⟩

theorem Listed.acceptAndTransferFd (h : s.Listed) (hint : ℕ) (family err : ℤ) :
    (s.acceptAndTransferFd hint family err).Listed := by
  -- the state before the channel is written
  obtain ⟨t, ht⟩ : ∃ t, t = (getNextWorkerDataFd { s with
      fds := s.fds.openFd hint, clients := s.clients ++ [s.fds.issued] }).2 := ⟨_, rfl⟩
  have hkept : t.Kept (s.fds.nextFd hint :: s.waitSendFds.map (·.ch.fd)) := by
    rw [ht]
    exact (h.kept.accept hint).getNext
  have hwaits : t.waitSendFds = s.waitSendFds := by
    rw [ht]
    rfl
  unfold TransferNet.acceptAndTransferFd
  dsimp only
  rw [← ht]
  split_ifs with hfd heagain
  · have hfinish := hkept.finish 0 ⟨s.fds.nextFd hint, 0, 0, 0⟩ rfl (-1)
    rw [writeChannel_of_ne _ _ _ (by decide)] at hfinish
    refine ⟨?_, ?_⟩
    · rw [show (t.closeFd _).waitSendFds = s.waitSendFds from hwaits]
      exact hfinish
    · rw [show (t.closeFd _).waitSendFds = s.waitSendFds from hwaits]
      exact h.count
  · rw [writeChannel_of_ne _ _ _ (by rw [heagain]; decide)]
    refine ⟨?_, fun data hdata => ?_⟩
    · refine Kept.congr (hkept.perm ?_) rfl rfl rfl
      rw [hwaits, List.map_append]
      exact List.perm_append_singleton _ _
    · obtain hdata | hdata := List.mem_append.mp hdata
      · exact h.count data (hwaits ▸ hdata)
      · obtain rfl := List.mem_singleton.mp hdata
        change (0 : ℤ) < 3
        decide
  · have hwrite : ∀ chanelFd ch, (t.writeChannel chanelFd ch err).waitSendFds =
        s.waitSendFds := by
      intro chanelFd ch
      rw [← hwaits]
      unfold writeChannel
      split_ifs
      · split <;> rfl
      · rfl
    refine ⟨?_, ?_⟩
    · change Kept ((t.writeChannel _ _ err).waitSendFds.map _) _
      rw [hwrite]
      exact hkept.finish _ _ rfl err
    · change ∀ data ∈ (t.writeChannel _ _ err).waitSendFds, _
      rw [hwrite]
      exact h.count

/-- **The loop of `check_wait_send_fds`**, after the entries of `pre`: what stays is what is still
open. -/
theorem Kept.resend {rest : List ResendData} (pre : List ℕ) (errs : List ℤ)
    (h : s.Kept (pre ++ rest.map (·.ch.fd))) (hcount : ∀ data ∈ rest, data.count < 3) :
    (TransferNet.resend rest errs s).2.Kept
        (pre ++ (TransferNet.resend rest errs s).1.map (·.ch.fd)) ∧
      ∀ data ∈ (TransferNet.resend rest errs s).1, data.count < 3 := by
  induction rest generalizing s pre errs with
  | nil => exact ⟨h, hcount⟩
  | cons data rest ih =>
    have hcount' : ∀ d ∈ rest, d.count < 3 := fun d hd => hcount d (List.mem_cons_of_mem _ hd)
    rw [TransferNet.resend]
    dsimp only
    split_ifs with hfd hagain
    · -- there is no worker
      exact ⟨h.getNext, hcount⟩
    · -- the entry stays
      rw [writeChannel_of_ne _ _ _ (by rw [hagain.1]; decide)]
      have hnext : s.getNextWorkerDataFd.2.Kept
          ((pre ++ [data.ch.fd]) ++ rest.map (·.ch.fd)) := by
        rw [List.append_assoc]
        exact h.getNext
      obtain ⟨hkept, hkeptCount⟩ := ih _ errs.tail hnext hcount'
      refine ⟨?_, fun d hd => ?_⟩
      · rw [List.append_assoc] at hkept
        exact hkept
      · obtain rfl | hd := List.mem_cons.mp hd
        · exact hagain.2
        · exact hkeptCount d hd
    · -- the entry goes
      refine ih pre errs.tail (Kept.finish ?_ _ data.ch rfl _) hcount'
      exact h.getNext.perm List.perm_middle.symm

theorem Listed.checkWaitSendFds (h : s.Listed) (errs : List ℤ) :
    (s.checkWaitSendFds errs).Listed := by
  obtain ⟨hkept, hcount⟩ := Kept.resend [] errs h.kept h.count
  exact ⟨hkept.congr rfl rfl rfl, hcount⟩

/-- Another file is opened. -/
theorem Kept.openOther (h : s.Kept held) (hint : ℕ) :
    Kept held { s with fds := s.fds.openFd hint } := by
  refine ⟨h.sound.openFd hint, fun f hf => Nat.lt_succ_of_lt (h.issued f hf), h.nodup,
    fun fd => ?_, h.once, h.closed⟩
  rw [h.mem]
  unfold IsClient
  simp only [FdTable.file_openFd]
  split_ifs with heq
  · refine iff_of_false ?_ ?_
    · rintro ⟨f, -, hf⟩
      rw [heq, FdTable.file_nextFd] at hf
      cases hf
    · rintro ⟨f, hf, hnew⟩
      obtain rfl := Option.some.inj hnew
      exact absurd (h.issued _ hf) (Nat.lt_irrefl _)
  · rfl

/-- Another file is closed. -/
theorem Kept.closeOther (h : s.Kept held) (hfd : ¬ s.IsClient fd) : (s.closeFd fd).Kept held := by
  refine ⟨h.sound.closeFd fd, fun f hf => ?_, h.nodup, fun fd' => ?_, h.once, fun f hf => ?_⟩
  · change f < (s.fds.closeFd fd).issued
    rw [FdTable.closeFd_issued]
    exact h.issued f hf
  · rw [h.mem]
    change _ ↔ ∃ f ∈ s.clients, (s.fds.closeFd fd).file fd' = some f
    simp only [FdTable.file_closeFd]
    split_ifs with heq
    · rw [heq]
      exact iff_of_false hfd (by simp)
    · rfl
  · exact (FdTable.mem_closed_closeFd s.fds fd f).mpr (Or.inl (h.closed f hf))

/-- **Every event** keeps the list. -/
theorem Listed.step (h : s.Listed) (e : TransferEvent) : (s.step e).Listed := by
  cases e with
  | accept hint family err => exact h.acceptAndTransferFd hint family err
  | repeatTimer errs => exact h.checkWaitSendFds errs
  | addWorker => exact ⟨h.kept.congr rfl rfl rfl, h.count⟩
  | delWorker => exact ⟨h.kept.congr rfl rfl rfl, h.count⟩
  | openOther hint => exact ⟨h.kept.openOther hint, h.count⟩
  | closeOther fd =>
    simp only [TransferNet.step]
    split_ifs with hclient
    · exact h
    · exact ⟨h.kept.closeOther hclient, h.count⟩

/-- An entry of a list without two equal keys is the only one with its key. -/
theorem filter_eq_singleton {l : List ResendData} (h : (l.map (·.ch.fd)).Nodup) {data : ResendData}
    (hdata : data ∈ l) : l.filter (·.ch.fd = data.ch.fd) = [data] := by
  induction l with
  | nil => cases hdata
  | cons d l ih =>
    obtain ⟨hnot, hnodup⟩ := List.nodup_cons.mp h
    obtain rfl | hdata := List.mem_cons.mp hdata
    · rw [List.filter_cons, if_pos (by simp), List.filter_eq_nil_iff.mpr]
      intro d' hd' heq
      exact hnot (List.mem_map.mpr ⟨d', hd', of_decide_eq_true heq⟩)
    · rw [List.filter_cons, if_neg, ih hnodup hdata]
      intro heq
      exact hnot (List.mem_map.mpr ⟨data, hdata, (of_decide_eq_true heq).symm⟩)

/-- A client is in one of the situations, and in no other. -/
theorem Listed.stands (h : s.Listed) (hf : f ∈ s.clients) : ∃! sit, s.Stands f sit := by
  obtain ⟨hcount, hgone⟩ | ⟨hopen, fd, hfd⟩ :=
    h.kept.sound.closed_or_open (h.kept.issued f hf)
  · have hclosed : f ∈ s.fds.closed := List.count_pos_iff.mp (by omega)
    by_cases hsent : f ∈ s.delivered.map Prod.fst
    · refine ⟨.handedOver, ⟨hcount, List.count_eq_one_of_mem h.kept.once hsent, hgone⟩, ?_⟩
      intro sit hsit
      cases sit with
      | waiting => exact absurd hclosed hsit.1
      | handedOver => rfl
      | givenUp => exact absurd hsent hsit.2.1
    · refine ⟨.givenUp, ⟨hcount, hsent, hgone⟩, ?_⟩
      intro sit hsit
      cases sit with
      | waiting => exact absurd hclosed hsit.1
      | handedOver => exact absurd (List.count_pos_iff.mp (by have := hsit.2.1; omega)) hsent
      | givenUp => rfl
  · have hsent : f ∉ s.delivered.map Prod.fst := fun hmem => hopen (h.kept.closed f hmem)
    obtain ⟨data, hdata, heq⟩ := List.mem_map.mp ((h.kept.mem fd).mpr ⟨f, hf, hfd⟩)
    subst heq
    refine ⟨.waiting, ⟨hopen, hsent, data.ch.fd, hfd, data,
      filter_eq_singleton h.kept.nodup hdata, h.count data hdata⟩, ?_⟩
    intro sit hsit
    cases sit with
    | waiting => rfl
    | handedOver => exact absurd (List.count_pos_iff.mp (by have := hsit.1; omega)) hopen
    | givenUp => exact absurd (List.count_pos_iff.mp (by have := hsit.1; omega)) hopen

end TransferNet

/-- **A client is handed over at most once, and never kept**: in every run of the manager, each
client that was accepted waits, is handed over, or is given up, and only one of the three. -/
theorem client_stands (es : List TransferEvent) (f : ℕ)
    (hf : f ∈ (transferMachine.run {} es).clients) :
    ∃! sit, (transferMachine.run {} es).Stands f sit := by
  have hlisted : (transferMachine.run {} es).Listed :=
    transferMachine.run_invariant (fun _ e h => h.step e) TransferNet.listed_empty es
  exact hlisted.stands hf

/-- A client waits for a worker whose channel is full. -/
theorem client_stands_full :
    ∃! sit, (transferMachine.run {} [.addWorker 1 7 5 6 0 [7], .accept 9 2 eagain]).Stands 0 sit :=
  client_stands [.addWorker 1 7 5 6 0 [7], .accept 9 2 eagain] 0 (by decide)

end Kimserver
