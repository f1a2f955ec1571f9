import Kimserver.Lib.FdTable
import Kimserver.Lib.Heap
import Kimserver.Lib.Machine

/-!
# The owners of descriptors

`Network` gets descriptors in five ways: it accepts the connections of other nodes, a worker reads
the descriptors that the manager sends and connects to other nodes, and a manager listens to its
ports and makes the channels of its workers. A descriptor is registered with `add_read_event`,
which fails in several places: before there is a connection it leaves the descriptor open, where
the connection cannot be allocated it closes it, and where the watcher cannot be allocated it
leaves the connection in `m_conns`. Each caller then cleans up in its own way.

Which numbers the system hands out and which step fails are part of an event. A file is known by
the order in which it was opened, so that a number that is given out again is another file.

## Main definitions

* `RegisterStep`, `DescNet`: the steps of a registration, and the descriptors and connections
* `DescNet.createConn`, `DescNet.closeConn`, `DescNet.addReadEvent`: the functions
* `DescNet.acceptTurn`, `DescNet.transferTurn`, `DescNet.autoSend`, `DescNet.listen`,
  `DescNet.createWorker`: the callers
* `DescNet.Accounted`: a descriptor has one owner, or was closed once
* `DescNet.Clean`: the steps after whose failure the caller cleans up

## Main results

* `DescNet.Orderly`: the open descriptors without an owner, which every function changes by one
* `descriptors_accounted_iff`: every descriptor is accounted for exactly where the failures are clean
-/

namespace Kimserver

/-- The steps of `add_read_event` that can fail. -/
inductive RegisterStep
  /-- `anet_no_block` -/
  | noBlock
  /-- `anet_keep_alive` -/
  | keepAlive
  /-- `anet_set_tcp_no_delay` -/
  | noDelay
  /-- `create_conn` -/
  | conn
  /-- `m_events->add_read_event` -/
  | watcher
  deriving DecidableEq

/-- The steps of `auto_send` that can fail after the connect. -/
inductive AutoStep
  | conn
  | keepAlive
  | noDelay
  | readWatcher
  | writeWatcher
  /-- `conn_write_waiting` -/
  | waiting
  /-- `add_io_timer` -/
  | timer
  deriving DecidableEq

/-- How far `create_worker` comes. -/
inductive WorkerStep
  /-- the first `socketpair` fails -/
  | noCtrl
  /-- the second `socketpair` fails -/
  | noData
  /-- `fork` fails -/
  | noFork
  /-- the channels are registered, with the steps that fail -/
  | forked (ctrlFail dataFail : Option RegisterStep)
  deriving DecidableEq

/-- A connection: its `fd_t`, and the file that it was made for. -/
structure ConnObj where
  fd : ℕ
  id : ℕ
  file : Option ℕ
  deriving DecidableEq

/-- The files of the process, `m_seq` and how many numbers were taken, `m_conns`, and the
connections in the order in which they were made. `obtained` lists the files that were obtained as
descriptors of connections, and `misses` the numbers that were closed while they were not in
use. -/
structure DescNet where
  fds : FdTable := {}
  seq : ℕ := 0
  issued : ℕ := 0
  conns : FiniteMap ℕ ℕ := ∅
  objs : List ConnObj := []
  obtained : List ℕ := []
  misses : List ℕ := []

namespace DescNet

section Functions

variable (s : DescNet)

/-- The system hands a descriptor out. -/
def obtain (hint : ℕ) : ℕ × DescNet :=
  (s.fds.nextFd hint, { s with fds := s.fds.openFd hint, obtained := s.obtained ++ [s.fds.issued] })

/-- `close_fd`. -/
def closeFd (fd : ℕ) : DescNet :=
  match s.fds.file fd with
  | none => { s with misses := s.misses ++ [fd] }
  | some _ => { s with fds := s.fds.closeFd fd }

/-- `new_seq`. -/
def newSeq : DescNet :=
  { s with seq := (s.seq + 1) % 18446744073709551616, issued := s.issued + 1 }

/-- `close_conn`. -/
def closeConn (fd : ℕ) : DescNet :=
  match s.conns.lookup fd with
  | none => s
  | some _ =>
    let s := s.closeFd fd
    { s with conns := s.conns.erase fd }

/-- A connection for the descriptor, with the next number. -/
def withConn (fd : ℕ) : DescNet :=
  let s := s.newSeq
  { s with
    conns := s.conns.insert fd s.objs.length
    objs := s.objs ++ [{ fd, id := s.seq, file := s.fds.file fd }] }

/-- `create_conn`; `fails` says whether the allocation fails. -/
def createConn (fd : ℕ) (fails : Bool) : Option ℕ × DescNet :=
  let s := if (s.conns.lookup fd).isSome then s.closeConn fd else s
  if fails then (none, s.newSeq) else (some s.objs.length, s.withConn fd)

/-- `add_read_event`. -/
def addReadEvent (fd : ℕ) (isChanel : Bool) (fail : Option RegisterStep) : Option ℕ × DescNet :=
  if fail = some .noBlock then (none, s)
  else if isChanel = false ∧ (fail = some .keepAlive ∨ fail = some .noDelay) then (none, s)
  else
    match s.createConn fd (fail = some .conn) with
    | (none, s) => (none, s.closeFd fd)
    | (some c, s) => if fail = some .watcher then (none, s) else (some c, s)

/-- One turn of the loop of `accept_server_conn`. -/
def acceptTurn (hint : ℕ) (fail : Option RegisterStep) : DescNet :=
  let (fd, s) := s.obtain hint
  match s.addReadEvent fd false fail with
  | (none, s) => s.closeConn fd
  | (some _, s) => s

/-- One turn of the loop of `read_transfer_fd`; `timer` says whether `add_io_timer` succeeds. -/
def transferTurn (hint : ℕ) (fail : Option RegisterStep) (timer : Bool) : DescNet :=
  let (fd, s) := s.obtain hint
  match s.addReadEvent fd false fail with
  | (none, s) => s.closeConn fd
  | (some _, s) => if timer then s else s.closeConn fd

/-- `auto_send` after the connect. `add_io_timer` closes the connection itself when it fails. -/
def autoSend (hint : ℕ) (fail : Option AutoStep) : DescNet :=
  let (fd, s) := s.obtain hint
  match s.createConn fd (fail = some .conn) with
  | (none, s) => s.closeFd fd
  | (some _, s) =>
    match fail with
    | none => s
    | some .timer => (s.closeConn fd).closeConn fd
    | some _ => s.closeConn fd

/-- `create_m` for one port; `listenFail` says whether `anet_no_block` fails in
`listen_to_port`. -/
def listen (hint : ℕ) (listenFail : Bool) (fail : Option RegisterStep) : DescNet :=
  let (fd, s) := s.obtain hint
  if listenFail then s.closeFd fd
  else
    match s.addReadEvent fd false fail with
    | (none, s) => s.closeFd fd
    | (some _, s) => s

/-- `close_chanel`. -/
def closeChanel (fd₀ fd₁ : ℕ) : DescNet := (s.closeFd fd₀).closeFd fd₁

/-- The ends of the channels that `create_worker` registers in the parent. -/
def registerChanels (ctrl₀ data₀ : ℕ) (ctrlFail dataFail : Option RegisterStep) : DescNet :=
  match s.addReadEvent ctrl₀ true ctrlFail with
  | (none, s) => (s.closeConn ctrl₀).closeConn data₀
  | (some _, s) =>
    match s.addReadEvent data₀ true dataFail with
    | (none, s) => (s.closeConn ctrl₀).closeConn data₀
    | (some _, s) => s

/-- `create_worker`, in the parent. -/
def createWorker (hint₀ hint₁ hint₂ hint₃ : ℕ) : WorkerStep → DescNet
  | .noCtrl => s
  | .noData =>
    let (ctrl₀, s) := s.obtain hint₀
    let (ctrl₁, s) := s.obtain hint₁
    s.closeChanel ctrl₀ ctrl₁
  | .noFork =>
    let (ctrl₀, s) := s.obtain hint₀
    let (ctrl₁, s) := s.obtain hint₁
    let (data₀, s) := s.obtain hint₂
    let (data₁, s) := s.obtain hint₃
    (s.closeChanel data₀ data₁).closeChanel ctrl₀ ctrl₁
  | .forked ctrlFail dataFail =>
    let (ctrl₀, s) := s.obtain hint₀
    let (ctrl₁, s) := s.obtain hint₁
    let (data₀, s) := s.obtain hint₂
    let (data₁, s) := s.obtain hint₃
    ((s.closeFd ctrl₁).closeFd data₁).registerChanels ctrl₀ data₀ ctrlFail dataFail

end Functions

end DescNet

/-- What happens to the descriptors of a process. -/
inductive DescEvent
  | acceptTurn (hint : ℕ) (fail : Option RegisterStep)
  | transferTurn (hint : ℕ) (fail : Option RegisterStep) (timer : Bool)
  | autoSend (hint : ℕ) (fail : Option AutoStep)
  | listen (hint : ℕ) (listenFail : Bool) (fail : Option RegisterStep)
  | createWorker (hint₀ hint₁ hint₂ hint₃ : ℕ) (out : WorkerStep)
  /-- a connection is closed: by the peer, by an error, or by a timer -/
  | closeConn (fd : ℕ)
  /-- a number is given to something else -/
  | newSeq
  /-- the process opens another file -/
  | openOther (hint : ℕ)
  /-- the process closes another file -/
  | closeOther (fd : ℕ)

namespace DescNet

section Events

variable (s : DescNet)

/-- The number belongs to a descriptor of a connection. -/
def IsObtained (fd : ℕ) : Prop := ∃ f ∈ s.obtained, s.fds.file fd = some f

instance (fd : ℕ) : Decidable (s.IsObtained fd) :=
  inferInstanceAs (Decidable (∃ f ∈ s.obtained, s.fds.file fd = some f))

/-- Another file is opened. -/
def openOther (hint : ℕ) : DescNet := { s with fds := s.fds.openFd hint }

/-- Another file is closed. -/
def closeOther (fd : ℕ) : DescNet :=
  if s.IsObtained fd then s else { s with fds := s.fds.closeFd fd }

/-- One event. -/
def step : DescEvent → DescNet
  | .acceptTurn hint fail => s.acceptTurn hint fail
  | .transferTurn hint fail timer => s.transferTurn hint fail timer
  | .autoSend hint fail => s.autoSend hint fail
  | .listen hint listenFail fail => s.listen hint listenFail fail
  | .createWorker hint₀ hint₁ hint₂ hint₃ out => s.createWorker hint₀ hint₁ hint₂ hint₃ out
  | .closeConn fd => s.closeConn fd
  | .newSeq => s.newSeq
  | .openOther hint => s.openOther hint
  | .closeOther fd => s.closeOther fd

/-- The file is open under the descriptor of exactly one entry of `m_conns`. -/
def Owned (f : ℕ) : Prop := ∃! fd, ∃ o c, s.conns.lookup fd = some o ∧ s.objs[o]? = some c ∧
  s.fds.file c.fd = some f

/-- Every descriptor that was obtained has one owner or was closed, once; no number was closed
while it was not in use; and no entry of `m_conns` is for a descriptor that is closed. -/
structure Accounted : Prop where
  owned : ∀ f ∈ s.obtained, (f ∉ s.fds.closed ∧ s.Owned f) ∨ s.fds.closed.count f = 1
  once : s.misses = []
  live : ∀ {fd o : ℕ}, s.conns.lookup fd = some o → ∃ f, s.fds.file fd = some f

end Events

/-- The failures after which the caller closes what `add_read_event` left open, and nothing
else. -/
def Clean : DescEvent → Prop
  | .acceptTurn _ fail => fail ≠ some .noBlock ∧ fail ≠ some .keepAlive ∧ fail ≠ some .noDelay
  | .transferTurn _ fail _ => fail ≠ some .noBlock ∧ fail ≠ some .keepAlive ∧ fail ≠ some .noDelay
  | .listen _ listenFail fail => listenFail = false → fail ≠ some .conn ∧ fail ≠ some .watcher
  | .createWorker _ _ _ _ (.forked ctrlFail dataFail) =>
    (ctrlFail ≠ some .noBlock ∧ ctrlFail ≠ some .conn ∧ ctrlFail ≠ some .watcher) ∧
      dataFail ≠ some .noBlock
  | _ => True

end DescNet

/-- The runs of a process. -/
def descMachine : Machine DescNet DescEvent := ⟨DescNet.step⟩

namespace DescNet

variable {s : DescNet} {loose : List ℕ} {fd f : ℕ}

/-! ## The descriptors without an owner -/

/-- `loose` lists the descriptors that are open and have no entry in `m_conns`, and every entry is
for the file that its connection was made for. -/
structure Orderly (loose : List ℕ) (s : DescNet) : Prop where
  sound : s.fds.Sound
  once : s.misses = []
  obtained : ∀ f ∈ s.obtained, f < s.fds.issued
  entry : ∀ {fd o : ℕ}, s.conns.lookup fd = some o → ∃ c f, s.objs[o]? = some c ∧ c.fd = fd ∧
    c.file = some f ∧ f ∈ s.obtained ∧ s.fds.file fd = some f
  nodup : loose.Nodup
  mem : ∀ fd, fd ∈ loose ↔ s.IsObtained fd ∧ s.conns.lookup fd = none

theorem orderly_empty : Orderly [] {} where
  sound := FdTable.sound_empty
  once := rfl
  obtained _ h := absurd h List.not_mem_nil
  entry h := by simp at h
  nodup := List.nodup_nil
  mem fd := by simp [IsObtained]

theorem Orderly.perm {loose' : List ℕ} (h : s.Orderly loose) (hp : loose'.Perm loose) :
    s.Orderly loose' :=
  { h with nodup := hp.nodup_iff.mpr h.nodup, mem := fun fd => hp.mem_iff.trans (h.mem fd) }

/-- A descriptor without an owner is open, and not in `m_conns`. -/
theorem Orderly.head (h : s.Orderly (fd :: loose)) :
    (∃ f ∈ s.obtained, s.fds.file fd = some f) ∧ s.conns.lookup fd = none :=
  (h.mem fd).mp List.mem_cons_self

theorem Orderly.newSeq (h : s.Orderly loose) : s.newSeq.Orderly loose :=
  ⟨h.sound, h.once, h.obtained, h.entry, h.nodup, h.mem⟩

/-- **A descriptor is obtained**: it has no owner. -/
theorem Orderly.obtain (h : s.Orderly loose) (hint : ℕ) :
    (s.obtain hint).2.Orderly ((s.obtain hint).1 :: loose) := by
  have hfile : ∀ fd, (s.obtain hint).2.fds.file fd =
      if fd = s.fds.nextFd hint then some s.fds.issued else s.fds.file fd :=
    fun fd => FdTable.file_openFd s.fds hint fd
  have hnone := FdTable.file_nextFd s.fds hint
  have hobtained : ∀ f, f ∈ (s.obtain hint).2.obtained ↔ f ∈ s.obtained ∨ f = s.fds.issued :=
    fun f => by simp [DescNet.obtain]
  have hfree : s.conns.lookup (s.fds.nextFd hint) = none := by
    cases hlookup : s.conns.lookup (s.fds.nextFd hint) with
    | none => rfl
    | some o =>
      obtain ⟨c, f, -, -, -, -, hfile⟩ := h.entry hlookup
      rw [hnone] at hfile
      cases hfile
  refine ⟨h.sound.openFd hint, h.once, fun f hf => ?_, fun {fd o} hlookup => ?_, ?_, fun fd => ?_⟩
  · rcases (hobtained f).mp hf with hold | rfl
    · exact Nat.lt_succ_of_lt (h.obtained f hold)
    · exact Nat.lt_succ_self _
  · obtain ⟨c, f, hc, hfd, hcf, hf, hopen⟩ := h.entry hlookup
    refine ⟨c, f, hc, hfd, hcf, (hobtained f).mpr (Or.inl hf), ?_⟩
    rw [hfile, if_neg]
    · exact hopen
    · rintro rfl
      rw [hnone] at hopen
      cases hopen
  · refine List.nodup_cons.mpr ⟨fun hmem => ?_, h.nodup⟩
    obtain ⟨⟨f, -, hf⟩, -⟩ := (h.mem _).mp hmem
    change s.fds.file (s.fds.nextFd hint) = some f at hf
    rw [hnone] at hf
    cases hf
  · change fd ∈ s.fds.nextFd hint :: loose ↔
      (∃ f ∈ (s.obtain hint).2.obtained, (s.obtain hint).2.fds.file fd = some f) ∧
        s.conns.lookup fd = none
    rw [List.mem_cons, h.mem]
    unfold IsObtained
    simp only [hfile, hobtained]
    split_ifs with heq
    · subst heq
      exact iff_of_true (Or.inl rfl) ⟨⟨_, Or.inr rfl, rfl⟩, hfree⟩
    · simp only [heq, false_or]
      refine and_congr_left fun _ => ?_
      constructor
      · rintro ⟨f, hf, hfd⟩
        exact ⟨f, Or.inl hf, hfd⟩
      · rintro ⟨f, hf | rfl, hfd⟩
        · exact ⟨f, hf, hfd⟩
        · exact absurd (h.sound.issued hfd) (Nat.lt_irrefl _)

/-- **A descriptor without an owner is closed.** -/
theorem Orderly.closeFd (h : s.Orderly (fd :: loose)) : (s.closeFd fd).Orderly loose := by
  obtain ⟨⟨f, hf, hfd⟩, hlookup⟩ := h.head
  obtain ⟨hnot, hnodup⟩ := List.nodup_cons.mp h.nodup
  have heq : s.closeFd fd = { s with fds := s.fds.closeFd fd } := by
    unfold DescNet.closeFd
    rw [hfd]
  rw [heq]
  refine ⟨h.sound.closeFd fd, h.once, fun f' hf' => ?_, fun {fd' o} hlookup' => ?_, hnodup,
    fun fd' => ?_⟩
  · rw [FdTable.closeFd_issued]
    exact h.obtained f' hf'
  · obtain ⟨c, f', hc, hcfd, hcf, hf', hopen⟩ := h.entry hlookup'
    refine ⟨c, f', hc, hcfd, hcf, hf', ?_⟩
    rw [FdTable.file_closeFd, if_neg]
    · exact hopen
    · rintro rfl
      rw [hlookup] at hlookup'
      cases hlookup'
  · have hmem := h.mem fd'
    rw [List.mem_cons] at hmem
    change _ ↔ (∃ f' ∈ s.obtained, (s.fds.closeFd fd).file fd' = some f') ∧ _
    simp only [FdTable.file_closeFd]
    split_ifs with hsame
    · subst hsame
      exact iff_of_false hnot (by simp)
    · rw [← or_iff_right (b := fd' ∈ loose) hsame]
      exact hmem

/-- **A descriptor gets a connection.** -/
theorem Orderly.withConn (h : s.Orderly (fd :: loose)) : (s.withConn fd).Orderly loose := by
  obtain ⟨⟨f, hf, hfd⟩, hlookup⟩ := h.head
  obtain ⟨hnot, hnodup⟩ := List.nodup_cons.mp h.nodup
  have hconns : ∀ fd', (s.withConn fd).conns.lookup fd' =
      if fd' = fd then some s.objs.length else s.conns.lookup fd' :=
    fun fd' => FiniteMap.lookup_insert ..
  refine ⟨h.sound, h.once, h.obtained, fun {fd' o} hlookup' => ?_, hnodup, fun fd' => ?_⟩
  · rw [hconns] at hlookup'
    split_ifs at hlookup' with hsame
    · obtain rfl := Option.some.inj hlookup'
      refine ⟨_, f, List.getElem?_concat_length, hsame.symm, hfd, hf, ?_⟩
      rw [hsame]
      exact hfd
    · obtain ⟨c, f', hc, hrest⟩ := h.entry hlookup'
      exact ⟨c, f', Heap.getElem?_snoc_of_some hc _, hrest⟩
  · have hmem := h.mem fd'
    rw [List.mem_cons] at hmem
    rw [hconns]
    split_ifs with hsame
    · subst hsame
      exact iff_of_false hnot (by simp)
    · rw [← or_iff_right (b := fd' ∈ loose) hsame]
      exact hmem

/-- A connection is closed with its descriptor. -/
theorem Orderly.closeConn (h : s.Orderly loose) (fd : ℕ) : (s.closeConn fd).Orderly loose := by
  unfold DescNet.closeConn
  cases hlookup : s.conns.lookup fd with
  | none => exact h
  | some o =>
    obtain ⟨c, f, hc, hcfd, hcf, hf, hopen⟩ := h.entry hlookup
    have heq : s.closeFd fd = { s with fds := s.fds.closeFd fd } := by
      unfold DescNet.closeFd
      rw [hopen]
    dsimp only
    rw [heq]
    refine ⟨h.sound.closeFd fd, h.once, fun f' hf' => ?_, fun {fd' o'} hlookup' => ?_, h.nodup,
      fun fd' => ?_⟩
    · rw [FdTable.closeFd_issued]
      exact h.obtained f' hf'
    · rw [FiniteMap.lookup_erase] at hlookup'
      split_ifs at hlookup' with hne
      obtain ⟨c', f', hc', hcfd', hcf', hf', hopen'⟩ := h.entry hlookup'
      refine ⟨c', f', hc', hcfd', hcf', hf', ?_⟩
      rw [FdTable.file_closeFd, if_neg hne]
      exact hopen'
    · rw [h.mem]
      change _ ↔ (∃ f' ∈ s.obtained, (s.fds.closeFd fd).file fd' = some f') ∧
        (s.conns.erase fd).lookup fd' = none
      simp only [FdTable.file_closeFd, FiniteMap.lookup_erase]
      split_ifs with hsame
      · subst hsame
        rw [hlookup]
        exact iff_of_false (by simp) (by simp)
      · rfl

theorem Orderly.openOther (h : s.Orderly loose) (hint : ℕ) : (s.openOther hint).Orderly loose := by
  have hfile : ∀ fd, (s.openOther hint).fds.file fd =
      if fd = s.fds.nextFd hint then some s.fds.issued else s.fds.file fd :=
    fun fd => FdTable.file_openFd s.fds hint fd
  have hnone := FdTable.file_nextFd s.fds hint
  refine ⟨h.sound.openFd hint, h.once, fun f hf => Nat.lt_succ_of_lt (h.obtained f hf),
    fun {fd o} hlookup => ?_, h.nodup, fun fd => ?_⟩
  · obtain ⟨c, f, hc, hfd, hcf, hf, hopen⟩ := h.entry hlookup
    refine ⟨c, f, hc, hfd, hcf, hf, ?_⟩
    rw [hfile, if_neg]
    · exact hopen
    · rintro rfl
      rw [hnone] at hopen
      cases hopen
  · rw [h.mem]
    refine and_congr_left fun _ => ?_
    unfold IsObtained
    simp only [hfile]
    split_ifs with heq
    · subst heq
      refine iff_of_false ?_ ?_
      · rintro ⟨f, -, hf⟩
        rw [hnone] at hf
        cases hf
      · rintro ⟨f, hf, hnew⟩
        obtain rfl := Option.some.inj hnew
        exact absurd (h.obtained _ hf) (Nat.lt_irrefl _)
    · rfl

theorem Orderly.closeOther (h : s.Orderly loose) (fd : ℕ) : (s.closeOther fd).Orderly loose := by
  unfold DescNet.closeOther
  split_ifs with hobtained
  · exact h
  · refine ⟨h.sound.closeFd fd, h.once, fun f hf => ?_, fun {fd' o} hlookup => ?_, h.nodup,
      fun fd' => ?_⟩
    · rw [FdTable.closeFd_issued]
      exact h.obtained f hf
    · obtain ⟨c, f, hc, hfd, hcf, hf, hopen⟩ := h.entry hlookup
      refine ⟨c, f, hc, hfd, hcf, hf, ?_⟩
      rw [FdTable.file_closeFd, if_neg]
      · exact hopen
      · rintro rfl
        exact hobtained ⟨f, hf, hopen⟩
    · rw [h.mem]
      refine and_congr_left fun _ => ?_
      change s.IsObtained fd' ↔ ∃ f ∈ s.obtained, (s.fds.closeFd fd).file fd' = some f
      simp only [FdTable.file_closeFd]
      split_ifs with heq
      · rw [heq]
        exact iff_of_false hobtained (by simp)
      · rfl

/-! ## The callers -/

/-- `add_read_event` leaves the descriptor as it is. -/
def Leaves (isChanel : Bool) (fail : Option RegisterStep) : Prop :=
  fail = some .noBlock ∨ isChanel = false ∧ (fail = some .keepAlive ∨ fail = some .noDelay)

instance (isChanel : Bool) (fail : Option RegisterStep) : Decidable (Leaves isChanel fail) :=
  inferInstanceAs (Decidable (_ ∨ _))

theorem createConn_of_free (hfree : s.conns.lookup fd = none) (fails : Bool) :
    s.createConn fd fails =
      if fails then (none, s.newSeq) else (some s.objs.length, s.withConn fd) := by
  unfold createConn
  rw [hfree]
  rfl

/-- **`add_read_event`** of a descriptor without a connection leaves it as it is, closes it, or
makes a connection. -/
theorem addReadEvent_cases (hfree : s.conns.lookup fd = none) (isChanel : Bool)
    (fail : Option RegisterStep) :
    (Leaves isChanel fail ∧ s.addReadEvent fd isChanel fail = (none, s)) ∨
    (fail = some .conn ∧ s.addReadEvent fd isChanel fail = (none, s.newSeq.closeFd fd)) ∨
    (fail = some .watcher ∧ s.addReadEvent fd isChanel fail = (none, s.withConn fd)) ∨
    (¬ Leaves isChanel fail ∧ fail ≠ some .conn ∧ fail ≠ some .watcher ∧
      s.addReadEvent fd isChanel fail = (some s.objs.length, s.withConn fd)) := by
  by_cases hleaves : Leaves isChanel fail
  · refine Or.inl ⟨hleaves, ?_⟩
    unfold addReadEvent
    rcases hleaves with hblock | hoption
    · rw [if_pos hblock]
    · split_ifs <;> rfl
  · have hadd : s.addReadEvent fd isChanel fail =
        match s.createConn fd (fail = some .conn) with
        | (none, s) => (none, s.closeFd fd)
        | (some c, s) => if fail = some .watcher then (none, s) else (some c, s) := by
      unfold addReadEvent
      rw [if_neg fun h => hleaves (Or.inl h), if_neg fun h => hleaves (Or.inr h)]
    rw [hadd, createConn_of_free hfree]
    by_cases hconn : fail = some .conn
    · refine Or.inr (Or.inl ⟨hconn, ?_⟩)
      rw [hconn]
      rfl
    · rw [if_neg (by simpa using hconn)]
      dsimp only
      by_cases hwatcher : fail = some .watcher
      · exact Or.inr (Or.inr (Or.inl ⟨hwatcher, if_pos hwatcher⟩))
      · exact Or.inr (Or.inr (Or.inr ⟨hleaves, hconn, hwatcher, if_neg hwatcher⟩))

/-- **`add_read_event`** of a descriptor without an owner, with what its caller sees: an error may
leave the descriptor without an owner. -/
theorem Orderly.addReadEvent (h : s.Orderly (fd :: loose)) (isChanel : Bool)
    (fail : Option RegisterStep) :
    (s.addReadEvent fd isChanel fail).2.Orderly
        (if Leaves isChanel fail then fd :: loose else loose) ∧
      ((s.addReadEvent fd isChanel fail).1 = none ↔
        Leaves isChanel fail ∨ fail = some .conn ∨ fail = some .watcher) := by
  obtain ⟨hleaves, heq⟩ | ⟨rfl, heq⟩ | ⟨rfl, heq⟩ | ⟨hleaves, hconn, hwatcher, heq⟩ :=
    addReadEvent_cases h.head.2 isChanel fail
  · rw [heq, if_pos hleaves]
    exact ⟨h, iff_of_true rfl (Or.inl hleaves)⟩
  · rw [heq, if_neg (by simp [Leaves])]
    exact ⟨h.newSeq.closeFd, iff_of_true rfl (Or.inr (Or.inl rfl))⟩
  · rw [heq, if_neg (by simp [Leaves])]
    exact ⟨h.withConn, iff_of_true rfl (Or.inr (Or.inr rfl))⟩
  · rw [heq, if_neg hleaves]
    refine ⟨h.withConn, iff_of_false (by rintro ⟨⟩) ?_⟩
    rintro (hl | hc | hw)
    · exact hleaves hl
    · exact hconn hc
    · exact hwatcher hw

theorem leaves_false_iff (fail : Option RegisterStep) :
    ¬ Leaves false fail ↔
      fail ≠ some .noBlock ∧ fail ≠ some .keepAlive ∧ fail ≠ some .noDelay := by
  simp [Leaves, not_or]

/-- The descriptors that a call leaves without an owner, and whether it does. -/
def Adds (s t : DescNet) (loose : List ℕ) (clean : Prop) : Prop :=
  s.Orderly loose → ∃ new, t.Orderly (new ++ loose) ∧ (new = [] ↔ clean)

/-- A caller of `add_read_event` that at most closes the connection leaks the descriptor where
`add_read_event` leaves it. -/
theorem Orderly.register (hint : ℕ) (fail : Option RegisterStep)
    (caller : ℕ → Option ℕ × DescNet → DescNet)
    (hcaller : ∀ fd r l, r.2.Orderly l → (caller fd r).Orderly l) :
    Adds s (caller (s.obtain hint).1 ((s.obtain hint).2.addReadEvent (s.obtain hint).1 false fail))
      loose (¬ Leaves false fail) := by
  intro h
  obtain ⟨hadd, -⟩ := (h.obtain hint).addReadEvent false fail
  have hopen := hcaller (s.obtain hint).1 _ _ hadd
  by_cases hleaves : Leaves false fail
  · rw [if_pos hleaves] at hopen
    exact ⟨[(s.obtain hint).1], hopen, iff_of_false (List.cons_ne_nil _ _) (not_not.mpr hleaves)⟩
  · rw [if_neg hleaves] at hopen
    exact ⟨[], hopen, iff_of_true rfl hleaves⟩

theorem Orderly.acceptTurn (hint : ℕ) (fail : Option RegisterStep) :
    Adds s (s.acceptTurn hint fail) loose (¬ Leaves false fail) := by
  apply Orderly.register hint fail fun fd r =>
    match r with
    | (none, t) => t.closeConn fd
    | (some _, t) => t
  rintro fd ⟨_ | c, t⟩ l ht
  · exact ht.closeConn fd
  · exact ht

theorem Orderly.transferTurn (hint : ℕ) (fail : Option RegisterStep) (timer : Bool) :
    Adds s (s.transferTurn hint fail timer) loose (¬ Leaves false fail) := by
  apply Orderly.register hint fail fun fd r =>
    match r with
    | (none, t) => t.closeConn fd
    | (some _, t) => if timer then t else t.closeConn fd
  rintro fd ⟨_ | c, t⟩ l ht
  · exact ht.closeConn fd
  · cases timer with
    | true => exact ht
    | false => exact ht.closeConn fd

/-- `auto_send` closes the descriptor, or the connection, whatever fails. -/
theorem Orderly.autoSend (h : s.Orderly loose) (hint : ℕ) (fail : Option AutoStep) :
    (s.autoSend hint fail).Orderly loose := by
  have hopen := h.obtain hint
  unfold DescNet.autoSend
  dsimp only
  rw [createConn_of_free hopen.head.2]
  by_cases hconn : fail = some .conn
  · rw [if_pos (by simpa using hconn)]
    exact hopen.newSeq.closeFd
  · rw [if_neg (by simpa using hconn)]
    dsimp only
    split
    · exact hopen.withConn
    · exact (hopen.withConn.closeConn _).closeConn _
    · exact hopen.withConn.closeConn _

/-- `create_m` closes the descriptor where `add_read_event` left it, but not where it closed it or
registered it. -/
theorem Orderly.listen (h : s.Orderly loose) (hint : ℕ) {listenFail : Bool}
    {fail : Option RegisterStep} (hclean : Clean (.listen hint listenFail fail)) :
    (s.listen hint listenFail fail).Orderly loose := by
  have hopen := h.obtain hint
  unfold DescNet.listen
  cases listenFail with
  | true => exact hopen.closeFd
  | false =>
    obtain ⟨hconn, hwatcher⟩ := hclean rfl
    dsimp only
    obtain ⟨-, heq⟩ | ⟨hfail, -⟩ | ⟨hfail, -⟩ | ⟨-, -, -, heq⟩ :=
      addReadEvent_cases hopen.head.2 false fail
    · rw [heq]
      exact hopen.closeFd
    · exact absurd hfail hconn
    · exact absurd hfail hwatcher
    · rw [heq]
      exact hopen.withConn

/-- The parent registers its two ends of the channels. Where the first is not registered the second
has no owner, and `close_conn` does not find it. -/
theorem Orderly.registerChanels {ctrl₀ data₀ : ℕ} (ctrlFail dataFail : Option RegisterStep)
    (h : s.Orderly (ctrl₀ :: data₀ :: loose)) :
    ∃ new, (s.registerChanels ctrl₀ data₀ ctrlFail dataFail).Orderly (new ++ loose) ∧
      (new = [] ↔ (ctrlFail ≠ some .noBlock ∧ ctrlFail ≠ some .conn ∧ ctrlFail ≠ some .watcher) ∧
        dataFail ≠ some .noBlock) := by
  have hleaves : ∀ fail, Leaves true fail ↔ fail = some .noBlock := fun fail => by simp [Leaves]
  obtain ⟨hctrl, hnone⟩ := h.addReadEvent true ctrlFail
  rw [hleaves] at hnone
  unfold DescNet.registerChanels
  generalize s.addReadEvent ctrl₀ true ctrlFail = r at hctrl hnone
  obtain ⟨_ | c, t⟩ := r
  · have hfail := hnone.mp rfl
    have hclosed := (hctrl.closeConn ctrl₀).closeConn data₀
    have hdirty : ¬ ((ctrlFail ≠ some .noBlock ∧ ctrlFail ≠ some .conn ∧ ctrlFail ≠ some .watcher) ∧
        dataFail ≠ some .noBlock) := by tauto
    split_ifs at hclosed
    · exact ⟨[ctrl₀, data₀], hclosed, iff_of_false (List.cons_ne_nil _ _) hdirty⟩
    · exact ⟨[data₀], hclosed, iff_of_false (List.cons_ne_nil _ _) hdirty⟩
  · have hok : ¬ (ctrlFail = some .noBlock ∨ ctrlFail = some .conn ∨ ctrlFail = some .watcher) :=
      fun hfail => by cases hnone.mpr hfail
    rw [if_neg fun hl => hok (Or.inl ((hleaves _).mp hl))] at hctrl
    obtain ⟨hdata, -⟩ := hctrl.addReadEvent true dataFail
    dsimp only
    have hcleanup : ∀ r : Option ℕ × DescNet, ∀ l, r.2.Orderly l → Orderly l
        (match r with
        | (none, u) => (u.closeConn ctrl₀).closeConn data₀
        | (some _, u) => u) := by
      rintro ⟨_ | c', u⟩ l hu
      · exact (hu.closeConn ctrl₀).closeConn data₀
      · exact hu
    have hopen := hcleanup _ _ hdata
    by_cases hblock : dataFail = some .noBlock
    · rw [if_pos ((hleaves _).mpr hblock)] at hopen
      exact ⟨[data₀], hopen, iff_of_false (List.cons_ne_nil _ _) fun hclean => hclean.2 hblock⟩
    · rw [if_neg fun hl => hblock ((hleaves _).mp hl)] at hopen
      exact ⟨[], hopen, iff_of_true rfl ⟨by tauto, hblock⟩⟩

theorem Orderly.createWorker (hint₀ hint₁ hint₂ hint₃ : ℕ) (out : WorkerStep) :
    Adds s (s.createWorker hint₀ hint₁ hint₂ hint₃ out) loose
      (Clean (.createWorker hint₀ hint₁ hint₂ hint₃ out)) := by
  intro h
  have hctrl₀ := h.obtain hint₀
  have hctrl₁ := hctrl₀.obtain hint₁
  have hdata₀ := hctrl₁.obtain hint₂
  have hdata₁ := hdata₀.obtain hint₃
  cases out with
  | noCtrl => exact ⟨[], h, iff_of_true rfl trivial⟩
  | noData =>
    exact ⟨[], (hctrl₁.perm (List.Perm.swap _ _ _)).closeFd.closeFd, iff_of_true rfl trivial⟩
  | noFork =>
    refine ⟨[], ?_, iff_of_true rfl trivial⟩
    have hdata := (hdata₁.perm (List.Perm.swap _ _ _)).closeFd.closeFd
    exact (hdata.perm (List.Perm.swap _ _ _)).closeFd.closeFd
  | forked ctrlFail dataFail =>
    -- the ends of the child are closed before the others are registered
    have hends := hdata₁.perm <| (List.Perm.swap _ _ _).trans <| List.Perm.cons _ <|
      @List.perm_middle _ _ [(((s.obtain hint₀).2).obtain hint₁).1, (s.obtain hint₀).1] loose
    exact hends.closeFd.closeFd.registerChanels ctrlFail dataFail

/-! ## The accounts -/

/-- Where every open descriptor has an owner, every descriptor is accounted for. -/
theorem Orderly.accounted (h : s.Orderly []) : s.Accounted where
  once := h.once
  live hlookup := by
    obtain ⟨c, f, -, -, -, -, hopen⟩ := h.entry hlookup
    exact ⟨f, hopen⟩
  owned f hf := by
    rcases h.sound.closed_or_open (h.obtained f hf) with ⟨hclosed, -⟩ | ⟨hnot, fd, hopen⟩
    · exact Or.inr hclosed
    · refine Or.inl ⟨hnot, ?_⟩
      cases hlookup : s.conns.lookup fd with
      | none => exact absurd ((h.mem fd).mpr ⟨⟨f, hf, hopen⟩, hlookup⟩) List.not_mem_nil
      | some o =>
        obtain ⟨c, f', hc, hcfd, -, -, hopen'⟩ := h.entry hlookup
        refine ⟨fd, ⟨o, c, hlookup, hc, hcfd.symm ▸ hopen⟩, ?_⟩
        rintro fd' ⟨o', c', hlookup', hc', hfile⟩
        obtain ⟨c'', f'', hc'', hcfd', -, -, -⟩ := h.entry hlookup'
        obtain rfl := Option.some.inj (hc'.symm.trans hc'')
        rw [hcfd'] at hfile
        exact h.sound.inj hfile hopen

/-- A descriptor without an owner is not accounted for. -/
theorem Orderly.not_accounted (h : s.Orderly (fd :: loose)) : ¬ s.Accounted := by
  intro hacc
  obtain ⟨⟨f, hf, hopen⟩, hlookup⟩ := h.head
  rcases hacc.owned f hf with ⟨-, fd', ⟨o, c, hlookup', hc, hfile⟩, -⟩ | hcount
  · obtain ⟨c', f', hc', hcfd, -, -, -⟩ := h.entry hlookup'
    obtain rfl := Option.some.inj (hc.symm.trans hc')
    rw [hcfd] at hfile
    rw [h.sound.inj hfile hopen, hlookup] at hlookup'
    cases hlookup'
  · exact h.sound.not_closed hopen (List.count_pos_iff.mp (by omega))

/-- A call that leaves descriptors without an owner exactly where it is not clean. -/
theorem Adds.accounted_iff {t : DescNet} {clean : Prop} (hadds : Adds s t [] clean)
    (h : s.Orderly []) : (clean → t.Orderly []) ∧ (t.Accounted → clean) := by
  obtain ⟨new, ht, hclean⟩ := hadds h
  rw [List.append_nil] at ht
  constructor
  · intro hc
    obtain rfl := hclean.mpr hc
    exact ht
  · intro hacc
    cases new with
    | nil => exact hclean.mp rfl
    | cons fd new => exact absurd hacc ht.not_accounted

theorem file_closeFd (s : DescNet) (fd : ℕ) : (s.closeFd fd).fds.file fd = none := by
  unfold DescNet.closeFd
  cases hfile : s.fds.file fd with
  | none => exact hfile
  | some f =>
    dsimp only
    rw [FdTable.file_closeFd, if_pos rfl]

theorem conns_closeFd (s : DescNet) (fd : ℕ) : (s.closeFd fd).conns = s.conns := by
  unfold DescNet.closeFd
  split <;> rfl

/-- A number that is not in use is missed. -/
theorem misses_closeFd (hfile : s.fds.file fd = none) :
    (s.closeFd fd).misses = s.misses ++ [fd] := by
  unfold DescNet.closeFd
  rw [hfile]

/-- `create_m` closes a descriptor twice, or one that has a connection. -/
theorem Orderly.not_accounted_listen (h : s.Orderly []) (hint : ℕ) {fail : Option RegisterStep}
    (hdirty : fail = some .conn ∨ fail = some .watcher) :
    ¬ (s.listen hint false fail).Accounted := by
  have hfree := (h.obtain hint).head.2
  intro hacc
  unfold DescNet.listen at hacc
  dsimp only at hacc
  rw [if_neg Bool.false_ne_true] at hacc
  obtain ⟨hleaves, -⟩ | ⟨-, heq⟩ | ⟨-, heq⟩ | ⟨-, hconn, hwatcher, -⟩ :=
    addReadEvent_cases hfree false fail
  · rcases hdirty with rfl | rfl <;> simp [Leaves] at hleaves
  · -- `add_read_event` closed the descriptor, and `create_m` closes it again
    rw [heq] at hacc
    dsimp only at hacc
    have honce := hacc.once
    rw [misses_closeFd (file_closeFd _ _)] at honce
    exact absurd honce (List.concat_ne_nil _ _)
  · -- the connection of the descriptor stays in `m_conns`
    rw [heq] at hacc
    dsimp only at hacc
    have hlookup : (((s.obtain hint).2.withConn (s.obtain hint).1).closeFd
        (s.obtain hint).1).conns.lookup (s.obtain hint).1 = some (s.obtain hint).2.objs.length := by
      rw [conns_closeFd]
      exact (FiniteMap.lookup_insert ..).trans (if_pos rfl)
    obtain ⟨f, hf⟩ := hacc.live hlookup
    rw [file_closeFd] at hf
    cases hf
  · rcases hdirty with hc | hw
    · exact hconn hc
    · exact hwatcher hw

/-- One step by an event of the network keeps the descriptors in order exactly where it is clean. -/
theorem Orderly.step (h : s.Orderly []) (e : DescEvent) :
    (Clean e → (s.step e).Orderly []) ∧ ((s.step e).Accounted → Clean e) := by
  cases e with
  | acceptTurn hint fail =>
    have hadds := @Orderly.acceptTurn s [] hint fail
    rw [leaves_false_iff] at hadds
    exact hadds.accounted_iff h
  | transferTurn hint fail timer =>
    have hadds := @Orderly.transferTurn s [] hint fail timer
    rw [leaves_false_iff] at hadds
    exact hadds.accounted_iff h
  | autoSend hint fail => exact ⟨fun _ => h.autoSend hint fail, fun _ => trivial⟩
  | listen hint listenFail fail =>
    refine ⟨fun hclean => h.listen hint hclean, fun hacc hlisten => ?_⟩
    subst hlisten
    constructor
    · exact fun hconn => h.not_accounted_listen hint (Or.inl hconn) hacc
    · exact fun hwatcher => h.not_accounted_listen hint (Or.inr hwatcher) hacc
  | createWorker hint₀ hint₁ hint₂ hint₃ out =>
    exact (Orderly.createWorker hint₀ hint₁ hint₂ hint₃ out).accounted_iff h
  | closeConn fd => exact ⟨fun _ => h.closeConn fd, fun _ => trivial⟩
  | newSeq => exact ⟨fun _ => h.newSeq, fun _ => trivial⟩
  | openOther hint => exact ⟨fun _ => h.openOther hint, fun _ => trivial⟩
  | closeOther fd => exact ⟨fun _ => h.closeOther fd, fun _ => trivial⟩

/-- **Descriptors are accounted for**: in every state of a run each descriptor that was obtained
has one owner or was closed once, and no connection is for a closed descriptor, exactly where no
step fails after which the caller leaks a descriptor or closes one that it should not. -/
theorem descriptors_accounted_iff (es : List DescEvent) :
    descMachine.Meets (fun _ e => Clean e) {} es ↔
      ∀ past, past <+: es → (descMachine.run {} past).Accounted :=
  Machine.Meets.iff_forall_prefix (I := fun s : DescNet => s.Orderly []) (P := Accounted)
    (Q := fun _ => True) (fun _ h => h.accounted) (fun _ e _ h hclean => (h.step e).1 hclean)
    (fun _ e _ h hacc => (h.step e).2 hacc) orderly_empty fun _ _ => trivial

/-- A node's connection for which keep-alive cannot be set: nothing closes its descriptor. -/
theorem descriptor_leaked :
    let s := descMachine.run {} [.acceptTurn 5 (some .keepAlive)]
    s.fds.file 5 = some 0 ∧ 0 ∈ s.obtained ∧ s.fds.closed = [] ∧ s.conns.lookup 5 = none ∧
      ¬ s.Accounted := by
  have hleaves : Leaves false (some .keepAlive) := Or.inr ⟨rfl, Or.inl rfl⟩
  have hcall := @Orderly.acceptTurn {} [] 5 (some .keepAlive)
  refine ⟨by decide, by decide, by decide, by decide, fun hacc => ?_⟩
  exact (hcall.accounted_iff orderly_empty).2 hacc hleaves

end DescNet

end Kimserver
