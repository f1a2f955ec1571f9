import Kimserver.Net.Descriptors

/-!
# Late responses

A command keeps the `fd_t` of the connection that its request came from, and answers when its
callbacks are done. Until then the connection may be gone and its descriptor may belong to another
client, so `send_to` looks for a connection with the descriptor and the number of the `fd_t`.

A response is a number of bytes in the send buffer of a connection; each byte is known by the
request that it answers, and `written` says to which file it went.

## Main definitions

* `FdData`, `DescNet.getConn`: an `fd_t`, and its connection
* `ReqNet`, `ReqEvent`: a worker with its requests, and what happens to it
* `ReqNet.OnlyTo`: a response goes to the connection of its request

## Main results

* `DescNet.Numbered`: as long as the numbers do not wrap, no two connections have one number
* `late_response`: a late response never reaches another client
-/

namespace Kimserver

/-- `fd_t`. -/
structure FdData where
  fd : ℕ
  id : ℕ
  deriving DecidableEq

namespace DescNet

section Functions

variable (s : DescNet)

/-- `get_conn`. -/
def getConn (f : FdData) : Option ℕ :=
  match s.conns.lookup f.fd with
  | none => none
  | some o => if (s.objs[o]?).map ConnObj.id ≠ some f.id then none else some o

/-- `create_w` for one of the channels to the manager; a worker exits where it fails. -/
def createW (hint : ℕ) (fail : Option RegisterStep) : Option DescNet :=
  let (fd, s) := s.obtain hint
  match s.addReadEvent fd true fail with
  | (none, _) => none
  | (some _, s) => some s

end Functions

end DescNet

/-- A worker: its descriptors, the requests that were read with the connection that each came
from, the bytes that wait in the send buffer of a connection, and those that were written. -/
structure ReqNet where
  net : DescNet := {}
  requests : List (FdData × ℕ) := []
  bufs : ℕ → List ℕ := fun _ => []
  written : List (ℕ × ℕ) := []
  exited : Bool := false

/-- What happens to a worker. -/
inductive ReqEvent
  | createW (hint : ℕ) (fail : Option RegisterStep)
  | transferTurn (hint : ℕ) (fail : Option RegisterStep) (timer : Bool)
  | autoSend (hint : ℕ) (fail : Option AutoStep)
  /-- a connection is closed: by the peer, by an error, or by a timer -/
  | closeConn (fd : ℕ)
  /-- a number is given to something else -/
  | newSeq
  /-- the process opens another file -/
  | openOther (hint : ℕ)
  /-- the process closes another file -/
  | closeOther (fd : ℕ)
  /-- a request is read from the connection of a descriptor -/
  | readRequest (fd : ℕ)
  /-- a command answers a request: `response_http`, `response_tcp`, `send_ack`. The response has
  `len` bytes, and `res` bytes can be written now -/
  | respond (r len : ℕ) (res : Option ℕ)
  /-- `on_io_write` -/
  | onIoWrite (fd : ℕ) (res : Option ℕ)

namespace ReqNet

section Functions

variable (s : ReqNet)

/-- Bytes of the send buffer of the connection `o` go to the socket under the descriptor; an error
closes the connection. -/
def write (fd o : ℕ) (res : Option ℕ) : ReqNet :=
  match res, s.net.fds.file fd with
  | some n, some file => { s with
      bufs := Function.update s.bufs o ((s.bufs o).drop n)
      written := s.written ++ ((s.bufs o).take n).map fun r => (r, file) }
  | _, _ => { s with net := s.net.closeConn fd }

/-- A request is read; it keeps the `fd_t` of its connection. -/
def readRequest (fd : ℕ) : ReqNet :=
  match s.net.conns.lookup fd with
  | none => s
  | some o =>
    match s.net.objs[o]? with
    | none => s
    | some c => { s with requests := s.requests ++ [({ fd := c.fd, id := c.id }, o)] }

/-- `send_to` with the response to a request. -/
def respond (r len : ℕ) (res : Option ℕ) : ReqNet :=
  match s.requests[r]? with
  | none => s
  | some (f, _) =>
    match s.net.getConn f with
    | none => s
    | some o =>
      let s := { s with bufs := Function.update s.bufs o (s.bufs o ++ List.replicate len r) }
      s.write f.fd o res

/-- `on_io_write`. -/
def onIoWrite (fd : ℕ) (res : Option ℕ) : ReqNet :=
  match s.net.conns.lookup fd with
  | none => s
  | some o => s.write fd o res

/-- One event; a worker that exited takes none. -/
def step (e : ReqEvent) : ReqNet :=
  if s.exited then s
  else
    match e with
    | .createW hint fail =>
      match s.net.createW hint fail with
      | none => { s with exited := true }
      | some net => { s with net }
    | .transferTurn hint fail timer => { s with net := s.net.transferTurn hint fail timer }
    | .autoSend hint fail => { s with net := s.net.autoSend hint fail }
    | .closeConn fd => { s with net := s.net.closeConn fd }
    | .newSeq => { s with net := s.net.newSeq }
    | .openOther hint => { s with net := s.net.openOther hint }
    | .closeOther fd => { s with net := s.net.closeOther fd }
    | .readRequest fd => s.readRequest fd
    | .respond r len res => s.respond r len res
    | .onIoWrite fd res => s.onIoWrite fd res

/-- The connection of an `fd_t` is the one that the request came from, and it is open; and the
bytes of a response go to the client of its request. -/
structure OnlyTo : Prop where
  conn : ∀ {f : FdData} {sender o : ℕ}, (f, sender) ∈ s.requests → s.net.getConn f = some o →
    o = sender ∧ ∃ c file, s.net.objs[o]? = some c ∧ c.fd = f.fd ∧ c.file = some file ∧
      s.net.fds.file c.fd = some file
  bytes : ∀ {r file : ℕ}, (r, file) ∈ s.written → ∃ f sender c, s.requests[r]? = some (f, sender) ∧
    s.net.objs[sender]? = some c ∧ c.file = some file

end Functions

end ReqNet

/-- The runs of a worker. -/
def reqMachine : Machine ReqNet ReqEvent := ⟨ReqNet.step⟩

namespace DescNet

variable {s t u : DescNet} {f : FdData} {o : ℕ}

/-! ## The numbers of connections -/

/-- As long as fewer than 2^64 numbers were taken, no two connections have one number. -/
structure Numbered (s : DescNet) : Prop where
  seq : s.seq = s.issued % 18446744073709551616
  le : s.issued < 2 ^ 64 → ∀ {o : ℕ} {c : ConnObj}, s.objs[o]? = some c →
    c.id ≤ s.issued
  inj : s.issued < 2 ^ 64 → ∀ {o o' : ℕ} {c c' : ConnObj}, s.objs[o]? = some c →
    s.objs[o']? = some c' → c.id = c'.id → o = o'

/-- A later state has the connections of an earlier one, and is numbered if that is. -/
structure Follows (s t : DescNet) : Prop where
  objs : s.objs <+: t.objs
  issued : s.issued ≤ t.issued
  numbered : s.Numbered → t.Numbered

theorem Follows.trans (h : s.Follows t) (h' : t.Follows u) : s.Follows u :=
  ⟨h.objs.trans h'.objs, h.issued.trans h'.issued, h'.numbered ∘ h.numbered⟩

theorem follows_of_eq (hseq : t.seq = s.seq) (hissued : t.issued = s.issued)
    (hobjs : t.objs = s.objs) : s.Follows t where
  objs := hobjs ▸ List.prefix_refl _
  issued := hissued.ge
  numbered h := by
    constructor <;> rw [hissued]
    · rw [hseq]
      exact h.seq
    · rw [hobjs]
      exact h.le
    · rw [hobjs]
      exact h.inj

theorem Follows.getElem? (h : s.Follows t) {c : ConnObj} (hc : s.objs[o]? = some c) :
    t.objs[o]? = some c := by
  obtain ⟨new, hnew⟩ := h.objs
  rw [← hnew, List.getElem?_append_left (List.getElem?_eq_some_iff.mp hc).1]
  exact hc

theorem follows_obtain (s : DescNet) (hint : ℕ) : s.Follows (s.obtain hint).2 :=
  follows_of_eq rfl rfl rfl

theorem follows_closeFd (s : DescNet) (fd : ℕ) : s.Follows (s.closeFd fd) := by
  unfold closeFd
  split <;> exact follows_of_eq rfl rfl rfl

theorem follows_closeConn (s : DescNet) (fd : ℕ) : s.Follows (s.closeConn fd) := by
  unfold closeConn
  split
  · exact follows_of_eq rfl rfl rfl
  · exact (s.follows_closeFd fd).trans (follows_of_eq rfl rfl rfl)

theorem follows_openOther (s : DescNet) (hint : ℕ) : s.Follows (s.openOther hint) :=
  follows_of_eq rfl rfl rfl

theorem follows_closeOther (s : DescNet) (fd : ℕ) : s.Follows (s.closeOther fd) := by
  unfold closeOther
  split_ifs <;> exact follows_of_eq rfl rfl rfl

/-- The next number is the count of the numbers, as long as it does not wrap. -/
theorem Numbered.newSeq_seq (h : s.Numbered) (hissued : s.issued + 1 < 2 ^ 64) :
    s.newSeq.seq = s.issued + 1 := by
  have hseq := h.seq
  change (s.seq + 1) % 18446744073709551616 = s.issued + 1
  omega

theorem follows_newSeq (s : DescNet) : s.Follows s.newSeq where
  objs := List.prefix_refl _
  issued := Nat.le_succ _
  numbered h := by
    refine ⟨?_, fun hissued o c hc => ?_, fun hissued => h.inj (Nat.lt_of_succ_lt hissued)⟩
    · have hseq := h.seq
      change (s.seq + 1) % 18446744073709551616 = (s.issued + 1) % 18446744073709551616
      omega
    · exact Nat.le_succ_of_le (h.le (Nat.lt_of_succ_lt hissued) hc)

/-- **A new connection** has a number that no other has. -/
theorem follows_withConn (s : DescNet) (fd : ℕ) : s.Follows (s.withConn fd) where
  objs := List.prefix_append _ _
  issued := Nat.le_succ _
  numbered h := by
    have hobjs : ∀ {o : ℕ} {c : ConnObj}, (s.withConn fd).objs[o]? = some c →
        s.objs[o]? = some c ∨ o = s.objs.length ∧ c.id = s.newSeq.seq := by
      intro o c hc
      rcases Heap.getElem?_snoc_cases hc with hold | ⟨ho, rfl⟩
      · exact Or.inl hold
      · exact Or.inr ⟨ho, rfl⟩
    refine ⟨(s.follows_newSeq.numbered h).seq, fun hissued o c hc => ?_,
      fun hissued o o' c c' hc hc' hid => ?_⟩
    · have hnew := h.newSeq_seq hissued
      rcases hobjs hc with hold | ⟨-, hid⟩
      · exact Nat.le_succ_of_le (h.le (Nat.lt_of_succ_lt hissued) hold)
      · rw [hid, hnew]
        exact le_refl _
    · have hnew := h.newSeq_seq hissued
      have hlt := Nat.lt_of_succ_lt hissued
      rcases hobjs hc with hold | ⟨ho, hid₁⟩ <;> rcases hobjs hc' with hold' | ⟨ho', hid₂⟩
      · exact h.inj hlt hold hold' hid
      · have hle := h.le hlt hold
        omega
      · have hle := h.le hlt hold'
        omega
      · rw [ho, ho']

theorem follows_createConn (s : DescNet) (fd : ℕ) (fails : Bool) :
    s.Follows (s.createConn fd fails).2 := by
  have hold : s.Follows (if (s.conns.lookup fd).isSome then s.closeConn fd else s) := by
    split_ifs
    · exact s.follows_closeConn fd
    · exact follows_of_eq rfl rfl rfl
  unfold createConn
  cases fails with
  | true => exact hold.trans (follows_newSeq _)
  | false => exact hold.trans (follows_withConn _ fd)

theorem follows_addReadEvent (s : DescNet) (fd : ℕ) (isChanel : Bool)
    (fail : Option RegisterStep) : s.Follows (s.addReadEvent fd isChanel fail).2 := by
  have hcreate := s.follows_createConn fd (fail = some .conn)
  unfold addReadEvent
  by_cases hblock : fail = some .noBlock
  · rw [if_pos hblock]
    exact follows_of_eq rfl rfl rfl
  rw [if_neg hblock]
  by_cases hoption : isChanel = false ∧ (fail = some .keepAlive ∨ fail = some .noDelay)
  · rw [if_pos hoption]
    exact follows_of_eq rfl rfl rfl
  rw [if_neg hoption]
  generalize s.createConn fd (fail = some .conn) = r at hcreate
  obtain ⟨_ | c, t⟩ := r
  · exact hcreate.trans (t.follows_closeFd fd)
  · dsimp only
    split_ifs <;> exact hcreate

theorem follows_transferTurn (s : DescNet) (hint : ℕ) (fail : Option RegisterStep)
    (timer : Bool) : s.Follows (s.transferTurn hint fail timer) := by
  have hadd := (s.follows_obtain hint).trans
    (follows_addReadEvent (s.obtain hint).2 (s.obtain hint).1 false fail)
  unfold transferTurn
  dsimp only
  generalize (s.obtain hint).2.addReadEvent (s.obtain hint).1 false fail = r at hadd
  obtain ⟨_ | c, t⟩ := r
  · exact hadd.trans (t.follows_closeConn _)
  · dsimp only
    split_ifs
    · exact hadd
    · exact hadd.trans (t.follows_closeConn _)

theorem follows_autoSend (s : DescNet) (hint : ℕ) (fail : Option AutoStep) :
    s.Follows (s.autoSend hint fail) := by
  have hcreate := (s.follows_obtain hint).trans
    (follows_createConn (s.obtain hint).2 (s.obtain hint).1 (fail = some .conn))
  unfold autoSend
  dsimp only
  generalize (s.obtain hint).2.createConn (s.obtain hint).1 (fail = some .conn) = r at hcreate
  obtain ⟨_ | c, t⟩ := r
  · exact hcreate.trans (t.follows_closeFd _)
  · dsimp only
    split
    · exact hcreate
    · exact (hcreate.trans (t.follows_closeConn _)).trans (follows_closeConn _ _)
    · exact hcreate.trans (t.follows_closeConn _)

theorem createW_eq_some {hint : ℕ} {fail : Option RegisterStep}
    (h : s.createW hint fail = some t) :
    t = ((s.obtain hint).2.addReadEvent (s.obtain hint).1 true fail).2 := by
  unfold createW at h
  dsimp only at h
  split at h
  · cases h
  · next heq =>
    rw [heq]
    exact (Option.some.inj h).symm

/-- The connection of an `fd_t` has its number. -/
theorem getConn_eq_some (h : s.getConn f = some o) :
    s.conns.lookup f.fd = some o ∧ ∃ c, s.objs[o]? = some c ∧ c.id = f.id := by
  unfold getConn at h
  cases hlookup : s.conns.lookup f.fd with
  | none =>
    rw [hlookup] at h
    cases h
  | some o' =>
    rw [hlookup] at h
    dsimp only at h
    split_ifs at h with hid
    obtain rfl := Option.some.inj h
    obtain ⟨c, hc, hcid⟩ := Option.map_eq_some_iff.mp (not_not.mp hid)
    exact ⟨rfl, c, hc, hcid⟩

end DescNet

/-! ## The requests -/

namespace ReqNet

variable {s : ReqNet} {f : FdData} {sender o fd : ℕ}

/-- A request keeps the `fd_t` of its sender; the bytes in the send buffer of a connection, and
those that were written to its file, answer its requests. -/
structure Kept (s : ReqNet) : Prop where
  order : ∃ loose, s.net.Orderly loose
  numbered : s.net.Numbered
  request : ∀ {f : FdData} {sender : ℕ}, (f, sender) ∈ s.requests →
    ∃ c, s.net.objs[sender]? = some c ∧ c.fd = f.fd ∧ c.id = f.id
  buf : s.net.issued < 2 ^ 64 → ∀ {o r : ℕ}, r ∈ s.bufs o → ∃ f, s.requests[r]? = some (f, o)
  bytes : s.net.issued < 2 ^ 64 → ∀ {r file : ℕ}, (r, file) ∈ s.written →
    ∃ f sender c, s.requests[r]? = some (f, sender) ∧ s.net.objs[sender]? = some c ∧
      c.file = some file

theorem kept_empty : Kept {} where
  order := ⟨[], DescNet.orderly_empty⟩
  numbered := ⟨rfl, fun _ o c hc => by simp at hc, fun _ o o' c c' hc => by simp at hc⟩
  request h := absurd h List.not_mem_nil
  buf _ o r h := absurd h List.not_mem_nil
  bytes _ r file h := absurd h List.not_mem_nil

/-- **`get_conn`** finds the connection that the request came from, or none. -/
theorem Kept.getConn (h : s.Kept) (hissued : s.net.issued < 2 ^ 64)
    (hreq : (f, sender) ∈ s.requests) (hget : s.net.getConn f = some o) :
    o = sender ∧ s.net.conns.lookup f.fd = some o := by
  obtain ⟨hlookup, c, hc, hid⟩ := DescNet.getConn_eq_some hget
  obtain ⟨c', hc', -, hid'⟩ := h.request hreq
  exact ⟨h.numbered.inj hissued hc hc' (hid.trans hid'.symm), hlookup⟩

/-- What only changes the descriptors keeps the requests. -/
theorem Kept.net (h : s.Kept) {net : DescNet} (hfollows : s.net.Follows net)
    (horder : ∃ loose, net.Orderly loose) : Kept { s with net } where
  order := horder
  numbered := hfollows.numbered h.numbered
  request hreq := by
    obtain ⟨c, hc, hrest⟩ := h.request hreq
    exact ⟨c, hfollows.getElem? hc, hrest⟩
  buf hissued _ _ hmem := h.buf (Nat.lt_of_le_of_lt hfollows.issued hissued) hmem
  bytes hissued _ _ hmem := by
    obtain ⟨f, sender, c, hr, hc, hfile⟩ :=
      h.bytes (Nat.lt_of_le_of_lt hfollows.issued hissued) hmem
    exact ⟨f, sender, c, hr, hfollows.getElem? hc, hfile⟩

theorem Kept.closeConn (h : s.Kept) (fd : ℕ) : Kept { s with net := s.net.closeConn fd } := by
  obtain ⟨loose, horder⟩ := h.order
  exact h.net (s.net.follows_closeConn fd) ⟨loose, horder.closeConn fd⟩

/-- **Bytes are written** to the client of the connection. -/
theorem Kept.write (h : s.Kept) (hlookup : s.net.conns.lookup fd = some o) (res : Option ℕ) :
    (s.write fd o res).Kept := by
  unfold ReqNet.write
  split
  · next n file hfile =>
    obtain ⟨loose, horder⟩ := h.order
    obtain ⟨c, f', hc, -, hcf, -, hopen⟩ := horder.entry hlookup
    obtain rfl := Option.some.inj (hfile.symm.trans hopen)
    refine ⟨h.order, h.numbered, h.request, fun hissued o' r hmem => ?_,
      fun hissued r file' hmem => ?_⟩
    · change r ∈ Function.update s.bufs o ((s.bufs o).drop n) o' at hmem
      by_cases heq : o' = o
      · subst heq
        rw [Function.update_self] at hmem
        exact h.buf hissued (List.mem_of_mem_drop hmem)
      · rw [Function.update_of_ne heq] at hmem
        exact h.buf hissued hmem
    · rcases List.mem_append.mp hmem with hold | hnew
      · exact h.bytes hissued hold
      · obtain ⟨r', hr', heq⟩ := List.mem_map.mp hnew
        cases heq
        obtain ⟨f, hf⟩ := h.buf hissued (List.mem_of_mem_take hr')
        exact ⟨f, o, c, hf, hc, hcf⟩
  · exact h.closeConn fd

theorem Kept.readRequest (h : s.Kept) (fd : ℕ) : (s.readRequest fd).Kept := by
  unfold ReqNet.readRequest
  split
  · exact h
  · next o _ =>
    split
    · exact h
    · next c hc =>
      have hold : ∀ {r : ℕ} {q : FdData × ℕ}, s.requests[r]? = some q →
          (s.requests ++ [({ fd := c.fd, id := c.id }, o)])[r]? = some q :=
        fun hr => Heap.getElem?_snoc_of_some hr _
      refine ⟨h.order, h.numbered, fun hreq => ?_, fun hissued o' r hmem => ?_,
        fun hissued r file hmem => ?_⟩
      · rcases List.mem_append.mp hreq with hmem | hnew
        · exact h.request hmem
        · cases List.mem_singleton.mp hnew
          exact ⟨c, hc, rfl, rfl⟩
      · obtain ⟨f, hf⟩ := h.buf hissued hmem
        exact ⟨f, hold hf⟩
      · obtain ⟨f, sender, c', hr, hc', hfile⟩ := h.bytes hissued hmem
        exact ⟨f, sender, c', hold hr, hc', hfile⟩

/-- **A response** waits in the send buffer of the connection that its request came from. -/
theorem Kept.respond (h : s.Kept) (r len : ℕ) (res : Option ℕ) : (s.respond r len res).Kept := by
  unfold ReqNet.respond
  split
  · exact h
  · next f sender hr =>
    split
    · exact h
    · next o hget =>
      have hlookup := (DescNet.getConn_eq_some hget).1
      have hqueued : Kept { s with
          bufs := Function.update s.bufs o (s.bufs o ++ List.replicate len r) } := by
        refine ⟨h.order, h.numbered, h.request, fun hissued o' r' hmem => ?_, h.bytes⟩
        change r' ∈ Function.update s.bufs o (s.bufs o ++ List.replicate len r) o' at hmem
        by_cases heq : o' = o
        · rw [heq, Function.update_self] at hmem
          rw [heq]
          rcases List.mem_append.mp hmem with hold | hnew
          · exact h.buf hissued hold
          · obtain rfl := List.eq_of_mem_replicate hnew
            obtain ⟨rfl, -⟩ := h.getConn hissued (List.mem_of_getElem? hr) hget
            exact ⟨f, hr⟩
        · rw [Function.update_of_ne heq] at hmem
          exact h.buf hissued hmem
      exact hqueued.write hlookup res

theorem Kept.step (h : s.Kept) (e : ReqEvent) : (s.step e).Kept := by
  unfold ReqNet.step
  split_ifs with hexited
  · exact h
  obtain ⟨loose, horder⟩ := h.order
  cases e with
  | createW hint fail =>
    dsimp only
    cases hcreate : s.net.createW hint fail with
    | none => exact ⟨h.order, h.numbered, h.request, h.buf, h.bytes⟩
    | some net =>
      obtain rfl := DescNet.createW_eq_some hcreate
      obtain ⟨horder', -⟩ := (horder.obtain hint).addReadEvent true fail
      exact h.net ((s.net.follows_obtain hint).trans (DescNet.follows_addReadEvent ..)) ⟨_, horder'⟩
  | transferTurn hint fail timer =>
    obtain ⟨new, horder', -⟩ := DescNet.Orderly.transferTurn hint fail timer horder
    exact h.net (s.net.follows_transferTurn hint fail timer) ⟨_, horder'⟩
  | autoSend hint fail =>
    exact h.net (s.net.follows_autoSend hint fail) ⟨_, horder.autoSend hint fail⟩
  | closeConn fd => exact h.closeConn fd
  | newSeq => exact h.net s.net.follows_newSeq ⟨_, horder.newSeq⟩
  | openOther hint => exact h.net (s.net.follows_openOther hint) ⟨_, horder.openOther hint⟩
  | closeOther fd => exact h.net (s.net.follows_closeOther fd) ⟨_, horder.closeOther fd⟩
  | readRequest fd => exact h.readRequest fd
  | respond r len res => exact h.respond r len res
  | onIoWrite fd res =>
    dsimp only [ReqNet.onIoWrite]
    split
    · exact h
    · next o hlookup => exact h.write hlookup res

/-- **Late responses**: as long as a worker takes fewer than 2^64 numbers, `get_conn` of the `fd_t`
of a request is the connection that the request came from, still open, or none, and every byte of
a response goes to the client of its request. -/
theorem late_response (es : List ReqEvent) (hissued : (reqMachine.run {} es).net.issued < 2 ^ 64) :
    (reqMachine.run {} es).OnlyTo := by
  have h : (reqMachine.run {} es).Kept :=
    reqMachine.run_invariant (P := Kept) (fun s e h => h.step e) kept_empty es
  refine ⟨fun {f sender o} hreq hget => ?_, h.bytes hissued⟩
  obtain ⟨heq, hlookup⟩ := h.getConn hissued hreq hget
  obtain ⟨loose, horder⟩ := h.order
  obtain ⟨c, file, hc, hcfd, hfile, -, hopen⟩ := horder.entry hlookup
  exact ⟨heq, c, file, hc, hcfd, hfile, hcfd.symm ▸ hopen⟩

/-- A client is gone and its descriptor belongs to another one when the response is ready. -/
def reusedDescriptor : List ReqEvent :=
  [.transferTurn 7 none true, .readRequest 7, .closeConn 7, .transferTurn 7 none true,
    .readRequest 7, .respond 0 3 (some 3), .respond 1 2 (some 2)]

/-- The late response is dropped, and the other client gets its own. -/
theorem late_response_reusedDescriptor :
    (reqMachine.run {} reusedDescriptor).OnlyTo ∧
      (reqMachine.run {} reusedDescriptor).written = [(1, 1), (1, 1)] :=
  ⟨late_response reusedDescriptor (by decide), by decide⟩

end ReqNet

end Kimserver
