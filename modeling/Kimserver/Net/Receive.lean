import Kimserver.Codec.Proto

/-!
# Receiving

A socket that becomes readable gives a chunk of the stream, and then `decode` is called until it
does not return `OK` (`Network::process_tcp_msg`, `Connection::conn_read`,
`Connection::fetch_data`). What a chunk leaves in the buffer is the beginning of a frame.

## Main definitions

* `decodeLoop`, `receive`: what one chunk yields, and what a list of chunks yields
* `Survives`: the messages come out, every stop is a pause, and the buffer is empty
* `ChunksFit`: at every read the unfinished frame and the chunk are shorter than `2 ^ 31`

## Main results

* `receive_survives_iff`: the chunkings that a stream survives
-/

namespace Kimserver

section Loop

variable {pb : Protobuf} {b rest : SocketBuffer} {head : MsgHead} {body : MsgBody}

/-- What a message took from the buffer. -/
def cost (m : MsgHead × MsgBody) : ℕ := protoMsgHeadLen + m.1.len.toNat

/-- A decoded message took its cost, which was there. -/
theorem decode_ok (h : decode pb b = .ok head body rest) :
    cost (head, body) ≤ b.readableLen ∧ rest = b.skipBytes (cost (head, body)) := by
  unfold decode at h
  split_ifs at h with hshort
  split at h
  · exact absurd h (by simp)
  · next head' hparse =>
    split_ifs at h with hempty hrange hwait
    · obtain ⟨rfl, -, hrest⟩ := DecodeResult.ok.inj h
      have hlen : head'.len.toNat = 0 := Int.toNat_eq_zero.mpr hempty
      simp only [cost, hlen, Nat.add_zero]
      exact ⟨not_lt.mp hshort, hrest.symm⟩
    · split at h
      · exact absurd h (by simp)
      · obtain ⟨rfl, -, rfl⟩ := DecodeResult.ok.inj h
        have hle := CInt.toInt_natCast_le b.readableLen
        have hcost : (protoMsgHeadLen + head'.len).toNat = cost (head', body) := by
          simp only [cost]
          omega
        rw [hcost]
        refine ⟨?_, rfl⟩
        rw [← hcost]
        omega

theorem readableLen_skipBytes (b : SocketBuffer) (n : ℕ) :
    (b.skipBytes n).readableLen = b.readableLen - n := by
  simp only [SocketBuffer.skipBytes, SocketBuffer.readableLen]
  omega

theorem cost_pos (m : MsgHead × MsgBody) : 0 < cost m := by
  unfold cost protoMsgHeadLen
  omega

theorem decode_ok_lt (h : decode pb b = .ok head body rest) :
    rest.readableLen < b.readableLen := by
  obtain ⟨hle, rfl⟩ := decode_ok h
  have hpos := cost_pos (head, body)
  rw [readableLen_skipBytes]
  omega

/-- Call `decode` until it does not return `OK`. -/
def decodeLoop (pb : Protobuf) (b : SocketBuffer) :
    List (MsgHead × MsgBody) × Stop × SocketBuffer :=
  match h : decode pb b with
  | .ok head body rest =>
    have : rest.readableLen < b.readableLen := decode_ok_lt h
    let r := decodeLoop pb rest
    ((head, body) :: r.1, r.2)
  | .stop s => ([], s, b)
  termination_by b.readableLen

theorem decodeLoop_ok (h : decode pb b = .ok head body rest) :
    decodeLoop pb b = ((head, body) :: (decodeLoop pb rest).1, (decodeLoop pb rest).2) := by
  rw [decodeLoop]
  split
  · next heq =>
    rw [h] at heq
    obtain ⟨rfl, rfl, rfl⟩ := DecodeResult.ok.inj heq
    rfl
  · next heq =>
    rw [h] at heq
    exact absurd heq (by simp)

theorem decodeLoop_stop {stop : Stop} (h : decode pb b = .stop stop) :
    decodeLoop pb b = ([], stop, b) := by
  rw [decodeLoop]
  split
  · next heq =>
    rw [h] at heq
    exact absurd heq (by simp)
  · next heq =>
    rw [h] at heq
    rw [DecodeResult.stop.inj heq]

/-- The costs of a list of messages. -/
def costs (ms : List (MsgHead × MsgBody)) : ℕ := (ms.map cost).sum

variable (pb) in
/-- **The calls of `decode` never yield more than there was.** -/
theorem decodeLoop_costs (hb : b.Wf) :
    (decodeLoop pb b).2.2.Wf ∧
      costs (decodeLoop pb b).1 + (decodeLoop pb b).2.2.readableLen = b.readableLen := by
  induction hn : b.readableLen using Nat.strong_induction_on generalizing b with
  | _ n ih =>
    subst hn
    cases hd : decode pb b with
    | stop stop =>
      rw [decodeLoop_stop hd]
      exact ⟨hb, by simp [costs]⟩
    | ok head body rest =>
      obtain ⟨hle, rfl⟩ := decode_ok hd
      have hwf := (SocketBuffer.skipBytes_spec hb hle).1
      obtain ⟨hwf', hsum⟩ := ih _ (decode_ok_lt hd) hwf rfl
      rw [decodeLoop_ok hd]
      refine ⟨hwf', ?_⟩
      rw [readableLen_skipBytes] at hsum
      simp only [costs, List.map_cons, List.sum_cons] at hsum ⊢
      omega

end Loop

/-- Every chunk is read and decoded. -/
def receive (pb : Protobuf) :
    SocketBuffer → List Bytes → List (MsgHead × MsgBody) × List Stop × SocketBuffer
  | b, [] => ([], [], b)
  | b, chunk :: chunks =>
    let r := decodeLoop pb (b.readChunk chunk)
    let s := receive pb r.2.2 chunks
    (r.1 ++ s.1, r.2.1 :: s.2.1, s.2.2)

/-- The messages come out, in order and each once; every other call of `decode` returns `PAUSE`;
and the buffer is empty at the end. -/
def Survives (ms : List (MsgHead × MsgBody))
    (r : List (MsgHead × MsgBody) × List Stop × SocketBuffer) : Prop :=
  r.1 = ms ∧ (∀ stop ∈ r.2.1, stop = .pause) ∧ r.2.2.contents = []

/-- Encode one message after the other into a buffer. -/
def encodeStream (pb : Protobuf) (stray : ℕ → UInt8) (ms : List (MsgHead × MsgBody)) : Bytes :=
  (ms.foldl (fun sbuf m => (encode pb stray true true m.1 m.2 sbuf).2) {}).contents

/-- Take the complete frames, given by their lengths, from `n` bytes. -/
def dropComplete : List ℕ → ℕ → List ℕ × ℕ
  | [], n => ([], n)
  | len :: lens, n => if len ≤ n then dropComplete lens (n - len) else (len :: lens, n)

/-- At every read, what is left of the frames before and the chunk are together shorter than
`2 ^ 31` bytes. -/
def ChunksFit : List ℕ → ℕ → List ℕ → Prop
  | _, _, [] => True
  | lens, n, chunk :: chunks =>
    n + chunk < 2147483648 ∧
      ChunksFit (dropComplete lens (n + chunk)).1 (dropComplete lens (n + chunk)).2 chunks

instance decidableChunksFit : ∀ lens n chunks, Decidable (ChunksFit lens n chunks)
  | _, _, [] => inferInstanceAs (Decidable True)
  | lens, n, chunk :: chunks =>
    have := decidableChunksFit (dropComplete lens (n + chunk)).1
      (dropComplete lens (n + chunk)).2 chunks
    inferInstanceAs (Decidable (_ ∧ _))

/-! ## The calls of `decode` on a chunk -/

section Stream

variable {pb : Protobuf}

theorem encodeAll_cons (m : MsgHead × MsgBody) (ms : List (MsgHead × MsgBody)) :
    (protoFraming pb).encodeAll (m :: ms) = frame pb m ++ (protoFraming pb).encodeAll ms := rfl

/-- A proper beginning of a frame is shorter. -/
theorem partial_length_lt {m : MsgHead × MsgBody} {todo : List (MsgHead × MsgBody)}
    {rest : Bytes} (hm : WellFormed pb m) (h : (protoFraming pb).Partial rest (m :: todo)) :
    rest.length < frameLen pb m := by
  obtain ⟨hpre, hne⟩ := h
  rw [← hm.length_frame]
  refine lt_of_le_of_ne hpre.length_le fun hlen => hne ?_
  exact hpre.eq_of_length hlen

/-- **A buffer shorter than `2 ^ 31`**: the complete frames come out and the unfinished one
stays. The stop is a pause unless the unfinished frame is too long to be decoded at all. -/
theorem decodeLoop_small {done todo : List (MsgHead × MsgBody)} {b : SocketBuffer}
    {rest future : Bytes} (hdone : ∀ m ∈ done, WellFormed pb m)
    (htodo : ∀ m ∈ todo, WellFormed pb m) (hb : b.Wf)
    (hcontents : b.contents = (protoFraming pb).encodeAll done ++ rest)
    (hpart : (protoFraming pb).Partial rest todo)
    (hfuture : rest ++ future = (protoFraming pb).encodeAll todo)
    (hsmall : b.readableLen < 2147483648) :
    (decodeLoop pb b).1 = done ∧ (decodeLoop pb b).2.2.Wf ∧
      (decodeLoop pb b).2.2.contents = rest ∧
      ((decodeLoop pb b).2.1 = .pause ∨
        ∃ m todo', todo = m :: todo' ∧ 2147483648 ≤ frameLen pb m) := by
  have hlen := SocketBuffer.length_contents hb
  induction done generalizing b with
  | nil =>
    rw [Framing.encodeAll_nil, List.nil_append] at hcontents
    cases todo with
    | nil =>
      have hnil : rest = [] := hpart
      have hpause : decode pb b = .stop .pause := by
        refine if_pos ?_
        rw [← hlen, hcontents, hnil]
        decide
      rw [decodeLoop_stop hpause]
      exact ⟨rfl, hb, hcontents, Or.inl rfl⟩
    | cons m todo =>
      have hm := htodo m List.mem_cons_self
      have hlt := partial_length_lt hm hpart
      -- the next message is not complete, or too large to be seen so
      rw [encodeAll_cons, ← hcontents] at hfuture
      rcases decode_aligned hb hm hfuture with
        ⟨-, hd⟩ | ⟨hbig, hd⟩ | ⟨-, -, hd⟩ | ⟨-, -, hfit, -⟩
      · rw [decodeLoop_stop hd]
        exact ⟨rfl, hb, hcontents, Or.inl rfl⟩
      · rw [decodeLoop_stop hd]
        exact ⟨rfl, hb, hcontents, Or.inr ⟨m, todo, rfl, hbig⟩⟩
      · rw [decodeLoop_stop hd]
        exact ⟨rfl, hb, hcontents, Or.inl rfl⟩
      · rw [← hlen, hcontents] at hfit
        omega
  | cons m done ih =>
    have hm := hdone m List.mem_cons_self
    have hframe := hm.length_frame
    rw [encodeAll_cons, List.append_assoc] at hcontents
    -- a complete message is decoded, whatever is behind it
    have hfit : frameLen pb m ≤ b.readableLen := by
      rw [← hlen, hcontents, List.length_append, hframe]
      omega
    have hexact : CInt.toInt b.readableLen = b.readableLen :=
      CInt.toInt_of_inRange (CInt.inRange_natCast hsmall)
    have halign : b.contents ++ [] = frame pb m ++ ((protoFraming pb).encodeAll done ++ rest) := by
      rw [List.append_nil, hcontents]
    rcases decode_aligned hb hm halign with ⟨hshort, -⟩ | ⟨hbig, -⟩ | ⟨-, hwait, -⟩ | ⟨-, -, -, hd⟩
    · unfold frameLen at hfit
      omega
    · omega
    · rw [hexact] at hwait
      omega
    · obtain ⟨hwf, hdrop⟩ := SocketBuffer.skipBytes_spec hb hfit
      rw [hcontents, List.drop_left' hframe] at hdrop
      have hsmall' : (b.skipBytes (frameLen pb m)).readableLen < 2147483648 := by
        rw [readableLen_skipBytes]
        omega
      obtain ⟨hmsgs, hwf', hrest, hstop⟩ := ih (fun x hx => hdone x (List.mem_cons_of_mem _ hx))
        hwf hdrop hsmall' (SocketBuffer.length_contents hwf)
      rw [decodeLoop_ok hd]
      exact ⟨by rw [hmsgs], hwf', hrest, hstop⟩

/-- **A buffer of at least `2 ^ 31` bytes stays one**: `decode` compares an `int` of its length,
which has lost a multiple of `2 ^ 32` if it is not negative. -/
theorem decodeLoop_large {todo : List (MsgHead × MsgBody)} {b : SocketBuffer} {future : Bytes}
    (htodo : ∀ m ∈ todo, WellFormed pb m) (hb : b.Wf)
    (hcontents : b.contents ++ future = (protoFraming pb).encodeAll todo)
    (hlarge : 2147483648 ≤ b.readableLen) :
    ∃ todo', todo = (decodeLoop pb b).1 ++ todo' ∧ (decodeLoop pb b).2.2.Wf ∧
      (decodeLoop pb b).2.2.contents ++ future = (protoFraming pb).encodeAll todo' ∧
      2147483648 ≤ (decodeLoop pb b).2.2.readableLen := by
  have hlen := SocketBuffer.length_contents hb
  induction todo generalizing b with
  | nil =>
    have hnil := (List.append_eq_nil_iff.mp hcontents).1
    rw [hnil, List.length_nil] at hlen
    omega
  | cons m todo ih =>
    have hm := htodo m List.mem_cons_self
    have hcontents' := hcontents
    rw [encodeAll_cons] at hcontents'
    rcases decode_aligned hb hm hcontents' with
      ⟨hshort, -⟩ | ⟨-, hd⟩ | ⟨-, -, hd⟩ | ⟨-, hwait, hfit, hd⟩
    · unfold protoMsgHeadLen at hshort
      omega
    · rw [decodeLoop_stop hd]
      exact ⟨m :: todo, rfl, hb, hcontents, hlarge⟩
    · rw [decodeLoop_stop hd]
      exact ⟨m :: todo, rfl, hb, hcontents, hlarge⟩
    · obtain ⟨hwf, hdrop⟩ := SocketBuffer.skipBytes_spec hb hfit
      have hlost := CInt.toInt_natCast_of_le hlarge
      have hlarge' : 2147483648 ≤ (b.skipBytes (frameLen pb m)).readableLen := by
        rw [readableLen_skipBytes]
        omega
      have hrest : (b.skipBytes (frameLen pb m)).contents ++ future =
          (protoFraming pb).encodeAll todo := by
        have hdropAll := congrArg (List.drop (frameLen pb m)) hcontents'
        rwa [List.drop_append_of_le_length (by omega), ← hdrop,
          List.drop_left' hm.length_frame] at hdropAll
      obtain ⟨todo', hsplit, hwf', hfuture, hbig⟩ :=
        ih (fun x hx => htodo x (List.mem_cons_of_mem _ hx)) hwf hrest hlarge'
          (SocketBuffer.length_contents hwf)
      rw [decodeLoop_ok hd]
      exact ⟨todo', by rw [List.cons_append, ← hsplit], hwf', hfuture, hbig⟩

/-- **A chunk of a stream** whose frames are short: its complete frames come out, and the next
call of `decode` returns `PAUSE` at the beginning of a frame. -/
theorem decodeLoop_readChunk {todo : List (MsgHead × MsgBody)} {b : SocketBuffer}
    {chunk future : Bytes} (htodo : ∀ m ∈ todo, WellFormed pb m ∧ frameLen pb m < 2147483648)
    (hb : b.Wf) (hcontents : b.contents ++ chunk ++ future = (protoFraming pb).encodeAll todo)
    (hsmall : b.contents.length + chunk.length < 2147483648) :
    ∃ done todo', todo = done ++ todo' ∧ (decodeLoop pb (b.readChunk chunk)).1 = done ∧
      (decodeLoop pb (b.readChunk chunk)).2.1 = .pause ∧
      (decodeLoop pb (b.readChunk chunk)).2.2.Wf ∧
      (decodeLoop pb (b.readChunk chunk)).2.2.contents ++ future =
        (protoFraming pb).encodeAll todo' ∧
      (protoFraming pb).Partial (decodeLoop pb (b.readChunk chunk)).2.2.contents todo' := by
  obtain ⟨done, todo', rest, rfl, htext, hfuture, hpart⟩ :=
    Framing.exists_split (F := protoFraming pb) (fun m hm => (htodo m hm).1) hcontents
  obtain ⟨hwf, hread⟩ := SocketBuffer.readChunk_spec hb chunk
  have hkept : (b.readChunk chunk).contents = b.contents ++ chunk :=
    hread.resolve_right (by omega)
  have hlen : (b.readChunk chunk).readableLen < 2147483648 := by
    rw [← SocketBuffer.length_contents hwf, hkept, List.length_append]
    exact hsmall
  obtain ⟨hmsgs, hwf', hrest, hstop⟩ := decodeLoop_small
    (fun m hm => (htodo m (List.mem_append_left _ hm)).1)
    (fun m hm => (htodo m (List.mem_append_right _ hm)).1) hwf (hkept.trans htext) hpart hfuture
    hlen
  have hpause : (decodeLoop pb (b.readChunk chunk)).2.1 = .pause := by
    rcases hstop with hpause | ⟨m, later, rfl, hbig⟩
    · exact hpause
    · have := (htodo m (List.mem_append_right _ List.mem_cons_self)).2
      omega
  exact ⟨done, todo', rfl, hmsgs, hpause, hwf', by rw [hrest]; exact hfuture,
    by rw [hrest]; exact hpart⟩

/-! ## All chunks -/

variable (pb) in
/-- **What is received is paid for by what was read.** -/
theorem receive_costs {b : SocketBuffer} (hb : b.Wf) (chunks : List Bytes) :
    costs (receive pb b chunks).1 + (receive pb b chunks).2.2.contents.length ≤
      b.contents.length + chunks.flatten.length := by
  induction chunks generalizing b with
  | nil => simp [receive, costs]
  | cons chunk chunks ih =>
    obtain ⟨hwf, hread⟩ := SocketBuffer.readChunk_spec hb chunk
    have hle : (b.readChunk chunk).contents.length ≤ b.contents.length + chunk.length := by
      rcases hread with heq | hlost
      · rw [heq, List.length_append]
      · omega
    obtain ⟨hwf', hcosts⟩ := decodeLoop_costs pb hwf
    have hrest := ih hwf'
    rw [← SocketBuffer.length_contents hwf, ← SocketBuffer.length_contents hwf'] at hcosts
    simp only [receive, costs, List.map_append, List.sum_append, List.flatten_cons,
      List.length_append] at hrest hcosts ⊢
    omega

theorem cost_eq_frameLen {m : MsgHead × MsgBody} (h : WellFormed pb m) :
    cost m = frameLen pb m := by
  rw [cost, h.toNat_len, frameLen]

/-- The messages of a stream cost its length. -/
theorem costs_eq {ms : List (MsgHead × MsgBody)} (hms : ∀ m ∈ ms, WellFormed pb m) :
    costs ms = ((protoFraming pb).encodeAll ms).length := by
  induction ms with
  | nil => rfl
  | cons m ms ih =>
    have hm := hms m List.mem_cons_self
    rw [encodeAll_cons, List.length_append, hm.length_frame, ← cost_eq_frameLen hm,
      ← ih fun x hx => hms x (List.mem_cons_of_mem _ hx)]
    rfl

/-- A read that makes the buffer too long, in a stream that survives, drops nothing, and what
is left after it is still too long. -/
theorem survives_of_large {todo : List (MsgHead × MsgBody)} {b : SocketBuffer} {chunk : Bytes}
    {chunks : List Bytes} (htodo : ∀ m ∈ todo, WellFormed pb m) (hb : b.Wf)
    (hcontents : b.contents ++ (chunk :: chunks).flatten = (protoFraming pb).encodeAll todo)
    (hlarge : 2147483648 ≤ b.contents.length + chunk.length)
    (h : Survives todo (receive pb b (chunk :: chunks))) :
    ∃ (todo' : List (MsgHead × MsgBody)) (b' : SocketBuffer),
      (∀ m ∈ todo', WellFormed pb m) ∧ b'.Wf ∧
      b'.contents ++ chunks.flatten = (protoFraming pb).encodeAll todo' ∧
      2147483648 ≤ b'.contents.length ∧ Survives todo' (receive pb b' chunks) := by
  obtain ⟨hmsgs, hstops, hempty⟩ := h
  obtain ⟨hwf, hread⟩ := SocketBuffer.readChunk_spec hb chunk
  have hlen := SocketBuffer.length_contents hwf
  obtain ⟨hwf', hcosts⟩ := decodeLoop_costs pb hwf
  have hkept : (b.readChunk chunk).contents = b.contents ++ chunk := by
    refine hread.resolve_right fun hlost => ?_
    -- the messages would cost more than what is left of the stream
    have htotal := costs_eq htodo
    have hrest := receive_costs pb hwf' chunks
    rw [← hcontents, List.flatten_cons] at htotal
    rw [← SocketBuffer.length_contents hwf'] at hcosts
    simp only [← hmsgs, receive, costs, List.map_append, List.sum_append, List.length_append]
      at htotal hrest hcosts
    omega
  have halign : (b.readChunk chunk).contents ++ chunks.flatten =
      (protoFraming pb).encodeAll todo := by
    rw [hkept, List.append_assoc, ← List.flatten_cons, hcontents]
  have hlarge' : 2147483648 ≤ (b.readChunk chunk).readableLen := by
    rw [← hlen, hkept, List.length_append]
    exact hlarge
  obtain ⟨todo', hsplit, hwf'', hfuture, hbig⟩ := decodeLoop_large htodo hwf halign hlarge'
  refine ⟨todo', (decodeLoop pb (b.readChunk chunk)).2.2, ?_, hwf'', hfuture, ?_, ?_⟩
  · intro m hm
    refine htodo m ?_
    rw [hsplit]
    exact List.mem_append_right _ hm
  · rw [SocketBuffer.length_contents hwf'']
    exact hbig
  · refine ⟨?_, fun stop hstop => hstops stop (List.mem_cons_of_mem _ hstop), hempty⟩
    simp only [receive] at hmsgs
    rw [hsplit] at hmsgs
    exact List.append_cancel_left hmsgs

/-- **Once a read makes the buffer too long, the stream is lost.** -/
theorem not_survives_of_large {todo : List (MsgHead × MsgBody)} {b : SocketBuffer} {chunk : Bytes}
    {chunks : List Bytes} (htodo : ∀ m ∈ todo, WellFormed pb m) (hb : b.Wf)
    (hcontents : b.contents ++ (chunk :: chunks).flatten = (protoFraming pb).encodeAll todo)
    (hlarge : 2147483648 ≤ b.contents.length + chunk.length) :
    ¬ Survives todo (receive pb b (chunk :: chunks)) := by
  intro hsurvives
  induction chunks generalizing b chunk todo with
  | nil =>
    obtain ⟨todo', b', -, -, -, hbig, -, -, hempty⟩ :=
      survives_of_large htodo hb hcontents hlarge hsurvives
    simp only [receive] at hempty
    rw [hempty] at hbig
    exact absurd hbig (by decide)
  | cons chunk' chunks ih =>
    obtain ⟨todo', b', htodo', hb', hcontents', hbig, hsurvives'⟩ :=
      survives_of_large htodo hb hcontents hlarge hsurvives
    exact ih htodo' hb' hcontents' (by omega) hsurvives'

theorem dropComplete_map {done todo : List (MsgHead × MsgBody)} {rest : Bytes}
    (hdone : ∀ m ∈ done, WellFormed pb m) (htodo : ∀ m ∈ todo, WellFormed pb m)
    (hpart : (protoFraming pb).Partial rest todo) :
    dropComplete ((done ++ todo).map (frameLen pb))
        ((protoFraming pb).encodeAll done ++ rest).length =
      (todo.map (frameLen pb), rest.length) := by
  induction done with
  | nil =>
    cases todo with
    | nil => rfl
    | cons m todo =>
      have hlt := partial_length_lt (htodo m List.mem_cons_self) hpart
      exact if_neg (not_le.mpr hlt)
  | cons m done ih =>
    have hframe := (hdone m List.mem_cons_self).length_frame
    rw [encodeAll_cons, List.append_assoc, List.length_append, hframe, List.cons_append,
      List.map_cons, dropComplete, if_pos (Nat.le_add_right _ _), Nat.add_sub_cancel_left]
    exact ih fun x hx => hdone x (List.mem_cons_of_mem _ hx)

/-- Chunks that fit and contain a frame leave it below `2 ^ 31`. -/
theorem lt_of_chunksFit {len n : ℕ} {lens chunks : List ℕ} (h : ChunksFit (len :: lens) n chunks)
    (hn : n < len) (hcover : len ≤ n + chunks.sum) : len < 2147483648 := by
  induction chunks generalizing n with
  | nil => exact absurd hcover (by simpa using hn)
  | cons chunk chunks ih =>
    obtain ⟨hfit, hrest⟩ := h
    rw [List.sum_cons] at hcover
    by_cases hle : len ≤ n + chunk
    · exact lt_of_le_of_lt hle hfit
    · rw [dropComplete, if_neg hle] at hrest
      exact ih hrest (by omega) (by omega)

/-- The chunkings that the rest of a stream survives, with the beginning of a frame in the
buffer. -/
theorem receive_partial_iff {todo : List (MsgHead × MsgBody)} {b : SocketBuffer}
    {chunks : List Bytes} (htodo : ∀ m ∈ todo, WellFormed pb m) (hb : b.Wf)
    (hpart : (protoFraming pb).Partial b.contents todo)
    (hcontents : b.contents ++ chunks.flatten = (protoFraming pb).encodeAll todo) :
    Survives todo (receive pb b chunks) ↔
      ChunksFit (todo.map (frameLen pb)) b.contents.length (chunks.map List.length) := by
  induction chunks generalizing b todo with
  | nil =>
    rw [List.flatten_nil, List.append_nil] at hcontents
    have hnil : todo = [] := by
      cases todo with
      | nil => rfl
      | cons m todo =>
        have hm := htodo m List.mem_cons_self
        have hlt := partial_length_lt hm hpart
        rw [hcontents, encodeAll_cons, List.length_append, hm.length_frame] at hlt
        omega
    rw [hnil] at hcontents
    rw [hnil]
    exact iff_of_true ⟨rfl, fun stop hstop => absurd hstop List.not_mem_nil, hcontents⟩ trivial
  | cons chunk chunks ih =>
    by_cases hlarge : 2147483648 ≤ b.contents.length + chunk.length
    · refine iff_of_false (not_survives_of_large htodo hb hcontents hlarge) fun hfit => ?_
      have := hfit.1
      omega
    · rw [List.flatten_cons, ← List.append_assoc] at hcontents
      obtain ⟨done, todo', rest, rfl, htext, hfuture, hpart'⟩ :=
        Framing.exists_split (F := protoFraming pb) htodo hcontents
      have hdone : ∀ m ∈ done, WellFormed pb m := fun m hm => htodo m (List.mem_append_left _ hm)
      have htodo' : ∀ m ∈ todo', WellFormed pb m := fun m hm =>
        htodo m (List.mem_append_right _ hm)
      obtain ⟨hwf, hread⟩ := SocketBuffer.readChunk_spec hb chunk
      have hkept : (b.readChunk chunk).contents = b.contents ++ chunk :=
        hread.resolve_right (by omega)
      have hsmall : (b.readChunk chunk).readableLen < 2147483648 := by
        rw [← SocketBuffer.length_contents hwf, hkept, List.length_append]
        omega
      obtain ⟨hmsgs, hwf', hrest, hstop⟩ := decodeLoop_small hdone htodo' hwf
        (hkept.trans htext) hpart' hfuture hsmall
      have hdrop := dropComplete_map hdone htodo' hpart'
      rw [← htext, List.length_append] at hdrop
      have hiff := ih htodo' hwf' (by rw [hrest]; exact hpart') (by rw [hrest]; exact hfuture)
      rw [hrest] at hiff
      rw [List.map_cons, ChunksFit, hdrop, ← hiff, and_iff_right (by omega)]
      constructor
      · rintro ⟨hall, hstops, hempty⟩
        simp only [receive, hmsgs] at hall
        exact ⟨List.append_cancel_left hall,
          fun stop hmem => hstops stop (List.mem_cons_of_mem _ hmem), hempty⟩
      · intro hsurvives
        have hpause : (decodeLoop pb (b.readChunk chunk)).2.1 = .pause := by
          rcases hstop with hpause | ⟨m, later, rfl, hbig⟩
          · exact hpause
          · -- a frame that is too long does not fit into the chunks to come
            have hm := htodo' m List.mem_cons_self
            have hcover := congrArg List.length hfuture
            rw [encodeAll_cons, List.length_append, List.length_append, hm.length_frame,
              List.length_flatten] at hcover
            have hlt := lt_of_chunksFit (hiff.mp hsurvives) (partial_length_lt hm hpart')
              (by omega)
            omega
        obtain ⟨hall, hstops, hempty⟩ := hsurvives
        refine ⟨by simp only [receive, hmsgs, hall], ?_, hempty⟩
        intro stop hmem
        rcases List.mem_cons.mp hmem with rfl | hmem
        · exact hpause
        · exact hstops stop hmem

/-- Encoding one well-formed message after the other gives their frames. -/
theorem encodeStream_eq (stray : ℕ → UInt8) {ms : List (MsgHead × MsgBody)}
    (hms : ∀ m ∈ ms, WellFormed pb m) : encodeStream pb stray ms = (protoFraming pb).encodeAll ms := by
  have hfold : ∀ (ms : List (MsgHead × MsgBody)) (sbuf : SocketBuffer), sbuf.Wf →
      (∀ m ∈ ms, WellFormed pb m) →
      (ms.foldl (fun sbuf m => (encode pb stray true true m.1 m.2 sbuf).2) sbuf).contents =
        sbuf.contents ++ (protoFraming pb).encodeAll ms := by
    intro ms
    induction ms with
    | nil => exact fun sbuf _ _ => (List.append_nil _).symm
    | cons m ms ih =>
      intro sbuf hbuf hms
      obtain ⟨-, hwf, hcontents⟩ := encode_spec pb stray m hbuf
      rw [List.foldl_cons, ih _ hwf fun x hx => hms x (List.mem_cons_of_mem _ hx), hcontents,
        (hms m List.mem_cons_self).encodeOut, List.append_assoc, encodeAll_cons]
  exact hfold ms {} SocketBuffer.wf_empty hms

/-- **The chunkings that a stream survives** are those that never make the buffer as long as
`2 ^ 31`. -/
theorem receive_survives_iff (stray : ℕ → UInt8) {ms : List (MsgHead × MsgBody)}
    {chunks : List Bytes} (hms : ∀ m ∈ ms, WellFormed pb m)
    (hchunks : chunks.flatten = encodeStream pb stray ms) :
    Survives ms (receive pb {} chunks) ↔
      ChunksFit (ms.map (frameLen pb)) 0 (chunks.map List.length) := by
  rw [encodeStream_eq stray hms] at hchunks
  exact receive_partial_iff hms SocketBuffer.wf_empty (Framing.Partial.nil hms) hchunks

end Stream

/-! ## Two streams -/

/-- A request and its answer, with 2 and 3 bytes of data. -/
def shortStream : List (MsgHead × MsgBody) :=
  [(⟨101, 7, 4, by decide⟩, { data := [104, 105] }), (⟨102, 7, 5, by decide⟩, { data := [98, 121, 101] })]

/-- Cut inside the head, and inside the second body. -/
theorem shortStream_survives :
    Survives shortStream (receive .wire {} [(encodeStream .wire (fun _ => 0) shortStream).take 7,
      ((encodeStream .wire (fun _ => 0) shortStream).drop 7).take 28,
      (encodeStream .wire (fun _ => 0) shortStream).drop 35]) := by
  refine (receive_survives_iff (fun _ => 0) ?_ ?_).mpr ?_
  · intro m hm
    simp only [shortStream, List.mem_cons, List.not_mem_nil, or_false] at hm
    rcases hm with rfl | rfl
    · exact ⟨by decide, by decide, by decide, by decide⟩
    · exact ⟨by decide, by decide, by decide, by decide⟩
  · decide
  · decide

/-- A body with `n` bytes of data. -/
def zeros (n : ℕ) : MsgBody := { data := List.replicate n 0 }

theorem length_serializeBody_zeros {n : ℕ} (h : n ≠ 0) :
    (serializeBody (zeros n)).length = 1 + (Wire.varint n).length + n := by
  have hdata : List.replicate n (0 : UInt8) ≠ [] := by
    rw [Ne, List.replicate_eq_nil_iff]
    exact h
  have hfields : bodyFields (zeros n) = [⟨3, .text (List.replicate n 0), by decide⟩] := by
    have hfield : bytesField 3 (zeros n).data = [⟨3, .text (List.replicate n 0), by decide⟩] :=
      if_neg hdata
    rw [bodyFields, hfield]
    rfl
  have htag : (Wire.varint (8 * 3 + 2)).length = 1 := by decide
  rw [serializeBody, hfields]
  simp only [Wire.encodeFields, List.flatMap_cons, List.flatMap_nil, List.append_nil,
    Wire.encodeField, Wire.encodeValue, Wire.Value.wireType, List.length_append, htag,
    List.length_replicate]
  omega

/-- A message with 2147483627 bytes of data; its frame has `2 ^ 31` bytes. -/
theorem wellFormed_zeros :
    WellFormed .wire (⟨101, 7, 2147483633, by decide⟩, zeros 2147483627) := by
  have hlen : (Wire.varint 2147483627).length = 5 := by decide
  refine ⟨by simp, by simp, by simp, ?_⟩
  show (2147483633 : ℤ) = (serializeBody (zeros 2147483627)).length
  rw [length_serializeBody_zeros (by decide), hlen]
  norm_num

/-- The length of the long frame overflows an `int`: the message does not come out, however its
text is cut. -/
theorem not_survives_zeros {chunks : List Bytes}
    (hchunks : chunks.flatten =
      encodeStream .wire (fun _ => 0) [(⟨101, 7, 2147483633, by decide⟩, zeros 2147483627)]) :
    ¬ Survives [(⟨101, 7, 2147483633, by decide⟩, zeros 2147483627)]
      (receive .wire {} chunks) := by
  intro hsurvives
  have hwf : ∀ m ∈ [((⟨101, 7, 2147483633, by decide⟩, zeros 2147483627) : MsgHead × MsgBody)],
      WellFormed .wire m := by
    intro m hm
    rw [List.mem_singleton.mp hm]
    exact wellFormed_zeros
  rw [encodeStream_eq _ hwf] at hchunks
  have hfit := (receive_partial_iff hwf SocketBuffer.wf_empty (Framing.Partial.nil hwf)
    hchunks).mp hsurvives
  have hframe : frameLen .wire (⟨101, 7, 2147483633, by decide⟩, zeros 2147483627) =
      2147483648 := by
    have hsize := wellFormed_zeros.frameLen_eq
    simp only [protoMsgHeadLen] at hsize
    omega
  have htotal := congrArg List.length hchunks
  rw [encodeAll_cons, List.length_append, wellFormed_zeros.length_frame, hframe,
    List.length_flatten] at htotal
  have hlt := lt_of_chunksFit (by simpa only [List.map_cons, hframe] using hfit) (by decide)
    (by rw [htotal]; simp)
  exact absurd hlt (by decide)

/-- **The long frame in one piece** does not come out. -/
theorem zeros_lost :
    ¬ Survives [(⟨101, 7, 2147483633, by decide⟩, zeros 2147483627)]
      (receive .wire {}
        [encodeStream .wire (fun _ => 0) [(⟨101, 7, 2147483633, by decide⟩, zeros 2147483627)]]) :=
  not_survives_zeros (List.flatten_singleton)

end Kimserver
