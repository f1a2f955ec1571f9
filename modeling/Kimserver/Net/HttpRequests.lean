import Mathlib.Data.List.Infix
import Kimserver.Lib.OrderedMap
import Kimserver.Codec.HttpRequest

/-!
# The requests of an HTTP connection

`Network::process_http_msg` reads what a socket has and decodes until `decode` does not return
`OK`. Every message is decoded into the `HttpMsg` of one `Request`, which lives as long as the
call: `msg.Clear()` clears another one.

A run of the parser ends with the buffer, so all requests in it go into one message, and a
message that is followed by the beginning of the next waits for it. Only a request for an upgrade
ends a run earlier; the one behind it finds what the message holds.

## Main definitions

* `HttpConn`, `HttpConn.processHttpMsg`, `receiveHttp`: one read, and a list of reads
* `Decoded`: every request is handed on, in order and once, with its own parts
* `serve`: what one read makes of the requests in the buffer
* `ReadsApart`: at every read the requests in the buffer stay apart

## Main results

* `HttpConn.httpLoop_serve`: the loop computes `serve`
* `receiveHttp_decoded`, `readsApart_of_decoded`: the two directions
* `receiveHttp_decoded_iff`: the reads that a stream of requests survives
-/

namespace Kimserver

/-! ## The connection -/

/-- A connection with its codec and the buffer it reads into. -/
structure HttpConn where
  codec : CodecHttp := {}
  recvBuf : SocketBuffer := {}

namespace HttpConn

variable (lib : HttpLib)

/-- `Connection::conn_read`; without bytes the read returned `EAGAIN`. -/
def connRead (c : HttpConn) (chunk : Bytes) : HttpConn :=
  if chunk = [] then c else { c with recvBuf := c.recvBuf.readChunk chunk }

/-- The loop of `process_http_msg`, from a call of `decode` on: the messages handed to
`process_req`, and the status that ended the loop. It is `ok` where `fuel` ran out. -/
def httpLoop : ℕ → HttpConn → HttpMsg → List HttpMsg × CodecStatus × HttpConn
  | 0, c, _ => ([], .ok, c)
  | fuel + 1, c, msg =>
    match c.codec.decode lib c.recvBuf msg with
    | (.ok, codec, recvBuf, msg) =>
      let t := httpLoop fuel { codec := codec, recvBuf := recvBuf } msg
      (msg :: t.1, t.2)
    | (status, codec, recvBuf, _) => ([], status, { codec := codec, recvBuf := recvBuf })

/-- `process_http_msg` on a socket that has `chunk`. Every message takes a byte of the buffer. -/
def processHttpMsg (c : HttpConn) (chunk : Bytes) : List HttpMsg × CodecStatus × HttpConn :=
  httpLoop lib ((c.connRead chunk).recvBuf.readableLen + 1) (c.connRead chunk) {}

end HttpConn

/-- Every chunk is read and decoded. The connection is closed unless the loop ended with
`PAUSE`. -/
def receiveHttp (lib : HttpLib) : HttpConn → List Bytes → List HttpMsg × List CodecStatus
  | _, [] => ([], [])
  | c, chunk :: chunks =>
    let r := c.processHttpMsg lib chunk
    if r.2.1 = .pause then
      let t := receiveHttp lib r.2.2 chunks
      (r.1 ++ t.1, r.2.1 :: t.2)
    else (r.1, [r.2.1])

/-- The messages handed on are the requests, in order and each once, with nothing of another
request in them; and every loop ends with `PAUSE`. -/
def Decoded (lib : HttpLib) (rs : List HttpRequest) (r : List HttpMsg × List CodecStatus) : Prop :=
  r.1.map HttpMsg.view = rs.map (HttpRequest.view lib) ∧ ∀ status ∈ r.2, status = .pause

/-! ## The requests in the buffer -/

/-- Take the complete requests from `n` bytes: these, the others, and the bytes left. -/
def complete : List HttpRequest → ℕ → List HttpRequest × List HttpRequest × ℕ
  | [], n => ([], [], n)
  | r :: rs, n =>
    if r.raw.length ≤ n then
      let t := complete rs (n - r.raw.length)
      (r :: t.1, t.2)
    else ([], r :: rs, n)

/-- Each of the complete requests in the buffer asks for an upgrade or is the last one with
nothing behind it, and hides the one before it in the message. -/
def DoneApart (lib : HttpLib) (left : ℕ) : HttpView → List HttpRequest → Prop
  | _, [] => True
  | v, r :: rs =>
    (r.upgrade = true ∨ rs = [] ∧ left = 0) ∧ r.Hides lib v ∧ DoneApart lib left (r.view lib) rs

/-- At every read the buffer is shorter than `2 ^ 31` bytes and its complete requests are apart;
`n` bytes of the requests are in the buffer before. -/
def ReadsApart (lib : HttpLib) : List HttpRequest → ℕ → List Bytes → Prop
  | _, _, [] => True
  | todo, n, chunk :: chunks =>
    let t := complete todo (n + chunk.length)
    n + chunk.length < 2147483648 ∧ DoneApart lib t.2.2 {} t.1 ∧ ReadsApart lib t.2.1 t.2.2 chunks

/-- What one call of `process_http_msg` makes of the complete requests in the buffer, with `left`
bytes behind them: `held` are those the parser has reported since its last stop, and the result is
what is handed on, whether the loop goes well, and the requests that stay in the buffer. -/
def serve (lib : HttpLib) (left : ℕ) :
    HttpView → List HttpRequest → List HttpRequest → List HttpView × Bool × List HttpRequest
  | v, held, [] =>
    if left = 0 ∧ held ≠ [] then
      match unpack lib (overAll lib v held) with
      | some w => ([w], true, [])
      | none => ([], false, [])
    else ([], true, held)
  | v, held, r :: rs =>
    if r.upgrade then
      match unpack lib (overAll lib v (held ++ [r])) with
      | some w =>
        let t := serve lib left w [] rs
        (w :: t.1, t.2)
      | none => ([], false, [])
    else serve lib left v (held ++ [r]) rs

/-- `n` bytes are a proper beginning of the first request. -/
def Pending (n : ℕ) : List HttpRequest → Prop
  | [] => n = 0
  | r :: _ => n < r.raw.length

theorem complete_spec {todo : List HttpRequest} {n : ℕ} (h : n ≤ (rawAll todo).length) :
    todo = (complete todo n).1 ++ (complete todo n).2.1 ∧
      (rawAll (complete todo n).1).length + (complete todo n).2.2 = n ∧
      Pending (complete todo n).2.2 (complete todo n).2.1 := by
  induction todo generalizing n with
  | nil => exact ⟨rfl, Nat.zero_add n, Nat.le_zero.mp h⟩
  | cons r rs ih =>
    rw [rawAll_cons, List.length_append] at h
    unfold complete
    split_ifs with hfit
    · obtain ⟨hsplit, hlen, hpending⟩ := ih (n := n - r.raw.length) (by omega)
      refine ⟨congrArg (r :: ·) hsplit, ?_, hpending⟩
      simp only [rawAll_cons, List.length_append]
      omega
    · exact ⟨rfl, Nat.zero_add n, not_le.mp hfit⟩

/-- The bytes of a stream that are in the buffer, by its complete requests. -/
theorem take_rawAll {todo : List HttpRequest} {n : ℕ} (h : n ≤ (rawAll todo).length) :
    (rawAll todo).take n = rawAll (complete todo n).1 ++
      (rawAll (complete todo n).2.1).take (complete todo n).2.2 := by
  obtain ⟨hsplit, hlen, -⟩ := complete_spec h
  generalize complete todo n = t at *
  rw [hsplit, rawAll_append, ← hlen, List.take_append, Nat.add_sub_cancel_left,
    List.take_of_length_le (Nat.le_add_right _ _)]

/-! ## The loop -/

namespace HttpConn

section Loop

variable {lib : HttpLib} {c : HttpConn} (msg : HttpMsg)

variable {msg} in
theorem httpLoop_stop {status : CodecStatus} {codec : CodecHttp} {buf : SocketBuffer}
    {msg' : HttpMsg} (h : c.codec.decode lib c.recvBuf msg = (status, codec, buf, msg'))
    (hne : status ≠ .ok) (fuel : ℕ) :
    c.httpLoop lib (fuel + 1) msg = ([], status, ⟨codec, buf⟩) := by
  unfold httpLoop
  rw [h]
  cases status with
  | ok => exact absurd rfl hne
  | err => rfl
  | pause => rfl
  | closed => rfl

variable {msg} in
theorem httpLoop_ok {codec : CodecHttp} {buf : SocketBuffer} {msg' : HttpMsg}
    (h : c.codec.decode lib c.recvBuf msg = (.ok, codec, buf, msg')) (fuel : ℕ) :
    c.httpLoop lib (fuel + 1) msg =
      (msg' :: (httpLoop lib fuel ⟨codec, buf⟩ msg').1,
        (httpLoop lib fuel ⟨codec, buf⟩ msg').2) := by
  conv_lhs => unfold httpLoop
  rw [h]

/-- **A run of the parser over several requests** hands on one message, with everything the
requests wrote into it, or ends the loop where its body cannot be decompressed. -/
theorem httpLoop_group {g : List HttpRequest} {rest : Bytes}
    (hwf : ∀ r ∈ g, r.WellFormed lib) (hne : g ≠ []) (hbuf : c.recvBuf.Wf)
    (hcontents : c.recvBuf.contents = rawAll g ++ rest)
    (hsmall : c.recvBuf.readableLen < 2147483648)
    (hrun : lib.execute c.recvBuf.contents = ⟨callsAll g, (rawAll g).length, true⟩) :
    (∃ (c' : HttpConn) (msg' : HttpMsg),
      unpack lib (overAll lib msg.view g) = some msg'.view ∧
      c'.recvBuf.Wf ∧ c'.recvBuf.contents = rest ∧ c'.recvBuf.readableLen < 2147483648 ∧
      ∀ fuel, c.httpLoop lib (fuel + 1) msg =
        (msg' :: (c'.httpLoop lib fuel msg').1, (c'.httpLoop lib fuel msg').2)) ∨
    (∃ c' : HttpConn, unpack lib (overAll lib msg.view g) = none ∧
      ∀ fuel, c.httpLoop lib (fuel + 1) msg = ([], .err, c')) := by
  have hlen := SocketBuffer.length_contents hbuf
  rw [hcontents, List.length_append] at hlen
  have hread : c.recvBuf.isReadable = true := by
    obtain ⟨r, g, rfl⟩ := List.exists_cons_of_ne_nil hne
    have hraw := List.length_pos_of_ne_nil (hwf r List.mem_cons_self).raw
    rw [rawAll_cons, List.length_append] at hlen
    rw [SocketBuffer.isReadable_iff]
    omega
  have hview := view_fire_callsAll lib (fun r hr => (hwf r hr).host) msg
  have hdone := isDecoding_fire_callsAll lib hne msg
  rcases CodecHttp.decode_done c.codec hread hrun hdone with
    ⟨codec', msg', hunpack, hdecode⟩ | ⟨codec', buf', msg', hunpack, hdecode⟩
  · rw [SocketBuffer.advanceReadIndex_toInt _ (by omega)] at hdecode
    have hfit : (rawAll g).length ≤ c.recvBuf.readableLen := by omega
    obtain ⟨hwf', hdrop⟩ := SocketBuffer.skipBytes_spec hbuf hfit
    rw [hcontents, List.drop_left' rfl] at hdrop
    refine Or.inl ⟨_, msg', hview ▸ hunpack, hwf', hdrop, ?_, httpLoop_ok hdecode⟩
    rw [← SocketBuffer.length_contents hwf', hdrop]
    omega
  · exact Or.inr ⟨_, hview ▸ hunpack, httpLoop_stop hdecode (by decide)⟩

/-- What the loop computes: the messages, the status, and what it leaves in the buffer. -/
structure Serves (tail : Bytes) (t : List HttpView × Bool × List HttpRequest)
    (r : List HttpMsg × CodecStatus × HttpConn) : Prop where
  views : r.1.map HttpMsg.view = t.1
  status : r.2.1 = if t.2.1 then .pause else .err
  wf : t.2.1 = true → r.2.2.recvBuf.Wf
  contents : t.2.1 = true → r.2.2.recvBuf.contents = rawAll t.2.2 ++ tail

/-- One more message in front. -/
theorem Serves.cons {tail : Bytes} {t : List HttpView × Bool × List HttpRequest}
    {r : List HttpMsg × CodecStatus × HttpConn} (h : Serves tail t r) (msg : HttpMsg) :
    Serves tail (msg.view :: t.1, t.2) (msg :: r.1, r.2) :=
  ⟨congrArg (msg.view :: ·) h.views, h.status, h.wf, h.contents⟩

/-- An empty buffer ends the loop. -/
theorem httpLoop_empty (hbuf : c.recvBuf.Wf) (h : c.recvBuf.contents = []) (fuel : ℕ) :
    c.httpLoop lib (fuel + 1) msg = ([], .pause, c) := by
  have hread : c.recvBuf.isReadable = false := by
    rw [SocketBuffer.not_isReadable_iff, ← SocketBuffer.length_contents hbuf, h, List.length_nil]
  exact httpLoop_stop (CodecHttp.decode_unread _ hread) (by decide) fuel

/-- A run that ends within a request ends the loop, and the requests before it stay in the
buffer with it. -/
theorem httpLoop_part {held next : List HttpRequest} {left : ℕ}
    (hrec : Recognises lib (held ++ next)) (hheld : Plain held) (hpending : Pending left next)
    (hleft : left ≠ 0) (hbuf : c.recvBuf.Wf)
    (hcontents : c.recvBuf.contents = rawAll held ++ (rawAll next).take left) (fuel : ℕ) :
    ∃ codec', c.httpLoop lib (fuel + 1) msg = ([], .pause, ⟨codec', c.recvBuf⟩) := by
  cases next with
  | nil => exact absurd hpending hleft
  | cons r next =>
    have hlt : left < r.raw.length := hpending
    rw [rawAll_cons, List.take_append_of_le_length hlt.le] at hcontents
    obtain ⟨calls, hcalls, hunfinished⟩ :=
      hrec.part held r left ⟨[], next, by simp⟩ hheld (Nat.pos_of_ne_zero hleft) hlt
    rw [← hcontents] at hcalls
    have hread : c.recvBuf.isReadable = true := by
      rw [SocketBuffer.isReadable_iff, ← SocketBuffer.length_contents hbuf, hcontents,
        List.length_append, List.length_take]
      omega
    have hpart : (fire lib (lib.execute c.recvBuf.contents).calls msg).isDecoding = true := by
      rw [hcalls, fire_append]
      exact hunfinished.isDecoding _
    obtain ⟨codec', msg', hdecode⟩ := CodecHttp.decode_part c.codec hread hpart
    exact ⟨codec', httpLoop_stop hdecode (by decide) fuel⟩

/-- **The loop of one read** computes what becomes of the requests in the buffer. The induction
is on the requests the parser has not reached. -/
theorem httpLoop_serve {done held next : List HttpRequest} {left fuel : ℕ}
    (hrec : Recognises lib (held ++ done ++ next)) (hwf : ∀ r ∈ held ++ done, r.WellFormed lib)
    (hheld : Plain held) (hpending : Pending left next) (hbuf : c.recvBuf.Wf)
    (hcontents : c.recvBuf.contents = rawAll (held ++ done) ++ (rawAll next).take left)
    (hsmall : c.recvBuf.readableLen < 2147483648) (hfuel : (held ++ done).length < fuel) :
    Serves ((rawAll next).take left) (serve lib left msg.view held done)
      (c.httpLoop lib fuel msg) := by
  induction done generalizing held c msg fuel with
  | nil =>
    obtain ⟨fuel, rfl⟩ : ∃ f, fuel = f + 1 := ⟨fuel - 1, by omega⟩
    rw [List.append_nil] at hrec hwf hcontents hfuel
    unfold serve
    by_cases hleft : left = 0
    · subst hleft
      by_cases hnone : held = []
      · -- nothing to read
        subst hnone
        rw [httpLoop_empty msg hbuf hcontents, if_neg (by simp)]
        exact ⟨rfl, rfl, fun _ => hbuf, fun _ => hcontents⟩
      · have hrun : lib.execute c.recvBuf.contents =
            ⟨callsAll held, (rawAll held).length, true⟩ := by
          rw [hcontents, List.take_zero, List.append_nil]
          exact hrec.whole held ⟨[], next, rfl⟩ hnone hheld
        rw [if_pos ⟨rfl, hnone⟩]
        rcases httpLoop_group msg hwf hnone hbuf hcontents hsmall hrun with
          ⟨c', msg', hunpack, hbuf', hrest, -, hloop⟩ | ⟨c', hunpack, hloop⟩
        · have hpos := List.length_pos_of_ne_nil hnone
          obtain ⟨fuel, rfl⟩ : ∃ f, fuel = f + 1 := ⟨fuel - 1, by omega⟩
          rw [hunpack, hloop, httpLoop_empty msg' hbuf' hrest]
          exact ⟨rfl, rfl, fun _ => hbuf', fun _ => hrest⟩
        · rw [hunpack, hloop]
          exact ⟨rfl, rfl, fun h => absurd h Bool.false_ne_true,
            fun h => absurd h Bool.false_ne_true⟩
    · obtain ⟨codec', hloop⟩ :=
        httpLoop_part msg hrec hheld hpending hleft hbuf hcontents fuel
      rw [hloop, if_neg fun h => hleft h.1]
      exact ⟨rfl, rfl, fun _ => hbuf, fun _ => hcontents⟩
  | cons r done ih =>
    have hsplit : held ++ r :: done = held ++ [r] ++ done := by simp
    rw [hsplit] at hrec hwf hcontents hfuel
    unfold serve
    by_cases hup : r.upgrade = true
    · obtain ⟨fuel, rfl⟩ : ∃ f, fuel = f + 1 := ⟨fuel - 1, by omega⟩
      rw [rawAll_append, List.append_assoc] at hcontents
      have hrun : lib.execute c.recvBuf.contents =
          ⟨callsAll (held ++ [r]), (rawAll (held ++ [r])).length, true⟩ := by
        rw [hcontents]
        exact hrec.upgrade held r _ ⟨[], done ++ next, by simp⟩ hheld hup
      rw [if_pos hup]
      rcases httpLoop_group msg (fun x hx => hwf x (List.mem_append_left _ hx))
          (by simp) hbuf hcontents hsmall hrun with
        ⟨c', msg', hunpack, hbuf', hrest, hsmall', hloop⟩ | ⟨c', hunpack, hloop⟩
      · rw [hunpack, hloop]
        have hrec' : Recognises lib ([] ++ done ++ next) :=
          hrec.mono ⟨held ++ [r], [], by simp⟩
        refine Serves.cons (ih msg' hrec' ?_ ?_ hbuf' hrest hsmall' ?_) msg'
        · exact fun x hx => hwf x (List.mem_append_right _ hx)
        · exact fun x hx => absurd hx List.not_mem_nil
        · simp only [List.length_append, List.length_nil, List.length_singleton] at hfuel ⊢
          omega
      · rw [hunpack, hloop]
        exact ⟨rfl, rfl, fun h => absurd h Bool.false_ne_true,
            fun h => absurd h Bool.false_ne_true⟩
    · rw [if_neg hup]
      refine ih msg hrec hwf ?_ hbuf hcontents hsmall hfuel
      exact plain_append.mpr ⟨hheld, plain_singleton.mpr (Bool.not_eq_true _ ▸ hup)⟩

end Loop

end HttpConn

/-! ## What becomes of the requests in the buffer -/

section Serve

variable {lib : HttpLib} {left : ℕ} {v : HttpView} {held done : List HttpRequest}

variable (lib left v held done) in
/-- The requests that stay in the buffer are its last ones. -/
theorem serve_suffix : (serve lib left v held done).2.2 <:+ held ++ done := by
  induction done generalizing v held with
  | nil =>
    unfold serve
    rw [List.append_nil]
    split_ifs
    · split
      · exact List.nil_suffix
      · exact List.nil_suffix
    · exact List.suffix_refl held
  | cons r done ih =>
    have hsplit : held ++ r :: done = held ++ [r] ++ done := by simp
    unfold serve
    rw [hsplit]
    split_ifs
    · split
      · exact (ih _ _).trans ⟨held ++ [r], by simp⟩
      · exact List.nil_suffix
    · exact ih _ _

variable (lib left v held done) in
/-- Requests stay in the buffer only where the beginning of another one is behind them, and none
of them asks for an upgrade. -/
theorem serve_stay (hheld : Plain held) (h : (serve lib left v held done).2.2 ≠ []) :
    left ≠ 0 ∧ Plain (serve lib left v held done).2.2 := by
  induction done generalizing v held with
  | nil =>
    unfold serve at h ⊢
    split_ifs at h ⊢ with hlast
    · split at h <;> exact absurd rfl h
    · exact ⟨fun hleft => hlast ⟨hleft, h⟩, hheld⟩
  | cons r done ih =>
    unfold serve at h ⊢
    split_ifs at h ⊢ with hup
    · cases hunpack : unpack lib (overAll lib v (held ++ [r])) with
      | none =>
        rw [hunpack] at h
        exact absurd rfl h
      | some w =>
        rw [hunpack] at h
        exact ih _ _ (fun x hx => absurd hx List.not_mem_nil) h
    · exact ih _ _ (plain_append.mpr ⟨hheld, plain_singleton.mpr (Bool.not_eq_true _ ▸ hup)⟩) h

variable (lib left v held done) in
/-- **Nothing is handed on twice**: a message takes at least one request. -/
theorem serve_count : (serve lib left v held done).1.length +
    (serve lib left v held done).2.2.length ≤ held.length + done.length := by
  induction done generalizing v held with
  | nil =>
    unfold serve
    split_ifs with hlast
    · have hpos := List.length_pos_of_ne_nil hlast.2
      split
      · exact hpos
      · exact Nat.zero_le _
    · exact (Nat.zero_add _).le
  | cons r done ih =>
    unfold serve
    split_ifs with hup
    · split
      · next w hunpack =>
        have hrest := ih w []
        simp only [List.length_cons, List.length_nil] at hrest ⊢
        omega
      · exact Nat.zero_le _
    · have hrest := ih v (held ++ [r])
      simp only [List.length_append, List.length_cons, List.length_nil] at hrest ⊢
      omega

variable (lib v) in
/-- **A request with something behind it** that asks for no upgrade is not handed on by itself:
either all requests stay, or two of them go into one message. -/
theorem serve_crowded (hheld : held ≠ []) (h : done ≠ [] ∨ left ≠ 0) :
    serve lib left v held done = ([], true, held ++ done) ∨
      (serve lib left v held done).1.length + (serve lib left v held done).2.2.length <
        held.length + done.length := by
  have hpos := List.length_pos_of_ne_nil hheld
  induction done generalizing v held with
  | nil =>
    have hleft : left ≠ 0 := h.resolve_left fun hne => hne rfl
    left
    unfold serve
    rw [if_neg fun hlast => hleft hlast.1, List.append_nil]
  | cons r done ih =>
    unfold serve
    split_ifs with hup
    · right
      split
      · next w hunpack =>
        have hrest := serve_count lib left w [] done
        simp only [List.length_cons, List.length_nil] at hrest ⊢
        omega
      · simp only [List.length_nil, List.length_cons]
        omega
    · by_cases hmore : done ≠ [] ∨ left ≠ 0
      · have hne : held ++ [r] ≠ [] := List.append_ne_nil_of_right_ne_nil _ (List.cons_ne_nil r [])
        rcases ih (v := v) hne hmore (List.length_pos_of_ne_nil hne) with heq | hlt
        · left
          rw [heq, List.append_assoc, List.singleton_append]
        · right
          simp only [List.length_append, List.length_cons, List.length_nil] at hlt ⊢
          omega
      · right
        have hdone : done = [] := by_contra fun hne => hmore (Or.inl hne)
        have hleft : left = 0 := by_contra fun hne => hmore (Or.inr hne)
        subst hdone
        unfold serve
        rw [if_pos ⟨hleft, by simp⟩]
        split
        · simp only [List.length_cons, List.length_nil]
          omega
        · simp only [List.length_cons, List.length_nil]
          omega

/-- Requests that are apart are handed on as they are. -/
theorem serve_of_apart (hwf : ∀ r ∈ done, r.WellFormed lib) (h : DoneApart lib left v done) :
    serve lib left v [] done = (done.map (HttpRequest.view lib), true, []) := by
  induction done generalizing v with
  | nil =>
    unfold serve
    rw [if_neg fun hlast => hlast.2 rfl]
    rfl
  | cons r done ih =>
    obtain ⟨hends, hhides, hrest⟩ := h
    have hview := (HttpRequest.hides_iff (hwf r List.mem_cons_self)).mpr hhides
    have hgroup : unpack lib (overAll lib v ([] ++ [r])) = some (r.view lib) := hview
    unfold serve
    by_cases hup : r.upgrade = true
    · rw [if_pos hup, hgroup, List.map_cons]
      dsimp only
      rw [ih (fun x hx => hwf x (List.mem_cons_of_mem _ hx)) hrest]
    · obtain ⟨rfl, rfl⟩ := hends.resolve_left hup
      rw [if_neg hup]
      unfold serve
      rw [if_pos ⟨rfl, by simp⟩, hgroup]
      rfl

/-- **Only requests that are apart** are handed on as they are. -/
theorem apart_of_serve (hwf : ∀ r ∈ done, r.WellFormed lib)
    (h : (serve lib left v [] done).1 = done.map (HttpRequest.view lib)) :
    DoneApart lib left v done := by
  induction done generalizing v with
  | nil => trivial
  | cons r done ih =>
    have hr := hwf r List.mem_cons_self
    have hgroup : overAll lib v ([] ++ [r]) = r.laidOver lib v := rfl
    by_cases hup : r.upgrade = true
    · unfold serve at h
      rw [if_pos hup, hgroup] at h
      cases hunpack : unpack lib (r.laidOver lib v) with
      | none =>
        rw [hunpack] at h
        exact absurd h.symm (List.cons_ne_nil _ _)
      | some w =>
        rw [hunpack] at h
        obtain ⟨rfl, hrest⟩ := List.cons.inj h
        exact ⟨Or.inl hup, (HttpRequest.hides_iff hr).mp hunpack,
          ih (fun x hx => hwf x (List.mem_cons_of_mem _ hx)) hrest⟩
    · have hheld : serve lib left v [] (r :: done) = serve lib left v [r] done := by
        conv_lhs => unfold serve
        rw [if_neg hup]
        rfl
      rw [hheld] at h
      by_cases hmore : done ≠ [] ∨ left ≠ 0
      · -- the message has another request in it, or none is handed on
        have hlen := congrArg List.length h
        rw [List.length_map] at hlen
        rcases serve_crowded lib v (List.cons_ne_nil r []) hmore with heq | hlt
        · rw [heq] at hlen
          exact absurd hlen (by simp)
        · simp only [List.length_cons, List.length_nil] at hlt hlen
          omega
      · have hdone : done = [] := by_contra fun hne => hmore (Or.inl hne)
        have hleft : left = 0 := by_contra fun hne => hmore (Or.inr hne)
        subst hdone
        refine ⟨Or.inr ⟨rfl, hleft⟩, (HttpRequest.hides_iff hr).mp ?_, trivial⟩
        unfold serve at h
        have hone : overAll lib v [r] = r.laidOver lib v := rfl
        rw [if_pos ⟨hleft, by simp⟩] at h
        cases hunpack : unpack lib (r.laidOver lib v) with
        | none =>
          rw [hone, hunpack] at h
          exact absurd h.symm (List.cons_ne_nil _ _)
        | some w =>
          rw [hone, hunpack] at h
          exact congrArg some (List.cons.inj h).1

end Serve

/-! ## One read -/

section Read

variable {lib : HttpLib} {c : HttpConn} {todo : List HttpRequest} {n : ℕ} {chunk : Bytes}
  {chunks : List Bytes}

theorem HttpConn.connRead_spec (hbuf : c.recvBuf.Wf)
    (hsmall : c.recvBuf.contents.length + chunk.length < 2147483648) :
    (c.connRead chunk).recvBuf.Wf ∧
      (c.connRead chunk).recvBuf.contents = c.recvBuf.contents ++ chunk := by
  unfold HttpConn.connRead
  split_ifs with hnone
  · rw [hnone, List.append_nil]
    exact ⟨hbuf, rfl⟩
  · obtain ⟨hwf, hread⟩ := SocketBuffer.readChunk_spec hbuf chunk
    exact ⟨hwf, hread.resolve_right (by omega)⟩

/-- The first `n` bytes of `todo` are in the buffer, and the others are still to be read. -/
structure Reading (lib : HttpLib) (c : HttpConn) (todo : List HttpRequest) (n : ℕ)
    (chunks : List Bytes) : Prop where
  recognises : Recognises lib todo
  wellFormed : ∀ r ∈ todo, r.WellFormed lib
  wf : c.recvBuf.Wf
  contents : c.recvBuf.contents = (rawAll todo).take n
  le : n ≤ (rawAll todo).length
  chunks : chunks.flatten = (rawAll todo).drop n

theorem Reading.add_le (h : Reading lib c todo n (chunk :: chunks)) :
    n + chunk.length ≤ (rawAll todo).length := by
  have hlen := congrArg List.length h.chunks
  have hle := h.le
  rw [List.flatten_cons, List.length_append, List.length_drop] at hlen
  omega

theorem Reading.take_add (h : Reading lib c todo n (chunk :: chunks)) :
    (rawAll todo).take n ++ chunk = (rawAll todo).take (n + chunk.length) := by
  rw [List.take_add, ← h.chunks, List.flatten_cons, List.take_left' rfl]

theorem Reading.drop_add (h : Reading lib c todo n (chunk :: chunks)) :
    chunks.flatten = (rawAll todo).drop (n + chunk.length) := by
  rw [← List.drop_drop, ← h.chunks, List.flatten_cons, List.drop_left' rfl]

/-- The requests of a read: those that are complete, those that are not, and how many bytes are there
of the first of these. -/
theorem Reading.completes (h : Reading lib c todo n (chunk :: chunks)) :
    ∃ done rest left, complete todo (n + chunk.length) = (done, rest, left) ∧
      todo = done ++ rest ∧ Pending left rest ∧ ∀ r ∈ done, r.WellFormed lib := by
  obtain ⟨hsplit, -, hpending⟩ := complete_spec h.add_le
  refine ⟨_, _, _, rfl, hsplit, hpending, fun r hr => h.wellFormed r ?_⟩
  rw [hsplit]
  exact List.mem_append_left _ hr

/-- The reading goes on with the requests that stay in the buffer, in front of those that are not
complete. -/
theorem Reading.next (h : Reading lib c todo n (chunk :: chunks))
    {done rest stay : List HttpRequest} {left : ℕ} {c' : HttpConn} (hsplit : todo = done ++ rest)
    (hlen : (rawAll done).length + left = n + chunk.length) (hstay : stay ++ rest <:+ todo)
    (hwf : c'.recvBuf.Wf)
    (hcontents : c'.recvBuf.contents = rawAll stay ++ (rawAll rest).take left) :
    Reading lib c' (stay ++ rest) ((rawAll stay).length + left) chunks where
  recognises := h.recognises.mono hstay.isInfix
  wellFormed r hr := h.wellFormed r (hstay.mem hr)
  wf := hwf
  contents := by rw [hcontents, rawAll_append, List.take_length_add_append]
  le := by
    have hle := h.add_le
    rw [hsplit, ← hlen, rawAll_append, List.length_append] at hle
    rw [rawAll_append, List.length_append]
    omega
  chunks := by
    rw [h.drop_add, hsplit, ← hlen, rawAll_append, rawAll_append, List.drop_length_add_append,
      List.drop_length_add_append]

theorem length_rawAll_le {part todo : List HttpRequest} (h : part <:+ todo) :
    (rawAll part).length ≤ (rawAll todo).length := by
  obtain ⟨gone, rfl⟩ := h
  rw [rawAll_append, List.length_append]
  exact Nat.le_add_left _ _

/-- **One read**: what is handed on and what stays in the buffer is computed from the complete
requests in it, and unless the connection is closed, the reading goes on. -/
theorem Reading.receiveHttp_cons (h : Reading lib c todo n (chunk :: chunks))
    (hsmall : n + chunk.length < 2147483648) {done rest : List HttpRequest} {left : ℕ}
    (ht : complete todo (n + chunk.length) = (done, rest, left)) {views : List HttpView}
    {ok : Bool} {stay : List HttpRequest}
    (hs : serve lib left {} [] done = (views, ok, stay)) :
    (ok = false ∧ (receiveHttp lib c (chunk :: chunks)).1.map HttpMsg.view = views) ∨
    (ok = true ∧ ∃ c', Reading lib c' (stay ++ rest) ((rawAll stay).length + left) chunks ∧
      (rawAll (stay ++ rest)).length ≤ (rawAll todo).length ∧
      (receiveHttp lib c (chunk :: chunks)).1.map HttpMsg.view =
        views ++ (receiveHttp lib c' chunks).1.map HttpMsg.view ∧
      (receiveHttp lib c (chunk :: chunks)).2 = .pause :: (receiveHttp lib c' chunks).2) := by
  obtain ⟨hsplit, hlen, hpending⟩ := complete_spec h.add_le
  have htake := take_rawAll h.add_le
  rw [ht] at hsplit hlen hpending htake
  dsimp only at hsplit hlen hpending htake
  have hcontents := h.contents
  have hfit : c.recvBuf.contents.length + chunk.length < 2147483648 := by
    rw [hcontents, List.length_take]
    omega
  obtain ⟨hbuf, hread⟩ := HttpConn.connRead_spec h.wf hfit
  rw [hcontents, h.take_add, htake] at hread
  have hwf : ∀ r ∈ done, r.WellFormed lib := by
    intro r hr
    refine h.wellFormed r ?_
    rw [hsplit]
    exact List.mem_append_left _ hr
  have hcount := length_le_rawAll fun r hr => (hwf r hr).raw
  have hlenRead := SocketBuffer.length_contents hbuf
  rw [hread, List.length_append, List.length_take] at hlenRead
  -- the loop serves the requests that are complete
  have hserves : HttpConn.Serves ((rawAll rest).take left) (views, ok, stay)
      (c.processHttpMsg lib chunk) := by
    rw [← hs]
    have hrec : Recognises lib ([] ++ done ++ rest) := by
      rw [List.nil_append, ← hsplit]
      exact h.recognises
    refine HttpConn.httpLoop_serve {} hrec hwf ?_ hpending hbuf hread ?_ ?_
    · exact fun r hr => absurd hr List.not_mem_nil
    · omega
    · rw [List.nil_append]
      omega
  have hstay : stay ++ rest <:+ todo := by
    have hsuffix := serve_suffix lib left {} [] done
    rw [hs, List.nil_append] at hsuffix
    obtain ⟨gone, hgone⟩ := hsuffix
    exact ⟨gone, by rw [← List.append_assoc, hgone, ← hsplit]⟩
  obtain ⟨hviews, hstatus, hwf', hcontents'⟩ := hserves
  dsimp only at hviews hstatus hwf' hcontents'
  cases ok with
  | false =>
    refine Or.inl ⟨rfl, ?_⟩
    -- the connection is closed, and no read follows
    have herr : (c.processHttpMsg lib chunk).2.1 ≠ .pause := by
      rw [hstatus]
      exact CodecStatus.noConfusion
    unfold receiveHttp
    rw [if_neg herr]
    exact hviews
  | true =>
    have hpause : (c.processHttpMsg lib chunk).2.1 = .pause := hstatus
    refine Or.inr ⟨rfl, (c.processHttpMsg lib chunk).2.2,
      h.next hsplit hlen hstay (hwf' rfl) (hcontents' rfl), length_rawAll_le hstay, ?_, ?_⟩
    · conv_lhs => unfold receiveHttp
      rw [if_pos hpause, List.map_append, hviews]
    · conv_lhs => unfold receiveHttp
      rw [if_pos hpause, hpause]

end Read

/-! ## All reads -/

section Reads

variable {lib : HttpLib} {c : HttpConn} {todo : List HttpRequest} {n : ℕ} {chunks : List Bytes}

/-- **Reads that keep the requests apart** hand on every request. -/
theorem receiveHttp_decoded (h : Reading lib c todo n chunks) (hpending : Pending n todo)
    (hapart : ReadsApart lib todo n chunks) : Decoded lib todo (receiveHttp lib c chunks) := by
  induction chunks generalizing c todo n with
  | nil =>
    have hnil : todo = [] := by
      cases todo with
      | nil => rfl
      | cons r todo =>
        have hlt : n < r.raw.length := hpending
        have hlen := congrArg List.length h.chunks
        rw [List.flatten_nil, List.length_drop, rawAll_cons, List.length_append,
          List.length_nil] at hlen
        omega
    rw [hnil]
    exact ⟨rfl, fun status hmem => absurd hmem List.not_mem_nil⟩
  | cons chunk chunks ih =>
    obtain ⟨hsmall, hdone, hrest⟩ := hapart
    obtain ⟨done, rest, left, ht, hsplit, hpending', hwf⟩ := h.completes
    rw [ht] at hdone hrest
    dsimp only at hdone hrest
    rcases h.receiveHttp_cons hsmall ht (serve_of_apart hwf hdone) with
      ⟨hfalse, -⟩ | ⟨-, c', hreading, -, hviews, hstatus⟩
    · exact absurd hfalse.symm Bool.false_ne_true
    · rw [List.nil_append, rawAll_nil, List.length_nil, Nat.zero_add] at hreading
      obtain ⟨hall, hpauses⟩ := ih hreading hpending' hrest
      refine ⟨?_, fun status hmem => ?_⟩
      · rw [hviews, hall, ← List.map_append, ← hsplit]
      · rw [hstatus] at hmem
        rcases List.mem_cons.mp hmem with rfl | hmem
        · rfl
        · exact hpauses status hmem

/-- No more messages are handed on than there are requests. -/
theorem length_receiveHttp_le (h : Reading lib c todo n chunks)
    (htotal : (rawAll todo).length < 2147483648) :
    (receiveHttp lib c chunks).1.length ≤ todo.length := by
  induction chunks generalizing c todo n with
  | nil => exact Nat.zero_le _
  | cons chunk chunks ih =>
    have hadd := h.add_le
    obtain ⟨done, rest, left, ht, hsplit, -, -⟩ := h.completes
    obtain ⟨views, ok, stay, hs⟩ : ∃ views ok stay,
      serve lib left {} [] done = (views, ok, stay) := ⟨_, _, _, rfl⟩
    have hcount := serve_count lib left {} [] done
    rw [hs] at hcount
    dsimp only at hcount
    rw [List.length_nil, Nat.zero_add] at hcount
    rw [← List.length_map (f := HttpMsg.view), hsplit, List.length_append]
    rcases h.receiveHttp_cons (by omega) ht hs with
      ⟨-, hviews⟩ | ⟨-, c', hreading, hle, hviews, -⟩
    · rw [hviews]
      omega
    · have hrest := ih hreading (by omega)
      rw [List.length_append] at hrest
      rw [hviews, List.length_append, List.length_map]
      omega

/-- **A request with something behind it in the buffer** is lost or shares a message, unless it
asks for an upgrade. -/
theorem length_receiveHttp_lt {r : HttpRequest} (h : Reading lib c (r :: todo) n chunks)
    (hup : r.upgrade = false) (hlt : r.raw.length < n)
    (htotal : (rawAll (r :: todo)).length < 2147483648) :
    (receiveHttp lib c chunks).1.length < (r :: todo).length := by
  induction chunks generalizing c todo n with
  | nil => exact Nat.succ_pos _
  | cons chunk chunks ih =>
    have hadd := h.add_le
    obtain ⟨hsplit, hlen, -⟩ := complete_spec hadd
    -- the first request is complete, and something is behind it
    have hfirst : complete (r :: todo) (n + chunk.length) =
        (r :: (complete todo (n + chunk.length - r.raw.length)).1,
          (complete todo (n + chunk.length - r.raw.length)).2) := if_pos (by omega)
    obtain ⟨done, rest, left, ht⟩ : ∃ done rest left,
      complete todo (n + chunk.length - r.raw.length) = (done, rest, left) := ⟨_, _, _, rfl⟩
    rw [ht] at hfirst
    rw [hfirst] at hsplit hlen
    dsimp only at hsplit hlen
    rw [rawAll_cons, List.length_append] at hlen
    have hbehind : done ≠ [] ∨ left ≠ 0 := by
      by_contra hnone
      rw [not_or, not_not, not_not] at hnone
      rw [hnone.1, hnone.2, rawAll_nil, List.length_nil] at hlen
      omega
    have hserve : serve lib left {} [] (r :: done) = serve lib left {} [r] done := by
      conv_lhs => unfold serve
      rw [if_neg (by rw [hup]; exact Bool.false_ne_true)]
      rfl
    obtain ⟨views, ok, stay, hs⟩ : ∃ views ok stay,
      serve lib left {} [] (r :: done) = (views, ok, stay) := ⟨_, _, _, rfl⟩
    have hcrowded := serve_crowded lib {} (List.cons_ne_nil r []) hbehind
    rw [← hserve, hs] at hcrowded
    rw [← List.length_map (f := HttpMsg.view)]
    rcases h.receiveHttp_cons (by omega) hfirst hs with
      ⟨hfalse, hviews⟩ | ⟨-, c', hreading, hle, hviews, -⟩
    · rcases hcrowded with heq | hless
      · rw [(Prod.mk.inj (Prod.mk.inj heq).2).1] at hfalse
        exact absurd hfalse.symm Bool.false_ne_true
      · rw [hviews, hsplit]
        simp only [List.length_cons, List.length_nil, List.length_append] at hless ⊢
        omega
    · rw [hviews, List.length_append, List.length_map]
      rcases hcrowded with heq | hless
      · obtain ⟨rfl, -, rfl⟩ : views = [] ∧ ok = true ∧ stay = [r] ++ done := by
          obtain ⟨hv, hrest⟩ := Prod.mk.inj heq
          exact ⟨hv, (Prod.mk.inj hrest).1, (Prod.mk.inj hrest).2⟩
        -- all complete requests stay: the next read decides
        have htodo : todo = done ++ rest := (List.cons.inj hsplit).2
        rw [List.length_nil, Nat.zero_add]
        have hsame : [r] ++ done ++ rest = r :: todo := by rw [htodo]; rfl
        rw [hsame] at hreading
        refine ih hreading ?_ htotal
        rw [List.singleton_append, rawAll_cons, List.length_append]
        omega
      · have hrest := length_receiveHttp_le hreading (by omega)
        rw [hsplit]
        simp only [List.length_cons, List.length_nil, List.length_append] at hless hrest ⊢
        omega

/-- **Only reads that keep the requests apart** hand on every request. -/
theorem readsApart_of_decoded (h : Reading lib c todo n chunks) (hpending : Pending n todo)
    (htotal : (rawAll todo).length < 2147483648)
    (hdecoded : (receiveHttp lib c chunks).1.map HttpMsg.view = todo.map (HttpRequest.view lib)) :
    ReadsApart lib todo n chunks := by
  induction chunks generalizing c todo n with
  | nil => trivial
  | cons chunk chunks ih =>
    have hadd := h.add_le
    obtain ⟨done, rest, left, ht, hsplit, hpending', hwf⟩ := h.completes
    obtain ⟨views, ok, stay, hs⟩ : ∃ views ok stay,
      serve lib left {} [] done = (views, ok, stay) := ⟨_, _, _, rfl⟩
    have hcount := serve_count lib left {} [] done
    rw [hs] at hcount
    dsimp only at hcount
    rw [List.length_nil, Nat.zero_add] at hcount
    -- it is enough that the complete requests of this read are handed on as they are
    have hviewsDone : views = done.map (HttpRequest.view lib) → DoneApart lib left {} done :=
      fun heq => apart_of_serve hwf (by rw [hs]; exact heq)
    have hlenAll := congrArg List.length hdecoded
    rw [List.length_map, List.length_map, hsplit, List.length_append] at hlenAll
    rw [hsplit, List.map_append] at hdecoded
    unfold ReadsApart
    rw [ht]
    dsimp only
    refine ⟨by omega, ?_⟩
    rcases h.receiveHttp_cons (by omega) ht hs with
      ⟨hfalse, hviews⟩ | ⟨-, c', hreading, hle, hviews, -⟩
    · -- the connection would be closed, but nothing is missing
      have hlen := congrArg List.length hviews
      rw [List.length_map, hlenAll] at hlen
      have heq : views = done.map (HttpRequest.view lib) := by
        rw [← hviews, hdecoded, List.length_eq_zero_iff.mp (by omega : rest.length = 0),
          List.map_nil, List.append_nil]
      have hserve := serve_of_apart hwf (hviewsDone heq)
      rw [hs] at hserve
      rw [(Prod.mk.inj (Prod.mk.inj hserve).2).1] at hfalse
      exact absurd hfalse.symm Bool.false_ne_true
    · have hlen := congrArg List.length hviews
      rw [List.length_map, hlenAll, List.length_append, List.length_map] at hlen
      have hstay : stay = [] := by
        by_contra hne
        have hplain := serve_stay lib left {} [] done
          (fun x hx => absurd hx List.not_mem_nil) (by rw [hs]; exact hne)
        rw [hs] at hplain
        obtain ⟨hleft, hplain⟩ := hplain
        obtain ⟨r, stay, rfl⟩ := List.exists_cons_of_ne_nil hne
        rw [List.cons_append] at hreading hle
        have hlt := length_receiveHttp_lt hreading (hplain r List.mem_cons_self) (by
          rw [rawAll_cons, List.length_append]
          omega) (by omega)
        simp only [List.length_cons, List.length_append] at hlt hcount
        omega
      subst hstay
      rw [List.nil_append, rawAll_nil, List.length_nil, Nat.zero_add] at hreading
      rw [List.nil_append] at hle
      have hrestLen := length_receiveHttp_le hreading (by omega)
      rw [hdecoded] at hviews
      obtain ⟨hdone, hrest⟩ := List.append_inj hviews (by
        rw [List.length_map]
        simp only [List.length_nil] at hcount
        omega)
      exact ⟨hviewsDone hdone.symm, ih hreading hpending' (by omega) hrest.symm⟩

/-- **The reads that a stream survives.** Every keep-alive stream that is read with its requests
apart is handed on request by request, and no other stream shorter than `2 ^ 31` bytes is. -/
theorem receiveHttp_decoded_iff {rs : List HttpRequest} (hwf : ∀ r ∈ rs, r.WellFormed lib)
    (hrec : Recognises lib rs) (hchunks : chunks.flatten = rawAll rs) :
    (ReadsApart lib rs 0 chunks → Decoded lib rs (receiveHttp lib {} chunks)) ∧
      ((rawAll rs).length < 2147483648 → Decoded lib rs (receiveHttp lib {} chunks) →
        ReadsApart lib rs 0 chunks) := by
  have hreading : Reading lib {} rs 0 chunks :=
    ⟨hrec, hwf, SocketBuffer.wf_empty, rfl, Nat.zero_le _, hchunks⟩
  have hpending : Pending 0 rs := by
    cases rs with
    | nil => rfl
    | cons r rs => exact List.length_pos_of_ne_nil (hwf r List.mem_cons_self).raw
  exact ⟨receiveHttp_decoded hreading hpending,
    fun htotal hdecoded => readsApart_of_decoded hreading hpending htotal hdecoded.1⟩

end Reads

/-! ## Two streams -/

/-- The parser on requests of one layout, `GET`, a path of two bytes, and one header line: its
calls, by the place in the input they are made at. -/
def sampleExecute (input : Bytes) : Execution where
  calls := (List.range (input.length / 28 + 1)).flatMap fun i =>
    let data (offset len : ℕ) := (input.drop (28 * i + offset)).take len
    let at_ (offset : ℕ) (call : HttpCallback) :=
      if 28 * i + offset < input.length then [call] else []
    at_ 0 .messageBegin ++ at_ 4 (.url (data 4 2)) ++ at_ 17 (.headerField (data 17 4)) ++
      at_ 23 (.headerValue (data 23 1)) ++ at_ 27 .headersComplete ++
      at_ 27 (.messageComplete ⟨0, 1, 1, 1, true⟩)
  len := input.length
  ok := true

/-- The parser on such requests, whose urls are paths. -/
def sampleLib : HttpLib where
  execute := sampleExecute
  parseUrl url := if 0 ∈ url then none else some ⟨some url, none⟩
  ungzip _ := none
  atof _ := zero
  path_noNul := by
    intro url parsed path hparse hpath
    split_ifs at hparse with hmem
    rw [← Option.some.inj hparse] at hpath
    rwa [← Option.some.inj hpath]

/-- `GET` of a path with the host `h`. -/
def sampleGet (path : String) : HttpRequest where
  raw := text ("GET " ++ path ++ " HTTP/1.1\r\nHost: h\r\n\r\n")
  method := 1
  url := text path
  headers := [⟨text "Host", text "h", []⟩]
  body := .identity []

theorem sampleGet_wellFormed (path : String) : (sampleGet path).WellFormed sampleLib where
  raw := by simp [sampleGet, text]
  host := by simp [sampleGet]
  names := by
    intro h hh
    rw [List.mem_singleton.mp hh]
    decide
  content := by
    have hfields : gzipped (sampleGet path).fields = false := by
      show gzipped (FiniteMap.assignAll ∅ [(text "Host", text "h")]) = false
      decide
    rw [HttpRequest.content, hfields]
    rfl

/-- What `Recognises` asks of the lists of requests in a stream, each found in a tail of it. -/
theorem recognises_of_tails {lib : HttpLib} {rs : List HttpRequest} (hplain : Plain rs)
    (hwhole : ∀ s ∈ rs.tails, ∀ g ∈ s.inits, g ≠ [] →
      lib.execute (rawAll g) = ⟨callsAll g, (rawAll g).length, true⟩)
    (hpart : ∀ s ∈ rs.tails, ∀ g ∈ s.inits, ∀ r ∈ g.getLast?, ∀ k < r.raw.length, 0 < k →
      callsAll g.dropLast <+: (lib.execute (rawAll g.dropLast ++ r.raw.take k)).calls ∧
        Unfinished ((lib.execute (rawAll g.dropLast ++ r.raw.take k)).calls.drop
          (callsAll g.dropLast).length)) : Recognises lib rs := by
  have hmem : ∀ {g : List HttpRequest}, g <:+: rs → ∃ s ∈ rs.tails, g ∈ s.inits := by
    intro g hg
    obtain ⟨s, hs, hg⟩ := List.infix_iff_prefix_suffix.mp hg
    exact ⟨s, (List.mem_tails _ _).mpr hg, (List.mem_inits _ _).mpr hs⟩
  refine ⟨fun g hg hne _ => ?_, fun g r rest hg _ hup => ?_, fun g r k hg _ hk hlt => ?_⟩
  · obtain ⟨s, hs, hg⟩ := hmem hg
    exact hwhole s hs g hg hne
  · have hr := hplain r (hg.mem (List.mem_append_right _ List.mem_cons_self))
    rw [hr] at hup
    exact absurd hup Bool.false_ne_true
  · obtain ⟨s, hs, hg⟩ := hmem hg
    obtain ⟨hpre, hunfinished⟩ := hpart s hs _ hg r (by simp) k hlt hk
    rw [List.dropLast_concat] at hpre hunfinished
    obtain ⟨calls, hcalls⟩ := hpre
    rw [← hcalls, List.drop_left' rfl] at hunfinished
    exact ⟨calls, hcalls.symm, hunfinished⟩

theorem sampleStream_recognises : Recognises sampleLib [sampleGet "/a", sampleGet "/b"] := by
  refine recognises_of_tails (by decide) ?_ ?_
  · decide +kernel
  · decide +kernel

theorem sampleStream_wellFormed :
    ∀ r ∈ [sampleGet "/a", sampleGet "/b"], r.WellFormed sampleLib := by
  intro r hr
  simp only [List.mem_cons, List.not_mem_nil, or_false] at hr
  rcases hr with rfl | rfl
  · exact sampleGet_wellFormed "/a"
  · exact sampleGet_wellFormed "/b"

/-- In an empty message such a request is read as it is. -/
theorem sampleGet_hides (path : String) : (sampleGet path).Hides sampleLib {} where
  unfolded := by
    intro h hh
    rw [List.mem_singleton.mp hh]
  path := Or.inr rfl
  params := fun k hk => absurd hk Finmap.notMem_empty
  headers := fun k hk => absurd hk Finmap.notMem_empty
  body := rfl

/-- The first request in two reads, and the second in one. -/
theorem sampleStream_decoded :
    Decoded sampleLib [sampleGet "/a", sampleGet "/b"] (receiveHttp sampleLib {}
      [(sampleGet "/a").raw.take 10, (sampleGet "/a").raw.drop 10, (sampleGet "/b").raw]) := by
  refine (receiveHttp_decoded_iff sampleStream_wellFormed sampleStream_recognises
    (by decide)).1 ?_
  have hfirst : complete [sampleGet "/a", sampleGet "/b"] 10 =
      ([], [sampleGet "/a", sampleGet "/b"], 10) := by decide
  have hsecond : complete [sampleGet "/a", sampleGet "/b"] 28 =
      ([sampleGet "/a"], [sampleGet "/b"], 0) := by decide
  have hthird : complete [sampleGet "/b"] 28 = ([sampleGet "/b"], [], 0) := by decide
  refine ⟨by decide, ?_, ?_⟩
  · show DoneApart sampleLib (complete _ 10).2.2 {} (complete _ 10).1
    rw [hfirst]
    exact trivial
  · show ReadsApart sampleLib (complete _ 10).2.1 (complete _ 10).2.2 _
    rw [hfirst]
    refine ⟨by decide, ?_, ?_⟩
    · show DoneApart sampleLib (complete _ 28).2.2 {} (complete _ 28).1
      rw [hsecond]
      exact ⟨Or.inr ⟨rfl, rfl⟩, sampleGet_hides "/a", trivial⟩
    · show ReadsApart sampleLib (complete _ 28).2.1 (complete _ 28).2.2 _
      rw [hsecond]
      refine ⟨by decide, ?_, ?_⟩
      · show DoneApart sampleLib (complete _ 28).2.2 {} (complete _ 28).1
        rw [hthird]
        exact ⟨Or.inr ⟨rfl, rfl⟩, sampleGet_hides "/b", trivial⟩
      · trivial

/-- **Two requests in one read** are handed on as one message. -/
theorem sampleStream_merged :
    Recognises sampleLib [sampleGet "/a", sampleGet "/b"] ∧
      (∀ r ∈ [sampleGet "/a", sampleGet "/b"], r.WellFormed sampleLib) ∧
      [rawAll [sampleGet "/a", sampleGet "/b"]].flatten =
        rawAll [sampleGet "/a", sampleGet "/b"] ∧
      ¬ Decoded sampleLib [sampleGet "/a", sampleGet "/b"]
        (receiveHttp sampleLib {} [rawAll [sampleGet "/a", sampleGet "/b"]]) := by
  refine ⟨sampleStream_recognises, sampleStream_wellFormed, List.flatten_singleton, fun h => ?_⟩
  have hlen := congrArg List.length h.1
  rw [List.length_map, List.length_map] at hlen
  revert hlen
  decide +kernel

end Kimserver
