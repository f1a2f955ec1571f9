import Kimserver.Lib.Machine
import Kimserver.Net.HttpRequests

/-!
# Errors of the HTTP parser

`decode` asks for more bytes as long as the message that the callbacks write into is being
decoded, and looks at the error of the parser only after that. The parser may have stopped with an
error inside a message. Then the connection waits, and as the same bytes are parsed again with
every read, it waits for ever.

The reads and the calls of `decode` are events here, so nothing is assumed of how many messages
the parser finds.

## Main definitions

* `Completable`: more bytes make a text acceptable
* `HttpState`, `httpMachine`: a connection, event by event
* `Reported`: a call of `decode` that reports what the parser found
* `DeadEnd`: a text inside a message that cannot be completed

## Main results

* `httpLoop_run`: the machine does what the loop of `process_http_msg` does
* `reported_run_iff`: every call reports exactly in the runs that never decode a dead end
* `deadEnd_run`: a connection with a lasting dead end in its buffer is never closed by a decode
-/

namespace Kimserver

/-! ## What the parser says of a text -/

/-- The parser stops without an error behind the end of a message. -/
structure Acceptable (lib : HttpLib) (bytes : Bytes) : Prop where
  ok : (lib.execute bytes).ok = true
  ended : (lib.execute bytes).inMessage = false
  message : ∃ call ∈ (lib.execute bytes).calls, call.isComplete = true

/-- A text is a proper prefix of an acceptable one. -/
def Completable (lib : HttpLib) (bytes : Bytes) : Prop :=
  ∃ more, more ≠ [] ∧ Acceptable lib (bytes ++ more)

/-- The parser stops inside a message, with an error or where no more bytes make the text
acceptable. -/
structure DeadEnd (lib : HttpLib) (bytes : Bytes) : Prop where
  inside : (lib.execute bytes).inMessage = true
  dead : (lib.execute bytes).ok = false ∨ ¬ Completable lib bytes

/-! ## The connection, event by event -/

/-- Where `process_http_msg` stands. -/
inductive HttpState
  /-- the connection waits for a read -/
  | waiting (c : HttpConn)
  /-- `decode` is called next, with this message -/
  | decoding (c : HttpConn) (msg : HttpMsg)
  /-- the connection is closed -/
  | closed

inductive HttpOp
  /-- the socket is readable -/
  | read (chunk : Bytes)
  | decode
  /-- the read fails -/
  | lost
  deriving DecidableEq

section Machine

variable (lib : HttpLib)

def httpStep : HttpState → HttpOp → HttpState
  | .waiting c, .read chunk => .decoding (c.connRead chunk) {}
  | .waiting _, .lost => .closed
  | .decoding c msg, .decode =>
    match c.codec.decode lib c.recvBuf msg with
    | (.ok, codec, recvBuf, msg) => .decoding ⟨codec, recvBuf⟩ msg
    | (.pause, codec, recvBuf, _) => .waiting ⟨codec, recvBuf⟩
    | _ => .closed
  | s, _ => s

def httpMachine : Machine HttpState HttpOp := ⟨httpStep lib⟩

/-- A call of `decode` returns `ERR` where the parser stopped with an error, which closes the
connection, and asks for more bytes only where more bytes make the text acceptable. -/
def Reported : HttpState → HttpOp → Prop
  | .decoding c msg, .decode =>
    (c.recvBuf.isReadable = true → (lib.execute c.recvBuf.contents).ok = false →
      (c.codec.decode lib c.recvBuf msg).1 = .err ∧
        httpStep lib (.decoding c msg) .decode = .closed) ∧
    ((c.codec.decode lib c.recvBuf msg).1 = .pause → Completable lib c.recvBuf.contents)
  | _, _ => True

/-- A call of `decode` does not find a dead end. -/
def Viable : HttpState → HttpOp → Prop
  | .decoding c _, .decode => c.recvBuf.isReadable = true → ¬ DeadEnd lib c.recvBuf.contents
  | _, _ => True

/-- Nothing is left of the message before when `decode` is called. -/
def HttpState.Fresh : HttpState → Prop
  | .decoding _ msg => msg.isDecoding = false
  | _ => True

end Machine

section Step

variable {lib : HttpLib}

theorem httpStep_closed {c : HttpConn} {msg : HttpMsg}
    (h : (c.codec.decode lib c.recvBuf msg).1 = .err) :
    httpStep lib (.decoding c msg) .decode = .closed := by
  simp only [httpStep]
  split
  · next heq =>
    rw [heq] at h
    cases h
  · next heq =>
    rw [heq] at h
    cases h
  · rfl

/-- `decode` returns `OK` for a message that has ended. -/
theorem CodecHttp.isDecoding_of_ok {codec codec' : CodecHttp} {sbuf sbuf' : SocketBuffer}
    {msg msg' : HttpMsg} (h : codec.decode lib sbuf msg = (.ok, codec', sbuf', msg')) :
    msg'.isDecoding = false := by
  cases hread : sbuf.isReadable with
  | false =>
    rw [codec.decode_unread hread] at h
    cases h
  | true =>
    simp only [CodecHttp.decode, hread, Bool.not_true, Bool.false_eq_true, if_false] at h
    by_cases hinside : (fire lib (lib.execute sbuf.contents).calls msg).isDecoding = true
    · rw [if_pos hinside] at h
      cases h
    · rw [if_neg hinside] at h
      have hended := Bool.eq_false_iff.mpr hinside
      -- the members that are set afterwards are others
      split at h
      · cases h
      · split at h
        · split at h
          · rw [← (Prod.mk.inj (Prod.mk.inj (Prod.mk.inj h).2).2).2]
            exact hended
          · cases h
        · rw [← (Prod.mk.inj (Prod.mk.inj (Prod.mk.inj h).2).2).2]
          exact hended

/-- **One call reports what the parser found exactly where the text is no dead end.** -/
theorem reported_iff (haccepts : Completable lib []) {c : HttpConn} {msg : HttpMsg}
    (hmsg : msg.isDecoding = false) :
    Reported lib (.decoding c msg) .decode ↔ Viable lib (.decoding c msg) .decode := by
  simp only [Reported, Viable]
  cases hread : c.recvBuf.isReadable with
  | false =>
    have hempty : c.recvBuf.contents = [] := by
      have hle : c.recvBuf.writeIdx ≤ c.recvBuf.readIdx := by
        simpa [SocketBuffer.isReadable] using hread
      exact List.drop_eq_nil_of_le (le_trans (List.length_take_le _ _) hle)
    rw [hempty]
    exact iff_of_true ⟨fun h => absurd h (by decide), fun _ => haccepts⟩
      fun h => absurd h (by decide)
  | true =>
    obtain ⟨hpause, hother⟩ := c.codec.decode_status lib hread hmsg
    cases hinside : (lib.execute c.recvBuf.contents).inMessage with
    | false =>
      obtain ⟨hne, herr⟩ := hother hinside
      refine iff_of_true ⟨fun _ hok => ⟨herr hok, ?_⟩, fun h => absurd h hne⟩ fun _ hdead => ?_
      · exact httpStep_closed (herr hok)
      · rw [hdead.inside] at hinside
        exact absurd hinside (by decide)
    | true =>
      have hstatus := hpause hinside
      constructor
      · rintro ⟨herr, hcompletes⟩ - ⟨-, hdead | hdead⟩
        · -- the error is not reported
          have h := (herr rfl hdead).1
          rw [hstatus] at h
          exact absurd h (by decide)
        · exact hdead (hcompletes hstatus)
      · intro hviable
        refine ⟨fun _ hok => absurd ⟨hinside, Or.inl hok⟩ (hviable rfl), fun _ => ?_⟩
        by_contra hdead
        exact hviable rfl ⟨hinside, Or.inr hdead⟩

end Step

/-! ## Runs -/

section Run

variable {lib : HttpLib}

theorem HttpState.Fresh.step {s : HttpState} (h : s.Fresh) (op : HttpOp) :
    (httpStep lib s op).Fresh := by
  cases s with
  | closed => exact h
  | waiting c =>
    cases op with
    | read chunk => rfl
    | decode => trivial
    | lost => trivial
  | decoding c msg =>
    cases op with
    | read chunk => exact h
    | lost => exact h
    | decode =>
      simp only [httpStep]
      split
      · next codec recvBuf msg' heq =>
        -- `decode` returns `OK` for a message that has ended only
        exact CodecHttp.isDecoding_of_ok heq
      · trivial
      · trivial

/-- **The loop of `process_http_msg`** is a run of the machine. -/
theorem httpLoop_run (fuel : ℕ) (c : HttpConn) (msg : HttpMsg)
    (h : (HttpConn.httpLoop lib fuel c msg).2.1 ≠ .ok) :
    ∃ n, (httpMachine lib).run (.decoding c msg) (List.replicate n .decode) =
      if (HttpConn.httpLoop lib fuel c msg).2.1 = .pause
      then .waiting (HttpConn.httpLoop lib fuel c msg).2.2 else .closed := by
  induction fuel generalizing c msg with
  | zero => exact absurd rfl h
  | succ fuel ih =>
    rw [HttpConn.httpLoop] at h ⊢
    rcases hd : c.codec.decode lib c.recvBuf msg with ⟨status, codec, recvBuf, msg'⟩
    have hstep : ∀ t, httpStep lib (.decoding c msg) .decode = t →
        (httpMachine lib).run (.decoding c msg) (List.replicate 1 .decode) = t := fun t ht => ht
    rw [hd] at h
    cases status with
    | ok =>
      obtain ⟨n, hn⟩ := ih _ _ h
      refine ⟨n + 1, ?_⟩
      have hfirst : (httpMachine lib).step (.decoding c msg) .decode =
          .decoding ⟨codec, recvBuf⟩ msg' := by
        simp only [httpMachine, httpStep, hd]
      rw [List.replicate_succ, Machine.run_cons, hfirst]
      exact hn
    | pause => exact ⟨1, hstep _ (by simp only [httpStep, hd, if_pos])⟩
    | err => exact ⟨1, hstep _ (by simp [httpStep, hd])⟩
    | closed => exact ⟨1, hstep _ (by simp [httpStep, hd])⟩

/-- **Malformed requests are reported exactly in the runs without dead ends**: for every parser
that accepts some text and every run of a connection, whatever it reads, every call of `decode`
returns `ERR` where the parser stopped with an error, and asks for more bytes only for a prefix of
an acceptable text, if and only if no call finds the parser inside a message, stopped by an error
or in a text that cannot be completed. -/
theorem reported_run_iff (haccepts : Completable lib []) (c : HttpConn) (ops : List HttpOp) :
    (httpMachine lib).Meets (Reported lib) (.waiting c) ops ↔
      (httpMachine lib).Meets (Viable lib) (.waiting c) ops := by
  have hstart : HttpState.Fresh (.waiting c) := trivial
  refine Machine.Meets.congr (I := HttpState.Fresh) ?_ (fun _ op h _ => h.step op) hstart ops
  intro s op h
  cases s with
  | waiting c => cases op <;> exact Iff.rfl
  | closed => cases op <;> exact Iff.rfl
  | decoding c msg =>
    cases op with
    | decode => exact reported_iff haccepts h
    | read chunk => exact Iff.rfl
    | lost => exact Iff.rfl

/-- How many bytes an event brings. -/
def HttpOp.received : HttpOp → ℕ
  | .read chunk => chunk.length
  | _ => 0

/-- The connection is open, and there are at most `n` bytes in its buffer, the first of which are
`bytes`. -/
def HttpState.Keeps (bytes : Bytes) (n : ℕ) (s : HttpState) : Prop :=
  ∃ c more, (s = .waiting c ∨ s = .decoding c {}) ∧ c.recvBuf.Wf ∧
    c.recvBuf.contents = bytes ++ more ∧ c.recvBuf.contents.length ≤ n

theorem HttpState.Keeps.step {bytes : Bytes} {n : ℕ} {s : HttpState} (h : s.Keeps bytes n)
    (hne : bytes ≠ []) (hdead : ∀ more, (lib.execute (bytes ++ more)).inMessage = true)
    {op : HttpOp} (hop : op ≠ .lost) (hsmall : n + op.received < 2147483648) :
    (httpStep lib s op).Keeps bytes (n + op.received) := by
  obtain ⟨c, more, hs, hwf, hcontents, hlen⟩ := h
  rcases hs with rfl | rfl
  · cases op with
    | lost => exact absurd rfl hop
    | decode => exact ⟨c, more, Or.inl rfl, hwf, hcontents, hlen⟩
    | read chunk =>
      have hfits : c.recvBuf.contents.length + chunk.length < 2147483648 :=
        lt_of_le_of_lt (Nat.add_le_add_right hlen _) hsmall
      obtain ⟨hwf', hread⟩ := HttpConn.connRead_spec hwf hfits
      refine ⟨c.connRead chunk, more ++ chunk, Or.inr rfl, hwf', ?_, ?_⟩
      · rw [hread, hcontents, List.append_assoc]
      · rw [hread, List.length_append]
        exact Nat.add_le_add_right hlen _
  · cases op with
    | lost => exact absurd rfl hop
    | read chunk =>
      exact ⟨c, more, Or.inr rfl, hwf, hcontents, le_trans hlen (Nat.le_add_right _ _)⟩
    | decode =>
      have hread : c.recvBuf.isReadable = true := by
        rw [SocketBuffer.isReadable_iff, ← SocketBuffer.length_contents hwf, hcontents]
        exact List.length_pos_of_ne_nil (List.append_ne_nil_of_left_ne_nil hne _)
      have hinside : (fire lib (lib.execute c.recvBuf.contents).calls {}).isDecoding = true := by
        rw [isDecoding_fire_eq, hcontents]
        exact hdead more
      obtain ⟨codec, msg, hpause⟩ := c.codec.decode_part hread hinside
      refine ⟨⟨codec, c.recvBuf⟩, more, Or.inl ?_, hwf, hcontents, hlen⟩
      simp only [httpStep, hpause]

/-- **An error inside a message keeps the connection**: where the parser stays inside a message
whatever follows, no read and no call of `decode` closes the connection or takes a byte out of its
buffer, as long as the buffer is shorter than `2 ^ 31` bytes. -/
theorem deadEnd_run {bytes : Bytes} (hne : bytes ≠ [])
    (hdead : ∀ more, (lib.execute (bytes ++ more)).inMessage = true) (ops : List HttpOp)
    (hlost : .lost ∉ ops) {n : ℕ} {s : HttpState} (hs : s.Keeps bytes n)
    (hsmall : n + (ops.map HttpOp.received).sum < 2147483648) :
    ((httpMachine lib).run s ops).Keeps bytes (n + (ops.map HttpOp.received).sum) := by
  induction ops generalizing n s with
  | nil => exact hs
  | cons op ops ih =>
    rw [List.map_cons, List.sum_cons, ← Nat.add_assoc] at hsmall ⊢
    have hop : op ≠ .lost := fun h => hlost (h ▸ List.mem_cons_self)
    have hstep := hs.step hne hdead hop (by omega)
    exact ih (fun hmem => hlost (List.mem_cons_of_mem _ hmem)) hstep hsmall

end Run

/-! ## A request with an error in it -/

/-- How many bytes two texts have in common at the beginning. -/
def commonLen : Bytes → Bytes → ℕ
  | b :: bs, c :: cs => if b = c then commonLen bs cs + 1 else 0
  | _, _ => 0

/-- The parser on the beginnings of one request: it stops with an error at the first byte that is
another one. -/
def strictLib : HttpLib where
  execute input :=
    let len := commonLen input (sampleGet "/a").raw
    { sampleExecute (input.take len) with len := len, ok := len = input.length }
  parseUrl := sampleLib.parseUrl
  ungzip := sampleLib.ungzip
  atof := sampleLib.atof
  path_noNul := sampleLib.path_noNul

theorem strictLib_accepts : Completable strictLib [] :=
  ⟨(sampleGet "/a").raw, by decide +kernel, by decide +kernel, by decide +kernel,
    by decide +kernel⟩

/-- A text that begins no request is an error outside a message, and closes the connection. -/
theorem strictLib_reported :
    (httpMachine strictLib).Meets (Reported strictLib) (.waiting {})
      [.read (text "1"), .decode] := by
  refine (reported_run_iff strictLib_accepts {} _).mpr ⟨trivial, fun _ hdead => ?_, trivial⟩
  exact absurd hdead.inside (by decide +kernel)

/-- The method `GEX` is an error inside a message: `decode` returns `PAUSE`. -/
theorem strictLib_silent :
    (strictLib.execute (text "GEX")).ok = false ∧ ¬ (httpMachine strictLib).Meets
      (Reported strictLib) (.waiting {}) [.read (text "GEX"), .decode] := by
  refine ⟨by decide +kernel, fun h => ?_⟩
  have herr := (h.2.1.1 (by decide +kernel) (by decide +kernel)).1
  revert herr
  decide +kernel

end Kimserver
