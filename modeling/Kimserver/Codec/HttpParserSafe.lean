import Kimserver.Codec.HttpParser

/-!
# What the HTTP parser never does

In each state of `http_parser_execute` some mark is set, some part of the message is due, and the
variables hold what the assertions of the source ask for. Every turn of the loop keeps this, so
no assertion fails, and the calls come in the order of the parts of a message, whatever the bytes
are.

## Main definitions

* `CallPhase`, `callPhase`: what the calls so far tell of a message
* `StateKind`, `HttpExec.Sound`: the invariant of the loop

## Main results

* `HttpExec.turn_keeps`, `httpParserLoop_keeps`: a turn and the loop keep the invariant
* `httpParserExecute_safe`: no assertion fails, and the calls are in order
-/

namespace Kimserver

/-! ## The order of the calls -/

/-- Where the calls stand in a message. -/
inductive CallPhase
  /-- between two messages -/
  | idle
  | begun
  /-- behind the start line -/
  | lines
  /-- behind the name of a header -/
  | named
  /-- behind a value -/
  | valued
  /-- behind the headers -/
  | opened
  /-- behind a body -/
  | read
  /-- behind the header of a chunk -/
  | chunk
  /-- behind the data of a chunk -/
  | chunkRead
  /-- between two chunks -/
  | chunks
  /-- behind the name of a trailer -/
  | trailerNamed
  /-- behind the value of a trailer -/
  | trailerValued
  /-- behind the last chunk -/
  | last
  deriving DecidableEq

/-- The order of the calls. A line end where a response should begin begins a message, so that a
message may begin more than once. -/
def CallPhase.next : CallPhase → HttpCallback → Option CallPhase
  | .idle, .messageBegin | .begun, .messageBegin => some .begun
  | .begun, .url _ | .begun, .status _ => some .lines
  | .lines, .headerField _ | .valued, .headerField _ => some .named
  | .named, .headerValue _ | .valued, .headerValue _ => some .valued
  | .lines, .headersComplete | .valued, .headersComplete => some .opened
  | .opened, .body _ => some .read
  | .opened, .chunkHeader | .chunks, .chunkHeader => some .chunk
  | .opened, .messageComplete _ | .read, .messageComplete _ | .last, .messageComplete _ =>
    some .idle
  | .chunk, .body _ => some .chunkRead
  | .chunkRead, .chunkComplete => some .chunks
  | .chunk, .headerField _ | .trailerValued, .headerField _ => some .trailerNamed
  | .trailerNamed, .headerValue _ | .trailerValued, .headerValue _ => some .trailerValued
  | .chunk, .chunkComplete | .trailerValued, .chunkComplete => some .last
  | _, _ => none

/-- The phase behind some calls, if they are in order. -/
def callPhase (calls : List HttpCallback) : Option CallPhase :=
  calls.foldlM CallPhase.next .idle

theorem callPhase_concat {calls : List HttpCallback} {call : HttpCallback} :
    callPhase (calls ++ [call]) = (callPhase calls).bind fun ph => ph.next call := by
  rw [callPhase, List.foldlM_append]
  simp only [List.foldlM_cons, List.foldlM_nil, bind_pure]
  rfl

/-! ## The states -/

/-- The states by what holds in them. -/
inductive StateKind
  | start | startRes | startLine | url | status | lineEnd
  | fieldStart | field | valueSpace | valueStart | value | valueEnd
  | headersDone | chunkStart | chunkSize | chunkData | chunkAlmostDone | chunkDone
  | bodyIdentity | bodyEof | messageDone
  deriving DecidableEq

def ParserState.kind : ParserState → StateKind
  | .dead | .startReqOrRes | .startReq => .start
  | .startRes => .startRes
  | .resOrRespH | .resH | .resHT | .resHTT | .resHTTP | .resHttpMajor | .resHttpDot
  | .resHttpMinor | .resHttpEnd | .resFirstStatusCode | .resStatusCode | .resStatusStart
  | .reqMethod | .reqSpacesBeforeUrl => .startLine
  | .reqSchema | .reqSchemaSlash | .reqSchemaSlashSlash | .reqServerStart
  | .reqServer | .reqServerWithAt | .reqPath | .reqQueryStringStart | .reqQueryString
  | .reqFragmentStart | .reqFragment => .url
  | .resStatus => .status
  | .resLineAlmostDone | .reqHttpStart | .reqHttpH | .reqHttpHT | .reqHttpHTT | .reqHttpHTTP
  | .reqHttpMajor | .reqHttpDot | .reqHttpMinor | .reqHttpEnd | .reqLineAlmostDone => .lineEnd
  | .headerFieldStart | .headersAlmostDone => .fieldStart
  | .headerField => .field
  | .headerValueDiscardWs | .headerValueDiscardWsAlmostDone | .headerValueDiscardLws => .valueSpace
  | .headerValueStart => .valueStart
  | .headerValue => .value
  | .headerValueLws | .headerAlmostDone => .valueEnd
  | .headersDone => .headersDone
  | .chunkSizeStart => .chunkStart
  | .chunkSize | .chunkParameters | .chunkSizeAlmostDone => .chunkSize
  | .chunkData => .chunkData
  | .chunkDataAlmostDone => .chunkAlmostDone
  | .chunkDataDone => .chunkDone
  | .bodyIdentity => .bodyIdentity
  | .bodyIdentityEof => .bodyEof
  | .messageDone => .messageDone

theorem parseUrlChar_kind (s : ParserState) (ch : UInt8) :
    parseUrlChar s ch = .dead ∨ (parseUrlChar s ch).kind = .url := by
  cases s <;> simp only [parseUrlChar, serverChar] <;> split_ifs <;> simp [ParserState.kind]

/-- The states of a name that the loop over it knows. -/
def HeaderState.inName : HeaderState → Bool
  | .general | .c | .co | .con | .matchingConnection | .matchingProxyConnection
  | .matchingContentLength | .matchingTransferEncoding | .matchingUpgrade | .connection
  | .contentLength | .transferEncoding | .upgrade => true
  | _ => false

/-- The states of a value that the loop over it knows. -/
def HeaderState.inValue : HeaderState → Bool
  | .connection | .transferEncoding => false
  | _ => true

/-- Which marks are set. -/
structure MarkSet where
  headerField : Bool := false
  headerValue : Bool := false
  url : Bool := false
  body : Bool := false
  status : Bool := false
  deriving DecidableEq

namespace HttpExec

variable (e : HttpExec)

def markSet : MarkSet where
  headerField := e.headerFieldMark.isSome
  headerValue := e.headerValueMark.isSome
  url := e.urlMark.isSome
  body := e.bodyMark.isSome
  status := e.statusMark.isSome

variable (base : List HttpCallback)

/-- Some calls, and behind them calls that lead to a phase. -/
def In (ph : CallPhase) : Prop := ∃ more, e.calls = base ++ more ∧ callPhase more = some ph

/-- Some calls, and behind them calls in order. -/
def InOrder : Prop := ∃ ph, e.In base ph

/-- Header lines may follow: behind the start line or in a trailer. -/
def AtLine : Prop :=
  if e.flags.trailing then e.In base .chunk ∨ e.In base .trailerValued
  else e.In base .lines ∨ e.In base .valued

/-- Behind a name. -/
def AtName : Prop := if e.flags.trailing then e.In base .trailerNamed else e.In base .named

/-- Behind a value. -/
def AtValue : Prop := if e.flags.trailing then e.In base .trailerValued else e.In base .valued

/-- A number of bytes that is left. -/
def Counts : Prop := 0 < e.contentLength ∧ e.contentLength < ullongMax

/-- What holds in the states of a kind. -/
def SoundAt : StateKind → Prop
  | .start => e.In base .idle ∧ e.markSet = {}
  | .startRes => (e.In base .idle ∨ e.In base .begun) ∧ e.markSet = {}
  | .startLine => e.In base .begun ∧ e.markSet = {} ∧ e.flags.trailing = false
  | .url => e.In base .begun ∧ e.markSet = { url := true } ∧ e.flags.trailing = false
  | .status => e.In base .begun ∧ e.markSet = { status := true } ∧ e.flags.trailing = false
  | .lineEnd => e.In base .lines ∧ e.markSet = {} ∧ e.flags.trailing = false
  | .fieldStart => e.AtLine base ∧ e.markSet = {}
  | .field => e.AtLine base ∧ e.markSet = { headerField := true } ∧ e.headerState.inName
  | .valueSpace => e.AtName base ∧ e.markSet = {}
  | .valueStart => (e.AtName base ∨ e.AtValue base) ∧ e.markSet = {}
  | .value => (e.AtName base ∨ e.AtValue base) ∧ e.markSet = { headerValue := true } ∧
      e.headerState.inValue
  | .valueEnd => e.AtValue base ∧ e.markSet = {}
  | .headersDone => e.In base .opened ∧ e.markSet = {}
  | .chunkStart => (e.In base .opened ∨ e.In base .chunks) ∧ e.markSet = {} ∧ e.flags.chunked ∧
      e.nread = 0
  | .chunkSize => (e.In base .opened ∨ e.In base .chunks) ∧ e.markSet = {} ∧ e.flags.chunked ∧
      e.contentLength < ullongMax
  | .chunkData => e.In base .chunk ∧ (e.markSet = {} ∨ e.markSet = { body := true }) ∧
      e.flags.chunked ∧ e.Counts
  | .chunkAlmostDone => e.In base .chunk ∧ e.markSet = { body := true } ∧ e.flags.chunked ∧
      e.contentLength = 0
  | .chunkDone => e.In base .chunkRead ∧ e.markSet = {} ∧ e.flags.chunked
  | .bodyIdentity => e.In base .opened ∧ (e.markSet = {} ∨ e.markSet = { body := true }) ∧ e.Counts
  | .bodyEof => e.In base .opened ∧ (e.markSet = {} ∨ e.markSet = { body := true })
  | .messageDone => (e.In base .read ∨ e.In base .last) ∧ e.markSet = {}

/-- **The invariant of the loop.** -/
def Sound : Prop := e.contentLength ≤ ullongMax ∧ e.SoundAt base e.state.kind

end HttpExec

/-- What a turn at a byte leaves: the invariant; or calls that are in order, and an error or an
upgrade. -/
def Flow.Keeps (base : List HttpCallback) (p : Bytes) : Flow → Prop
  | .goOn e q => e.Sound base ∧ q ≠ [] ∧ q <:+ p
  | .return_ e q => e.InOrder base ∧ q <:+ p ∧
      (e.httpErrno = .ok → e.upgrade = true)
  | .abort => False

theorem Flow.Keeps.mono {base : List HttpCallback} {p q : Bytes} {f : Flow} (h : f.Keeps base q)
    (hq : q <:+ p) : f.Keeps base p := by
  cases f with
  | goOn e r => exact ⟨h.1, h.2.1, h.2.2.trans hq⟩
  | return_ e r => exact ⟨h.1, h.2.1.trans hq, h.2.2⟩
  | abort => exact h

namespace HttpExec

variable {base : List HttpCallback} {e : HttpExec} {p : Bytes} {ch : UInt8} {ph ph' : CallPhase}

/-! ## Calls and errors -/

theorem In.isSome (h : e.In base ph) : e.InOrder base := ⟨ph, h⟩

theorem In.notify {call : HttpCallback} (h : e.In base ph) (hnext : ph.next call = some ph') :
    (e.notify call).In base ph' := by
  obtain ⟨more, hcalls, hphase⟩ := h
  refine ⟨more ++ [call], ?_, ?_⟩
  · rw [HttpExec.notify, hcalls, List.append_assoc]
  · rw [callPhase_concat, hphase]
    exact hnext

theorem fail_keeps {q : Bytes} {errno : HttpErrno} (h : e.InOrder base)
    (hq : q <:+ p) (herrno : errno ≠ .ok) : (e.fail q errno).Keeps base p :=
  ⟨h, hq, fun hok => absurd hok herrno⟩

theorem Sound.of {k : StateKind} (hl : e.contentLength ≤ ullongMax) (hk : e.state.kind = k)
    (h : e.SoundAt base k) : e.Sound base := by
  rw [Sound, hk]
  exact ⟨hl, h⟩

theorem goOn_keeps (h : e.Sound base) (hp : p ≠ []) : (Flow.goOn e p).Keeps base p :=
  ⟨h, hp, List.suffix_refl p⟩

/-! ## Marks -/

theorem mark_or {mark : Option Bytes} (q : Bytes) : (mark <|> some q).isSome = true := by
  cases mark <;> rfl

@[simp] theorem dataUrl_toHttpParser : (e.dataUrl p).toHttpParser = e.toHttpParser := by
  rw [dataUrl]
  split <;> rfl

/-- The call for the url. -/
theorem dataUrl_in (h : e.In base .begun) (hm : e.markSet = { url := true }) :
    (e.dataUrl p).In base .lines ∧ (e.dataUrl p).markSet = {} := by
  simp only [markSet, MarkSet.mk.injEq] at hm
  obtain ⟨mark, hmark⟩ := Option.isSome_iff_exists.mp hm.2.2.1
  rw [dataUrl, hmark]
  refine ⟨h.notify rfl, ?_⟩
  simp only [markSet, MarkSet.mk.injEq]
  exact ⟨hm.1, hm.2.1, rfl, hm.2.2.2⟩

@[simp] theorem dataStatus_toHttpParser : e.dataStatus.toHttpParser = e.toHttpParser := by
  rw [dataStatus]
  split <;> rfl

/-- The call for the status. -/
theorem dataStatus_in (h : e.In base .begun) (hm : e.markSet = { status := true }) :
    e.dataStatus.In base .lines ∧ e.dataStatus.markSet = {} := by
  simp only [markSet, MarkSet.mk.injEq] at hm
  obtain ⟨mark, hmark⟩ := Option.isSome_iff_exists.mp hm.2.2.2.2
  rw [dataStatus, hmark]
  refine ⟨h.notify rfl, ?_⟩
  simp only [markSet, MarkSet.mk.injEq]
  exact ⟨hm.1, hm.2.1, hm.2.2.1, hm.2.2.2.1, rfl⟩

@[simp] theorem dataHeaderField_toHttpParser : (e.dataHeaderField p).toHttpParser = e.toHttpParser := by
  rw [dataHeaderField]
  split <;> rfl

/-- The call for the name of a header. -/
theorem dataHeaderField_in (h : e.AtLine base) (hm : e.markSet = { headerField := true }) :
    (e.dataHeaderField p).AtName base ∧ (e.dataHeaderField p).markSet = {} := by
  simp only [markSet, MarkSet.mk.injEq] at hm
  obtain ⟨mark, hmark⟩ := Option.isSome_iff_exists.mp hm.1
  rw [AtName, dataHeaderField_toHttpParser, dataHeaderField, hmark]
  refine ⟨?_, ?_⟩
  · rw [AtLine] at h
    split_ifs at h ⊢
    · exact h.elim (In.notify · rfl) (In.notify · rfl)
    · exact h.elim (In.notify · rfl) (In.notify · rfl)
  · simp only [markSet, MarkSet.mk.injEq]
    exact ⟨rfl, hm.2⟩

@[simp] theorem dataHeaderValue_toHttpParser : (e.dataHeaderValue p).toHttpParser = e.toHttpParser := by
  rw [dataHeaderValue]
  split <;> rfl

/-- The call for the value of a header. -/
theorem dataHeaderValue_in (h : e.AtName base ∨ e.AtValue base) (hm : e.markSet =
    { headerValue := true }) :
    (e.dataHeaderValue p).AtValue base ∧ (e.dataHeaderValue p).markSet = {} := by
  simp only [markSet, MarkSet.mk.injEq] at hm
  obtain ⟨mark, hmark⟩ := Option.isSome_iff_exists.mp hm.2.1
  rw [AtValue, dataHeaderValue_toHttpParser, dataHeaderValue, hmark]
  refine ⟨?_, ?_⟩
  · rw [AtName, AtValue] at h
    split_ifs at h ⊢
    · exact h.elim (In.notify · rfl) (In.notify · rfl)
    · exact h.elim (In.notify · rfl) (In.notify · rfl)
  · simp only [markSet, MarkSet.mk.injEq]
    exact ⟨hm.1, rfl, hm.2.2⟩

@[simp] theorem dataBody_toHttpParser : (e.dataBody p).toHttpParser = e.toHttpParser := by
  rw [dataBody]
  split <;> rfl

/-- The call for a body. -/
theorem dataBody_in (ph' : CallPhase) {mark : Bytes} (h : e.In base ph) (hnext : ∀ data, ph.next
    (.body data) = some ph')
    (hmark : e.bodyMark = some mark) (hm : e.markSet = { body := true }) :
    (e.dataBody p).In base ph' ∧ (e.dataBody p).markSet = {} := by
  rw [dataBody, hmark]
  refine ⟨h.notify (hnext _), ?_⟩
  simp only [markSet, MarkSet.mk.injEq] at hm ⊢
  exact ⟨hm.1, hm.2.1, hm.2.2.1, rfl, hm.2.2.2.2⟩

/-! ## The start of a message -/

section Turns

variable (hp : p ≠ []) (hl : e.contentLength ≤ ullongMax)

include hp hl

theorem startReq_keeps (h : e.In base .idle) (hm : e.markSet = {}) (hs : e.state.kind = .start) :
    (e.startReq p ch).Keeps base p := by
  rw [startReq]
  split_ifs
  · exact goOn_keeps (Sound.of hl hs ⟨h, hm⟩) hp
  · exact fail_keeps h.isSome (List.suffix_refl p) (by decide)
  · dsimp only
    split
    · exact fail_keeps h.isSome (List.suffix_refl p) (by decide)
    · exact goOn_keeps ⟨le_rfl, h.notify rfl, hm, rfl⟩ hp

theorem startReqOrRes_keeps (h : e.In base .idle) (hm : e.markSet = {}) (hs :
    e.state.kind = .start) :
    (e.startReqOrRes p ch).Keeps base p := by
  rw [startReqOrRes]
  split_ifs
  · exact goOn_keeps (Sound.of hl hs ⟨h, hm⟩) hp
  · exact goOn_keeps ⟨le_rfl, h.notify rfl, hm, rfl⟩ hp
  · exact startReq_keeps hp le_rfl h hm rfl

theorem resOrRespH_keeps (h : e.In base .begun) (hm : e.markSet = {})
    (ht : e.flags.trailing = false) : (e.resOrRespH p ch).Keeps base p := by
  rw [resOrRespH]
  split_ifs
  · exact goOn_keeps ⟨hl, h, hm, ht⟩ hp
  · exact fail_keeps h.isSome (List.suffix_refl p) (by decide)
  · exact goOn_keeps ⟨hl, h, hm, ht⟩ hp

omit hl in
theorem startRes_keeps (h : e.In base .idle ∨ e.In base .begun) (hm : e.markSet = {})
    (hs : e.state.kind = .startRes) : (e.startRes p ch).Keeps base p := by
  have hbegun : (e.restart.notify .messageBegin).In base .begun := by
    rcases h with h | h
    · exact In.notify (e := e.restart) h rfl
    · exact In.notify (e := e.restart) h rfl
  rw [startRes]
  split_ifs
  · exact goOn_keeps ⟨le_rfl, hbegun, hm, rfl⟩ hp
  · exact goOn_keeps (Sound.of le_rfl hs ⟨Or.inr hbegun, hm⟩) hp
  · exact fail_keeps (h.elim In.isSome In.isSome) (List.suffix_refl p) (by decide)

theorem reqMethod_keeps (h : e.In base .begun) (hm : e.markSet = {})
    (ht : e.flags.trailing = false) (hs : e.state.kind = .startLine) :
    (e.reqMethod p ch).Keeps base p := by
  rw [reqMethod]
  dsimp only
  split_ifs
  · exact fail_keeps h.isSome (List.suffix_refl p) (by decide)
  · exact goOn_keeps ⟨hl, h, hm, ht⟩ hp
  · exact goOn_keeps (Sound.of hl hs ⟨h, hm, ht⟩) hp
  · split
    · exact fail_keeps h.isSome (List.suffix_refl p) (by decide)
    · exact goOn_keeps (Sound.of hl hs ⟨h, hm, ht⟩) hp
  · exact fail_keeps h.isSome (List.suffix_refl p) (by decide)

/-! ## The url -/

theorem urlState_keeps (h : e.In base .begun) (hm : e.markSet = { url := true })
    (ht : e.flags.trailing = false) (s : ParserState) : (e.urlState p ch s).Keeps base p := by
  rw [urlState]
  split_ifs with hdead
  · exact fail_keeps (e := e.goTo (parseUrlChar s ch)) h.isSome (List.suffix_refl p) (by decide)
  · exact goOn_keeps (Sound.of (e := e.goTo (parseUrlChar s ch)) (k := .url)
      hl ((parseUrlChar_kind s ch).resolve_left hdead) ⟨h, hm, ht⟩) hp

theorem reqSpacesBeforeUrl_keeps (h : e.In base .begun) (hm : e.markSet = {})
    (ht : e.flags.trailing = false) (hs : e.state.kind = .startLine) :
    (e.reqSpacesBeforeUrl p ch).Keeps base p := by
  rw [reqSpacesBeforeUrl]
  split_ifs
  · exact goOn_keeps (Sound.of hl hs ⟨h, hm, ht⟩) hp
  · dsimp only
    refine urlState_keeps (e := { e with urlMark := e.urlMark <|> some p }) hp hl h ?_ ht _
    simp only [markSet, MarkSet.mk.injEq] at hm ⊢
    exact ⟨hm.1, hm.2.1, mark_or p, hm.2.2.2⟩

theorem reqSchema_keeps (h : e.In base .begun) (hm : e.markSet = { url := true })
    (ht : e.flags.trailing = false) : (e.reqSchema p ch).Keeps base p := by
  rw [reqSchema]
  split_ifs
  · exact fail_keeps h.isSome (List.suffix_refl p) (by decide)
  · exact urlState_keeps hp hl h hm ht _

/-- The start line ends, or its end begins. -/
theorem lineEnd_keeps (h : e.In base .lines) (hm : e.markSet = {}) (ht : e.flags.trailing = false)
    (hs : e.state.kind = .lineEnd ∨ e.state = .headerFieldStart) :
    (Flow.goOn e p).Keeps base p := by
  refine goOn_keeps ?_ hp
  rcases hs with hs | hs
  · exact Sound.of hl hs ⟨h, hm, ht⟩
  · refine Sound.of (k := .fieldStart) hl (by rw [hs]; rfl) ⟨?_, hm⟩
    rw [AtLine, ht]
    exact Or.inl h

theorem reqUrl_keeps (h : e.In base .begun) (hm : e.markSet = { url := true })
    (ht : e.flags.trailing = false) : (e.reqUrl p ch).Keeps base p := by
  have hend : ∀ e' : HttpExec, e'.contentLength ≤ ullongMax → e'.In base .begun → e'.markSet =
      { url := true } →
      e'.flags.trailing = false → e'.state.kind = .lineEnd ∨ e'.state = .headerFieldStart →
      (Flow.goOn (e'.dataUrl p) p).Keeps base p := by
    intro e' hl h hm ht hs
    obtain ⟨hlines, hnone⟩ := dataUrl_in (p := p) h hm
    exact lineEnd_keeps hp (by rwa [dataUrl_toHttpParser]) hlines hnone (by rwa [dataUrl_toHttpParser])
      (by rwa [dataUrl_toHttpParser])
  rw [reqUrl]
  split_ifs
  · exact hend _ hl h hm ht (Or.inl rfl)
  · exact hend (HttpExec.goTo { e with httpMajor := 0, httpMinor := 9 } .reqLineAlmostDone) hl h hm
      ht (Or.inl rfl)
  · exact hend (HttpExec.goTo { e with httpMajor := 0, httpMinor := 9 } .headerFieldStart) hl h hm
      ht (Or.inr rfl)
  · exact urlState_keeps hp hl h hm ht _

/-! ## The version and the status -/

omit hl in
/-- A state reads one character of a constant and goes on. -/
theorem constant_keeps {expected : UInt8} {errno : HttpErrno} {s : ParserState}
    (h : (e.goTo s).Sound base) (hcalls : e.InOrder base) (herrno : errno ≠ .ok) :
    (e.constant p ch expected errno s).Keeps base p := by
  rw [constant]
  split_ifs
  · exact fail_keeps hcalls (List.suffix_refl p) herrno
  · exact goOn_keeps h hp

theorem reqHttpStart_keeps (h : e.In base .lines) (hm : e.markSet = {}) (ht :
    e.flags.trailing = false)
    (hs : e.state.kind = .lineEnd) : (e.reqHttpStart p ch).Keeps base p := by
  rw [reqHttpStart]
  split_ifs
  · exact lineEnd_keeps hp hl h hm ht (Or.inl rfl)
  · exact lineEnd_keeps hp hl h hm ht (Or.inl hs)
  · exact fail_keeps h.isSome (List.suffix_refl p) (by decide)

theorem reqHttpEnd_keeps (h : e.In base .lines) (hm : e.markSet = {})
    (ht : e.flags.trailing = false) : (e.reqHttpEnd p ch).Keeps base p := by
  rw [reqHttpEnd]
  split_ifs
  · exact lineEnd_keeps hp hl h hm ht (Or.inl rfl)
  · exact lineEnd_keeps hp hl h hm ht (Or.inr rfl)
  · exact fail_keeps h.isSome (List.suffix_refl p) (by decide)

omit hl in
/-- A digit of the version, in a request or in a response. -/
theorem httpMajorChar_keeps {s : ParserState} (h : e.InOrder base)
    (hs : ∀ n, (({ e with httpMajor := n } : HttpExec).goTo s).Sound base) :
    (e.httpMajorChar p ch s).Keeps base p := by
  rw [httpMajorChar]
  split_ifs
  · exact fail_keeps h (List.suffix_refl p) (by decide)
  · exact goOn_keeps (hs _) hp

omit hl in
theorem httpMinorChar_keeps {s : ParserState} (h : e.InOrder base)
    (hs : ∀ n, (({ e with httpMinor := n } : HttpExec).goTo s).Sound base) :
    (e.httpMinorChar p ch s).Keeps base p := by
  rw [httpMinorChar]
  split_ifs
  · exact fail_keeps h (List.suffix_refl p) (by decide)
  · exact goOn_keeps (hs _) hp

theorem resFirstStatusCode_keeps (h : e.In base .begun) (hm : e.markSet = {})
    (ht : e.flags.trailing = false) (hs : e.state.kind = .startLine) :
    (e.resFirstStatusCode p ch).Keeps base p := by
  rw [resFirstStatusCode]
  split_ifs
  · exact goOn_keeps (Sound.of hl hs ⟨h, hm, ht⟩) hp
  · exact fail_keeps h.isSome (List.suffix_refl p) (by decide)
  · exact goOn_keeps ⟨hl, h, hm, ht⟩ hp

theorem resStatus_keeps (h : e.In base .begun) (hm : e.markSet = { status := true })
    (ht : e.flags.trailing = false) (hs : e.state = .resStatus) :
    (e.resStatus p ch).Keeps base p := by
  rw [resStatus]
  split_ifs
  · obtain ⟨hlines, hnone⟩ := dataStatus_in (e := e.goTo .resLineAlmostDone) h hm
    exact lineEnd_keeps hp (by rwa [dataStatus_toHttpParser]) hlines hnone (by rwa [dataStatus_toHttpParser])
      (Or.inl (by rw [dataStatus_toHttpParser]; rfl))
  · obtain ⟨hlines, hnone⟩ := dataStatus_in (e := e.goTo .headerFieldStart) h hm
    exact lineEnd_keeps hp (by rwa [dataStatus_toHttpParser]) hlines hnone (by rwa [dataStatus_toHttpParser])
      (Or.inr (by rw [dataStatus_toHttpParser]; rfl))
  · exact goOn_keeps (Sound.of (k := .status) hl (by rw [hs]; rfl) ⟨h, hm, ht⟩) hp

theorem resStatusStart_keeps (h : e.In base .begun) (hm : e.markSet = {})
    (ht : e.flags.trailing = false) : (e.resStatusStart p ch).Keeps base p := by
  have hmark : (({ e with statusMark := e.statusMark <|> some p, index := 0 } : HttpExec).goTo
      .resStatus).markSet = { status := true } := by
    simp only [markSet, MarkSet.mk.injEq] at hm ⊢
    exact ⟨hm.1, hm.2.1, hm.2.2.1, hm.2.2.2.1, mark_or p⟩
  rw [resStatusStart]
  split_ifs
  · exact resStatus_keeps hp hl h hmark ht rfl
  · exact goOn_keeps ⟨hl, h, hmark, ht⟩ hp

theorem resStatusCode_keeps (h : e.In base .begun) (hm : e.markSet = {})
    (ht : e.flags.trailing = false) (hs : e.state.kind = .startLine) :
    (e.resStatusCode p ch).Keeps base p := by
  rw [resStatusCode]
  dsimp only
  split_ifs
  · exact goOn_keeps ⟨hl, h, hm, ht⟩ hp
  · exact resStatusStart_keeps hp hl h hm ht
  · exact fail_keeps h.isSome (List.suffix_refl p) (by decide)
  · exact fail_keeps h.isSome (List.suffix_refl p) (by decide)
  · exact goOn_keeps (Sound.of hl hs ⟨h, hm, ht⟩) hp

/-! ## The end of a message -/

omit hp hl in
theorem newMessage_kind : e.newMessage.kind = .start ∨ e.newMessage.kind = .startRes := by
  rw [HttpParser.newMessage, HttpParser.startState]
  split_ifs
  · exact Or.inl rfl
  · exact Or.inr rfl
  · exact Or.inl rfl

omit hp in
/-- The message ends. -/
theorem complete_sound (h : e.In base ph) (hnext : ∀ fields, ph.next (.messageComplete fields) =
    some .idle) (hm : e.markSet = {}) : (e.goTo e.newMessage).notifyComplete.Sound base := by
  have hidle : (e.goTo e.newMessage).notifyComplete.In base .idle :=
    In.notify (e := e.goTo e.newMessage) h (hnext _)
  rcases newMessage_kind (e := e) with hk | hk
  · exact Sound.of (k := .start) hl hk ⟨hidle, hm⟩
  · exact Sound.of (k := .startRes) hl hk ⟨Or.inl hidle, hm⟩

theorem messageDone_keeps (h : e.In base ph) (hnext : ∀ fields, ph.next (.messageComplete fields) =
    some .idle) (hm : e.markSet = {}) : (e.messageDone p).Keeps base p := by
  have hsound := complete_sound hl h hnext hm
  rw [messageDone]
  split_ifs with hupgrade
  · exact ⟨(In.notify (e := e.goTo e.newMessage) h (hnext _)).isSome, List.tail_suffix p,
      fun _ => hupgrade⟩
  · exact goOn_keeps hsound hp

theorem headersDone_keeps (h : e.In base .opened) (hm : e.markSet = {}) :
    (e.headersDone p ch).Keeps base p := by
  have hsound : ((({ e with nread := 0 } : HttpExec).goTo
      ({ e with nread := 0 } : HttpExec).newMessage).notifyComplete).Sound base :=
    complete_sound (e := { e with nread := 0 }) hl h (fun _ => rfl) hm
  rw [headersDone]
  dsimp only
  split_ifs with hlf hupgrade hskip hchunked hzero hcount heof
  · exact fail_keeps h.isSome (List.suffix_refl p) (by decide)
  · exact ⟨(In.notify (e := HttpExec.goTo { e with nread := 0 } _) h rfl).isSome,
      List.tail_suffix p, fun _ => (Bool.and_eq_true _ _ ▸ hupgrade).1⟩
  · exact goOn_keeps hsound hp
  · exact goOn_keeps ⟨hl, Or.inl h, hm, hchunked, rfl⟩ hp
  · exact goOn_keeps hsound hp
  · exact goOn_keeps ⟨hl, h, Or.inl hm, Nat.pos_of_ne_zero hzero, lt_of_le_of_ne hl hcount⟩ hp
  · exact goOn_keeps hsound hp
  · exact goOn_keeps ⟨hl, h, Or.inl hm⟩ hp

theorem headersAlmostDone_keeps (h : e.AtLine base) (hm : e.markSet = {}) :
    (e.headersAlmostDone p ch).Keeps base p := by
  have hsome : e.InOrder base := by
    rw [AtLine] at h
    split_ifs at h
    · exact h.elim In.isSome In.isSome
    · exact h.elim In.isSome In.isSome
  rw [headersAlmostDone]
  split_ifs with hlf htrailing hboth
  · exact fail_keeps hsome (List.suffix_refl p) (by decide)
  · rw [AtLine, if_pos htrailing] at h
    have hlast : ((e.goTo .messageDone).notify .chunkComplete).In base .last := by
      rcases h with h | h
      · exact In.notify (e := e.goTo .messageDone) h rfl
      · exact In.notify (e := e.goTo .messageDone) h rfl
    exact messageDone_keeps hp hl hlast (fun _ => rfl) hm
  · exact fail_keeps hsome (List.suffix_refl p) (by decide)
  · rw [AtLine, if_neg htrailing] at h
    have hopened : (HttpExec.notify { e with state := .headersDone, upgrade := e.asksUpgrade }
        .headersComplete).In base .opened := by
      rcases h with h | h
      · exact In.notify (e := { e with state := .headersDone, upgrade := e.asksUpgrade }) h rfl
      · exact In.notify (e := { e with state := .headersDone, upgrade := e.asksUpgrade }) h rfl
    exact headersDone_keeps hp hl hopened hm

/-! ## The headers -/

omit hp hl in
theorem AtLine.isSome (h : e.AtLine base) : e.InOrder base := by
  rw [AtLine] at h
  split_ifs at h
  · exact h.elim In.isSome In.isSome
  · exact h.elim In.isSome In.isSome

omit hp hl in
theorem AtName.isSome (h : e.AtName base) : e.InOrder base := by
  rw [AtName] at h
  split_ifs at h
  · exact In.isSome h
  · exact In.isSome h

omit hp hl in
theorem AtValue.isSome (h : e.AtValue base) : e.InOrder base := by
  rw [AtValue] at h
  split_ifs at h
  · exact In.isSome h
  · exact In.isSome h

omit hp hl in
/-- Behind a value another line may follow. -/
theorem AtValue.atLine (h : e.AtValue base) : e.AtLine base := by
  rw [AtValue] at h
  rw [AtLine]
  split_ifs at h ⊢
  · exact Or.inr h
  · exact Or.inr h

omit hp hl in
theorem firstHeaderState_inName (c : UInt8) : (firstHeaderState c).inName = true := by
  rw [firstHeaderState]
  split_ifs <;> rfl

theorem headerFieldStart_keeps (h : e.AtLine base) (hm : e.markSet = {}) :
    (e.headerFieldStart p ch).Keeps base p := by
  rw [headerFieldStart]
  split_ifs
  · exact goOn_keeps ⟨hl, h, hm⟩ hp
  · exact headersAlmostDone_keeps (e := e.goTo .headersAlmostDone) hp hl h hm
  · exact fail_keeps h.isSome (List.suffix_refl p) (by decide)
  · refine goOn_keeps ⟨hl, h, ?_, firstHeaderState_inName _⟩ hp
    simp only [markSet, MarkSet.mk.injEq] at hm ⊢
    exact ⟨mark_or p, hm.2⟩

omit hp hl in
theorem matchWord_inName {word : Bytes} {self matched other : HeaderState} {index : ℕ} {c : UInt8}
    (h : self.inName = true ∧ matched.inName = true ∧ other.inName = true) :
    (matchWord word self matched other index c).1.inName = true := by
  rw [matchWord]
  split_ifs
  · exact h.2.2
  · exact h.2.1
  · exact h.1

omit hp hl in
/-- The loop over a name knows each state that it reaches. -/
theorem fieldChar_inName {h : HeaderState} (index : ℕ) (ch c : UInt8) (hh : h.inName = true) :
    ∃ s, fieldChar h index ch c = some s ∧ s.1.inName = true := by
  cases h <;> cases hh <;> refine ⟨_, rfl, ?_⟩
  case c | co | con => dsimp only; split_ifs <;> rfl
  case connection | contentLength | transferEncoding | upgrade => dsimp only; split_ifs <;> rfl
  case general => rfl
  all_goals exact matchWord_inName (by decide)

omit hp hl in
theorem headerFieldLoop_some (len skip index : ℕ) {h : HeaderState} (hh : h.inName = true) :
    ∃ h' index' q, headerFieldLoop len skip h index p = some (h', index', q) ∧
      h'.inName = true ∧ q <:+ p := by
  induction p generalizing skip h index with
  | nil => exact ⟨h, index, [], by cases skip <;> rfl, hh, List.suffix_refl []⟩
  | cons c rest ih =>
    have hcons : ∀ q, q <:+ rest → q <:+ c :: rest := fun q hq => hq.trans (List.suffix_cons c rest)
    cases skip with
    | succ skip =>
      obtain ⟨h', index', q, heq, hh', hq⟩ := ih skip index hh
      exact ⟨h', index', q, heq, hh', hcons q hq⟩
    | zero =>
      rw [headerFieldLoop]
      split_ifs with htoken hgeneral
      · exact ⟨h, index, c :: rest, rfl, hh, List.suffix_refl _⟩
      · obtain ⟨h', index', q, heq, hh', hq⟩ :=
          ih (generalTokens len (c :: rest)) index hh
        exact ⟨h', index', q, heq, hh', hcons q hq⟩
      · obtain ⟨s, hs, hname⟩ := fieldChar_inName index c (token c) hh
        obtain ⟨h', index', q, heq, hh', hq⟩ := ih 0 s.2 hname
        rw [hs]
        exact ⟨h', index', q, heq, hh', hcons q hq⟩

omit hl in
theorem lastByte_ne_nil : lastByte p ≠ [] := by
  rw [lastByte, ne_eq, List.drop_eq_nil_iff]
  have := List.length_pos_iff.mpr hp
  omega

omit hp hl in
theorem lastByte_suffix : lastByte p <:+ p := List.drop_suffix _ p

omit hp hl in
/-- The bytes of a header are counted. -/
theorem countHeaderSize_keeps {q : Bytes} {n : ℕ} {k : HttpExec → Flow}
    (h : e.InOrder base) (hq : q <:+ p)
    (hk : ∀ nread, nread ≤ httpMaxHeaderSize → nread = u32 (e.nread + n) →
      (k { e with nread := nread }).Keeps base p) : (e.countHeaderSize q n k).Keeps base p := by
  rw [countHeaderSize]
  dsimp only
  split_ifs with hlarge
  · exact fail_keeps (e := { e with nread := u32 (e.nread + n) }) h hq (by decide)
  · exact hk _ (Nat.le_of_not_lt hlarge) rfl

theorem headerField_keeps {len : ℕ} (h : e.AtLine base) (hm : e.markSet = { headerField := true })
    (hh : e.headerState.inName = true) (hs : e.state.kind = .field) :
    (e.headerField p len).Keeps base p := by
  obtain ⟨h', index', q, heq, hh', hq⟩ :=
    headerFieldLoop_some (p := p) len 0 e.index hh
  rw [headerField, heq]
  cases q with
  | nil =>
    refine countHeaderSize_keeps h.isSome lastByte_suffix fun nread _ _ => ?_
    exact ⟨Sound.of hl hs ⟨h, hm, hh'⟩, lastByte_ne_nil hp, lastByte_suffix⟩
  | cons c rest =>
    refine countHeaderSize_keeps h.isSome hq fun nread _ _ => ?_
    dsimp only
    split_ifs
    · obtain ⟨hname, hnone⟩ := dataHeaderField_in (p := c :: rest)
        (e := HttpExec.goTo { e with headerState := h', index := index', nread := nread }
          .headerValueDiscardWs) h hm
      refine ⟨Sound.of (k := .valueSpace) ?_ ?_ ⟨hname, hnone⟩, List.cons_ne_nil c rest, hq⟩
      · rw [dataHeaderField_toHttpParser]
        exact hl
      · rw [dataHeaderField_toHttpParser]
        rfl
    · exact fail_keeps h.isSome hq (by decide)

/-! ## Values -/

omit hp hl

/-- What the loop over a value leaves. -/
structure ValueFrame (e e' : HttpExec) : Prop where
  calls : e'.calls = e.calls
  marks : e'.markSet = e.markSet
  trailing : e'.flags.trailing = e.flags.trailing
  length : e.contentLength ≤ ullongMax → e'.contentLength ≤ ullongMax
  state : e.state = .headerValue → e'.state = .headerValue

theorem ValueFrame.refl : ValueFrame e e := ⟨rfl, rfl, rfl, id, id⟩

theorem ValueFrame.trans {e₁ e₂ e₃ : HttpExec} (h : ValueFrame e₁ e₂) (h' : ValueFrame e₂ e₃) :
    ValueFrame e₁ e₃ :=
  ⟨h'.calls.trans h.calls, h'.marks.trans h.marks, h'.trailing.trans h.trailing,
    fun hl => h'.length (h.length hl), fun hs => h'.state (h.state hs)⟩

theorem setConnection_trailing (h : HeaderState) (flags : HttpFlags) :
    (setConnection h flags).trailing = flags.trailing := by
  cases h <;> rfl

/-- What a byte of a value keeps. -/
def ValueKeeps (e : HttpExec) : ValueChar → Prop
  | .next h e' => h.inValue = true ∧ ValueFrame e e'
  | .error errno => errno ≠ .ok
  | .abort => False

theorem matched_keeps {s : HeaderState × ℕ} (hs : s.1.inValue = true) :
    ValueKeeps e (e.matched s) :=
  ⟨hs, ⟨rfl, rfl, rfl, id, id⟩⟩

theorem matchWord_inValue {word : Bytes} {self matched other : HeaderState} {index : ℕ} {c : UInt8}
    (h : self.inValue = true ∧ matched.inValue = true ∧ other.inValue = true) :
    (matchWord word self matched other index c).1.inValue = true := by
  rw [matchWord]
  split_ifs
  · exact h.2.2
  · exact h.2.1
  · exact h.1

theorem contentLengthNum_keeps : ValueKeeps e (e.contentLengthNum ch) := by
  rw [contentLengthNum]
  split_ifs with hblank hnum hlarge
  · exact ⟨rfl, .refl⟩
  · exact fun herr => by cases herr
  · exact fun herr => by cases herr
  · refine ⟨rfl, rfl, rfl, rfl, fun _ => ?_, id⟩
    have hdigit : ch.toNat ≤ 57 := by
      simp only [isNum, Bool.and_eq_true, decide_eq_true_eq, Bool.not_eq_true',
        Bool.not_eq_false] at hnum
      exact UInt8.le_iff_toNat_le.mp hnum.2
    simp only [ullongMax] at hlarge ⊢
    omega

theorem valueChar_keeps {h : HeaderState} {c : UInt8} (hh : h.inValue = true) :
    ValueKeeps e (e.valueChar ch h c) := by
  cases h <;> cases hh <;> simp only [valueChar]
  case contentLength =>
    split_ifs
    · exact ⟨rfl, .refl⟩
    · exact contentLengthNum_keeps
  case contentLengthNum => exact contentLengthNum_keeps
  case contentLengthWs =>
    split_ifs
    · exact ⟨rfl, .refl⟩
    · exact fun herr => by cases herr
  case matchingTransferEncodingChunked => exact matched_keeps (matchWord_inValue (by decide))
  case matchingConnectionKeepAlive => exact matched_keeps (matchWord_inValue (by decide))
  case matchingConnectionClose => exact matched_keeps (matchWord_inValue (by decide))
  case matchingConnectionUpgrade => exact matched_keeps (matchWord_inValue (by decide))
  case matchingConnectionTokenStart =>
    refine ⟨?_, .refl⟩
    rw [connectionTokenStart]
    split_ifs <;> rfl
  case matchingConnectionToken =>
    split_ifs
    · exact ⟨rfl, rfl, rfl, rfl, id, id⟩
    · exact ⟨rfl, .refl⟩
  case transferEncodingChunked =>
    refine ⟨?_, .refl⟩
    split_ifs <;> rfl
  case connectionKeepAlive | connectionClose | connectionUpgrade =>
    split_ifs
    · exact ⟨rfl, rfl, rfl, setConnection_trailing _ _, id, id⟩
    · exact ⟨rfl, .refl⟩
    · exact ⟨rfl, .refl⟩
  case general => exact ⟨rfl, .refl⟩
  all_goals exact ⟨rfl, rfl, rfl, rfl, id, fun _ => rfl⟩

/-- What the loop over a value keeps. -/
def ValueEndKeeps (e : HttpExec) (p : Bytes) : ValueEnd → Prop
  | .cr e' q => ∃ e₁, ValueFrame e e₁ ∧ e' = (e₁.goTo .headerAlmostDone).dataHeaderValue q ∧
      q ≠ [] ∧ q <:+ p
  | .lf e' q => ∃ e₁, ValueFrame e e₁ ∧ e' = e₁.goTo .headerAlmostDone ∧ q ≠ [] ∧ q <:+ p
  | .last e' => ValueFrame e e' ∧ e'.headerState.inValue = true
  | .error e' q errno => ValueFrame e e' ∧ q <:+ p ∧ errno ≠ .ok
  | .abort => False

theorem ValueEndKeeps.of {e e' : HttpExec} {p q : Bytes} {v : ValueEnd} (hframe : ValueFrame e e')
    (hq : q <:+ p) (h : ValueEndKeeps e' q v) : ValueEndKeeps e p v := by
  cases v with
  | cr e'' q' =>
    obtain ⟨e₁, h₁, heq, hne, hsuffix⟩ := h
    exact ⟨e₁, hframe.trans h₁, heq, hne, hsuffix.trans hq⟩
  | lf e'' q' =>
    obtain ⟨e₁, h₁, heq, hne, hsuffix⟩ := h
    exact ⟨e₁, hframe.trans h₁, heq, hne, hsuffix.trans hq⟩
  | last e'' => exact ⟨hframe.trans h.1, h.2⟩
  | error e'' q' errno => exact ⟨hframe.trans h.1, h.2.1.trans hq, h.2.2⟩
  | abort => exact h

/-- The loop over a value knows each state that it reaches. -/
theorem headerValueLoop_keeps {skip : ℕ} {h : HeaderState} (hh : h.inValue = true) :
    ValueEndKeeps e p (headerValueLoop skip h e p) := by
  induction p generalizing skip h e with
  | nil => cases skip <;> exact ⟨⟨rfl, rfl, rfl, id, id⟩, hh⟩
  | cons c rest ih =>
    have hrest : rest <:+ c :: rest := List.suffix_cons c rest
    cases skip with
    | succ skip => exact .of .refl hrest (ih hh)
    | zero =>
      rw [headerValueLoop]
      split_ifs
      · exact ⟨{ e with headerState := h }, ⟨rfl, rfl, rfl, id, id⟩, rfl, List.cons_ne_nil c rest,
          List.suffix_refl _⟩
      · exact ⟨{ e with headerState := h }, ⟨rfl, rfl, rfl, id, id⟩, rfl, List.cons_ne_nil c rest,
          List.suffix_refl _⟩
      · exact ⟨.refl, List.suffix_refl _, fun herr => by cases herr⟩
      · exact .of .refl hrest (ih hh)
      · have hchar : ValueKeeps e (e.valueChar c h (lower c)) := valueChar_keeps hh
        split
        · next heq =>
          rw [heq] at hchar
          exact .of hchar.2 hrest (ih hchar.1)
        · next heq =>
          rw [heq] at hchar
          exact ⟨.refl, List.suffix_refl _, hchar⟩
        · next heq =>
          rw [heq] at hchar
          exact hchar

/-! ## The lines of a value -/

theorem isSome_of_line (h : e.AtName base ∨ e.AtValue base) : e.InOrder base :=
  h.elim AtName.isSome AtValue.isSome

include hp hl

theorem headerValueStart_keeps (h : e.AtName base ∨ e.AtValue base) (hm : e.markSet = {}) :
    (e.headerValueStart p ch).Keeps base p := by
  have hmark : (({ e with headerValueMark := e.headerValueMark <|> some p } : HttpExec).goTo
      .headerValue).markSet = { headerValue := true } := by
    simp only [markSet, MarkSet.mk.injEq] at hm ⊢
    exact ⟨hm.1, mark_or p, hm.2.2⟩
  rw [headerValueStart]
  dsimp only
  split
  · exact goOn_keeps ⟨hl, h, hmark, rfl⟩ hp
  · refine goOn_keeps ⟨hl, h, hmark, ?_⟩ hp
    dsimp only
    split_ifs <;> rfl
  · split_ifs with hnum
    · exact fail_keeps (isSome_of_line h) (List.suffix_refl p) (by decide)
    · exact fail_keeps (isSome_of_line h) (List.suffix_refl p) (by decide)
    · refine goOn_keeps ⟨?_, h, hmark, rfl⟩ hp
      have := ch.toNat_lt
      simp only [ullongMax]
      omega
  · refine goOn_keeps ⟨hl, h, hmark, ?_⟩ hp
    dsimp only
    split_ifs <;> rfl
  · next hstate => exact goOn_keeps ⟨hl, h, hmark, by rw [hstate]; rfl⟩ hp
  · exact goOn_keeps ⟨hl, h, hmark, rfl⟩ hp

theorem headerValueDiscardWs_keeps (h : e.AtName base) (hm : e.markSet = {})
    (hs : e.state.kind = .valueSpace) : (e.headerValueDiscardWs p ch).Keeps base p := by
  rw [headerValueDiscardWs]
  split_ifs
  · exact goOn_keeps (Sound.of hl hs ⟨h, hm⟩) hp
  · exact goOn_keeps ⟨hl, h, hm⟩ hp
  · exact goOn_keeps ⟨hl, h, hm⟩ hp
  · exact headerValueStart_keeps hp hl (Or.inl h) hm

theorem headerAlmostDone_keeps (h : e.AtValue base) (hm : e.markSet = {}) :
    (e.headerAlmostDone p ch).Keeps base p :=
  constant_keeps hp ⟨hl, h, hm⟩ h.isSome (by decide)

omit hp hl in
theorem ValueFrame.line {e' : HttpExec} (hframe : ValueFrame e e') (h :
    e.AtName base ∨ e.AtValue base) :
    e'.AtName base ∨ e'.AtValue base := by
  rw [AtName, AtValue] at h ⊢
  rw [hframe.trailing]
  simp only [In, hframe.calls] at h ⊢
  exact h

theorem headerValue_keeps (h : e.AtName base ∨ e.AtValue base) (hm : e.markSet =
    { headerValue := true })
    (hh : e.headerState.inValue = true) (hs : e.state = .headerValue) :
    (e.headerValue p).Keeps base p := by
  have hloop : ValueEndKeeps e p (headerValueLoop 0 e.headerState e p) := headerValueLoop_keeps hh
  rw [headerValue]
  split
  · next e' q heq =>
    rw [heq] at hloop
    obtain ⟨e₁, hframe, rfl, hne, hq⟩ := hloop
    obtain ⟨hvalue, hnone⟩ := dataHeaderValue_in (p := q) (e := e₁.goTo .headerAlmostDone)
      (hframe.line h) (hframe.marks.trans hm)
    refine countHeaderSize_keeps hvalue.isSome hq fun nread _ _ => ?_
    refine ⟨Sound.of (k := .valueEnd) ?_ ?_ ⟨hvalue, hnone⟩, hne, hq⟩
    · dsimp only
      rw [dataHeaderValue_toHttpParser]
      exact hframe.length hl
    · dsimp only
      rw [dataHeaderValue_toHttpParser]
      rfl
  · next e' q heq =>
    rw [heq] at hloop
    obtain ⟨e₁, hframe, rfl, hne, hq⟩ := hloop
    refine countHeaderSize_keeps (isSome_of_line (hframe.line h)) hq fun nread _ _ => ?_
    obtain ⟨hvalue, hnone⟩ := dataHeaderValue_in (p := q)
      (e := { e₁.goTo .headerAlmostDone with nread := nread })
      (hframe.line h) (hframe.marks.trans hm)
    refine (headerAlmostDone_keeps hne ?_ hvalue hnone).mono hq
    rw [dataHeaderValue_toHttpParser]
    exact hframe.length hl
  · next e' heq =>
    rw [heq] at hloop
    refine countHeaderSize_keeps (isSome_of_line (hloop.1.line h)) lastByte_suffix
      fun nread _ _ => ?_
    refine ⟨Sound.of (k := .value) (hloop.1.length hl) ?_ ⟨hloop.1.line h,
      hloop.1.marks.trans hm, hloop.2⟩, lastByte_ne_nil hp, lastByte_suffix⟩
    dsimp only
    rw [hloop.1.state hs]
    rfl
  · next e' q errno heq =>
    rw [heq] at hloop
    exact fail_keeps (isSome_of_line (hloop.1.line h)) hloop.2.1 hloop.2.2
  · next heq =>
    rw [heq] at hloop
    exact hloop

omit hp hl in
theorem setFinished_trailing : e.setFinished.trailing = e.flags.trailing := by
  rw [setFinished]
  split_ifs
  · rfl
  · exact setConnection_trailing _ _

omit hp hl in
/-- Flags that leave the trailer leave the place in the message. -/
theorem AtValue.with_flags {flags : HttpFlags} (h : e.AtValue base)
    (ht : flags.trailing = e.flags.trailing) : ({ e with flags := flags } :
    HttpExec).AtValue base := by
  rw [AtValue] at h ⊢
  dsimp only
  rw [ht]
  exact h

omit hp hl in
theorem AtName.with_flags {flags : HttpFlags} (h : e.AtName base)
    (ht : flags.trailing = e.flags.trailing) : ({ e with flags := flags } :
    HttpExec).AtName base := by
  rw [AtName] at h ⊢
  dsimp only
  rw [ht]
  exact h

theorem headerValueLws_keeps (h : e.AtValue base) (hm : e.markSet = {}) :
    (e.headerValueLws p ch).Keeps base p := by
  rw [headerValueLws]
  split_ifs
  · exact headerValueStart_keeps (e := e.goTo .headerValueStart) hp hl (Or.inr h) hm
  · exact headerFieldStart_keeps
      (e := HttpExec.goTo { e with flags := e.setFinished } .headerFieldStart) hp hl
      (h.with_flags setFinished_trailing).atLine hm

theorem headerValueDiscardLws_keeps (h : e.AtName base) (hm : e.markSet = {}) :
    (e.headerValueDiscardLws p ch).Keeps base p := by
  rw [headerValueDiscardLws]
  split_ifs
  · exact goOn_keeps ⟨hl, h, hm⟩ hp
  · have hmark : ({ e with headerValueMark := e.headerValueMark <|> some p } : HttpExec).markSet =
        { headerValue := true } := by
      simp only [markSet, MarkSet.mk.injEq] at hm ⊢
      exact ⟨hm.1, mark_or p, hm.2.2⟩
    obtain ⟨hvalue, hnone⟩ := dataHeaderValue_in (p := p)
      (e := HttpExec.goTo { e with
        flags := e.setFinished
        headerValueMark := e.headerValueMark <|> some p } .headerFieldStart)
      (Or.inl (h.with_flags setFinished_trailing)) hmark
    refine headerFieldStart_keeps hp ?_ hvalue.atLine hnone
    rw [dataHeaderValue_toHttpParser]
    exact hl

/-! ## The body -/

omit hp hl in
theorem drop_ne_nil {n : ℕ} (h : n < p.length) : p.drop n ≠ [] := by
  rw [ne_eq, List.drop_eq_nil_iff]
  omega

omit hp hl in
theorem mark_body (hm : e.markSet = {} ∨ e.markSet = { body := true }) (q : Bytes) (n : ℕ) :
    ({ e with bodyMark := e.bodyMark <|> some q, contentLength := n } : HttpExec).markSet =
      { body := true } := by
  rcases hm with hm | hm
  all_goals
    simp only [markSet, MarkSet.mk.injEq] at hm ⊢
    exact ⟨hm.1, hm.2.1, hm.2.2.1, mark_or q, hm.2.2.2.2⟩

theorem bodyIdentity_keeps (h : e.In base .opened) (hm : e.markSet = {} ∨ e.markSet =
    { body := true })
    (hc : e.Counts) (hs : e.state.kind = .bodyIdentity) : (e.bodyIdentity p).Keeps base p := by
  obtain ⟨hpos, hlt⟩ := hc
  have hlen : 0 < p.length := List.length_pos_iff.mpr hp
  have hdrop : p.drop (min e.contentLength p.length - 1) ≠ [] := drop_ne_nil (by omega)
  have hmark := mark_body hm p (e.contentLength - min e.contentLength p.length)
  obtain ⟨mark, hbody⟩ : ∃ mark, (e.bodyMark <|> some p) = some mark :=
    Option.isSome_iff_exists.mp (mark_or p)
  rw [bodyIdentity]
  dsimp only
  split_ifs with habort hzero
  · simp only [Bool.or_eq_true, decide_eq_true_eq] at habort
    omega
  · refine Flow.Keeps.mono ?_ (List.drop_suffix (min e.contentLength p.length - 1) p)
    obtain ⟨hread, hnone⟩ := dataBody_in .read
      (p := (p.drop (min e.contentLength p.length - 1)).tail)
      (e := HttpExec.goTo { e with
        bodyMark := e.bodyMark <|> some p
        contentLength := e.contentLength - min e.contentLength p.length } .messageDone)
      h (fun _ => rfl) hbody hmark
    refine messageDone_keeps hdrop ?_ hread (fun _ => rfl) hnone
    rw [dataBody_toHttpParser]
    exact (Nat.sub_le _ _).trans hl
  · refine ⟨Sound.of (k := .bodyIdentity) ?_ hs ⟨h, Or.inr hmark, ?_, ?_⟩, hdrop,
      List.drop_suffix _ p⟩
    · exact (Nat.sub_le _ _).trans hl
    · exact Nat.pos_of_ne_zero hzero
    · exact lt_of_le_of_lt (Nat.sub_le _ _) hlt

theorem bodyIdentityEof_keeps (h : e.In base .opened)
    (hm : e.markSet = {} ∨ e.markSet = { body := true }) (hs : e.state.kind = .bodyEof) :
    (e.bodyIdentityEof p).Keeps base p :=
  ⟨Sound.of (k := .bodyEof) hl hs ⟨h, Or.inr (mark_body hm p e.contentLength)⟩,
    lastByte_ne_nil hp, lastByte_suffix⟩

omit hp hl in
theorem unhex_lt {v : ℕ} (h : unhex ch = some v) : v < 16 := by
  have hall : ∀ c : UInt8, ∀ v ∈ unhex c, v < 16 := by decide +kernel
  exact hall ch v h

omit hl in
theorem chunkSizeStart_keeps (h : e.In base .opened ∨ e.In base .chunks) (hm : e.markSet = {})
    (hc : e.flags.chunked = true) (hn : e.nread = 1) : (e.chunkSizeStart p ch).Keeps base p := by
  rw [chunkSizeStart, hn, hc]
  split_ifs with habort
  · exact absurd habort (by decide)
  · split
    · exact fail_keeps (h.elim In.isSome In.isSome) (List.suffix_refl p) (by decide)
    · next v hv =>
      have hlt := unhex_lt hv
      have hmax : v < ullongMax := hlt.trans (by decide)
      exact goOn_keeps ⟨hmax.le, h, hm, hc, hmax⟩ hp

theorem chunkSize_keeps (h : e.In base .opened ∨ e.In base .chunks) (hm : e.markSet = {})
    (hc : e.flags.chunked = true) (hlt : e.contentLength < ullongMax)
    (hs : e.state.kind = .chunkSize) : (e.chunkSize p ch).Keeps base p := by
  have hsome : e.InOrder base := h.elim In.isSome In.isSome
  rw [chunkSize, hc]
  cases hv : unhex ch with
  | none =>
    dsimp only
    split_ifs with habort
    · exact absurd habort (by decide)
    · exact goOn_keeps ⟨hl, h, hm, hc, hlt⟩ hp
    · exact goOn_keeps ⟨hl, h, hm, hc, hlt⟩ hp
    · exact fail_keeps hsome (List.suffix_refl p) (by decide)
  | some v =>
    dsimp only
    split_ifs with habort hcr hlarge
    · exact absurd habort (by decide)
    · exact goOn_keeps ⟨hl, h, hm, hc, hlt⟩ hp
    · exact fail_keeps hsome (List.suffix_refl p) (by decide)
    · have hdigit := unhex_lt hv
      have hmax : e.contentLength * 16 + v < ullongMax := by
        simp only [ullongMax] at hlarge ⊢
        omega
      exact goOn_keeps (Sound.of (e := { e with contentLength := e.contentLength * 16 + v })
        hmax.le hs ⟨h, hm, hc, hmax⟩) hp

theorem chunkParameters_keeps (h : e.In base .opened ∨ e.In base .chunks) (hm : e.markSet = {})
    (hc : e.flags.chunked = true) (hlt : e.contentLength < ullongMax)
    (hs : e.state.kind = .chunkSize) : (e.chunkParameters p ch).Keeps base p := by
  rw [chunkParameters, hc]
  split_ifs with habort
  · exact absurd habort (by decide)
  · exact goOn_keeps ⟨hl, h, hm, hc, hlt⟩ hp
  · exact goOn_keeps (Sound.of hl hs ⟨h, hm, hc, hlt⟩) hp

theorem chunkSizeAlmostDone_keeps (h : e.In base .opened ∨ e.In base .chunks) (hm : e.markSet = {})
    (hc : e.flags.chunked = true) (hlt : e.contentLength < ullongMax) :
    (e.chunkSizeAlmostDone p ch).Keeps base p := by
  have hchunk : ∀ e' : HttpExec, e'.calls = e.calls → (e'.notify .chunkHeader).In base .chunk := by
    intro e' hcalls
    simp only [In, ← hcalls] at h
    exact h.elim (In.notify (e := e') · rfl) (In.notify (e := e') · rfl)
  rw [chunkSizeAlmostDone, hc]
  dsimp only
  split_ifs with habort hlf hzero
  · exact absurd habort (by decide)
  · exact fail_keeps (h.elim In.isSome In.isSome) (List.suffix_refl p) (by decide)
  · refine goOn_keeps ⟨hl, ?_, hm⟩ hp
    exact Or.inl (hchunk _ rfl)
  · exact goOn_keeps ⟨hl, hchunk _ rfl, Or.inl hm, hc, Nat.pos_of_ne_zero hzero, hlt⟩ hp

theorem chunkData_keeps (h : e.In base .chunk) (hm : e.markSet = {} ∨ e.markSet = { body := true })
    (hc : e.flags.chunked = true) (hcount : e.Counts) (hs : e.state.kind = .chunkData) :
    (e.chunkData p).Keeps base p := by
  obtain ⟨hpos, hlt⟩ := hcount
  have hlen : 0 < p.length := List.length_pos_iff.mpr hp
  have hdrop : p.drop (min e.contentLength p.length - 1) ≠ [] := drop_ne_nil (by omega)
  have hmark := mark_body hm p (e.contentLength - min e.contentLength p.length)
  have hle : e.contentLength - min e.contentLength p.length ≤ ullongMax :=
    (Nat.sub_le _ _).trans hl
  rw [chunkData]
  dsimp only
  split_ifs with habort hzero
  · simp only [hc, Bool.or_eq_true, Bool.not_true, decide_eq_true_eq, Bool.false_eq_true,
      false_or] at habort
    omega
  · exact ⟨⟨hle, h, hmark, hc, hzero⟩, hdrop, List.drop_suffix _ p⟩
  · exact ⟨Sound.of (k := .chunkData) hle hs ⟨h, Or.inr hmark, hc, Nat.pos_of_ne_zero hzero,
      lt_of_le_of_lt (Nat.sub_le _ _) hlt⟩, hdrop, List.drop_suffix _ p⟩

theorem chunkDataAlmostDone_keeps (h : e.In base .chunk) (hm : e.markSet = { body := true })
    (hc : e.flags.chunked = true) (hzero : e.contentLength = 0) :
    (e.chunkDataAlmostDone p ch).Keeps base p := by
  rw [chunkDataAlmostDone, hc, hzero]
  split_ifs with habort hcr
  · exact absurd habort (by decide)
  · exact fail_keeps h.isSome (List.suffix_refl p) (by decide)
  · have hbody := hm
    simp only [markSet, MarkSet.mk.injEq] at hbody
    obtain ⟨mark, hmark⟩ := Option.isSome_iff_exists.mp hbody.2.2.2.1
    obtain ⟨hread, hnone⟩ := dataBody_in (p := p) .chunkRead
      (e := e.goTo .chunkDataDone) h (fun _ => rfl) hmark hm
    refine goOn_keeps (Sound.of (k := .chunkDone) ?_ ?_ ⟨hread, hnone, ?_⟩) hp
    · rw [dataBody_toHttpParser]
      exact hl
    · rw [dataBody_toHttpParser]
      rfl
    · rw [dataBody_toHttpParser]
      exact hc

theorem chunkDataDone_keeps (h : e.In base .chunkRead) (hm : e.markSet = {})
    (hc : e.flags.chunked = true) : (e.chunkDataDone p ch).Keeps base p := by
  rw [chunkDataDone, hc]
  split_ifs with habort hlf
  · exact absurd habort (by decide)
  · exact fail_keeps h.isSome (List.suffix_refl p) (by decide)
  · exact goOn_keeps ⟨hl, Or.inr (In.notify (e := HttpExec.goTo { e with nread := 0 } _) h rfl),
      hm, hc, rfl⟩ hp

theorem dead_keeps (h : e.In base .idle) (hm : e.markSet = {}) (hs : e.state.kind = .start) :
    (e.dead p ch).Keeps base p := by
  rw [dead]
  split_ifs
  · exact goOn_keeps (Sound.of hl hs ⟨h, hm⟩) hp
  · exact fail_keeps h.isSome (List.suffix_refl p) (by decide)

/-! ## The loop -/

theorem constant_line {expected : UInt8} {errno : HttpErrno} {s : ParserState} (h :
    e.In base .begun)
    (hm : e.markSet = {}) (ht : e.flags.trailing = false) (hs : s.kind = .startLine)
    (herrno : errno ≠ .ok) : (e.constant p ch expected errno s).Keeps base p :=
  constant_keeps hp (Sound.of (e := e.goTo s) hl hs ⟨h, hm, ht⟩) h.isSome herrno

theorem constant_lineEnd {expected : UInt8} {errno : HttpErrno} {s : ParserState}
    (h : e.In base .lines) (hm : e.markSet = {}) (ht : e.flags.trailing = false)
    (hs : s.kind = .lineEnd ∨ s = .headerFieldStart) (herrno : errno ≠ .ok) :
    (e.constant p ch expected errno s).Keeps base p := by
  rw [constant]
  split_ifs
  · exact fail_keeps h.isSome (List.suffix_refl p) herrno
  · exact lineEnd_keeps (e := e.goTo s) hp hl h hm ht hs

omit hl in
/-- **The `switch`** keeps the invariant. The byte is counted in front of it. -/
theorem switch_keeps {len n : ℕ} (h : e.Sound base) (hn : e.state = .chunkSizeStart → n = 1) :
    (({ e with nread := n } : HttpExec).switch p ch len).Keeps base p := by
  obtain ⟨hl, h⟩ := h
  have hl' : ({ e with nread := n } : HttpExec).contentLength ≤ ullongMax := hl
  rw [switch]
  cases hs : e.state <;> rw [hs] at h <;> simp only
  case dead => exact dead_keeps hp hl' h.1 h.2 rfl
  case startReqOrRes => exact startReqOrRes_keeps hp hl' h.1 h.2 rfl
  case startReq => exact startReq_keeps hp hl' h.1 h.2 rfl
  case startRes => exact startRes_keeps hp h.1 h.2 rfl
  case resOrRespH => exact resOrRespH_keeps hp hl' h.1 h.2.1 h.2.2
  case resH | resHT | resHTT | resHTTP | resHttpDot | resHttpEnd =>
    apply constant_line hp
    exacts [hl, h.1, h.2.1, h.2.2, rfl, by decide]
  case resHttpMajor =>
    exact httpMajorChar_keeps hp (In.isSome h.1) fun _ => ⟨hl, h.1, h.2.1, h.2.2⟩
  case resHttpMinor =>
    exact httpMinorChar_keeps hp (In.isSome h.1) fun _ => ⟨hl, h.1, h.2.1, h.2.2⟩
  case resFirstStatusCode => exact resFirstStatusCode_keeps hp hl' h.1 h.2.1 h.2.2 rfl
  case resStatusCode => exact resStatusCode_keeps hp hl' h.1 h.2.1 h.2.2 rfl
  case resStatusStart => exact resStatusStart_keeps hp hl' h.1 h.2.1 h.2.2
  case resStatus => exact resStatus_keeps hp hl' h.1 h.2.1 h.2.2 rfl
  case reqMethod => exact reqMethod_keeps hp hl' h.1 h.2.1 h.2.2 rfl
  case reqSpacesBeforeUrl => exact reqSpacesBeforeUrl_keeps hp hl' h.1 h.2.1 h.2.2 rfl
  case reqSchema | reqSchemaSlash | reqSchemaSlashSlash | reqServerStart =>
    exact reqSchema_keeps hp hl' h.1 h.2.1 h.2.2
  case reqServer | reqServerWithAt | reqPath | reqQueryStringStart | reqQueryString
      | reqFragmentStart | reqFragment =>
    exact reqUrl_keeps hp hl' h.1 h.2.1 h.2.2
  case reqHttpStart => exact reqHttpStart_keeps hp hl' h.1 h.2.1 h.2.2 rfl
  case reqHttpH | reqHttpHT | reqHttpHTT | reqHttpHTTP | reqHttpDot =>
    apply constant_lineEnd hp
    exacts [hl, h.1, h.2.1, h.2.2, Or.inl rfl, by decide]
  case resLineAlmostDone | reqLineAlmostDone =>
    apply constant_lineEnd hp
    exacts [hl, h.1, h.2.1, h.2.2, Or.inr rfl, by decide]
  case reqHttpMajor =>
    exact httpMajorChar_keeps hp (In.isSome h.1) fun _ => ⟨hl, h.1, h.2.1, h.2.2⟩
  case reqHttpMinor =>
    exact httpMinorChar_keeps hp (In.isSome h.1) fun _ => ⟨hl, h.1, h.2.1, h.2.2⟩
  case reqHttpEnd => exact reqHttpEnd_keeps hp hl' h.1 h.2.1 h.2.2
  case headerFieldStart => exact headerFieldStart_keeps hp hl' h.1 h.2
  case headersAlmostDone => exact headersAlmostDone_keeps hp hl' h.1 h.2
  case headersDone => exact headersDone_keeps hp hl' h.1 h.2
  case headerField =>
    apply headerField_keeps hp
    exacts [hl, h.1, h.2.1, h.2.2, rfl]
  case headerValueDiscardWs => exact headerValueDiscardWs_keeps hp hl' h.1 h.2 rfl
  case headerValueDiscardWsAlmostDone =>
    exact constant_keeps hp ⟨hl, h.1, h.2⟩ (AtName.isSome h.1) (by decide)
  case headerValueDiscardLws => exact headerValueDiscardLws_keeps hp hl' h.1 h.2
  case headerValueStart => exact headerValueStart_keeps hp hl' h.1 h.2
  case headerValue => exact headerValue_keeps hp hl' h.1 h.2.1 h.2.2 rfl
  case headerValueLws => exact headerValueLws_keeps hp hl' h.1 h.2
  case headerAlmostDone => exact headerAlmostDone_keeps hp hl' h.1 h.2
  case chunkSizeStart => exact chunkSizeStart_keeps hp h.1 h.2.1 h.2.2.1 (hn hs)
  case chunkSize => exact chunkSize_keeps hp hl' h.1 h.2.1 h.2.2.1 h.2.2.2 rfl
  case chunkParameters => exact chunkParameters_keeps hp hl' h.1 h.2.1 h.2.2.1 h.2.2.2 rfl
  case chunkSizeAlmostDone => exact chunkSizeAlmostDone_keeps hp hl' h.1 h.2.1 h.2.2.1 h.2.2.2
  case chunkData => exact chunkData_keeps hp hl' h.1 h.2.1 h.2.2.1 h.2.2.2 rfl
  case chunkDataAlmostDone => exact chunkDataAlmostDone_keeps hp hl' h.1 h.2.1 h.2.2.1 h.2.2.2
  case chunkDataDone => exact chunkDataDone_keeps hp hl' h.1 h.2.1 h.2.2
  case bodyIdentity => exact bodyIdentity_keeps hp hl' h.1 h.2.1 h.2.2 rfl
  case bodyIdentityEof => exact bodyIdentityEof_keeps hp hl' h.1 h.2 rfl
  case messageDone =>
    rcases h.1 with hin | hin
    · exact messageDone_keeps hp hl' hin (fun _ => rfl) h.2
    · exact messageDone_keeps hp hl' hin (fun _ => rfl) h.2

omit hp hl in
/-- The calls of a run are in order. -/
theorem Sound.isSome (h : e.Sound base) : e.InOrder base := by
  obtain ⟨-, h⟩ := h
  cases hk : e.state.kind <;> rw [hk] at h
  case start | startLine | url | status | lineEnd | headersDone | chunkData | chunkAlmostDone
      | chunkDone | bodyIdentity | bodyEof =>
    exact In.isSome h.1
  case startRes | chunkStart | chunkSize | messageDone => exact h.1.elim In.isSome In.isSome
  case fieldStart | field => exact AtLine.isSome h.1
  case valueSpace => exact AtName.isSome h.1
  case valueStart | value => exact isSome_of_line h.1
  case valueEnd => exact AtValue.isSome h.1

omit hl in
theorem turn_keeps {len : ℕ} (h : e.Sound base) : (e.turn p ch len).Keeps base p := by
  rw [turn]
  split_ifs with hheader
  · refine countHeaderSize_keeps h.isSome (List.suffix_refl p) fun nread _ hnread => ?_
    refine switch_keeps hp h fun hs => ?_
    have hzero : e.nread = 0 := by
      obtain ⟨-, h⟩ := h
      rw [hs] at h
      exact h.2.2.2
    rw [hnread, hzero]
    rfl
  · refine switch_keeps (n := e.nread) hp h fun hs => ?_
    rw [hs] at hheader
    exact absurd rfl hheader

end Turns

/-! ## The end of a run -/

/-- No mark is left. -/
theorem flush_unmarked (hm : e.markSet = {}) : e.marks = 0 ∧ e.flush = e := by
  simp only [markSet, MarkSet.mk.injEq, Option.isSome_eq_false_iff, Option.isNone_iff_eq_none] at hm
  obtain ⟨h₁, h₂, h₃, h₄, h₅⟩ := hm
  constructor
  · simp [marks, h₁, h₂, h₃, h₄, h₅]
  · simp [flush, dataHeaderField, dataHeaderValue, dataUrl, dataBody, dataStatus, h₁, h₂, h₃, h₄,
      h₅]

/-- One mark is left: its call comes last. -/
theorem flush_marked {set : MarkSet} (hm : e.markSet = set) :
    (set = { headerField := true } → e.marks = 1 ∧
      ∃ name, e.flush.calls = e.calls ++ [.headerField name]) ∧
    (set = { headerValue := true } → e.marks = 1 ∧
      ∃ value, e.flush.calls = e.calls ++ [.headerValue value]) ∧
    (set = { url := true } → e.marks = 1 ∧ ∃ url, e.flush.calls = e.calls ++ [.url url]) ∧
    (set = { body := true } → e.marks = 1 ∧ ∃ data, e.flush.calls = e.calls ++ [.body data]) ∧
    (set = { status := true } → e.marks = 1 ∧
      ∃ code, e.flush.calls = e.calls ++ [.status code]) := by
  refine ⟨?_, ?_, ?_, ?_, ?_⟩
  all_goals
    rintro rfl
    simp only [markSet, MarkSet.mk.injEq, Option.isSome_eq_false_iff, Option.isNone_iff_eq_none,
      Option.isSome_iff_exists] at hm
    obtain ⟨h₁, h₂, h₃, h₄, h₅⟩ := hm
    first
    | obtain ⟨mark, h₁⟩ := h₁
    | obtain ⟨mark, h₂⟩ := h₂
    | obtain ⟨mark, h₃⟩ := h₃
    | obtain ⟨mark, h₄⟩ := h₄
    | obtain ⟨mark, h₅⟩ := h₅
    constructor
    · simp [marks, h₁, h₂, h₃, h₄, h₅]
    · simp [flush, dataHeaderField, dataHeaderValue, dataUrl, dataBody, dataStatus, notify, h₁, h₂,
        h₃, h₄, h₅]

theorem In.concat {call : HttpCallback} {e' : HttpExec} (h : e.In base ph)
    (hnext : (ph.next call).isSome = true) (hcalls : e'.calls = e.calls ++ [call]) :
    e'.InOrder base := by
  obtain ⟨ph', hph'⟩ := Option.isSome_iff_exists.mp hnext
  obtain ⟨more, heq, hphase⟩ := h
  refine ⟨ph', more ++ [call], ?_, ?_⟩
  · rw [hcalls, heq, List.append_assoc]
  · rw [callPhase_concat, hphase]
    exact hph'

/-- **The end of the buffer.** -/
theorem flush_keeps (h : e.Sound base) : e.marks ≤ 1 ∧ e.flush.InOrder base := by
  have hsome := h.isSome
  have hnone : e.markSet = {} → e.marks ≤ 1 ∧ e.flush.InOrder base := by
    intro hm
    obtain ⟨hmarks, hflush⟩ := flush_unmarked hm
    rw [hmarks, hflush]
    exact ⟨Nat.zero_le 1, hsome⟩
  have hbody : ∀ ph, e.In base ph → (∀ data, (ph.next (.body data)).isSome = true) →
      e.markSet = {} ∨ e.markSet = { body := true } →
      e.marks ≤ 1 ∧ e.flush.InOrder base := by
    intro ph hin hnext hm
    rcases hm with hm | hm
    · exact hnone hm
    · obtain ⟨hmarks, data, hcalls⟩ := (flush_marked hm).2.2.2.1 rfl
      exact ⟨hmarks.le, In.concat hin (hnext data) hcalls⟩
  obtain ⟨-, h⟩ := h
  cases hk : e.state.kind <;> rw [hk] at h
  case start | startRes | fieldStart | valueSpace | valueStart | valueEnd | headersDone
      | messageDone =>
    exact hnone h.2
  case startLine | lineEnd | chunkStart | chunkSize | chunkDone => exact hnone h.2.1
  case url =>
    obtain ⟨hmarks, url, hcalls⟩ := (flush_marked h.2.1).2.2.1 rfl
    exact ⟨hmarks.le, In.concat h.1 rfl hcalls⟩
  case status =>
    obtain ⟨hmarks, code, hcalls⟩ := (flush_marked h.2.1).2.2.2.2 rfl
    exact ⟨hmarks.le, In.concat h.1 rfl hcalls⟩
  case field =>
    obtain ⟨hmarks, name, hcalls⟩ := (flush_marked h.2.1).1 rfl
    refine ⟨hmarks.le, ?_⟩
    have hline : e.AtLine base := h.1
    rw [AtLine] at hline
    split_ifs at hline
    · exact hline.elim (In.concat · rfl hcalls) (In.concat · rfl hcalls)
    · exact hline.elim (In.concat · rfl hcalls) (In.concat · rfl hcalls)
  case value =>
    obtain ⟨hmarks, value, hcalls⟩ := (flush_marked h.2.1).2.1 rfl
    refine ⟨hmarks.le, ?_⟩
    have hline : e.AtName base ∨ e.AtValue base := h.1
    rw [AtName, AtValue] at hline
    split_ifs at hline
    · exact hline.elim (In.concat · rfl hcalls) (In.concat · rfl hcalls)
    · exact hline.elim (In.concat · rfl hcalls) (In.concat · rfl hcalls)
  case chunkData => exact hbody _ h.1 (fun _ => rfl) h.2.1
  case chunkAlmostDone => exact hbody _ h.1 (fun _ => rfl) (Or.inr h.2.1)
  case bodyIdentity => exact hbody _ h.1 (fun _ => rfl) h.2.1
  case bodyEof => exact hbody _ h.1 (fun _ => rfl) h.2

end HttpExec

/-- What a run leaves: calls in order behind those there were, and all bytes consumed unless there
is an error or an upgrade. -/
def HttpEnd.Safe (base : List HttpCallback) (len : ℕ) (run : HttpEnd) : Prop :=
  ∃ e n, run = some (e, n) ∧ e.InOrder base ∧ n ≤ len ∧
    (e.httpErrno = .ok → n = len ∨ e.upgrade = true)

theorem httpParserLoop_keeps {base : List HttpCallback} {len skip : ℕ} {e : HttpExec} {p : Bytes}
    (h : e.Sound base) : (httpParserLoop len skip e p).Safe base len := by
  induction p generalizing skip e with
  | nil =>
    obtain ⟨hmarks, hcalls⟩ := HttpExec.flush_keeps h
    have hrun : httpParserLoop len skip e [] = some (e.flush, len) := by
      cases skip <;> simp [httpParserLoop, hmarks]
    exact ⟨e.flush, len, hrun, hcalls, le_rfl, fun _ => Or.inl rfl⟩
  | cons ch rest ih =>
    cases skip with
    | succ skip => exact ih h
    | zero =>
      have hturn : (e.turn (ch :: rest) ch len).Keeps base (ch :: rest) :=
        HttpExec.turn_keeps (List.cons_ne_nil ch rest) h
      rw [httpParserLoop]
      split
      · next e' q heq =>
        rw [heq] at hturn
        exact ih hturn.1
      · next e' q heq =>
        rw [heq] at hturn
        exact ⟨e', len - q.length, rfl, hturn.1, Nat.sub_le _ _, fun hok =>
          Or.inr (hturn.2.2 hok)⟩
      · next heq =>
        rw [heq] at hturn
        exact hturn.elim

/-- **The parser on any input.** No assertion fails; the calls come in the order of the parts of a
message; and a run without an error consumes all bytes, or it stops at an upgrade. -/
theorem httpParserExecute_safe (data : Bytes) : ∃ e n, httpParserExecute data = some (e, n) ∧
    (callPhase e.calls).isSome = true ∧ n ≤ data.length ∧
      (e.httpErrno = .ok → n = data.length ∨ e.upgrade = true) := by
  have hstart : ({} : HttpExec).Sound [] :=
    HttpExec.Sound.of (k := .start) (Nat.zero_le _) rfl ⟨⟨[], rfl, rfl⟩, rfl⟩
  obtain ⟨e, n, hrun, ⟨ph, more, hcalls, hphase⟩, hle, hok⟩ := httpParserLoop_keeps hstart
  refine ⟨e, n, hrun, ?_, hle, hok⟩
  rw [hcalls, List.nil_append, hphase]
  rfl

end Kimserver
