import Kimserver.Codec.HttpParserLines
import Kimserver.Codec.HttpParserStart
import Kimserver.Codec.UrlGrammar

/-!
# The HTTP parser on a printed text

The parser of the source takes the place of the one that the codec is verified with. It reads each
text that `CodecHttp::encode` prints if the parts of the text are as the grammar of the parser asks
for, and reports them; it refuses all other texts.

A request without a target is left out, as the parser finds a version 0.9 in it, and so is a head
of `2 ^ 31` bytes, where the counter of the parser may wrap around.

## Main definitions

* `sourceLib`: the parser and `http_parser_parse_url`
* `sourceGrammar`: the targets and the values that the parser takes

## Main results

* `HttpExec.passes_front`: the head of a text
* `sourceLib_parsesText`: what the codec asks of the parser
-/

namespace Kimserver

/-! ## The code of the source -/

theorem parseUrlChar_zero (s : ParserState) : parseUrlChar s 0 = .dead := by
  cases s <;> decide

/-- A url with a NUL is not parsed. -/
theorem scanUrl_noNul {pos : ℕ} {url : Bytes} {scan scan' : UrlScan}
    (h : scanUrl pos url scan = some scan') : (0 : UInt8) ∉ url := by
  induction url generalizing pos scan with
  | nil => exact List.not_mem_nil
  | cons ch url ih =>
    obtain ⟨mid, hmid, hrest⟩ := Option.bind_eq_some_iff.mp h
    intro hmem
    rcases List.mem_cons.mp hmem with rfl | hmem
    · rw [UrlScan.next, parseUrlChar_zero] at hmid
      cases hmid
    · exact ih hrest hmem

theorem httpParserParseUrl_noNul {url : Bytes} {isConnect : Bool} {u : HttpParserUrl}
    (h : httpParserParseUrl url isConnect = some u) : (0 : UInt8) ∉ url := by
  rw [httpParserParseUrl] at h
  split_ifs at h
  obtain ⟨scan, hscan, -⟩ := Option.bind_eq_some_iff.mp h
  exact scanUrl_noNul hscan

/-- A run as the codec sees it. -/
def HttpEnd.execution : HttpEnd → Execution
  | some (e, n) => ⟨e.calls, n, e.httpErrno = .ok⟩
  | none => ⟨[], 0, false⟩

/-- The path and the query that `http_parser_parse_url` finds. -/
def HttpParserUrl.parsed (u : HttpParserUrl) (url : Bytes) : ParsedUrl where
  path := (u.fieldData .path).map (field url)
  query := (u.fieldData .query).map (field url)

/-- `http_parser` with some decompression and some `atof`. -/
def sourceLib (ungzip : Bytes → Option Bytes) (atof : Bytes → Double) : HttpLib where
  execute data := (httpParserExecute data).execution
  parseUrl url := (httpParserParseUrl url false).map (·.parsed url)
  ungzip := ungzip
  atof := atof
  path_noNul := by
    intro url parsed path hparse hpath hmem
    obtain ⟨u, hu, rfl⟩ := Option.map_eq_some_iff.mp hparse
    obtain ⟨at_, -, rfl⟩ := Option.map_eq_some_iff.mp hpath
    exact httpParserParseUrl_noNul hu (List.mem_of_mem_drop (List.mem_of_mem_take hmem))

/-! ## The grammar -/

section Grammar

variable {s : ParserState} {scan scan' : UrlScan} {ch : UInt8} {url value : Bytes} {pos : ℕ}

theorem parseUrlChar_endsUrl (hs : s.endsUrl = true ∨ s = .reqServerStart) :
    parseUrlChar s ch = .dead ∨ (parseUrlChar s ch).endsUrl = true := by
  rcases hs with hs | rfl
  · cases s <;> cases hs <;> simp only [parseUrlChar, serverChar] <;> split_ifs <;>
      simp [ParserState.endsUrl]
  · simp only [parseUrlChar, serverChar]
    split_ifs <;> simp [ParserState.endsUrl]

/-- Where the loop over an url stands: in front of it, in its schema, or in a state in which it may
end. -/
def UrlScan.OnWay (scan : UrlScan) : Prop :=
  (scan.s = .reqSpacesBeforeUrl ∧ scan.oldUf = none ∧ scan.fields .host = none) ∨
  (scan.s ∈ [ParserState.reqSchema, .reqSchemaSlash, .reqSchemaSlashSlash, .reqServerStart] ∧
    (scan.fields .schema).isSome = true ∧ scan.fields .host = none) ∨
  scan.s.endsUrl = true

theorem UrlScan.next_state (hnext : scan.next pos ch = some scan') :
    scan'.s = parseUrlChar scan.s ch := by
  rw [UrlScan.next] at hnext
  dsimp only at hnext
  split at hnext
  · cases hnext
  · rw [← Option.some.inj hnext]
  · split_ifs at hnext <;> rw [← Option.some.inj hnext]

/-- A character of a schema. -/
theorem UrlScan.next_schema (hs : parseUrlChar scan.s ch = .reqSchema)
    (hold : scan.oldUf = some .schema → (scan.fields .schema).isSome = true)
    (hhost : scan.fields .host = none) (hnext : scan.next pos ch = some scan') :
    scan'.OnWay := by
  simp only [UrlScan.next, hs, urlChar] at hnext
  split_ifs at hnext with hsame
  · rw [← Option.some.inj hnext]
    have hsome := hold hsame
    refine Or.inr (Or.inl ⟨by simp, ?_, ?_⟩)
    · simpa [FieldData.grow] using hsome
    · simpa [FieldData.grow] using hhost
  · rw [← Option.some.inj hnext]
    refine Or.inr (Or.inl ⟨by simp, ?_, ?_⟩)
    · simp [FieldData.begin_]
    · simpa [FieldData.begin_] using hhost

theorem UrlScan.next_onWay (h : scan.OnWay) (hnext : scan.next pos ch = some scan') :
    scan'.OnWay := by
  have hstate := UrlScan.next_state hnext
  have hlive : parseUrlChar scan.s ch ≠ .dead := by
    intro hdead
    rw [UrlScan.next, hdead] at hnext
    cases hnext
  have hdelimiter : urlChar (parseUrlChar scan.s ch) = .delimiter →
      scan'.fields = scan.fields := by
    intro hchar
    simp only [UrlScan.next, hchar] at hnext
    rw [← Option.some.inj hnext]
  have hended : scan.s.endsUrl = true ∨ scan.s = .reqServerStart → scan'.OnWay := by
    intro hs
    refine Or.inr (Or.inr ?_)
    rw [hstate]
    exact (parseUrlChar_endsUrl hs).resolve_left hlive
  rcases h with ⟨hs, hold, hhost⟩ | ⟨hs, hschema, hhost⟩ | hs
  · have hcases : parseUrlChar scan.s ch = .reqSchema ∨ parseUrlChar scan.s ch = .reqPath := by
      rw [hs] at hlive ⊢
      simp only [parseUrlChar] at hlive ⊢
      split_ifs at hlive ⊢ <;> simp at hlive ⊢
    rcases hcases with hnew | hnew
    · exact UrlScan.next_schema hnew (fun hsome => by rw [hold] at hsome; cases hsome) hhost hnext
    · refine Or.inr (Or.inr ?_)
      rw [hstate, hnew]
      rfl
  · have hcases : scan.s = .reqServerStart ∨ parseUrlChar scan.s ch = .reqSchema ∨
        parseUrlChar scan.s ch ∈ [ParserState.reqSchemaSlash, .reqSchemaSlashSlash,
          .reqServerStart] := by
      simp only [List.mem_cons, List.not_mem_nil, or_false] at hs
      rcases hs with hs | hs | hs | hs
      all_goals
        rw [hs] at hlive ⊢
        simp only [parseUrlChar] at hlive ⊢
      all_goals split_ifs at hlive ⊢ <;> simp at hlive ⊢
    rcases hcases with hs | hnew | hnew
    · exact hended (Or.inr hs)
    · exact UrlScan.next_schema hnew (fun _ => hschema) hhost hnext
    · have hfields : scan'.fields = scan.fields := by
        apply hdelimiter
        simp only [List.mem_cons, List.not_mem_nil, or_false] at hnew
        rcases hnew with hnew | hnew | hnew <;> rw [hnew] <;> rfl
      refine Or.inr (Or.inl ⟨?_, ?_, ?_⟩)
      · rw [hstate]
        exact List.mem_cons_of_mem _ hnew
      · rw [hfields]
        exact hschema
      · rw [hfields]
        exact hhost
  · exact hended (Or.inl hs)

theorem scanUrl_onWay (h : scan.OnWay) (hscan : scanUrl pos url scan = some scan') :
    scan'.OnWay ∧ scan'.s = url.foldl parseUrlChar scan.s := by
  induction url generalizing pos scan with
  | nil =>
    obtain rfl := Option.some.inj hscan
    exact ⟨h, rfl⟩
  | cons ch url ih =>
    obtain ⟨mid, hmid, hrest⟩ := Option.bind_eq_some_iff.mp hscan
    obtain ⟨hway, hstate⟩ := ih (UrlScan.next_onWay h hmid) hrest
    refine ⟨hway, hstate.trans ?_⟩
    rw [UrlScan.next_state hmid, List.foldl_cons]

/-- **A url that is parsed** is a target. -/
theorem isTarget_of_parsed (h : (httpParserParseUrl url false).isSome = true) :
    IsTarget false url := by
  obtain ⟨u, hu⟩ := Option.isSome_iff_exists.mp h
  rw [httpParserParseUrl] at hu
  split_ifs at hu with hlen
  obtain ⟨scan, hscan, hrest⟩ := Option.bind_eq_some_iff.mp hu
  split_ifs at hrest with hschema
  have hne : url ≠ [] := fun hnil => hlen (congrArg List.length hnil)
  refine ⟨hne, ?_⟩
  obtain ⟨hway, hstate⟩ := scanUrl_onWay (Or.inl ⟨rfl, rfl, rfl⟩) hscan
  rcases hway with ⟨hs, -⟩ | ⟨-, hsome, hnone⟩ | hs
  · obtain ⟨front, last, rfl⟩ := (List.eq_nil_or_concat url).resolve_left hne
    rw [List.concat_eq_append, List.foldl_append, List.foldl_cons, List.foldl_nil] at hstate
    change scan.s = parseUrlChar (front.foldl parseUrlChar (urlStart false)) last at hstate
    rcases parseUrlChar_kind (front.foldl parseUrlChar (urlStart false)) last with hk | hk
    · rw [hstate] at hs
      exact ParserState.noConfusion (hk.symm.trans hs)
    · rw [← hstate, hs] at hk
      exact StateKind.noConfusion hk
  · exact absurd (by rw [hsome, hnone]; rfl) hschema
  · exact hstate ▸ hs

theorem acceptsValue_of_visible {h : HeaderState × ℕ} (hvalue : ∀ c ∈ value, 32 ≤ c ∧ c ≠ 127) :
    acceptsValue h value = true := by
  induction value generalizing h with
  | nil => rfl
  | cons ch value ih =>
    obtain ⟨hlow, hdel⟩ := hvalue ch List.mem_cons_self
    have hheader : isHeaderChar ch = true := by
      have hlt : 31 < ch := lt_of_lt_of_le (by decide) hlow
      simp [isHeaderChar, hlt, hdel]
    rw [acceptsValue, hheader, ih fun c hc => hvalue c (List.mem_cons_of_mem _ hc), Bool.or_true]
    rfl

/-- A value of visible characters is taken. -/
theorem isValue_of_visible {h : HeaderState} (hvalue : ∀ c ∈ value, 32 ≤ c ∧ c ≠ 127) :
    isValue h value = true := by
  rw [isValue]
  split
  · rfl
  · next ch rest hskip =>
    apply acceptsValue_of_visible
    intro c hc
    have hmem : c ∈ skipBlanks value := hskip ▸ List.mem_cons_of_mem ch hc
    exact hvalue c ((List.dropWhile_sublist isBlank).subset hmem)

end Grammar

/-- What `http_parser` takes. -/
def sourceGrammar (ungzip : Bytes → Option Bytes) (atof : Bytes → Double) :
    HttpGrammar (sourceLib ungzip atof) where
  Target method url := IsTarget (method = httpConnect) url
  Value name value := isValue ((nameState name).getD .general) value = true
  target_of_parsed := by
    intro method url hmethod hparsed
    rw [decide_eq_false hmethod]
    exact isTarget_of_parsed (by simpa [sourceLib] using hparsed)
  value_of_visible := fun _ _ hvalue => isValue_of_visible hvalue

/-! ## Texts -/

/-- The start lines whose numbers are those of the members of a message, without those that
`encode` does not print. -/
def StartLine.Printable : StartLine → Prop
  | .request method target major minor =>
    CInt.InRange method ∧ CInt.InRange major ∧ CInt.InRange minor ∧ target ≠ []
  | .response major minor code =>
    CInt.InRange major ∧ CInt.InRange minor ∧ CInt.InRange code ∧ code ≠ 0

/-- A text that `encode` may print. -/
structure HttpText.Printable (t : HttpText) : Prop extends t.Clean where
  start : t.start.Printable
  head : t.head.length < 2147483640

namespace HttpExec

/-! ## The end of a head -/

section End

variable {base e : HttpExec} {calls : List HttpCallback} {n len : ℕ} {body p rest : Bytes}

/-- The flags at the end of a head with a length and without the other headers that the parser
knows. -/
structure Identity (e : HttpExec) : Prop where
  trailing : e.flags.trailing = false
  chunked : e.flags.chunked = false
  upgrade : e.flags.upgrade = false
  skipBody : e.flags.skipBody = false
  length : e.contentLength < 4294967296

/-- Behind `on_headers_complete`. -/
def opened (e : HttpExec) : HttpExec :=
  { e.notify .headersComplete with
    state := .headersDone, nread := 0, upgrade := decide (e.method = 5) }

/-- Behind a message. -/
def ended (e : HttpExec) : HttpExec := (e.goTo e.newMessage).notifyComplete

/-- **The end of the headers**: the message ends, or its body begins. -/
theorem headersAlmostDone_eq (h : e.Identity) : e.headersAlmostDone p 10 =
    if e.method = 5 then .return_ e.opened.ended p.tail
    else if e.contentLength = 0 then .goOn e.opened.ended p
    else .goOn (e.opened.goTo .bodyIdentity) p := by
  obtain ⟨htrailing, hchunked, hupgrade, hskip, hlength⟩ := h
  have hmax : e.contentLength ≠ ullongMax := by
    simp only [ullongMax]
    omega
  have hasks : e.asksUpgrade = decide (e.method = 5) := by
    simp only [asksUpgrade, hupgrade, Bool.false_and, Bool.false_eq_true, if_false]
  have hten : ¬ (10 : UInt8) ≠ 10 := fun h => h rfl
  simp only [headersAlmostDone, if_neg hten, htrailing, hchunked, Bool.false_and,
    Bool.false_eq_true, if_false, hasks, headersDone, notify, hskip]
  by_cases hconnect : e.method = 5
  · simp only [hconnect, decide_true, Bool.true_and, Bool.true_or, if_true]
    simp only [opened, ended, notify, hconnect, decide_true]
  · simp only [hconnect, decide_false, Bool.false_and, Bool.false_eq_true, if_false]
    split_ifs with hzero <;> simp only [opened, ended, notify, hconnect, decide_false]

/-- **A body with a length.** -/
theorem loop_bodyIdentity (hs : e.state = .bodyIdentity) (hmark : e.bodyMark = none)
    (hpos : 0 < e.contentLength) (hmax : e.contentLength < ullongMax)
    (hle : e.contentLength ≤ body.length) (hupgrade : e.upgrade = false) :
    httpParserLoop len 0 e body = httpParserLoop len 0
      (({ e with contentLength := 0 } : HttpExec).notify
        (.body (body.take e.contentLength))).ended (body.drop e.contentLength) := by
  obtain ⟨ch, rest, rfl⟩ := List.exists_cons_of_ne_nil
    (List.ne_nil_of_length_pos (hpos.trans_le hle))
  set p := ch :: rest with hp
  have hlast : p.drop (e.contentLength - 1) ≠ [] := by
    rw [Ne, List.drop_eq_nil_iff]
    omega
  have htail : (p.drop (e.contentLength - 1)).tail = p.drop e.contentLength := by
    rw [List.tail_drop, Nat.sub_add_cancel hpos]
  have hbetween : between p (p.drop e.contentLength) = p.take e.contentLength := by
    rw [between, List.length_drop, Nat.sub_sub_self hle]
  have hturn : e.turn p ch len = .goOn (({ e with contentLength := 0 } : HttpExec).notify
      (.body (p.take e.contentLength))).ended (p.drop (e.contentLength - 1)) := by
    have hheader : e.state.parsingHeader = false := by
      rw [hs]
      rfl
    have hif : ¬ (e.contentLength = 0 || e.contentLength = ullongMax) = true := by
      simp only [Bool.or_eq_true, decide_eq_true_eq, not_or]
      omega
    have hset : (none <|> some p) = some p := rfl
    rw [turn, hheader]
    simp only [Bool.false_eq_true, if_false, switch, hs, bodyIdentity, if_neg hif, hmark, hset,
      Nat.min_eq_left hle, Nat.sub_self, if_true, htail, dataBody, goTo, hbetween, messageDone,
      notifyComplete, notify, hupgrade, ended]
    rfl
  rw [← htail]
  exact loop_goOn hturn (List.drop_suffix _ _) hlast

/-- The members of a parser at the end of a message. -/
def endFields (e : HttpExec) (keeps : Bool) : ParserFields :=
  ⟨e.statusCode, e.method, e.httpMajor, e.httpMinor, keeps⟩

theorem ended_calls : ∃ keeps, e.ended.calls = e.calls ++ [.messageComplete (e.endFields keeps)] :=
  ⟨_, rfl⟩

/-- Behind a message the next one may begin. -/
theorem ended_sound (hmarks : e.markSet = {}) (hlength : e.contentLength ≤ ullongMax) :
    e.ended.Sound e.ended.calls := by
  have hin : e.ended.In e.ended.calls .idle := ⟨[], (List.append_nil _).symm, rfl⟩
  have hstate : e.ended.state = .startReq ∨ e.ended.state = .startRes ∨ e.ended.state = .dead := by
    change e.newMessage = _ ∨ e.newMessage = _ ∨ e.newMessage = _
    rw [HttpParser.newMessage, HttpParser.startState]
    split_ifs <;> simp
  rcases hstate with hs | hs | hs
  · exact Sound.of (k := .start) hlength (by rw [hs]; rfl) ⟨hin, hmarks⟩
  · exact Sound.of (k := .startRes) hlength (by rw [hs]; rfl) ⟨Or.inl hin, hmarks⟩
  · exact Sound.of (k := .start) hlength (by rw [hs]; rfl) ⟨hin, hmarks⟩

/-- The `'\r'` of the line that ends the head. -/
theorem passes_blankLine (hline : AtLines base calls n e) (hbase : base.markSet = {})
    (hn : n ≤ httpMaxHeaderSize) :
    Passes len e [13] rest (n + 1 ≤ httpMaxHeaderSize) (fun e₁ => e₁.state = .headersAlmostDone ∧
      e₁.core = base ∧ e₁.nread = n + 1 ∧ e₁.calls = calls) := by
  obtain ⟨e₀, -, hcore, hnread, hcalls, hswitch⟩ :=
    hline.switch (unmarked hbase).2 (show isBlank 13 = false from rfl)
  have hpost : ((e₀.counted 1).goTo .headersAlmostDone).nread = n + 1 := congrArg (· + 1) hnread
  rw [← hline.nread]
  refine passes_byte hline.parsingHeader (hline.nread ▸ hn) (hswitch _ _) ?_
  exact ⟨rfl, hcore, by rw [hline.nread, hpost], hcalls⟩

theorem switch_headersAlmostDone (hs : e.state = .headersAlmostDone) (h : e.Identity) :
    (e.counted 1).switch p 10 len =
      if e.method = 5 then .return_ e.opened.ended p.tail
      else if e.contentLength = 0 then .goOn e.opened.ended p
      else .goOn (e.opened.goTo .bodyIdentity) p := by
  rw [HttpExec.switch, show (e.counted 1).state = .headersAlmostDone from hs]
  exact headersAlmostDone_eq (e := e.counted 1) ⟨h.trailing, h.chunked, h.upgrade, h.skipBody,
    h.length⟩

/-- **The end of a request to connect**: the rest is not read. -/
theorem loop_connect (hs : e.state = .headersAlmostDone) (h : e.Identity)
    (hconnect : e.method = 5) (hn : e.nread < httpMaxHeaderSize) :
    httpParserLoop len 0 e (10 :: body) = some (e.opened.ended, len - body.length) := by
  have hheader : e.state.parsingHeader = true := by
    rw [hs]
    rfl
  refine loop_return ((turn_header hheader hn).trans ?_)
  rw [switch_headersAlmostDone hs h, if_pos hconnect]
  rfl

/-- What a message with a body of some length leaves. -/
structure Closed (e : HttpExec) (body : Bytes) (e' : HttpExec) : Prop where
  errno : e'.httpErrno = e.httpErrno
  marks : e'.markSet = {}
  sound : e'.Sound e'.calls
  calls : ∃ keeps, e'.calls = e.calls ++ .headersComplete ::
    ((HttpBody.identity (body.take e.contentLength)).calls ++
      [.messageComplete (e.endFields keeps)])

/-- **The end of another message.** -/
theorem loop_message (hs : e.state = .headersAlmostDone) (h : e.Identity) (hmarks : e.markSet = {})
    (hconnect : e.method ≠ 5) (hn : e.nread < httpMaxHeaderSize)
    (hle : e.contentLength ≤ body.length) : ∃ e', e.Closed body e' ∧
      httpParserLoop len 0 e (10 :: body) =
        httpParserLoop len 0 e' (body.drop e.contentLength) := by
  have hheader : e.state.parsingHeader = true := by
    rw [hs]
    rfl
  have hturn : e.turn (10 :: body) 10 len = (e.counted 1).switch (10 :: body) 10 len :=
    turn_header hheader hn
  rw [switch_headersAlmostDone hs h, if_neg hconnect] at hturn
  have hlength := h.length
  have hmax : e.contentLength < ullongMax := by
    simp only [ullongMax]
    omega
  by_cases hzero : e.contentLength = 0
  · rw [if_pos hzero] at hturn
    refine ⟨e.opened.ended, ⟨rfl, hmarks, ended_sound hmarks hmax.le, ?_⟩, ?_⟩
    · obtain ⟨keeps, hcalls⟩ := ended_calls (e := e.opened)
      refine ⟨keeps, hcalls.trans ?_⟩
      rw [hzero]
      simp [HttpBody.calls, opened, notify, endFields]
    · rw [hzero, List.drop_zero]
      exact loop_goOn hturn (List.suffix_refl _) (List.cons_ne_nil _ _)
  · rw [if_neg hzero] at hturn
    have hstart := loop_goOn hturn (List.suffix_refl _) (List.cons_ne_nil _ _)
    have hbodyMark : e.bodyMark = none := by
      simp only [markSet, MarkSet.mk.injEq, Option.isSome_eq_false_iff,
        Option.isNone_iff_eq_none] at hmarks
      exact hmarks.2.2.2.1
    have hupgrade : (e.opened.goTo .bodyIdentity).upgrade = false := decide_eq_false hconnect
    let last : HttpExec := ({ e.opened.goTo .bodyIdentity with contentLength := 0 } :
      HttpExec).notify (.body (body.take e.contentLength))
    have hsound : last.ended.Sound last.ended.calls := ended_sound hmarks (Nat.zero_le _)
    have hstate : (e.opened.goTo .bodyIdentity).state = .bodyIdentity := rfl
    refine ⟨last.ended, ⟨rfl, hmarks, hsound, ?_⟩, hstart.trans (loop_bodyIdentity hstate hbodyMark
      (Nat.pos_of_ne_zero hzero) hmax hle hupgrade)⟩
    obtain ⟨keeps, hcalls⟩ := ended_calls (e := last)
    refine ⟨keeps, hcalls.trans ?_⟩
    have hne : body.take e.contentLength ≠ [] := by
      rw [Ne, List.take_eq_nil_iff]
      rintro (hnil | hnil)
      · exact hzero hnil
      · rw [hnil] at hle
        exact hzero (Nat.le_zero.mp hle)
    simp [HttpBody.calls, last, opened, notify, endFields, goTo, hne]

end End

/-! ## The head -/

section Head

variable {base e : HttpExec} {calls : List HttpCallback} {n len : ℕ} {rest : Bytes}
  {headers : List (Bytes × Bytes)}

/-- The names that are printed. -/
theorem nameState_printed : ∀ name ∈ [text "Host", text "Allow", text "Server",
    text "Connection"], cStr name = name ∧
      (nameState name = some .general ∨ nameState name = some .connection) := by
  decide +kernel

theorem inMessage_line (line : HeaderLine) (hline : line.folded = []) :
    inMessage (calls ++ line.calls) = inMessage calls := by
  rw [HeaderLine.calls, hline, inMessage, List.foldl_append]
  rfl

/-- **The header lines.** -/
theorem passes_headers (hline : AtLines base calls n e) (hbase : base.markSet = {})
    (hnames : ∀ x ∈ headers, x.1 ∈ [text "Host", text "Allow", text "Server", text "Connection"])
    (hvalues : ∀ x ∈ headers, ∀ c ∈ x.2, c ≠ 0 ∧ c ≠ 10 ∧ c ≠ 13)
    (hcalls : inMessage calls = true) (hn : n ≤ httpMaxHeaderSize)
    (hlen : (headers.flatMap headerLine).length < 2147483640) :
    Passes len e (headers.flatMap headerLine) rest
      ((∀ x ∈ headers, isValue ((nameState x.1).getD .general) x.2 = true) ∧
        n + (headers.flatMap headerLine).length ≤ httpMaxHeaderSize)
      (AtLines base (calls ++ headers.flatMap fun x =>
          (HeaderLine.mk x.1 (skipBlanks x.2) []).calls)
        (n + (headers.flatMap headerLine).length)) := by
  induction headers generalizing e calls n with
  | nil =>
    refine Or.inl ⟨⟨fun x hx => absurd hx List.not_mem_nil, hn⟩, e, ?_, rfl⟩
    rwa [List.flatMap_nil, List.append_nil]
  | cons x headers ih =>
    obtain ⟨hname, hknown⟩ := nameState_printed x.1 (hnames x List.mem_cons_self)
    obtain ⟨h, hh, hstate⟩ : ∃ h, (h = .general ∨ h = .connection) ∧ nameState x.1 = some h := by
      rcases hknown with hknown | hknown
      · exact ⟨_, Or.inl rfl, hknown⟩
      · exact ⟨_, Or.inr rfl, hknown⟩
    have hvalue := hvalues x List.mem_cons_self
    have hplain : cStr x.2 = x.2 := cStr_eq_self fun c hc => (hvalue c hc).1
    have hprinted : headerLine x = x.1 ++ text ": " ++ x.2 ++ crlf := by
      rw [headerLine, hname, hplain]
    have hlength : (headerLine x).length = x.1.length + x.2.length + 4 := by
      have htwo : (text ": ").length = 2 ∧ crlf.length = 2 := ⟨rfl, rfl⟩
      simp only [hprinted, List.length_append, htwo]
      omega
    rw [List.flatMap_cons, List.length_append, hlength] at hlen
    have hfirst : Passes len e (headerLine x) (headers.flatMap headerLine ++ rest)
        (isValue h x.2 = true ∧ n + (x.1.length + x.2.length + 4) ≤ httpMaxHeaderSize)
        (AtLines base (calls ++ (HeaderLine.mk x.1 (skipBlanks x.2) []).calls)
          (n + (x.1.length + x.2.length + 4))) := by
      rw [hprinted]
      exact passes_headerLine hline hbase hstate hh (fun c hc => (hvalue c hc).2.symm) hcalls hn
        (by omega)
    have hin : inMessage (calls ++ (HeaderLine.mk x.1 (skipBlanks x.2) []).calls) = true := by
      rw [inMessage_line _ rfl]
      exact hcalls
    rw [List.flatMap_cons, List.flatMap_cons, List.length_append, hlength]
    refine ((hfirst.append fun hok e₁ hline₁ => ih hline₁
      (fun y hy => hnames y (List.mem_cons_of_mem _ hy))
      (fun y hy => hvalues y (List.mem_cons_of_mem _ hy)) hin hok.2 (by omega)).congr ?_).mono
        fun _ e₂ he₂ => ?_
    · rw [List.forall_mem_cons, hstate, Option.getD_some]
      constructor
      · rintro ⟨⟨hok, -⟩, hrest, hle⟩
        exact ⟨⟨hok, hrest⟩, by omega⟩
      · rintro ⟨⟨hok, hrest⟩, hle⟩
        exact ⟨⟨hok, by omega⟩, hrest, by omega⟩
    · rwa [List.append_assoc, Nat.add_assoc] at he₂

end Head

/-! ## The text -/

section Text

variable {len : ℕ} {rest : Bytes} {t : HttpText} {ungzip : Bytes → Option Bytes}
  {atof : Bytes → Double}

/-- Behind a start line. -/
def behindStart : StartLine → HttpExec
  | .request method target major minor =>
    requestLine method.toNat target major.toNat minor.toNat
      (StartLine.request method target major minor).bytes.length
  | .response major minor code =>
    responseLine major.toNat minor.toNat code.toNat (StartLine.response major minor code).bytes.length

/-- **The start line.** -/
theorem passes_start {start : StartLine} (h : start.Printable)
    (htarget : ∀ c ∈ start.target, 32 < c ∧ c ≠ 127) :
    Passes len {} start.bytes rest (start.Valid (sourceGrammar ungzip atof) ∧
        start.bytes.length ≤ httpMaxHeaderSize)
      (AtLines (behindStart start).core [.messageBegin, start.call] start.bytes.length) := by
  cases start with
  | request method target major minor =>
    obtain ⟨hmethod, hmajor, hminor, hne⟩ := h
    refine (passes_requestLine hmethod hmajor hminor hne fun c hc => (htarget c hc).1).mono ?_
    rintro - _ rfl
    exact ⟨rfl, rfl, Or.inl ⟨rfl, rfl⟩⟩
  | response major minor code =>
    obtain ⟨hmajor, hminor, hcode, hne⟩ := h
    refine ((passes_responseLine hmajor hminor hcode).congr ?_).mono ?_
    · rw [StartLine.Valid]
      constructor
      · rintro ⟨⟨hma, hmi, hlow, hhigh⟩, hle⟩
        exact ⟨⟨hma, hmi, by omega, hhigh⟩, hle⟩
      · rintro ⟨⟨hma, hmi, hlow, hhigh⟩, hle⟩
        exact ⟨⟨hma, hmi, hlow.le, hhigh⟩, hle⟩
    · rintro ⟨⟨-, -, hlow, -⟩, -⟩ _ rfl
      have hcall : (StartLine.response major minor code).call = .status code.toNat := by
        rw [StartLine.call, Int.toNat_of_nonneg hlow.le]
      rw [hcall]
      exact ⟨rfl, rfl, Or.inl ⟨rfl, rfl⟩⟩

theorem unmarked_start (start : StartLine) : (behindStart start).core.markSet = {} := by
  cases start <;> rfl

theorem noLength_start (start : StartLine) :
    (behindStart start).core.flags.contentLength = false := by
  cases start <;> rfl

/-- A head without its last byte. -/
def front (t : HttpText) : Bytes :=
  t.start.bytes ++ (t.headers.flatMap headerLine ++
    (text "Content-Length: " ++ sizeText t.body.length ++ crlf ++ [13]))

theorem raw_eq (t : HttpText) : t.raw = front t ++ 10 :: t.body := by
  simp only [HttpText.raw, HttpText.head, lengthLine, front, crlf, List.append_assoc,
    List.cons_append, List.nil_append]

theorem length_front (t : HttpText) : (front t).length + 1 = t.head.length := by
  have hlen := congrArg List.length (raw_eq t)
  rw [HttpText.raw, List.length_append, List.length_append, List.length_cons] at hlen
  omega

/-- The calls in front of the end of the headers. -/
def frontCalls (t : HttpText) : List HttpCallback :=
  .messageBegin :: t.start.call :: t.lines.flatMap HeaderLine.calls

theorem skipBlanks_sizeText (n : ℕ) : skipBlanks (sizeText n) = sizeText n := by
  apply skipBlanks_of_visible
  exact fun c hc => visible_of_isDecimalChar (isDecimalChar_of_mem_natToDecimal hc)

theorem frontCalls_eq (t : HttpText) : frontCalls t =
    [.messageBegin, t.start.call] ++ (t.headers.flatMap fun x =>
        (HeaderLine.mk x.1 (skipBlanks x.2) []).calls) ++
      (HeaderLine.mk (text "Content-Length") (sizeText t.body.length) []).calls := by
  simp only [frontCalls, HttpText.lines, HttpText.entries, List.map_append, List.flatMap_append,
    List.map_cons, List.map_nil, List.flatMap_cons, List.flatMap_nil, List.append_nil,
    skipBlanks_sizeText, List.flatMap_map, List.cons_append, List.nil_append]

theorem inMessage_start (start : StartLine) : inMessage [.messageBegin, start.call] = true := by
  cases start <;> rfl

/-- In front of the last byte of a head. -/
structure AtEnd (t : HttpText) (e : HttpExec) : Prop where
  state : e.state = .headersAlmostDone
  core : e.core = (behindStart t.start).core.withLength (t.body.length % 4294967296)
  nread : e.nread = (front t).length
  calls : e.calls = frontCalls t

/-- **The head of a text.** -/
theorem passes_front (h : t.Printable) :
    Passes len {} (front t) rest ((t.start.Valid (sourceGrammar ungzip atof) ∧
        ∀ x ∈ t.headers, (sourceGrammar ungzip atof).Value x.1 x.2) ∧
          (front t).length ≤ httpMaxHeaderSize) (AtEnd t) := by
  have hbase := unmarked_start t.start
  have hlen := length_front t
  have hhead := h.head
  have hsum : (front t).length = t.start.bytes.length + ((t.headers.flatMap headerLine).length +
      ((sizeText t.body.length).length + 19)) := by
    have htext : (text "Content-Length: ").length = 16 ∧ crlf.length = 2 := by decide
    simp only [front, List.length_append, htext, List.length_singleton]
    omega
  have hstart : ∀ rest, Passes len {} t.start.bytes rest
      (t.start.Valid (sourceGrammar ungzip atof) ∧ t.start.bytes.length ≤ httpMaxHeaderSize)
      (AtLines (behindStart t.start).core [.messageBegin, t.start.call] t.start.bytes.length) :=
    fun rest => passes_start h.start h.target
  have hlengthLine : ∀ {calls n e rest}, AtLines (behindStart t.start).core calls n e →
      n ≤ httpMaxHeaderSize →
      Passes len e (text "Content-Length: " ++ sizeText t.body.length ++ crlf) rest _ _ :=
    fun hline hn => passes_lengthLine hline hbase (noLength_start t.start) hn
  have hblank : ∀ {base calls n e}, AtLines base calls n e → base.markSet = {} →
      n ≤ httpMaxHeaderSize → Passes len e [13] rest _ _ := fun hline hbase hn =>
    passes_blankLine hline hbase hn
  have hall := (hstart _).append fun hok₁ e₁ hline₁ =>
    (passes_headers hline₁ hbase h.names h.values (inMessage_start t.start) hok₁.2
      (by omega)).append fun hok₂ e₂ hline₂ =>
        (hlengthLine hline₂ hok₂.2).append fun hok₃ e₃ hline₃ => hblank hline₃ hbase hok₃
  refine (hall.congr ?_).mono fun _ e₂ he₂ => ?_
  · rw [hsum]
    constructor
    · rintro ⟨⟨hstart, -⟩, ⟨hvalues, -⟩, -, hle⟩
      exact ⟨⟨hstart, hvalues⟩, by omega⟩
    · rintro ⟨⟨hstart, hvalues⟩, hle⟩
      exact ⟨⟨hstart, by omega⟩, ⟨hvalues, by omega⟩, by omega, by omega⟩
  · obtain ⟨hs, hcore, hn, hcalls⟩ := he₂
    refine ⟨hs, hcore, ?_, ?_⟩
    · rw [hn, hsum]
      omega
    · rw [hcalls, frontCalls_eq]

end Text

/-! ## The end of a text -/

section Whole

variable {t : HttpText} {e : HttpExec} {len : ℕ} {ungzip : Bytes → Option Bytes}
  {atof : Bytes → Double}

theorem AtEnd.errno (h : AtEnd t e) : e.httpErrno = .ok := by
  refine (congrArg (fun e : HttpExec => e.httpErrno) h.core).trans ?_
  cases t.start <;> rfl

theorem AtEnd.marks (h : AtEnd t e) : e.markSet = {} := by
  refine (congrArg HttpExec.markSet h.core).trans ?_
  exact unmarked_start t.start

theorem AtEnd.contentLength (h : AtEnd t e) : e.contentLength = t.body.length % 4294967296 :=
  congrArg (fun e : HttpExec => e.contentLength) h.core

theorem AtEnd.identity (h : AtEnd t e) : e.Identity := by
  have hflags := congrArg (fun e : HttpExec => e.flags) h.core
  refine ⟨(congrArg (·.trailing) hflags).trans ?_, (congrArg (·.chunked) hflags).trans ?_,
    (congrArg (·.upgrade) hflags).trans ?_, (congrArg (·.skipBody) hflags).trans ?_, ?_⟩
  · cases t.start <;> rfl
  · cases t.start <;> rfl
  · cases t.start <;> rfl
  · cases t.start <;> rfl
  · rw [h.contentLength]
    exact Nat.mod_lt _ (by norm_num)

theorem AtEnd.method (h : AtEnd t e) : e.method = 5 ↔ t.start.isConnect = true := by
  have hmethod := congrArg (fun e : HttpExec => e.method) h.core
  change e.method = (behindStart t.start).method at hmethod
  rw [hmethod]
  cases t.start with
  | request method target major minor =>
    change method.toNat = 5 ↔ decide (method = httpConnect) = true
    rw [decide_eq_true_eq, httpConnect]
    omega
  | response major minor code =>
    change (0 : ℕ) = 5 ↔ false = true
    decide

/-- The members that are reported at the end. -/
theorem AtEnd.parser (h : AtEnd t e) (hvalid : t.start.Valid (sourceGrammar ungzip atof))
    (keeps : Bool) : e.endFields keeps = t.start.parser keeps := by
  have hfields := congrArg (fun e : HttpExec => e.endFields keeps) h.core
  change e.endFields keeps = (behindStart t.start).endFields keeps at hfields
  rw [hfields]
  cases hstart : t.start with
  | request method target major minor =>
    rw [hstart] at hvalid
    obtain ⟨⟨hmethod, -⟩, -, ⟨hmajor, -⟩, ⟨hminor, -⟩⟩ := hvalid
    simp [endFields, behindStart, requestLine, StartLine.parser, hmethod, hmajor, hminor]
  | response major minor code =>
    rw [hstart] at hvalid
    obtain ⟨⟨hmajor, -⟩, ⟨hminor, -⟩, hcode, -⟩ := hvalid
    simp [endFields, behindStart, responseLine, StartLine.parser, hmajor, hminor, hcode.le]

/-- **Behind a text** that is taken: the run has ended, or it goes on with what the printed length
does not count. -/
theorem loop_text (h : AtEnd t e) (hvalid : t.start.Valid (sourceGrammar ungzip atof))
    (hn : (front t).length < httpMaxHeaderSize) : ∃ e' keeps, e'.httpErrno = .ok ∧
      e'.calls = t.calls keeps ∧ e'.markSet = {} ∧ e'.Sound e'.calls ∧
      ((∃ n, httpParserLoop len 0 e (10 :: t.body) = some (e', n)) ∨
        httpParserLoop len 0 e (10 :: t.body) =
          httpParserLoop len 0 e' (t.body.drop (t.body.length % 4294967296))) := by
  have hread : e.nread < httpMaxHeaderSize := h.nread ▸ hn
  have hcalls : ∀ keeps, t.calls keeps = e.calls ++ .headersComplete ::
      ((HttpBody.identity t.content).calls ++ [.messageComplete (e.endFields keeps)]) := by
    intro keeps
    rw [h.parser hvalid, h.calls]
    rfl
  by_cases hconnect : e.method = 5
  · obtain ⟨keeps, hended⟩ := ended_calls (e := e.opened)
    have hmax : e.opened.contentLength ≤ ullongMax := by
      have hlength := h.identity.length
      simp only [ullongMax]
      exact hlength.le.trans (by norm_num)
    refine ⟨e.opened.ended, keeps, h.errno, ?_, h.marks, ended_sound h.marks hmax,
      Or.inl ⟨_, loop_connect h.state h.identity hconnect hread⟩⟩
    have hempty : t.content = [] := if_pos (h.method.mp hconnect)
    rw [hended, hcalls, hempty]
    simp [HttpBody.calls, opened, notify, endFields]
  · have hle : e.contentLength ≤ t.body.length := by
      rw [h.contentLength]
      exact Nat.mod_le _ _
    obtain ⟨e', hclosed, hrun⟩ : ∃ e', e.Closed t.body e' ∧
        httpParserLoop len 0 e (10 :: t.body) =
          httpParserLoop len 0 e' (t.body.drop e.contentLength) :=
      loop_message h.state h.identity h.marks hconnect hread hle
    obtain ⟨keeps, hended⟩ := hclosed.calls
    have hcontent : t.content = t.body.take e.contentLength := by
      rw [h.contentLength]
      exact if_neg fun hc => hconnect (h.method.mpr hc)
    refine ⟨e', keeps, hclosed.errno.trans h.errno, ?_, hclosed.marks, hclosed.sound, Or.inr ?_⟩
    · rw [hended, hcalls, hcontent]
    · rw [hrun, h.contentLength]

end Whole

end HttpExec

/-! ## The assumption on the parser -/

section Parses

variable {t : HttpText} {ungzip : Bytes → Option Bytes} {atof : Bytes → Double}

theorem marks_true {calls : List HttpCallback} (h : ∀ call ∈ calls, call.isComplete = false) :
    calls.foldl HttpCallback.marks true = true := by
  induction calls with
  | nil => rfl
  | cons call calls ih =>
    have hmark : HttpCallback.marks true call = true := by
      have hcall := h call List.mem_cons_self
      cases call <;> first
        | rfl
        | cases hcall
    rw [List.foldl_cons, hmark]
    exact ih fun c hc => h c (List.mem_cons_of_mem _ hc)

/-- Calls in order behind a message that neither begin another one for good nor end it. -/
theorem no_calls {more : List HttpCallback} {ph : CallPhase} (horder : callPhase more = some ph)
    (hcomplete : ∀ call ∈ more, call.isComplete = false)
    (hin : more.foldl HttpCallback.marks false = false) : more = [] := by
  cases more with
  | nil => rfl
  | cons call more =>
    rw [callPhase, List.foldlM_cons] at horder
    obtain ⟨ph', hnext, -⟩ := Option.bind_eq_some_iff.mp horder
    have hbegin : call = .messageBegin := by
      cases call <;> first
        | rfl
        | cases hnext
    rw [hbegin, List.foldl_cons] at hin
    have htrue := marks_true fun c hc => hcomplete c (List.mem_cons_of_mem _ hc)
    exact absurd (htrue.symm.trans hin) (by decide)

theorem inMessage_calls {keeps : Bool} : inMessage (t.calls keeps) = false := by
  rw [HttpText.calls, ← List.cons_append, ← List.cons_append, inMessage]
  simp only [List.foldl_cons, List.foldl_append, List.foldl_nil]
  rfl

theorem HttpEnd.Refused.execution {run : HttpEnd} (h : run.Refused) :
    run.execution.ok = false ∨ run.execution.inMessage = true := by
  obtain ⟨e, n, rfl, herr | hin⟩ := h
  · exact Or.inl (decide_eq_false herr)
  · exact Or.inr hin

/-- **The parser on a text.** -/
theorem httpParserExecute_text (h : t.Printable) :
    (t.Valid (sourceGrammar ungzip atof) ∧ ∃ e' keeps, e'.httpErrno = .ok ∧
      e'.calls = t.calls keeps ∧ e'.markSet = {} ∧ e'.Sound e'.calls ∧
      ((∃ n, httpParserExecute t.raw = some (e', n)) ∨ httpParserExecute t.raw =
        httpParserLoop t.raw.length 0 e' (t.body.drop (t.body.length % 4294967296)))) ∨
    (¬ t.Valid (sourceGrammar ungzip atof) ∧ (httpParserExecute t.raw).Refused) := by
  have hlen := HttpExec.length_front t
  rw [httpParserExecute]
  generalize t.raw.length = len
  rw [HttpExec.raw_eq]
  have hfront := @HttpExec.passes_front len (10 :: t.body) t ungzip atof h
  rcases hfront with ⟨⟨⟨hstart, hvalues⟩, hle⟩, e, hend, hrun⟩ | ⟨hbad, hrefused⟩
  · rw [hrun]
    rcases Nat.lt_or_eq_of_le hle with hlt | heq
    · have hhead : t.head.length ≤ maxHeaderSize := by
        rw [← hlen]
        exact hlt
      exact Or.inl ⟨⟨hstart, hvalues, hhead⟩, HttpExec.loop_text hend hstart hlt⟩
    · have hheader : e.state.parsingHeader = true := by
        rw [hend.state]
        rfl
      obtain ⟨e₁, hturn, herr⟩ : ∃ e₁, e.turn (10 :: t.body) 10 len = .return_ e₁ (10 :: t.body) ∧
          e₁.httpErrno ≠ .ok := turn_overflow hheader (hend.nread.trans heq)
      refine Or.inr ⟨fun hvalid => ?_, e₁, _, loop_return hturn, Or.inl herr⟩
      have hhead := hvalid.head
      rw [← hlen, heq] at hhead
      exact absurd hhead (by decide)
  · refine Or.inr ⟨fun hvalid => hbad ⟨⟨hvalid.start, hvalid.values⟩, ?_⟩, hrefused⟩
    have hhead := hvalid.head
    change t.head.length ≤ httpMaxHeaderSize at hhead
    omega

/-- **The parser of the source** does what the codec is verified with, on each text that `encode`
may print. -/
theorem sourceLib_parsesText (h : t.Printable) :
    (sourceLib ungzip atof).ParsesText (sourceGrammar ungzip atof) t := by
  rcases httpParserExecute_text h with ⟨hvalid, e, keeps, herr, hcalls, hmarks, hsound, hrun⟩ |
    ⟨hbad, hrefused⟩
  · constructor
    · intro _ hsize
      rw [Nat.mod_eq_of_lt hsize, List.drop_length] at hrun
      have hloop : httpParserLoop t.raw.length 0 e [] = some (e, t.raw.length) := by
        obtain ⟨hnone, hflush⟩ := HttpExec.flush_unmarked hmarks
        rw [httpParserLoop, hnone, hflush]
        rfl
      rw [hloop] at hrun
      obtain ⟨n, hn⟩ : ∃ n, httpParserExecute t.raw = some (e, n) :=
        hrun.elim id fun hrun => ⟨_, hrun⟩
      refine ⟨keeps, n, ?_⟩
      change (httpParserExecute t.raw).execution = _
      rw [hn, HttpEnd.execution, hcalls, herr]
      rfl
    · intro _ _ hin hmessages
      refine ⟨keeps, ?_⟩
      change (httpParserExecute t.raw).execution.calls = _
      change (httpParserExecute t.raw).execution.inMessage = false at hin
      change (httpParserExecute t.raw).execution.messages = 1 at hmessages
      rcases hrun with ⟨n, hn⟩ | hrun
      · rw [hn]
        exact hcalls
      · have hsafe : HttpEnd.Safe e.calls t.raw.length (httpParserLoop t.raw.length 0 e
            (t.body.drop (t.body.length % 4294967296))) := httpParserLoop_keeps hsound
        obtain ⟨e', n, hn, ⟨ph, more, hmore, hphase⟩, -⟩ := hsafe
        rw [hrun, hn] at hin hmessages ⊢
        change inMessage e'.calls = false at hin
        change e'.calls.countP HttpCallback.isComplete = 1 at hmessages
        change e'.calls = t.calls keeps
        rw [hmore, hcalls] at hin hmessages
        rw [List.countP_append, HttpText.messages_calls, Nat.add_eq_left, List.countP_eq_zero]
          at hmessages
        rw [inMessage, List.foldl_append] at hin
        change more.foldl HttpCallback.marks (inMessage (t.calls keeps)) = false at hin
        rw [inMessage_calls] at hin
        have hnil := no_calls hphase (fun c hc => by simpa using hmessages c hc) hin
        rw [hmore, hcalls, hnil, List.append_nil]
    · exact fun hbad => absurd hvalid hbad
  · exact ⟨fun hvalid => absurd hvalid hbad, fun hvalid => absurd hvalid hbad,
      fun _ => hrefused.execution⟩

end Parses

end Kimserver
