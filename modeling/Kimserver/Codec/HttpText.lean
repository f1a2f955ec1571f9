import Kimserver.Codec.HttpEncode
import Kimserver.Codec.HttpRequest

/-!
# The text of an HTTP message

Everything that `CodecHttp::encode` prints has one shape: a start line, header lines, a last line
with the length of the body, and the body. The parser is assumed to read texts of this shape and
no others. Which urls it takes as the target of a request, and which values of a header, is left
open beyond what it surely takes.

The parser counts the bytes of the body with the printed length, which has 32 bits, and it takes
no body behind a `CONNECT`.

## Main definitions

* `StartLine`, `HttpText`: the parts of a text
* `HttpText.calls`: what the parser reports of it
* `HttpGrammar`, `HttpText.Valid`: the texts that the parser takes
* `HttpLib.ParsesText`, `HttpLib.ParsesFronts`: the assumptions on the parser

## Main results

* `HttpText.view_fire_calls`: the message that the callbacks leave
* `HttpText.decode_eq`: `decode` returns this message
-/

namespace Kimserver

/-- `HTTP_CONNECT`. -/
def httpConnect : ℤ := 5

/-- `HTTP_MAX_HEADER_SIZE`. -/
def maxHeaderSize : ℕ := 81920

/-! ## Start lines -/

/-- A start line. The target of a request is the part of the url that is printed. -/
inductive StartLine
  | request (method : ℤ) (target : Bytes) (major minor : ℤ)
  | response (major minor code : ℤ)
  deriving DecidableEq

namespace StartLine

def bytes : StartLine → Bytes
  | .request method target major minor =>
    httpMethodStr method ++ text " " ++ target ++ text " " ++ versionText major minor ++ crlf
  | .response major minor code =>
    versionText major minor ++ text " " ++ unsignedText code ++ text " " ++
      statusString code ++ crlf

def target : StartLine → Bytes
  | .request _ target _ _ => target
  | .response .. => []

/-- What the parser reports of it. -/
def call : StartLine → HttpCallback
  | .request _ target _ _ => .url target
  | .response _ _ code => .status code

/-- The members of the parser at the end of the message. -/
def parser (keeps : Bool) : StartLine → ParserFields
  | .request method _ major minor => ⟨0, method, major, minor, keeps⟩
  | .response major minor code => ⟨code, 0, major, minor, keeps⟩

def isConnect : StartLine → Bool
  | .request method .. => method = httpConnect
  | .response .. => false

end StartLine

/-! ## Texts -/

/-- `' '` and `'\t'`, which the parser skips in front of a value. -/
def isBlank (c : UInt8) : Bool := c = 32 || c = 9

/-- A value as the parser reports it. -/
def skipBlanks (value : Bytes) : Bytes := value.dropWhile isBlank

/-- A text: the start line, the header lines in front of the one with the length, and the body. -/
structure HttpText where
  start : StartLine
  headers : List (Bytes × Bytes)
  body : Bytes
  deriving DecidableEq

namespace HttpText

variable (t : HttpText)

def head : Bytes := t.start.bytes ++ t.headers.flatMap headerLine ++ lengthLine t.body

def raw : Bytes := t.head ++ t.body

/-- All header lines. -/
def entries : List (Bytes × Bytes) :=
  t.headers ++ [(text "Content-Length", sizeText t.body.length)]

def lines : List HeaderLine := t.entries.map fun e => ⟨e.1, skipBlanks e.2, []⟩

/-- The body as the parser finds it. -/
def content : Bytes :=
  if t.start.isConnect then [] else t.body.take (t.body.length % 4294967296)

/-- What the parser reports. -/
def calls (keeps : Bool) : List HttpCallback :=
  .messageBegin :: t.start.call :: (t.lines.flatMap HeaderLine.calls ++
    .headersComplete :: ((HttpBody.identity t.content).calls ++
      [.messageComplete (t.start.parser keeps)]))

/-- The headers of the message. -/
def fields : FiniteMap Bytes Bytes :=
  FiniteMap.assignAll ∅ (t.entries.map fun e => (e.1, skipBlanks e.2))

/-- The texts that `encode` prints for clean messages. -/
structure Clean : Prop where
  target : ∀ c ∈ t.start.target, 32 < c ∧ c ≠ 127
  names : ∀ e ∈ t.headers, e.1 ∈ [text "Host", text "Allow", text "Server", text "Connection"]
  nodup : (t.headers.map Prod.fst).Nodup
  values : ∀ e ∈ t.headers, ∀ c ∈ e.2, c ≠ 0 ∧ c ≠ 10 ∧ c ≠ 13

end HttpText

/-! ## The parser -/

/-- The targets that the parser takes behind a method, and the values that it takes for a
header. It takes what `http_parser_parse_url` takes, except behind a `CONNECT`, and all visible
characters. -/
structure HttpGrammar (lib : HttpLib) where
  Target : ℤ → Bytes → Prop
  Value : Bytes → Bytes → Prop
  target_of_parsed : ∀ {method url}, method ≠ httpConnect → (lib.parseUrl url).isSome →
    Target method url
  value_of_visible : ∀ name {value}, (∀ c ∈ value, 32 ≤ c ∧ c ≠ 127) → Value name value

/-- The parser reads one digit. -/
def OneDigit (n : ℤ) : Prop := 0 ≤ n ∧ n ≤ 9

instance (n : ℤ) : Decidable (OneDigit n) := inferInstanceAs (Decidable (_ ∧ _))

/-- The methods that the parser finds by their names. The name of `M-SEARCH` is printed with
blanks in it. -/
def KnownMethod (method : ℤ) : Prop := 0 ≤ method ∧ method ≤ 33 ∧ method ≠ 24

instance (method : ℤ) : Decidable (KnownMethod method) := inferInstanceAs (Decidable (_ ∧ _ ∧ _))

section Grammar

variable {lib : HttpLib} (G : HttpGrammar lib)

def StartLine.Valid : StartLine → Prop
  | .request method target major minor =>
    KnownMethod method ∧ G.Target method target ∧ OneDigit major ∧ OneDigit minor
  | .response major minor code =>
    OneDigit major ∧ OneDigit minor ∧ 0 < code ∧ code ≤ 999

/-- The texts that the parser takes. -/
structure HttpText.Valid (t : HttpText) : Prop where
  start : t.start.Valid G
  values : ∀ e ∈ t.headers, G.Value e.1 e.2
  head : t.head.length ≤ maxHeaderSize

/-- How many messages were reported. -/
def Execution.messages (run : Execution) : ℕ := run.calls.countP HttpCallback.isComplete

/-- The parser on a text. What follows the printed length of a body is no part of the message;
the parser may find another one there. -/
structure HttpLib.ParsesText (lib : HttpLib) (G : HttpGrammar lib) (t : HttpText) : Prop where
  accepts : t.Valid G → t.body.length < 4294967296 →
    ∃ keeps len, lib.execute t.raw = ⟨t.calls keeps, len, true⟩
  cuts : t.Valid G → (lib.execute t.raw).ok = true → (lib.execute t.raw).inMessage = false →
    (lib.execute t.raw).messages = 1 → ∃ keeps, (lib.execute t.raw).calls = t.calls keeps
  rejects : ¬ t.Valid G → (lib.execute t.raw).ok = false ∨ (lib.execute t.raw).inMessage = true

end Grammar

/-! ## The message that is read -/

namespace HttpText

variable {lib : HttpLib} {t : HttpText} {keeps : Bool}

theorem raw_ne_nil : t.raw ≠ [] := by
  have hline : lengthLine t.body ≠ [] := by
    unfold lengthLine
    simp [text]
  unfold raw head
  simp [hline]

theorem messages_calls : (t.calls keeps).countP HttpCallback.isComplete = 1 := by
  have hlines : (t.lines.flatMap HeaderLine.calls).countP HttpCallback.isComplete = 0 := by
    rw [List.countP_eq_zero]
    intro call hcall
    obtain ⟨line, -, hmem⟩ := List.mem_flatMap.mp hcall
    rw [HeaderLine.calls, List.mem_cons, List.mem_map] at hmem
    rcases hmem with rfl | ⟨value, -, rfl⟩ <;> simp [HttpCallback.isComplete]
  have hstart : t.start.call.isComplete = false := by
    cases t.start <;> rfl
  have hbody : (HttpBody.identity t.content).calls.countP HttpCallback.isComplete = 0 := by
    simp only [HttpBody.calls]
    split_ifs <;> rfl
  simp only [calls, List.countP_cons, List.countP_append, hlines, hstart, hbody]
  rfl

theorem assigned_lines : t.lines.flatMap HeaderLine.assigned =
    t.entries.map fun e => (e.1, skipBlanks e.2) := by
  have hunfolded : ∀ line ∈ t.lines, line.folded = [] := by
    intro line hline
    obtain ⟨e, -, rfl⟩ := List.mem_map.mp hline
    rfl
  rw [assigned_of_unfolded hunfolded, lines, List.map_map]
  refine List.map_congr_left fun e _ => ?_
  simp [HeaderLine.value]

theorem lines_ne_nil : t.lines ≠ [] := by
  unfold lines entries
  simp

/-- The message after the start line. -/
def begun (lib : HttpLib) (t : HttpText) : HttpMsg := t.start.call.run lib (onMessageBegin {})

/-- The message in front of its end. -/
def unended (lib : HttpLib) (t : HttpText) : HttpMsg :=
  fire lib (HttpBody.identity t.content).calls
    (fire lib (t.lines.flatMap HeaderLine.calls) (t.begun lib))

theorem fire_calls :
    fire lib (t.calls keeps) {} = onMessageComplete (t.start.parser keeps) (t.unended lib) := by
  unfold calls unended begun
  rw [fire_cons, fire_cons, fire_append, fire_cons, fire_append]
  rfl

theorem headers_begun : (t.begun lib).view.headers = ∅ := by
  unfold begun
  cases t.start with
  | request method target major minor =>
    change (onUrl lib target (onMessageBegin {})).view.headers = ∅
    rw [view_onUrl]
    rfl
  | response major minor code => rfl

/-- **The callbacks** assign the header lines and the body. -/
theorem view_unended : (t.unended lib).view =
    { (t.begun lib).view with headers := t.fields, body := t.content } := by
  unfold unended
  rw [view_fire_body, view_fire_lines, if_neg lines_ne_nil, assigned_lines, headers_begun]
  rfl

/-- The message that the callbacks leave. -/
def message (lib : HttpLib) (t : HttpText) (keeps : Bool) : HttpMsg := fire lib (t.calls keeps) {}

theorem isDecoding_message : (t.message lib keeps).isDecoding = false := by
  unfold message
  rw [fire_calls]
  exact isDecoding_complete _

/-- The parser's answer on keeping the connection shows in one member only. -/
theorem message_eq : t.message lib keeps =
    { t.message lib true with keepAlive := (t.message lib keeps).keepAlive } := by
  unfold message
  rw [fire_calls, fire_calls]
  cases t.start <;> cases keeps <;> rfl

/-- The end of a message leaves its headers and its body. -/
theorem headers_message : (t.message lib keeps).headers = t.fields := by
  have hview : (t.message lib keeps).headers = (t.unended lib).view.headers := by
    unfold message
    rw [fire_calls]
    simp only [onMessageComplete]
    split_ifs <;> rfl
  rw [hview, view_unended]

theorem body_message : (t.message lib keeps).body = t.content := by
  have hview : (t.message lib keeps).body = (t.unended lib).view.body := by
    unfold message
    rw [fire_calls]
    simp only [onMessageComplete]
    split_ifs <;> rfl
  rw [hview, view_unended]

/-- **A request** is read with the path of its target. -/
theorem message_request {method major minor : ℤ} {target : Bytes}
    (h : t.start = .request method target major minor) :
    (t.message lib keeps).type = httpRequest ∧ (t.message lib keeps).method = method ∧
      (t.message lib keeps).url = target ∧
      (t.message lib keeps).path = ((lib.parseUrl target).bind ParsedUrl.path).getD [] := by
  have hbegun : (t.begun lib).view = (onUrl lib target (onMessageBegin {})).view := by
    unfold begun
    rw [h]
    rfl
  have hview : (t.message lib keeps).view =
      { (onUrl lib target (onMessageBegin {})).view with
        method := method, headers := t.fields, body := t.content } := by
    unfold message
    rw [fire_calls, h, view_onMessageComplete rfl, view_unended, hbegun]
    rfl
  rw [view_onUrl] at hview
  refine ⟨?_, congrArg HttpView.method hview, congrArg HttpView.url hview,
    congrArg HttpView.path hview⟩
  unfold message
  rw [fire_calls, h]
  cases keeps <;> rfl

/-- **A response** is read with its status code. -/
theorem message_response {major minor code : ℤ} (h : t.start = .response major minor code)
    (hcode : code ≠ 0) :
    (t.message lib keeps).type = httpResponse ∧ (t.message lib keeps).statusCode = code := by
  have hmessage : t.message lib keeps =
      onMessageComplete ⟨code, 0, major, minor, keeps⟩ (t.unended lib) := by
    unfold message
    rw [fire_calls, h]
    rfl
  rw [hmessage]
  simp only [onMessageComplete, if_pos hcode]
  cases keeps <;> exact ⟨rfl, rfl⟩

/-! ## The headers that are read -/

theorem Clean.notMem_names (h : t.Clean) {name : Bytes}
    (hname : name ∉ [text "Host", text "Allow", text "Server", text "Connection",
      text "Content-Length"]) : name ∉ t.entries.map Prod.fst := by
  intro hmem
  obtain ⟨e, he, rfl⟩ := List.mem_map.mp hmem
  refine hname ?_
  rcases List.mem_append.mp he with hheader | hlength
  · exact List.mem_append_left [text "Content-Length"] (h.names e hheader)
  · rw [List.mem_singleton.mp hlength]
    simp

theorem Clean.nodup_entries (h : t.Clean) : (t.entries.map Prod.fst).Nodup := by
  unfold entries
  rw [List.map_append, List.nodup_append]
  refine ⟨h.nodup, List.nodup_singleton _, ?_⟩
  intro name hname other hother heq
  rw [List.mem_singleton.mp hother] at heq
  obtain ⟨e, he, hfst⟩ := List.mem_map.mp hname
  have hnames := h.names e he
  rw [hfst, heq] at hnames
  change text "Content-Length" ∈ _ at hnames
  exact absurd hnames (by decide)

theorem map_fst_entries : (t.entries.map fun e => (e.1, skipBlanks e.2)).map Prod.fst =
    t.entries.map Prod.fst := by
  rw [List.map_map]
  rfl

theorem Clean.lookup_fields (h : t.Clean) {name value : Bytes} (hmem : (name, value) ∈ t.entries) :
    t.fields.lookup name = some (skipBlanks value) := by
  refine FiniteMap.lookup_assignAll_of_mem ?_ (List.mem_map.mpr ⟨_, hmem, rfl⟩)
  rw [map_fst_entries]
  exact h.nodup_entries

theorem lookup_fields_of_notMem {name : Bytes} (h : name ∉ t.entries.map Prod.fst) :
    t.fields.lookup name = none := by
  rw [← map_fst_entries] at h
  exact FiniteMap.lookup_assignAll_of_notMem h

/-- **What `decode` returns** for bytes that are reported as a text. -/
theorem Clean.decode_eq (h : t.Clean) (codec : CodecHttp) {bytes : Bytes} (hne : bytes ≠ [])
    (hok : (lib.execute bytes).ok = true) (hcalls : (lib.execute bytes).calls = t.calls keeps) :
    ∃ codec' sbuf', codec.decode lib ⟨bytes, 0, bytes.length⟩ {} =
      (.ok, codec', sbuf', t.message lib keeps) := by
  have hread : SocketBuffer.isReadable ⟨bytes, 0, bytes.length⟩ = true := by
    rw [SocketBuffer.isReadable_iff]
    exact List.length_pos_of_ne_nil hne
  have hplain : gzipped (t.message lib keeps).headers = false := by
    rw [headers_message, gzipped, lookup_fields_of_notMem (h.notMem_names (by decide))]
    rfl
  have hended := @isDecoding_message lib t keeps
  unfold message at hended hplain ⊢
  simp only [CodecHttp.decode, hread, SocketBuffer.contents_mk, hcalls, hok, hended, hplain,
    Bool.not_true, Bool.false_eq_true, if_false]
  exact ⟨_, _, rfl⟩

end HttpText

end Kimserver
