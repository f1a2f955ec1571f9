import Mathlib.Data.List.TakeWhile
import Kimserver.Codec.Proto
import Kimserver.Lib.Double
import Kimserver.Lib.FiniteMap

/-!
# The HTTP codec

`CodecHttp` decodes with callbacks that the HTTP parser calls on its way through the buffer.
They write into one `HttpMsg`; its body holds the name of a header until the value of the
header comes. The parser starts anew at each call of `decode`, gets all readable bytes, and
reports every message in them.

The parser, the splitting of an url, the decompression and `atof` are parameters of the model.

## Main definitions

* `HttpMsg`, `HttpView`: a message, and what a handler reads of it
* `HttpCallback`, `HttpLib`: what the parser reports, and the parameters
* `Execution.inMessage`: the calls of the parser leave a message that has begun and not ended
* `HttpCallback.run`, `fire`: the callbacks of `CodecHttp`
* `decodeParams`: `decode_params`
* `CodecHttp.decode`: `CodecHttp::decode`

## Main results

* `view_onUrl`, `view_onHeaderValue`, `view_onBody`: what a callback leaves of a message
* `CodecHttp.decode_part`, `CodecHttp.decode_done`: the outcomes of `decode`
-/

namespace Kimserver

/-! ## Messages -/

/-- The members of `HttpMsg` that the codec sets. `type` is an `http_parser_type` and
`keepAlive` a `float`. -/
structure HttpMsg where
  type : ℤ := 0
  httpMajor : ℤ := 0
  httpMinor : ℤ := 0
  method : ℤ := 0
  statusCode : ℤ := 0
  url : Bytes := []
  headers : FiniteMap Bytes Bytes := ∅
  body : Bytes := []
  params : FiniteMap Bytes Bytes := ∅
  keepAlive : Double := ⟨0⟩
  path : Bytes := []
  isDecoding : Bool := false

/-- `HTTP_REQUEST`. -/
def httpRequest : ℤ := 0

/-- `HTTP_RESPONSE`. -/
def httpResponse : ℤ := 1

/-- What a message says of a request. -/
@[ext] structure HttpView where
  method : ℤ := 0
  url : Bytes := []
  path : Bytes := []
  params : FiniteMap Bytes Bytes := ∅
  headers : FiniteMap Bytes Bytes := ∅
  body : Bytes := []
  deriving DecidableEq

def HttpMsg.view (msg : HttpMsg) : HttpView where
  method := msg.method
  url := msg.url
  path := msg.path
  params := msg.params
  headers := msg.headers
  body := msg.body

/-! ## The parser -/

/-- The members of the parser that `on_message_complete` reads, and what
`http_should_keep_alive` answers there. -/
structure ParserFields where
  statusCode : ℤ
  method : ℤ
  httpMajor : ℤ
  httpMinor : ℤ
  shouldKeepAlive : Bool
  deriving DecidableEq

/-- The calls of the parser, with the bytes they get. `on_status` reads the status code of the
parser. -/
inductive HttpCallback
  | messageBegin
  | url (data : Bytes)
  | status (code : ℤ)
  | headerField (name : Bytes)
  | headerValue (value : Bytes)
  | headersComplete
  | body (data : Bytes)
  | messageComplete (parser : ParserFields)
  | chunkHeader
  | chunkComplete
  deriving DecidableEq

/-- What `http_parser_execute` does: its calls, the number of bytes it returns, and whether
`http_errno` is `HPE_OK`. -/
structure Execution where
  calls : List HttpCallback
  len : ℕ
  ok : Bool
  deriving DecidableEq

/-- What a call changes of `is_decoding`. -/
def HttpCallback.marks (decoding : Bool) : HttpCallback → Bool
  | .messageBegin => true
  | .messageComplete _ => false
  | _ => decoding

/-- A message has begun and not ended. -/
def Execution.inMessage (run : Execution) : Bool := run.calls.foldl HttpCallback.marks false

/-- What `http_parser_parse_url` finds. -/
structure ParsedUrl where
  path : Option Bytes
  query : Option Bytes

/-- The code that `CodecHttp` calls. `execute` is `http_parser_execute` behind
`http_parser_init`, `ungzip` fails with `none`, and `atof` rounds to a `float`. An url with a
NUL is not parsed. -/
structure HttpLib where
  execute : Bytes → Execution
  parseUrl : Bytes → Option ParsedUrl
  ungzip : Bytes → Option Bytes
  atof : Bytes → Double
  path_noNul : ∀ {url parsed path}, parseUrl url = some parsed → parsed.path = some path →
    (0 : UInt8) ∉ path

/-! ## The parameters of an url -/

/-- The variables of the loop of `decode_params`. -/
structure ParamState where
  params : FiniteMap Bytes Bytes := ∅
  key : Bytes := []
  value : Bytes := []
  isValue : Bool := false

/-- `params[key] = value`, where there is a key. -/
def ParamState.store (s : ParamState) : FiniteMap Bytes Bytes :=
  if 0 < s.key.length then s.params.insert s.key s.value else s.params

/-- The body of the loop: `'&'` ends a parameter and `'='` begins its value. -/
def ParamState.step (s : ParamState) (c : UInt8) : ParamState :=
  if c = 38 then { params := s.store }
  else if c = 61 then { s with isValue := true }
  else if s.isValue then { s with value := s.value ++ [c] }
  else { s with key := s.key ++ [c] }

/-- `decode_params`. -/
def decodeParams (s : Bytes) : FiniteMap Bytes Bytes := (s.foldl ParamState.step {}).store

/-! ## The callbacks -/

/-- `strncpy` with the length of the source: behind a NUL it writes zeros. -/
def strncpy (s : Bytes) : Bytes := cStr s ++ List.replicate (s.length - (cStr s).length) 0

theorem strncpy_eq {s : Bytes} (h : (0 : UInt8) ∉ s) : strncpy s = s := by
  have hall : cStr s = s := by
    rw [cStr, List.takeWhile_eq_self_iff]
    intro c hc
    have hne : c ≠ 0 := fun hzero => h (hzero ▸ hc)
    exact decide_eq_true hne
  rw [strncpy, hall, Nat.sub_self, List.replicate_zero, List.append_nil]

/-- `-1.0`. -/
def minusOne : Double := ⟨0xBFF0000000000000⟩

/-- `0.0`. -/
def zero : Double := ⟨0⟩

section Callbacks

variable (lib : HttpLib)

def onMessageBegin (msg : HttpMsg) : HttpMsg := { msg with isDecoding := true }

/-- `on_url`. The parameters are assigned to those the message has. -/
def onUrl (at_ : Bytes) (msg : HttpMsg) : HttpMsg :=
  let msg := { msg with url := at_ }
  match lib.parseUrl at_ with
  | none => msg
  | some parsed =>
    let msg := match parsed.path with
      | some path => { msg with path := strncpy path }
      | none => msg
    match parsed.query with
    | some query => { msg with params := decodeParams query ∪ msg.params }
    | none => msg

def onStatus (code : ℤ) (msg : HttpMsg) : HttpMsg := { msg with statusCode := code }

/-- `on_header_field`: the body keeps the name for `on_header_value`. -/
def onHeaderField (name : Bytes) (msg : HttpMsg) : HttpMsg := { msg with body := name }

def onHeaderValue (value : Bytes) (msg : HttpMsg) : HttpMsg :=
  let header := msg.body
  let msg := { msg with body := [], headers := msg.headers.insert header value }
  if header = text "Keep-Alive" then { msg with keepAlive := lib.atof value }
  else if header = text "Connection" then
    if value = text "keep-alive" then { msg with keepAlive := minusOne }
    else if value = text "close" then { msg with keepAlive := zero }
    else msg
  else msg

def onBody (data : Bytes) (msg : HttpMsg) : HttpMsg :=
  if 0 < msg.body.length then { msg with body := msg.body ++ data } else { msg with body := data }

/-- `on_message_complete`; a status code makes the message a response. -/
def onMessageComplete (parser : ParserFields) (msg : HttpMsg) : HttpMsg :=
  let msg := if parser.statusCode ≠ 0 then
      { msg with statusCode := parser.statusCode, type := httpResponse }
    else { msg with method := parser.method, type := httpRequest }
  let msg := { msg with
    httpMajor := parser.httpMajor, httpMinor := parser.httpMinor, isDecoding := false }
  if parser.shouldKeepAlive then msg else { msg with keepAlive := zero }

/-- One call of the parser. The callbacks for the end of the headers and around a chunk do
nothing. -/
def HttpCallback.run : HttpCallback → HttpMsg → HttpMsg
  | .messageBegin => onMessageBegin
  | .url data => onUrl lib data
  | .status code => onStatus code
  | .headerField name => onHeaderField name
  | .headerValue value => onHeaderValue lib value
  | .headersComplete => id
  | .body data => onBody data
  | .messageComplete parser => onMessageComplete parser
  | .chunkHeader => id
  | .chunkComplete => id

/-- The calls of one run of the parser. -/
def fire (calls : List HttpCallback) (msg : HttpMsg) : HttpMsg :=
  calls.foldl (fun msg call => call.run lib msg) msg

end Callbacks

/-! ## Decoding -/

/-- The members of `CodecHttp` that `decode` uses. -/
structure CodecHttp where
  httpMajor : ℤ := 1
  httpMinor : ℤ := 1
  decodeCnt : ℕ := 0
  keepAlive : Double := minusOne

/-- What `decode` takes over from a request. -/
def CodecHttp.noteRequest (codec : CodecHttp) (msg : HttpMsg) : CodecHttp :=
  if msg.type = httpRequest then
    { codec with
      httpMajor := msg.httpMajor
      httpMinor := msg.httpMinor
      keepAlive := if zero.le msg.keepAlive then msg.keepAlive else codec.keepAlive }
  else codec

/-- A message says that its body is compressed. -/
def gzipped (headers : FiniteMap Bytes Bytes) : Bool :=
  headers.lookup (text "Content-Encoding") = some (text "gzip")

/-- `CodecHttp::decode`, into a message that may hold something already. -/
def CodecHttp.decode (lib : HttpLib) (codec : CodecHttp) (sbuf : SocketBuffer) (msg : HttpMsg) :
    CodecStatus × CodecHttp × SocketBuffer × HttpMsg :=
  if !sbuf.isReadable then (.pause, codec, sbuf, msg)
  else
    let codec := { codec with decodeCnt := codec.decodeCnt + 1 }
    let run := lib.execute sbuf.contents
    let msg := fire lib run.calls msg
    if msg.isDecoding then (.pause, codec, sbuf, msg)
    else if !run.ok then (.err, codec, sbuf, msg)
    else
      let sbuf := sbuf.advanceReadIndex (CInt.toInt run.len)
      let codec := codec.noteRequest msg
      if gzipped msg.headers then
        match lib.ungzip msg.body with
        | some data => (.ok, codec, sbuf, { msg with body := data })
        | none => (.err, codec, sbuf, msg)
      else (.ok, codec, sbuf, msg)

/-! ## What the callbacks leave of a message -/

/-- The end of `decode`: the body of a compressed message is replaced. -/
def unpack (lib : HttpLib) (v : HttpView) : Option HttpView :=
  if gzipped v.headers then (lib.ungzip v.body).map fun data => { v with body := data } else some v

section Fire

variable {lib : HttpLib} {msg : HttpMsg}

@[simp] theorem fire_nil : fire lib [] msg = msg := rfl

@[simp] theorem fire_cons (call : HttpCallback) (calls : List HttpCallback) :
    fire lib (call :: calls) msg = fire lib calls (call.run lib msg) := rfl

theorem fire_append (calls calls' : List HttpCallback) :
    fire lib (calls ++ calls') msg = fire lib calls' (fire lib calls msg) := List.foldl_append

/-- Only the beginning and the end of a message change `isDecoding`. -/
theorem isDecoding_run {call : HttpCallback} (hbegin : call ≠ .messageBegin)
    (hcomplete : ∀ parser, call ≠ .messageComplete parser) :
    (call.run lib msg).isDecoding = msg.isDecoding := by
  cases call with
  | messageBegin => exact absurd rfl hbegin
  | messageComplete parser => exact absurd rfl (hcomplete parser)
  | url data =>
    simp only [HttpCallback.run, onUrl]
    split
    · rfl
    · split <;> split <;> rfl
  | headerValue value =>
    simp only [HttpCallback.run, onHeaderValue]
    split_ifs <;> rfl
  | body data =>
    simp only [HttpCallback.run, onBody]
    split_ifs <;> rfl
  | status code => rfl
  | headerField name => rfl
  | headersComplete => rfl
  | chunkHeader => rfl
  | chunkComplete => rfl

/-- A message that has begun and not ended is being decoded. -/
theorem isDecoding_fire {calls : List HttpCallback} (hmsg : msg.isDecoding = true)
    (hcomplete : ∀ parser, .messageComplete parser ∉ calls) :
    (fire lib calls msg).isDecoding = true := by
  induction calls generalizing msg with
  | nil => exact hmsg
  | cons call calls ih =>
    rw [fire_cons]
    refine ih ?_ fun parser hmem => hcomplete parser (List.mem_cons_of_mem _ hmem)
    by_cases hbegin : call = .messageBegin
    · rw [hbegin]
      rfl
    · rw [isDecoding_run hbegin fun parser h => hcomplete parser (h ▸ List.mem_cons_self), hmsg]

/-- Behind the end of a message it is not. -/
theorem isDecoding_complete (parser : ParserFields) :
    (onMessageComplete parser msg).isDecoding = false := by
  simp only [onMessageComplete]
  split_ifs <;> rfl

theorem isDecoding_run_eq (lib : HttpLib) (call : HttpCallback) (msg : HttpMsg) :
    (call.run lib msg).isDecoding = call.marks msg.isDecoding := by
  cases call with
  | messageBegin => rfl
  | messageComplete parser => exact isDecoding_complete parser
  | url data => exact isDecoding_run (by simp) (by simp)
  | status code => rfl
  | headerField name => rfl
  | headerValue value => exact isDecoding_run (by simp) (by simp)
  | headersComplete => rfl
  | body data => exact isDecoding_run (by simp) (by simp)
  | chunkHeader => rfl
  | chunkComplete => rfl

/-- The message is being decoded where the calls leave it begun and not ended. -/
theorem isDecoding_fire_eq (lib : HttpLib) (calls : List HttpCallback) (msg : HttpMsg) :
    (fire lib calls msg).isDecoding = calls.foldl HttpCallback.marks msg.isDecoding := by
  induction calls generalizing msg with
  | nil => rfl
  | cons call calls ih => rw [fire_cons, ih, isDecoding_run_eq, List.foldl_cons]

theorem view_onMessageComplete {parser : ParserFields} (h : parser.statusCode = 0) :
    (onMessageComplete parser msg).view = { msg.view with method := parser.method } := by
  simp only [onMessageComplete, h, ne_eq, not_true_eq_false, if_false]
  split_ifs <;> rfl

theorem view_onBody (data : Bytes) :
    (onBody data msg).view = { msg.view with body := msg.view.body ++ data } := by
  unfold onBody
  split_ifs with hbody
  · rfl
  · have hnil : msg.body = [] := List.length_eq_zero_iff.mp (Nat.eq_zero_of_not_pos hbody)
    simp only [HttpMsg.view, hnil, List.nil_append]

theorem view_onHeaderValue (value : Bytes) :
    (onHeaderValue lib value msg).view =
      { msg.view with
        body := []
        headers := msg.view.headers.insert msg.view.body value } := by
  simp only [onHeaderValue]
  split_ifs <;> rfl

theorem view_onUrl (data : Bytes) :
    (onUrl lib data msg).view =
      { msg.view with
        url := data
        path := ((lib.parseUrl data).bind ParsedUrl.path).getD msg.view.path
        params := ((lib.parseUrl data).bind ParsedUrl.query).elim ∅ decodeParams ∪
          msg.view.params } := by
  unfold onUrl
  cases hparse : lib.parseUrl data with
  | none => simp [HttpMsg.view, Finmap.empty_union]
  | some parsed =>
    obtain ⟨path, query⟩ := parsed
    cases path with
    | none => cases query <;> simp [HttpMsg.view, Finmap.empty_union]
    | some path =>
      have hcopy : strncpy path = path := strncpy_eq (lib.path_noNul hparse rfl)
      cases query <;> simp [HttpMsg.view, Finmap.empty_union, hcopy]

end Fire

/-! ## The outcomes of decoding -/

section Decode

variable {lib : HttpLib} (codec : CodecHttp) {sbuf : SocketBuffer} {msg : HttpMsg}

theorem CodecHttp.decode_unread (h : sbuf.isReadable = false) :
    codec.decode lib sbuf msg = (.pause, codec, sbuf, msg) := if_pos (by rw [h]; rfl)

/-- **A message that has not ended** leaves the buffer as it is. -/
theorem CodecHttp.decode_part (hread : sbuf.isReadable = true)
    (h : (fire lib (lib.execute sbuf.contents).calls msg).isDecoding = true) :
    ∃ codec' msg', codec.decode lib sbuf msg = (.pause, codec', sbuf, msg') := by
  simp only [decode, hread, Bool.not_true, Bool.false_eq_true, if_false, h, if_true]
  exact ⟨_, _, rfl⟩

/-- **A run that ends with a message** gives it to the caller, with everything the message held
before, or fails in the decompression. -/
theorem CodecHttp.decode_done {calls : List HttpCallback} {len : ℕ}
    (hread : sbuf.isReadable = true) (hrun : lib.execute sbuf.contents = ⟨calls, len, true⟩)
    (h : (fire lib calls msg).isDecoding = false) :
    (∃ codec' msg', unpack lib (fire lib calls msg).view = some msg'.view ∧
      codec.decode lib sbuf msg =
        (.ok, codec', sbuf.advanceReadIndex (CInt.toInt len), msg')) ∨
    (∃ codec' sbuf' msg', unpack lib (fire lib calls msg).view = none ∧
      codec.decode lib sbuf msg = (.err, codec', sbuf', msg')) := by
  simp only [decode, hread, hrun, h, Bool.not_true, Bool.false_eq_true, if_false]
  have hview : gzipped (fire lib calls msg).view.headers = gzipped (fire lib calls msg).headers :=
    rfl
  unfold unpack
  rw [hview]
  split_ifs with hgzip
  · have hbody : (fire lib calls msg).view.body = (fire lib calls msg).body := rfl
    rw [hbody]
    cases hzip : lib.ungzip (fire lib calls msg).body with
    | none => exact Or.inr ⟨_, _, _, rfl, rfl⟩
    | some data =>
      refine Or.inl ⟨_, _, ?_, rfl⟩
      rfl
  · exact Or.inl ⟨_, _, rfl, rfl⟩

/-- The status of `decode`, by what the parser did. -/
theorem CodecHttp.decode_status (lib : HttpLib) (codec : CodecHttp) {sbuf : SocketBuffer}
    {msg : HttpMsg} (hread : sbuf.isReadable = true) (hmsg : msg.isDecoding = false) :
    ((lib.execute sbuf.contents).inMessage = true →
      (codec.decode lib sbuf msg).1 = .pause) ∧
    ((lib.execute sbuf.contents).inMessage = false →
      (codec.decode lib sbuf msg).1 ≠ .pause ∧
      ((lib.execute sbuf.contents).ok = false → (codec.decode lib sbuf msg).1 = .err)) := by
  have hinside : (fire lib (lib.execute sbuf.contents).calls msg).isDecoding =
      (lib.execute sbuf.contents).inMessage := by
    rw [isDecoding_fire_eq, hmsg]
    rfl
  simp only [CodecHttp.decode, hread, Bool.not_true, Bool.false_eq_true, if_false, hinside]
  constructor
  · intro h
    rw [if_pos h]
  · intro h
    rw [h, if_neg Bool.false_ne_true]
    cases (lib.execute sbuf.contents).ok with
    | false => exact ⟨by simp, fun _ => rfl⟩
    | true =>
      refine ⟨?_, fun hok => absurd hok (by decide)⟩
      simp only [Bool.not_true, Bool.false_eq_true, if_false]
      split_ifs
      · split <;> simp
      · simp

end Decode

end Kimserver
