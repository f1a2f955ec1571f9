import Kimserver.Lib.Machine
import Kimserver.Lib.OrderedMap
import Kimserver.Codec.HttpEncode
import Kimserver.Net.HttpRequests

/-!
# The persistence of an HTTP connection

A response of a server says whether the connection stays open: `Connection: close` is printed
where `m_keep_alive` is zero. `decode` takes this number from the request, unless it is negative.
A message without a header for it has the number zero, as every new message has, and only
`http_should_keep_alive` writes over what the headers say, with zero again. So a request that
keeps the connection open by the default of its version is answered with `close`.

## Main definitions

* `headerKeepAlive`: what a header line makes of the number
* `PersistentRequest`: a request as the parser reports it
* `HttpExchange`, `exchangeMachine`: a request and the response to it
* `Advertised`: the response says what the parser found for the request
* `Persists`: the headers of the request say so too

## Main results

* `PersistentRequest.keepAlive_fire`: the number that the callbacks leave
* `advertised_run_iff`: which exchanges of a connection are right
-/

namespace Kimserver

/-! ## The number that the headers leave -/

/-- What `on_header_value` makes of the number of a message. -/
def headerKeepAlive (lib : HttpLib) (name value : Bytes) (k : Double) : Double :=
  if name = text "Keep-Alive" then lib.atof value
  else if name = text "Connection" then
    if value = text "keep-alive" then minusOne else if value = text "close" then zero else k
  else k

section Fire

variable {lib : HttpLib} {msg : HttpMsg}

theorem keepAlive_onUrl (data : Bytes) : (onUrl lib data msg).keepAlive = msg.keepAlive := by
  unfold onUrl
  cases lib.parseUrl data with
  | none => rfl
  | some parsed =>
    dsimp only
    cases parsed.path <;> cases parsed.query <;> rfl

theorem keepAlive_onBody (data : Bytes) : (onBody data msg).keepAlive = msg.keepAlive := by
  unfold onBody
  split_ifs <;> rfl

theorem onHeaderValue_eq (lib : HttpLib) (value : Bytes) (msg : HttpMsg) :
    (onHeaderValue lib value msg).keepAlive =
        headerKeepAlive lib msg.body value msg.keepAlive ∧
      (onHeaderValue lib value msg).body = [] := by
  simp only [onHeaderValue, headerKeepAlive]
  split_ifs <;> exact ⟨rfl, rfl⟩

theorem keepAlive_onMessageComplete (parser : ParserFields) :
    (onMessageComplete parser msg).keepAlive =
      if parser.shouldKeepAlive then msg.keepAlive else zero := by
  simp only [onMessageComplete]
  split_ifs <;> rfl

/-- The folded lines of a value have no name. -/
theorem keepAlive_fire_folded (values : List Bytes) (h : msg.body = []) :
    (fire lib (values.map .headerValue) msg).keepAlive = msg.keepAlive ∧
      (fire lib (values.map .headerValue) msg).body = [] := by
  induction values generalizing msg with
  | nil => exact ⟨rfl, h⟩
  | cons value values ih =>
    obtain ⟨hkeep, hbody⟩ := onHeaderValue_eq lib value msg
    obtain ⟨hkeep', hbody'⟩ := ih hbody
    rw [List.map_cons, fire_cons]
    refine ⟨hkeep'.trans (hkeep.trans ?_), hbody'⟩
    rw [h]
    rfl

theorem keepAlive_fire_line (line : HeaderLine) :
    (fire lib line.calls msg).keepAlive =
      headerKeepAlive lib line.name line.first msg.keepAlive := by
  obtain ⟨hkeep, hbody⟩ :=
    onHeaderValue_eq lib line.first (onHeaderField line.name msg)
  obtain ⟨hkeep', -⟩ := keepAlive_fire_folded line.folded hbody
  exact hkeep'.trans hkeep

/-- The number after some header lines. -/
def linesKeepAlive (lib : HttpLib) (lines : List HeaderLine) (k : Double) : Double :=
  lines.foldl (fun k line => headerKeepAlive lib line.name line.first k) k

theorem keepAlive_fire_lines (lines : List HeaderLine) :
    (fire lib (lines.flatMap HeaderLine.calls) msg).keepAlive =
      linesKeepAlive lib lines msg.keepAlive := by
  induction lines generalizing msg with
  | nil => rfl
  | cons line lines ih =>
    rw [List.flatMap_cons, fire_append, ih, keepAlive_fire_line]
    rfl

theorem keepAlive_fire_chunks (chunks : List Bytes) :
    (fire lib (chunks.flatMap fun data => [.chunkHeader, .body data, .chunkComplete])
      msg).keepAlive = msg.keepAlive := by
  induction chunks generalizing msg with
  | nil => rfl
  | cons data chunks ih =>
    rw [List.flatMap_cons, fire_append, ih]
    exact keepAlive_onBody data

theorem keepAlive_fire_body (body : HttpBody) :
    (fire lib body.calls msg).keepAlive = linesKeepAlive lib body.trailers msg.keepAlive := by
  cases body with
  | identity data =>
    simp only [HttpBody.calls, HttpBody.trailers]
    split_ifs
    · rfl
    · exact keepAlive_onBody data
  | chunked chunks trailers =>
    simp only [HttpBody.calls, HttpBody.trailers, fire_append, fire_cons, fire_nil]
    change (fire lib (trailers.flatMap HeaderLine.calls)
      (fire lib (chunks.flatMap _) msg)).keepAlive = _
    rw [keepAlive_fire_lines, keepAlive_fire_chunks]

end Fire

/-! ## Requests and responses -/

/-- A request as the parser reports it, of any version: its bytes, its parts, and the members of
the parser at its end. -/
structure PersistentRequest where
  raw : Bytes
  url : Bytes
  headers : List HeaderLine
  body : HttpBody
  parser : ParserFields
  request : parser.statusCode = 0
  raw_ne : raw ≠ []

namespace PersistentRequest

variable (lib : HttpLib) (r : PersistentRequest)

def calls : List HttpCallback :=
  .messageBegin :: .url r.url :: (r.headers.flatMap HeaderLine.calls ++
    .headersComplete :: (r.body.calls ++ [.messageComplete r.parser]))

/-- The number that the header lines leave, the trailers included. -/
def keepAlive : Double := linesKeepAlive lib (r.headers ++ r.body.trailers) zero

/-- The message that the callbacks leave. -/
def message : HttpMsg := fire lib r.calls {}

/-- The message that the calls before the last one leave. -/
def unended : HttpMsg :=
  fire lib r.body.calls (fire lib (r.headers.flatMap HeaderLine.calls)
    (onUrl lib r.url (onMessageBegin {})))

theorem message_eq : r.message lib = onMessageComplete r.parser (r.unended lib) := by
  unfold message calls unended
  rw [fire_cons, fire_cons, fire_append, fire_cons, fire_append]
  rfl

/-- **The number that the callbacks leave**: that of the headers, or zero where the parser does
not keep the connection open. -/
theorem keepAlive_fire : (r.message lib).keepAlive =
    if r.parser.shouldKeepAlive then r.keepAlive lib else zero := by
  have hlines : (r.unended lib).keepAlive = r.keepAlive lib := by
    unfold unended keepAlive linesKeepAlive
    rw [keepAlive_fire_body, keepAlive_fire_lines, keepAlive_onUrl, List.foldl_append]
    rfl
  rw [message_eq, keepAlive_onMessageComplete, hlines]

theorem message_ended :
    (r.message lib).isDecoding = false ∧ (r.message lib).type = httpRequest := by
  rw [message_eq]
  refine ⟨isDecoding_complete _, ?_⟩
  simp only [onMessageComplete, r.request, ne_eq, not_true_eq_false, if_false]
  split_ifs <;> rfl

end PersistentRequest

/-- A request that is decoded from a buffer of its own into a new message, and a response to it
that is encoded. -/
structure HttpExchange (lib : HttpEncodeLib) where
  request : PersistentRequest
  resp : HttpOut
  out : SocketBuffer := {}
  parses : lib.execute request.raw = ⟨request.calls, request.raw.length, true⟩
  unpacks : (unpack lib.toHttpLib (request.message lib.toHttpLib).view).isSome
  response : resp.type = httpResponse
  major : resp.httpMajor ≠ 0
  status : resp.statusCode ≠ 0
  size : 0 ≤ CInt.toInt resp.body.length
  out_wf : out.Wf

/-- The codec of a connection. -/
structure HttpServer where
  codec : CodecHttp := {}
  writer : HttpWriter := {}

/-- The buffer that holds the request. -/
def HttpExchange.buffer {lib : HttpEncodeLib} (e : HttpExchange lib) : SocketBuffer :=
  ⟨e.request.raw, 0, e.request.raw.length⟩

section Machine

variable (lib : HttpEncodeLib) (stray : ℕ)

/-- The codec after the request was decoded. -/
def HttpServer.decoded (s : HttpServer) (e : HttpExchange lib) : CodecHttp :=
  (s.codec.decode lib.toHttpLib e.buffer {}).2.1

/-- The request is decoded, and the response is encoded right after it. -/
def exchangeMachine : Machine HttpServer (HttpExchange lib) where
  step s e :=
    { codec := s.decoded lib e
      writer := ((s.decoded lib e).encode lib stray s.writer e.resp e.out).2.1 }

/-- The table that is printed for the response. -/
def HttpServer.table (s : HttpServer) (e : HttpExchange lib) : FiniteMap Bytes Bytes :=
  printedHeaders lib (s.decoded lib e) (s.writer.count (s.decoded lib e)) e.resp.toHttpMsg

/-- The response has the line `Connection: close`. -/
def HttpServer.Closes (s : HttpServer) (e : HttpExchange lib) : Prop :=
  ∃ header ∈ lib.visit (s.table lib e), headerLine header = text "Connection: close" ++ crlf

/-- The response says `close` if and only if the parser does not keep the connection open. -/
def Advertised (s : HttpServer) (e : HttpExchange lib) : Prop :=
  s.Closes lib e ↔ e.request.parser.shouldKeepAlive = false

/-- The response has a header `Connection` of its own that says so. Or it has none, and where the
connection is kept open, the headers of the request leave a positive number, or a negative one
while that of the codec is not zero. -/
def Persists (s : HttpServer) (e : HttpExchange lib) : Prop :=
  match e.resp.headers.lookup (text "Connection") with
  | some value => cStr value = text "close" ↔ e.request.parser.shouldKeepAlive = false
  | none => e.request.parser.shouldKeepAlive = true →
    if zero.le (e.request.keepAlive lib.toHttpLib) then
      (e.request.keepAlive lib.toHttpLib).isZero = false
    else s.codec.keepAlive.isZero = false

/-- The codec has not encoded more messages than it decoded. -/
structure HttpServer.Serves (s : HttpServer) : Prop where
  isClient : s.writer.isClient = false
  le : s.writer.encodeCnt ≤ s.codec.decodeCnt

end Machine

/-! ## One exchange -/

section Exchange

variable {lib : HttpEncodeLib} {stray : ℕ} {s : HttpServer}

/-- **The request is decoded**, and its number is taken over unless it is negative. -/
theorem decoded_spec (s : HttpServer) (e : HttpExchange lib) :
    (s.codec.decode lib.toHttpLib e.buffer {}).1 = .ok ∧
      (s.decoded lib e).decodeCnt = s.codec.decodeCnt + 1 ∧
      (s.decoded lib e).keepAlive =
        if zero.le (e.request.message lib.toHttpLib).keepAlive
        then (e.request.message lib.toHttpLib).keepAlive else s.codec.keepAlive := by
  obtain ⟨hended, htype⟩ := e.request.message_ended lib.toHttpLib
  have hread : e.buffer.isReadable = true := by
    rw [SocketBuffer.isReadable_iff]
    exact List.length_pos_of_ne_nil e.request.raw_ne
  have hcontents : e.buffer.contents = e.request.raw := by
    have h := SocketBuffer.contents_mk_append e.request.raw []
    rw [List.append_nil] at h
    exact h
  have hrun : lib.execute e.buffer.contents =
      ⟨e.request.calls, e.request.raw.length, true⟩ := by rw [hcontents, e.parses]
  have hfire : fire lib.toHttpLib e.request.calls {} = e.request.message lib.toHttpLib := rfl
  have hnote : ∀ codec : CodecHttp,
      codec.noteRequest (e.request.message lib.toHttpLib) =
        { codec with
          httpMajor := (e.request.message lib.toHttpLib).httpMajor
          httpMinor := (e.request.message lib.toHttpLib).httpMinor
          keepAlive := if zero.le (e.request.message lib.toHttpLib).keepAlive
            then (e.request.message lib.toHttpLib).keepAlive else codec.keepAlive } :=
    fun codec => if_pos htype
  have hunpacks := e.unpacks
  unfold unpack at hunpacks
  simp only [HttpServer.decoded, CodecHttp.decode, hread, hrun, hfire, hended, Bool.not_true,
    Bool.false_eq_true, if_false]
  cases hgzip : gzipped (e.request.message lib.toHttpLib).headers with
  | false =>
    rw [if_neg Bool.false_ne_true, hnote]
    exact ⟨rfl, rfl, rfl⟩
  | true =>
    have hview : gzipped (e.request.message lib.toHttpLib).view.headers = true := hgzip
    rw [if_pos hview, Option.isSome_map] at hunpacks
    obtain ⟨data, hdata⟩ := Option.isSome_iff_exists.mp hunpacks
    have hbody : lib.ungzip (e.request.message lib.toHttpLib).body = some data := hdata
    rw [if_pos rfl, hbody, hnote]
    exact ⟨rfl, rfl, rfl⟩

theorem encode_writer (lib : HttpEncodeLib) (stray : ℕ) (codec : CodecHttp)
    (writer : HttpWriter) (msg : HttpOut) (sbuf : SocketBuffer) :
    (codec.encode lib stray writer msg sbuf).2.1 = writer.count codec := by
  unfold CodecHttp.encode
  dsimp only
  split_ifs
  · rfl
  · cases startLines lib stray codec msg.toHttpMsg with
    | none => rfl
    | some lines =>
      dsimp only
      split <;> rfl

/-- **The response is encoded**, with the lines of its table in the text. -/
theorem encoded_spec (stray : ℕ) (s : HttpServer) (e : HttpExchange lib)
    (hidx : (s.decoded lib e).nulIndex lib stray s.writer e.resp e.out < 2147483648) :
    ((s.decoded lib e).encode lib stray s.writer e.resp e.out).1 = .ok ∧
      ∃ line, ((s.decoded lib e).encode lib stray s.writer e.resp e.out).2.2.contents =
        e.out.contents ++ (line ++ (lib.visit (s.table lib e)).flatMap headerLine ++
          lengthLine e.resp.body ++ e.resp.body) := by
  have hstart : ∃ line, startLines lib stray (s.decoded lib e) e.resp.toHttpMsg = some [line] := by
    unfold startLines responseStart
    rw [if_neg (by rw [e.response]; decide), if_pos e.response, if_neg e.status]
    exact ⟨_, rfl⟩
  obtain ⟨line, hline⟩ := hstart
  have hok := CodecHttp.encode_ok s.writer e.out e.major hline e.size
  obtain ⟨-, hcontents⟩ := CodecHttp.encode_contents e.out_wf e.major hline e.size hidx
  refine ⟨congrArg Prod.fst hok, line, ?_⟩
  rw [hcontents, encodedText, List.flatten_singleton]
  rfl

theorem serves_empty : HttpServer.Serves {} := ⟨rfl, le_rfl⟩

/-- A response is counted behind the request that it answers. -/
theorem HttpServer.Serves.counted (h : s.Serves) (e : HttpExchange lib) :
    (s.writer.count (s.decoded lib e)).isClient = false := by
  have hcnt := (decoded_spec s e).2.1
  have hle := h.le
  unfold HttpWriter.count
  rw [h.isClient, Bool.false_or, decide_eq_false_iff_not, hcnt]
  omega

theorem HttpServer.Serves.step (h : s.Serves) (e : HttpExchange lib) :
    ((exchangeMachine lib stray).step s e).Serves := by
  have hcnt := (decoded_spec s e).2.1
  have hwriter := encode_writer lib stray (s.decoded lib e) s.writer e.resp e.out
  constructor
  · change ((s.decoded lib e).encode lib stray s.writer e.resp e.out).2.1.isClient = false
    rw [hwriter]
    exact h.counted e
  · change ((s.decoded lib e).encode lib stray s.writer e.resp e.out).2.1.encodeCnt ≤
      (s.decoded lib e).decodeCnt
    rw [hwriter, hcnt]
    exact Nat.succ_le_succ h.le

/-- Of the names in the table, only `Connection` gives the line. -/
theorem headerLine_eq_close {name value : Bytes} {writer : HttpWriter}
    (hname : name ∈ ownNames writer) :
    headerLine (name, value) = text "Connection: close" ++ crlf ↔
      name = text "Connection" ∧ cStr value = text "close" := by
  have hclose : text "Connection: close" = text "Connection: " ++ text "close" := by decide
  have hprefix : cStr (text "Connection") ++ text ": " = text "Connection: " := by decide
  have hnames := mem_of_mem_ownNames hname
  unfold headerLine
  dsimp only
  constructor
  · intro hline
    simp only [List.mem_cons, List.not_mem_nil, or_false] at hnames
    rcases hnames with rfl | rfl | rfl
    · have hhead : (some 65 : Option UInt8) = some 67 := congrArg List.head? hline
      exact absurd hhead (by decide)
    · have hhead : (some 83 : Option UInt8) = some 67 := congrArg List.head? hline
      exact absurd hhead (by decide)
    · rw [hclose, hprefix] at hline
      exact ⟨rfl, List.append_cancel_left (List.append_cancel_right hline)⟩
  · rintro ⟨rfl, hvalue⟩
    rw [hvalue, hprefix, hclose]

/-- **When a response says `close`**: its own header says so, or the number of the codec is
zero. -/
theorem HttpServer.Serves.closes_iff (h : s.Serves) (e : HttpExchange lib) :
    s.Closes lib e ↔ cStr ((e.resp.headers.lookup (text "Connection")).getD
      (if (s.decoded lib e).keepAlive.isZero then text "close" else text "keep-alive")) =
        text "close" := by
  have hclient := h.counted e
  have hown : (ownHeaders (s.decoded lib e) (s.writer.count (s.decoded lib e))
      e.resp.toHttpMsg).lookup (text "Connection") =
        some (if (s.decoded lib e).keepAlive.isZero then text "close" else text "keep-alive") := by
    unfold ownHeaders
    rw [if_pos e.response, if_neg (by rw [hclient]; decide), FiniteMap.lookup_insert,
      if_neg (by decide), FiniteMap.lookup_insert, if_neg (by decide), FiniteMap.lookup_insert,
      if_pos rfl]
  constructor
  · rintro ⟨⟨name, value⟩, hmem, hline⟩
    obtain ⟨own, hlookup, rfl⟩ := mem_printedHeaders.mp hmem
    have hname := ((lookup_ownHeaders_isSome name).mp (by rw [hlookup]; rfl)).2
    obtain ⟨rfl, hvalue⟩ := (headerLine_eq_close hname).mp hline
    rw [hown] at hlookup
    rw [Option.some.inj hlookup]
    exact hvalue
  · intro hvalue
    refine ⟨_, mem_printedHeaders.mpr ⟨_, hown, rfl⟩, ?_⟩
    have hname := ((lookup_ownHeaders_isSome (text "Connection")).mp (by rw [hown]; rfl)).2
    exact (headerLine_eq_close hname).mpr ⟨rfl, hvalue⟩

/-- **One exchange.** -/
theorem HttpServer.Serves.advertised_iff (h : s.Serves) (e : HttpExchange lib) :
    Advertised lib s e ↔ Persists lib s e := by
  obtain ⟨-, -, hkeep⟩ := decoded_spec s e
  rw [PersistentRequest.keepAlive_fire] at hkeep
  have hclose : ∀ b : Bool, cStr (if b then text "close" else text "keep-alive") = text "close" ↔
      b = true := by decide
  unfold Advertised Persists
  rw [h.closes_iff e]
  cases e.resp.headers.lookup (text "Connection") with
  | some value => exact Iff.rfl
  | none =>
    dsimp only
    rw [Option.getD_none, hclose, hkeep]
    cases e.request.parser.shouldKeepAlive with
    | false =>
      -- the number is zero, and the response says `close`
      have hzero : zero.le zero = true ∧ zero.isZero = true := by decide
      rw [if_neg Bool.false_ne_true, if_pos hzero.1]
      exact iff_of_true (iff_of_true hzero.2 rfl) fun h => absurd h (by decide)
    | true =>
      rw [if_pos rfl]
      by_cases hle : zero.le (e.request.keepAlive lib.toHttpLib) = true
      · simp [hle]
      · simp [hle]

end Exchange

/-- **The advertised persistence is right exactly in these exchanges**: for every sequence of
requests of any version, with any header lines, and every response to each, the responses say
`Connection: close` exactly where the parser does not keep the connection open, if and only if in
each exchange the headers say so too. -/
theorem advertised_run_iff (lib : HttpEncodeLib) (stray : ℕ)
    (exchanges : List (HttpExchange lib)) :
    (exchangeMachine lib stray).Meets (Advertised lib) {} exchanges ↔
      (exchangeMachine lib stray).Meets (Persists lib) {} exchanges :=
  Machine.Meets.congr (I := HttpServer.Serves) (fun _ e h => h.advertised_iff e)
    (fun _ e h _ => h.step e) serves_empty exchanges

/-! ## A request without a header for it -/

/-- The parser of the sample requests, and the code that `encode` calls. -/
def sampleEncodeLib : HttpEncodeLib where
  toHttpLib := sampleLib
  urlFields url := (sampleLib.parseUrl url).map fun _ =>
    { host := none, path := some (0, url.length), query := none, port := none }
  gzip _ := none
  visit := byName
  parseUrl_eq := by
    intro url
    unfold sampleLib
    dsimp only
    split_ifs
    · rfl
    · simp [field]
  enumerates := enumerates_byName

/-- `GET /a` of HTTP/1.1 with the one header line `Host: h`. -/
def sampleRequest : PersistentRequest where
  raw := (sampleGet "/a").raw
  url := text "/a"
  headers := (sampleGet "/a").headers
  body := .identity []
  parser := ⟨0, 1, 1, 1, true⟩
  request := rfl
  raw_ne := by decide

/-- It is answered with `200`. -/
def sampleExchange : HttpExchange sampleEncodeLib where
  request := sampleRequest
  resp := { type := httpResponse, httpMajor := 1, httpMinor := 1, statusCode := 200 }
  parses := by decide +kernel
  unpacks := by decide +kernel
  response := rfl
  major := by decide
  status := by decide
  size := by decide
  out_wf := SocketBuffer.wf_empty

/-- The parser keeps the connection open, and the response says `close`. -/
theorem sampleExchange_closes :
    sampleExchange.request.parser.shouldKeepAlive = true ∧
      ¬ (exchangeMachine sampleEncodeLib 0).Meets (Advertised sampleEncodeLib) {}
        [sampleExchange] := by
  have hzero : (HttpServer.decoded sampleEncodeLib {} sampleExchange).keepAlive.isZero = true := by
    decide +kernel
  refine ⟨rfl, fun h => ?_⟩
  have hcloses : HttpServer.Closes sampleEncodeLib {} sampleExchange := by
    rw [serves_empty.closes_iff, hzero]
    decide
  exact absurd (h.1.mp hcloses) (by decide)

end Kimserver
