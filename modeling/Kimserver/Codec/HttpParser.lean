import Kimserver.Codec.HttpEncode
import Kimserver.Codec.UrlParser

/-!
# The HTTP parser

`http_parser_execute` is one loop with a `switch` over the state of the parser. A pointer into the
buffer is the part of the buffer that begins there; a mark is such a pointer, which a callback
gets with the number of bytes up to the current one.

Where the source goes to another state without reading a byte, the function of the one state calls
that of the other. The inner loops of `s_header_field` and `s_header_value` and the bodies skip
bytes: `skip` counts the bytes that the pointer has to pass before the next one is read.

The callbacks of `CodecHttp` return 0 and leave the parser alone, so no call ends a run.

## Main definitions

* `HttpParser`, `HttpExec`: `http_parser`, and the variables of a run
* `HttpExec.headerField`, `HttpExec.headerValue`: the states with a loop of their own
* `HttpExec.switch`, `httpParserLoop`, `httpParserExecute`: one byte, the loop, and the function
-/

namespace Kimserver

/-! ## Characters -/

/-- `TOKEN`, strict: the lower case of a token character, and 0 for the others. -/
def token (c : UInt8) : UInt8 :=
  if isAlpha c then lower c
  else if isNum c then c
  else if [33, 35, 36, 37, 38, 39, 42, 43, 45, 46, 94, 95, 96, 124, 126].contains c then c
  else 0

/-- `IS_HEADER_CHAR`. -/
def isHeaderChar (c : UInt8) : Bool := c = 13 || c = 10 || c = 9 || (31 < c && c ≠ 127)

/-- `unhex`. The table of 256 entries has 128 initializers, so the other bytes have the value 0. -/
def unhex (c : UInt8) : Option ℕ :=
  if isNum c then some (c.toNat - 48)
  else if isHex c then some ((lower c).toNat - 87)
  else if 128 ≤ c then some 0
  else none

/-- `ULLONG_MAX`. -/
def ullongMax : ℕ := 18446744073709551615

/-- A `uint32_t`. -/
def u32 (n : ℕ) : ℕ := n % 4294967296

/-- `HTTP_MAX_HEADER_SIZE`. -/
def httpMaxHeaderSize : ℕ := 80 * 1024

/-! ## The parser -/

/-- `PARSING_HEADER`: the states up to `s_headers_done`. -/
def ParserState.parsingHeader : ParserState → Bool
  | .chunkData | .chunkDataAlmostDone | .chunkDataDone | .bodyIdentity | .bodyIdentityEof
  | .messageDone => false
  | _ => true

/-- `enum header_states`. -/
inductive HeaderState
  | general | c | co | con
  | matchingConnection | matchingProxyConnection | matchingContentLength
  | matchingTransferEncoding | matchingUpgrade
  | connection | contentLength | contentLengthNum | contentLengthWs | transferEncoding | upgrade
  | matchingTransferEncodingChunked | matchingConnectionTokenStart
  | matchingConnectionKeepAlive | matchingConnectionClose | matchingConnectionUpgrade
  | matchingConnectionToken
  | transferEncodingChunked | connectionKeepAlive | connectionClose | connectionUpgrade
  deriving DecidableEq

/-- `enum http_parser_type`. -/
inductive HttpParserType
  | request | response | both
  deriving DecidableEq

/-- `enum http_errno`, as far as it is set. -/
inductive HttpErrno
  | ok | headerOverflow | closedConnection | invalidVersion | invalidStatus | invalidMethod
  | invalidUrl | lfExpected | invalidHeaderToken | invalidContentLength
  | unexpectedContentLength | invalidChunkSize | invalidConstant | strict
  deriving DecidableEq

/-- `enum flags`. -/
structure HttpFlags where
  chunked : Bool := false
  connectionKeepAlive : Bool := false
  connectionClose : Bool := false
  connectionUpgrade : Bool := false
  trailing : Bool := false
  upgrade : Bool := false
  skipBody : Bool := false
  contentLength : Bool := false
  deriving DecidableEq

/-- `http_parser` behind `http_parser_init`. A method is its number. -/
structure HttpParser where
  type : HttpParserType := .both
  flags : HttpFlags := {}
  state : ParserState := .startReqOrRes
  headerState : HeaderState := .general
  index : ℕ := 0
  nread : ℕ := 0
  contentLength : ℕ := 0
  httpMajor : ℕ := 0
  httpMinor : ℕ := 0
  statusCode : ℕ := 0
  method : ℕ := 0
  httpErrno : HttpErrno := .ok
  upgrade : Bool := false
  deriving DecidableEq

namespace HttpParser

variable (parser : HttpParser)

/-- `http_message_needs_eof`. -/
def messageNeedsEof : Bool :=
  if parser.type = .request then false
  else if parser.statusCode / 100 = 1 || parser.statusCode = 204 || parser.statusCode = 304 ||
      parser.flags.skipBody then false
  else if parser.flags.chunked || parser.contentLength ≠ ullongMax then false
  else true

/-- `http_should_keep_alive`. -/
def shouldKeepAlive : Bool :=
  if 0 < parser.httpMajor && 0 < parser.httpMinor then
    if parser.flags.connectionClose then false else !parser.messageNeedsEof
  else
    if !parser.flags.connectionKeepAlive then false else !parser.messageNeedsEof

/-- `start_state`. -/
def startState : ParserState := if parser.type = .request then .startReq else .startRes

/-- `NEW_MESSAGE`, strict. -/
def newMessage : ParserState := if parser.shouldKeepAlive then parser.startState else .dead

/-- What `on_message_complete` reads. -/
def fields : ParserFields where
  statusCode := parser.statusCode
  method := parser.method
  httpMajor := parser.httpMajor
  httpMinor := parser.httpMinor
  shouldKeepAlive := parser.shouldKeepAlive

end HttpParser

/-- The variables of a run, and the calls so far. -/
structure HttpExec extends HttpParser where
  headerFieldMark : Option Bytes := none
  headerValueMark : Option Bytes := none
  urlMark : Option Bytes := none
  bodyMark : Option Bytes := none
  statusMark : Option Bytes := none
  calls : List HttpCallback := []
  deriving DecidableEq

/-- How a turn of the loop ends: with a `break` at some byte, with a `return`, where the bytes
from some pointer on are not consumed, or with a failing assertion. -/
inductive Flow
  | goOn (e : HttpExec) (p : Bytes)
  | return_ (e : HttpExec) (p : Bytes)
  | abort
  deriving DecidableEq

/-- The bytes between two pointers. -/
def between (mark p : Bytes) : Bytes := mark.take (mark.length - p.length)

namespace HttpExec

variable (e : HttpExec) (p : Bytes)

/-! ## The macros -/

/-- `UPDATE_STATE`. -/
def goTo (s : ParserState) : HttpExec := { e with state := s }

/-- `SET_ERRNO` and `goto error`. -/
def fail (errno : HttpErrno) : Flow := .return_ { e with httpErrno := errno } p

/-- `CALLBACK_NOTIFY`. -/
def notify (call : HttpCallback) : HttpExec := { e with calls := e.calls ++ [call] }

/-- `CALLBACK_NOTIFY` of `on_message_complete`. -/
def notifyComplete : HttpExec := e.notify (.messageComplete e.fields)

/-- `CALLBACK_DATA` of `on_header_field`. -/
def dataHeaderField : HttpExec :=
  match e.headerFieldMark with
  | none => e
  | some mark => { e.notify (.headerField (between mark p)) with headerFieldMark := none }

/-- `CALLBACK_DATA` of `on_header_value`. -/
def dataHeaderValue : HttpExec :=
  match e.headerValueMark with
  | none => e
  | some mark => { e.notify (.headerValue (between mark p)) with headerValueMark := none }

/-- `CALLBACK_DATA` of `on_url`. -/
def dataUrl : HttpExec :=
  match e.urlMark with
  | none => e
  | some mark => { e.notify (.url (between mark p)) with urlMark := none }

/-- `CALLBACK_DATA` of `on_body`. -/
def dataBody : HttpExec :=
  match e.bodyMark with
  | none => e
  | some mark => { e.notify (.body (between mark p)) with bodyMark := none }

/-- `CALLBACK_DATA` of `on_status`, which reads the status code. -/
def dataStatus : HttpExec :=
  match e.statusMark with
  | none => e
  | some _ => { e.notify (.status e.statusCode) with statusMark := none }

/-- `COUNT_HEADER_SIZE`. -/
def countHeaderSize (n : ℕ) (k : HttpExec → Flow) : Flow :=
  let e := { e with nread := u32 (e.nread + n) }
  if httpMaxHeaderSize < e.nread then e.fail p .headerOverflow else k e

variable (ch : UInt8)

/-- A state that reads one character of a constant. -/
def constant (expected : UInt8) (errno : HttpErrno) (s : ParserState) : Flow :=
  if ch ≠ expected then e.fail p errno else .goOn (e.goTo s) p

/-- `flags = 0` and `content_length = ULLONG_MAX`. -/
def restart : HttpExec := { e with flags := {}, contentLength := ullongMax }

/-! ## The start of a message -/

/-- The method that a letter begins. -/
def firstMethod (ch : UInt8) : Option ℕ :=
  match ch.toNat with
  | 65 => some 19 -- 'A': ACL
  | 66 => some 16 -- 'B': BIND
  | 67 => some 5 -- 'C': CONNECT
  | 68 => some 0 -- 'D': DELETE
  | 71 => some 1 -- 'G': GET
  | 72 => some 2 -- 'H': HEAD
  | 76 => some 9 -- 'L': LOCK
  | 77 => some 10 -- 'M': MKCOL
  | 78 => some 25 -- 'N': NOTIFY
  | 79 => some 6 -- 'O': OPTIONS
  | 80 => some 3 -- 'P': POST
  | 82 => some 20 -- 'R': REPORT
  | 83 => some 26 -- 'S': SUBSCRIBE
  | 84 => some 7 -- 'T': TRACE
  | 85 => some 15 -- 'U': UNLOCK
  | _ => none

/-- The other method that a letter at a position makes of one. -/
def nextMethod (method index : ℕ) (ch : UInt8) : Option ℕ :=
  match method, index, ch.toNat with
  | 3, 1, 85 => some 4 -- POST, 'U': PUT
  | 3, 1, 65 => some 28 -- POST, 'A': PATCH
  | 3, 1, 82 => some 12 -- POST, 'R': PROPFIND
  | 4, 2, 82 => some 29 -- PUT, 'R': PURGE
  | 5, 1, 72 => some 22 -- CONNECT, 'H': CHECKOUT
  | 5, 2, 80 => some 8 -- CONNECT, 'P': COPY
  | 10, 1, 79 => some 11 -- MKCOL, 'O': MOVE
  | 10, 1, 69 => some 23 -- MKCOL, 'E': MERGE
  | 10, 1, 45 => some 24 -- MKCOL, '-': MSEARCH
  | 10, 2, 65 => some 21 -- MKCOL, 'A': MKACTIVITY
  | 10, 3, 65 => some 30 -- MKCOL, 'A': MKCALENDAR
  | 26, 1, 69 => some 14 -- SUBSCRIBE, 'E': SEARCH
  | 26, 1, 79 => some 33 -- SUBSCRIBE, 'O': SOURCE
  | 20, 2, 66 => some 17 -- REPORT, 'B': REBIND
  | 12, 4, 80 => some 13 -- PROPFIND, 'P': PROPPATCH
  | 9, 1, 73 => some 31 -- LOCK, 'I': LINK
  | 15, 2, 83 => some 27 -- UNLOCK, 'S': UNSUBSCRIBE
  | 15, 2, 66 => some 18 -- UNLOCK, 'B': UNBIND
  | 15, 3, 73 => some 32 -- UNLOCK, 'I': UNLINK
  | _, _, _ => none

/-- `s_start_req`. -/
def startReq : Flow :=
  if ch = 13 || ch = 10 then .goOn e p
  else
    let e := e.restart
    if !isAlpha ch then e.fail p .invalidMethod
    else match firstMethod ch with
      | none => { e with method := 0, index := 1 }.fail p .invalidMethod
      | some method =>
        .goOn ((({ e with method := method, index := 1 } : HttpExec).goTo .reqMethod).notify
          .messageBegin) p

/-- `s_start_req_or_res`. -/
def startReqOrRes : Flow :=
  if ch = 13 || ch = 10 then .goOn e p
  else
    let e := e.restart
    if ch = 72 then .goOn ((e.goTo .resOrRespH).notify .messageBegin) p
    else (({ e with type := .request } : HttpExec).goTo .startReq).startReq p ch

/-- `s_res_or_resp_H`. -/
def resOrRespH : Flow :=
  if ch = 84 then .goOn (({ e with type := .response } : HttpExec).goTo .resHT) p
  else if ch ≠ 69 then e.fail p .invalidConstant
  else .goOn (({ e with type := .request, method := 2, index := 2 } : HttpExec).goTo .reqMethod) p

/-- `s_start_res`. A line end begins a message, too. -/
def startRes : Flow :=
  let e := e.restart
  if ch = 72 then .goOn ((e.goTo .resH).notify .messageBegin) p
  else if ch = 13 || ch = 10 then .goOn (e.notify .messageBegin) p
  else e.fail p .invalidConstant

/-- `s_req_method`. -/
def reqMethod : Flow :=
  if ch = 0 then e.fail p .invalidMethod
  else
    let matcher := (httpMethodStr e.method).getD e.index 0
    if ch = 32 && matcher = 0 then
      .goOn (({ e with index := e.index + 1 } : HttpExec).goTo .reqSpacesBeforeUrl) p
    else if ch = matcher then .goOn { e with index := e.index + 1 } p
    else if (65 ≤ ch && ch ≤ 90) || ch = 45 then
      match nextMethod e.method e.index ch with
      | none => e.fail p .invalidMethod
      | some method => .goOn { e with method := method, index := e.index + 1 } p
    else e.fail p .invalidMethod

/-! ## The url -/

/-- The next state of the url. -/
def urlState (s : ParserState) : Flow :=
  let e := e.goTo (parseUrlChar s ch)
  if e.state = .dead then e.fail p .invalidUrl else .goOn e p

/-- `s_req_spaces_before_url`. -/
def reqSpacesBeforeUrl : Flow :=
  if ch = 32 then .goOn e p
  else
    let e := { e with urlMark := e.urlMark <|> some p }
    e.urlState p ch (if e.method = 5 then .reqServerStart else e.state)

/-- `s_req_schema` up to `s_req_server_start`. -/
def reqSchema : Flow :=
  if ch = 32 || ch = 13 || ch = 10 then e.fail p .invalidUrl else e.urlState p ch e.state

/-- `s_req_server` up to `s_req_fragment`. -/
def reqUrl : Flow :=
  if ch = 32 then .goOn ((e.goTo .reqHttpStart).dataUrl p) p
  else if ch = 13 || ch = 10 then
    let s := if ch = 13 then ParserState.reqLineAlmostDone else .headerFieldStart
    .goOn ((({ e with httpMajor := 0, httpMinor := 9 } : HttpExec).goTo s).dataUrl p) p
  else e.urlState p ch e.state

/-! ## The version and the status -/

/-- `s_req_http_start`. -/
def reqHttpStart : Flow :=
  if ch = 72 then .goOn (e.goTo .reqHttpH) p
  else if ch = 32 then .goOn e p
  else e.fail p .invalidConstant

/-- `s_req_http_major` and `s_res_http_major`. -/
def httpMajorChar (s : ParserState) : Flow :=
  if !isNum ch then e.fail p .invalidVersion
  else .goOn (({ e with httpMajor := ch.toNat - 48 } : HttpExec).goTo s) p

/-- `s_req_http_minor` and `s_res_http_minor`. -/
def httpMinorChar (s : ParserState) : Flow :=
  if !isNum ch then e.fail p .invalidVersion
  else .goOn (({ e with httpMinor := ch.toNat - 48 } : HttpExec).goTo s) p

/-- `s_req_http_end`. -/
def reqHttpEnd : Flow :=
  if ch = 13 then .goOn (e.goTo .reqLineAlmostDone) p
  else if ch = 10 then .goOn (e.goTo .headerFieldStart) p
  else e.fail p .invalidVersion

/-- `s_res_first_status_code`. -/
def resFirstStatusCode : Flow :=
  if !isNum ch then
    if ch = 32 then .goOn e p else e.fail p .invalidStatus
  else .goOn (({ e with statusCode := ch.toNat - 48 } : HttpExec).goTo .resStatusCode) p

/-- `s_res_status`. -/
def resStatus : Flow :=
  if ch = 13 then .goOn ((e.goTo .resLineAlmostDone).dataStatus) p
  else if ch = 10 then .goOn ((e.goTo .headerFieldStart).dataStatus) p
  else .goOn e p

/-- `s_res_status_start`. -/
def resStatusStart : Flow :=
  let e := ({ e with statusMark := e.statusMark <|> some p, index := 0 } : HttpExec).goTo .resStatus
  if ch = 13 || ch = 10 then e.resStatus p ch else .goOn e p

/-- `s_res_status_code`. -/
def resStatusCode : Flow :=
  if !isNum ch then
    if ch = 32 then .goOn (e.goTo .resStatusStart) p
    else if ch = 13 || ch = 10 then (e.goTo .resStatusStart).resStatusStart p ch
    else e.fail p .invalidStatus
  else
    let e := { e with statusCode := e.statusCode * 10 + (ch.toNat - 48) }
    if 999 < e.statusCode then e.fail p .invalidStatus else .goOn e p

/-! ## The end of a message -/

/-- `s_message_done`. -/
def messageDone : Flow :=
  let e := (e.goTo e.newMessage).notifyComplete
  if e.upgrade then .return_ e p.tail else .goOn e p

/-- `s_headers_done`. -/
def headersDone : Flow :=
  if ch ≠ 10 then e.fail p .strict
  else
    let e := { e with nread := 0 }
    let hasBody := e.flags.chunked || (0 < e.contentLength && e.contentLength ≠ ullongMax)
    if e.upgrade && (e.method = 5 || e.flags.skipBody || !hasBody) then
      .return_ (e.goTo e.newMessage).notifyComplete p.tail
    else if e.flags.skipBody then .goOn (e.goTo e.newMessage).notifyComplete p
    else if e.flags.chunked then .goOn (e.goTo .chunkSizeStart) p
    else if e.contentLength = 0 then .goOn (e.goTo e.newMessage).notifyComplete p
    else if e.contentLength ≠ ullongMax then .goOn (e.goTo .bodyIdentity) p
    else if !e.messageNeedsEof then .goOn (e.goTo e.newMessage).notifyComplete p
    else .goOn (e.goTo .bodyIdentityEof) p

/-- `parser->upgrade` at the end of the headers. -/
def asksUpgrade : Bool :=
  if e.flags.upgrade && e.flags.connectionUpgrade then e.type = .request || e.statusCode = 101
  else e.method = 5

/-- `s_headers_almost_done`. -/
def headersAlmostDone : Flow :=
  if ch ≠ 10 then e.fail p .strict
  else if e.flags.trailing then ((e.goTo .messageDone).notify .chunkComplete).messageDone p
  else if e.flags.chunked && e.flags.contentLength then e.fail p .unexpectedContentLength
  else
    let e := { e with state := .headersDone, upgrade := e.asksUpgrade }
    (e.notify .headersComplete).headersDone p ch

/-! ## The headers -/

/-- The states of a name, by its first letter. -/
def firstHeaderState (c : UInt8) : HeaderState :=
  if c = 99 then .c -- 'c'
  else if c = 112 then .matchingProxyConnection -- 'p'
  else if c = 116 then .matchingTransferEncoding -- 't'
  else if c = 117 then .matchingUpgrade -- 'u'
  else .general

/-- `s_header_field_start`. -/
def headerFieldStart : Flow :=
  if ch = 13 then .goOn (e.goTo .headersAlmostDone) p
  else if ch = 10 then (e.goTo .headersAlmostDone).headersAlmostDone p ch
  else if token ch = 0 then e.fail p .invalidHeaderToken
  else .goOn { e with headerFieldMark := e.headerFieldMark <|> some p, index := 0,
                      state := .headerField, headerState := firstHeaderState (token ch) } p

end HttpExec

/-- A state that compares with a word: the next state and the next index. -/
def matchWord (word : Bytes) (self matched other : HeaderState) (index : ℕ) (c : UInt8) :
    HeaderState × ℕ :=
  let index := index + 1
  if word.length < index || c ≠ word.getD index 0 then (other, index)
  else if index = word.length - 1 then (matched, index)
  else (self, index)

/-- `h_matching_connection`. -/
def matchConnection : ℕ → UInt8 → HeaderState × ℕ :=
  matchWord (text "connection") .matchingConnection .connection .general

/-- `h_matching_proxy_connection`. -/
def matchProxyConnection : ℕ → UInt8 → HeaderState × ℕ :=
  matchWord (text "proxy-connection") .matchingProxyConnection .connection .general

/-- `h_matching_content_length`. -/
def matchContentLength : ℕ → UInt8 → HeaderState × ℕ :=
  matchWord (text "content-length") .matchingContentLength .contentLength .general

/-- `h_matching_transfer_encoding`. -/
def matchTransferEncoding : ℕ → UInt8 → HeaderState × ℕ :=
  matchWord (text "transfer-encoding") .matchingTransferEncoding .transferEncoding .general

/-- `h_matching_upgrade`. -/
def matchUpgrade : ℕ → UInt8 → HeaderState × ℕ :=
  matchWord (text "upgrade") .matchingUpgrade .upgrade .general

/-- The `switch` of the loop over a name, apart from `h_general`; `c` is the token of the
character. The other states fail an assertion. -/
def fieldChar (h : HeaderState) (index : ℕ) (ch c : UInt8) : Option (HeaderState × ℕ) :=
  match h with
  | .general => some (.general, index)
  | .c => some (if c = 111 then .co else .general, index + 1)
  | .co => some (if c = 110 then .con else .general, index + 1)
  | .con =>
    some (if c = 110 then .matchingConnection else if c = 116 then .matchingContentLength
      else .general, index + 1)
  | .matchingConnection => some (matchConnection index c)
  | .matchingProxyConnection => some (matchProxyConnection index c)
  | .matchingContentLength => some (matchContentLength index c)
  | .matchingTransferEncoding => some (matchTransferEncoding index c)
  | .matchingUpgrade => some (matchUpgrade index c)
  | .connection | .contentLength | .transferEncoding | .upgrade =>
    some (if ch ≠ 32 then .general else h, index)
  | _ => none

/-- The token characters that `h_general` skips. They end in front of `data + limit`, where
`limit` is counted from the current byte; `len` is the length of the buffer. -/
def generalTokens (len : ℕ) (p : Bytes) : ℕ :=
  let limit := min p.length httpMaxHeaderSize
  ((p.tail.take (limit - (len - p.length + 1))).takeWhile (token · ≠ 0)).length

/-- The loop over a name. -/
def headerFieldLoop (len : ℕ) : ℕ → HeaderState → ℕ → Bytes → Option (HeaderState × ℕ × Bytes)
  | _, h, index, [] => some (h, index, [])
  | skip + 1, h, index, _ :: rest => headerFieldLoop len skip h index rest
  | 0, h, index, ch :: rest =>
    if token ch = 0 then some (h, index, ch :: rest)
    else if h = .general then headerFieldLoop len (generalTokens len (ch :: rest)) h index rest
    else (fieldChar h index ch (token ch)).bind fun s => headerFieldLoop len 0 s.1 s.2 rest

/-- How the loop over a value ends: at a `'\r'`, at a `'\n'`, behind the last byte, at a byte that
is an error, or with a failing assertion. -/
inductive ValueEnd
  | cr (e : HttpExec) (p : Bytes)
  | lf (e : HttpExec) (p : Bytes)
  | last (e : HttpExec)
  | error (e : HttpExec) (p : Bytes) (errno : HttpErrno)
  | abort
  deriving DecidableEq

/-- What a byte of a value does. -/
inductive ValueChar
  | next (h : HeaderState) (e : HttpExec)
  | error (errno : HttpErrno)
  | abort
  deriving DecidableEq

namespace HttpExec

variable (e : HttpExec) (p : Bytes) (ch : UInt8)

/-- The index is kept in the parser. -/
def matched (s : HeaderState × ℕ) : ValueChar := .next s.1 { e with index := s.2 }

/-- `h_content_length_num`. -/
def contentLengthNum : ValueChar :=
  if ch = 32 then .next .contentLengthWs e
  else if !isNum ch then .error .invalidContentLength
  else if (ullongMax - 10) / 10 < e.contentLength then .error .invalidContentLength
  else .next .contentLengthNum { e with contentLength := e.contentLength * 10 + (ch.toNat - 48) }

/-- `h_matching_connection_token_start`. -/
def connectionTokenStart (c : UInt8) : HeaderState :=
  if c = 107 then .matchingConnectionKeepAlive -- 'k'
  else if c = 99 then .matchingConnectionClose -- 'c'
  else if c = 117 then .matchingConnectionUpgrade -- 'u'
  else if token c ≠ 0 then .matchingConnectionToken
  else if c = 32 || c = 9 then .matchingConnectionTokenStart
  else .general

/-- The flag of a token of a connection. -/
def setConnection (h : HeaderState) (flags : HttpFlags) : HttpFlags :=
  match h with
  | .connectionKeepAlive => { flags with connectionKeepAlive := true }
  | .connectionClose => { flags with connectionClose := true }
  | .connectionUpgrade => { flags with connectionUpgrade := true }
  | _ => flags

/-- The `switch` of the loop over a value, apart from `h_general`; `c` is the lower case of the
character. -/
def valueChar (h : HeaderState) (c : UInt8) : ValueChar :=
  match h with
  | .general => .next .general e
  | .connection | .transferEncoding => .abort
  | .contentLength => if ch = 32 then .next h e else e.contentLengthNum ch
  | .contentLengthNum => e.contentLengthNum ch
  | .contentLengthWs => if ch = 32 then .next h e else .error .invalidContentLength
  | .matchingTransferEncodingChunked =>
    e.matched (matchWord (text "chunked") h .transferEncodingChunked .general e.index c)
  | .matchingConnectionTokenStart => .next (connectionTokenStart c) e
  | .matchingConnectionKeepAlive =>
    e.matched (matchWord (text "keep-alive") h .connectionKeepAlive .matchingConnectionToken
      e.index c)
  | .matchingConnectionClose =>
    e.matched (matchWord (text "close") h .connectionClose .matchingConnectionToken e.index c)
  | .matchingConnectionUpgrade =>
    e.matched (matchWord (text "upgrade") h .connectionUpgrade .matchingConnectionToken e.index c)
  | .matchingConnectionToken =>
    if ch = 44 then .next .matchingConnectionTokenStart { e with index := 0 } else .next h e
  | .transferEncodingChunked => .next (if ch ≠ 32 then .general else h) e
  | .connectionKeepAlive | .connectionClose | .connectionUpgrade =>
    if ch = 44 then
      .next .matchingConnectionTokenStart { e with flags := setConnection h e.flags, index := 0 }
    else .next (if ch ≠ 32 then .matchingConnectionToken else h) e
  | _ => .next .general (e.goTo .headerValue)

end HttpExec

/-- `memchr`. -/
def memchr (p : Bytes) (c : UInt8) (limit : ℕ) : Option ℕ := (p.take limit).findIdx? (· = c)

/-- The bytes that `h_general` skips up to the end of a value. None is found behind `limit`; then
all bytes are skipped. -/
def generalValue (p : Bytes) : ℕ :=
  let limit := min p.length httpMaxHeaderSize
  match memchr p 13 limit, memchr p 10 limit with
  | some cr, some lf => (if lf ≤ cr then lf else cr) - 1
  | some cr, none => cr - 1
  | none, some lf => lf - 1
  | none, none => p.length - 1

/-- The loop over a value; `h` is the state of the value. -/
def headerValueLoop : ℕ → HeaderState → HttpExec → Bytes → ValueEnd
  | _, h, e, [] => .last { e with headerState := h }
  | skip + 1, h, e, _ :: rest => headerValueLoop skip h e rest
  | 0, h, e, ch :: rest =>
    if ch = 13 then
      .cr (({ e with headerState := h } : HttpExec).goTo .headerAlmostDone |>.dataHeaderValue
        (ch :: rest)) (ch :: rest)
    else if ch = 10 then .lf (({ e with headerState := h } : HttpExec).goTo .headerAlmostDone)
      (ch :: rest)
    else if !isHeaderChar ch then .error e (ch :: rest) .invalidHeaderToken
    else if h = .general then headerValueLoop (generalValue (ch :: rest)) h e rest
    else match e.valueChar ch h (lower ch) with
      | .next h e => headerValueLoop 0 h e rest
      | .error errno => .error e (ch :: rest) errno
      | .abort => .abort

namespace HttpExec

variable (e : HttpExec) (p : Bytes) (ch : UInt8)

/-- `--p` behind the last byte. -/
def lastByte (p : Bytes) : Bytes := p.drop (p.length - 1)

/-- `s_header_field`; `len` is the length of the buffer. -/
def headerField (len : ℕ) : Flow :=
  match headerFieldLoop len 0 e.headerState e.index p with
  | none => .abort
  | some (h, index, []) =>
    ({ e with headerState := h, index := index } : HttpExec).countHeaderSize (lastByte p)
      (p.length - (lastByte p).length) fun e => .goOn e (lastByte p)
  | some (h, index, ch :: rest) =>
    ({ e with headerState := h, index := index } : HttpExec).countHeaderSize (ch :: rest)
      (p.length - (ch :: rest).length) fun e =>
        if ch = 58 then
          .goOn ((e.goTo .headerValueDiscardWs).dataHeaderField (ch :: rest)) (ch :: rest)
        else e.fail (ch :: rest) .invalidHeaderToken

/-- `s_header_value_start`. -/
def headerValueStart : Flow :=
  let e := { e with headerValueMark := e.headerValueMark <|> some p, state := .headerValue,
                    index := 0 }
  let c := lower ch
  match e.headerState with
  | .upgrade => .goOn { e with flags.upgrade := true, headerState := .general } p
  | .transferEncoding =>
    .goOn { e with headerState := if c = 99 then .matchingTransferEncodingChunked
                                  else .general } p
  | .contentLength =>
    if !isNum ch then e.fail p .invalidContentLength
    else if e.flags.contentLength then e.fail p .unexpectedContentLength
    else .goOn { e with flags.contentLength := true, contentLength := ch.toNat - 48,
                        headerState := .contentLengthNum } p
  | .connection =>
    .goOn { e with headerState := if c = 107 then .matchingConnectionKeepAlive
                                  else if c = 99 then .matchingConnectionClose
                                  else if c = 117 then .matchingConnectionUpgrade
                                  else .matchingConnectionToken } p
  | .matchingConnectionTokenStart => .goOn e p
  | _ => .goOn { e with headerState := .general } p

/-- `s_header_value_discard_ws`. -/
def headerValueDiscardWs : Flow :=
  if ch = 32 || ch = 9 then .goOn e p
  else if ch = 13 then .goOn (e.goTo .headerValueDiscardWsAlmostDone) p
  else if ch = 10 then .goOn (e.goTo .headerValueDiscardLws) p
  else e.headerValueStart p ch

/-- `s_header_almost_done`. -/
def headerAlmostDone : Flow := e.constant p ch 10 .lfExpected .headerValueLws

/-- `s_header_value`. -/
def headerValue : Flow :=
  match headerValueLoop 0 e.headerState e p with
  | .cr e q => e.countHeaderSize q (p.length - q.length) fun e => .goOn e q
  | .lf e q =>
    e.countHeaderSize q (p.length - q.length) fun e => (e.dataHeaderValue q).headerAlmostDone q 10
  | .last e =>
    e.countHeaderSize (lastByte p) (p.length - (lastByte p).length) fun e => .goOn e (lastByte p)
  | .error e q errno => e.fail q errno
  | .abort => .abort

/-- The flag that a finished value sets. -/
def setFinished : HttpFlags :=
  if e.headerState = .transferEncodingChunked then { e.flags with chunked := true }
  else setConnection e.headerState e.flags

/-- `s_header_value_lws`. -/
def headerValueLws : Flow :=
  if ch = 32 || ch = 9 then (e.goTo .headerValueStart).headerValueStart p ch
  else (({ e with flags := e.setFinished } : HttpExec).goTo .headerFieldStart).headerFieldStart p ch

/-- `s_header_value_discard_lws`. -/
def headerValueDiscardLws : Flow :=
  if ch = 32 || ch = 9 then .goOn (e.goTo .headerValueDiscardWs) p
  else
    -- the value is empty
    let e := { e with flags := e.setFinished, headerValueMark := e.headerValueMark <|> some p }
    ((e.goTo .headerFieldStart).dataHeaderValue p).headerFieldStart p ch

/-! ## The body -/

/-- `s_body_identity`. -/
def bodyIdentity : Flow :=
  if e.contentLength = 0 || e.contentLength = ullongMax then .abort
  else
    let toRead := min e.contentLength p.length
    let e := { e with bodyMark := e.bodyMark <|> some p, contentLength := e.contentLength - toRead }
    let p := p.drop (toRead - 1)
    if e.contentLength = 0 then ((e.goTo .messageDone).dataBody p.tail).messageDone p
    else .goOn e p

/-- `s_body_identity_eof`. -/
def bodyIdentityEof : Flow :=
  .goOn { e with bodyMark := e.bodyMark <|> some p } (lastByte p)

/-- `s_chunk_size_start`. -/
def chunkSizeStart : Flow :=
  if e.nread ≠ 1 || !e.flags.chunked then .abort
  else match unhex ch with
    | none => e.fail p .invalidChunkSize
    | some v => .goOn (({ e with contentLength := v } : HttpExec).goTo .chunkSize) p

/-- `s_chunk_size`. -/
def chunkSize : Flow :=
  if !e.flags.chunked then .abort
  else if ch = 13 then .goOn (e.goTo .chunkSizeAlmostDone) p
  else match unhex ch with
    | none =>
      if ch = 59 || ch = 32 then .goOn (e.goTo .chunkParameters) p else e.fail p .invalidChunkSize
    | some v =>
      if (ullongMax - 16) / 16 < e.contentLength then e.fail p .invalidContentLength
      else .goOn { e with contentLength := e.contentLength * 16 + v } p

/-- `s_chunk_parameters`. -/
def chunkParameters : Flow :=
  if !e.flags.chunked then .abort
  else if ch = 13 then .goOn (e.goTo .chunkSizeAlmostDone) p
  else .goOn e p

/-- `s_chunk_size_almost_done`. -/
def chunkSizeAlmostDone : Flow :=
  if !e.flags.chunked then .abort
  else if ch ≠ 10 then e.fail p .strict
  else
    let e := { e with nread := 0 }
    let e := if e.contentLength = 0 then
        { e with flags.trailing := true, state := .headerFieldStart }
      else e.goTo .chunkData
    .goOn (e.notify .chunkHeader) p

/-- `s_chunk_data`. -/
def chunkData : Flow :=
  if !e.flags.chunked || e.contentLength = 0 || e.contentLength = ullongMax then .abort
  else
    let toRead := min e.contentLength p.length
    let e := { e with bodyMark := e.bodyMark <|> some p, contentLength := e.contentLength - toRead }
    let p := p.drop (toRead - 1)
    if e.contentLength = 0 then .goOn (e.goTo .chunkDataAlmostDone) p else .goOn e p

/-- `s_chunk_data_almost_done`. -/
def chunkDataAlmostDone : Flow :=
  if !e.flags.chunked || e.contentLength ≠ 0 then .abort
  else if ch ≠ 13 then e.fail p .strict
  else .goOn ((e.goTo .chunkDataDone).dataBody p) p

/-- `s_chunk_data_done`. -/
def chunkDataDone : Flow :=
  if !e.flags.chunked then .abort
  else if ch ≠ 10 then e.fail p .strict
  else .goOn ((({ e with nread := 0 } : HttpExec).goTo .chunkSizeStart).notify .chunkComplete) p

/-- `s_dead`. -/
def dead : Flow := if ch = 13 || ch = 10 then .goOn e p else e.fail p .closedConnection

/-! ## The loop -/

/-- The `switch`. -/
def switch (len : ℕ) : Flow :=
  match e.state with
  | .dead => e.dead p ch
  | .startReqOrRes => e.startReqOrRes p ch
  | .resOrRespH => e.resOrRespH p ch
  | .startRes => e.startRes p ch
  | .resH => e.constant p ch 84 .strict .resHT -- 'T'
  | .resHT => e.constant p ch 84 .strict .resHTT
  | .resHTT => e.constant p ch 80 .strict .resHTTP -- 'P'
  | .resHTTP => e.constant p ch 47 .strict .resHttpMajor -- '/'
  | .resHttpMajor => e.httpMajorChar p ch .resHttpDot
  | .resHttpDot => e.constant p ch 46 .invalidVersion .resHttpMinor -- '.'
  | .resHttpMinor => e.httpMinorChar p ch .resHttpEnd
  | .resHttpEnd => e.constant p ch 32 .invalidVersion .resFirstStatusCode -- ' '
  | .resFirstStatusCode => e.resFirstStatusCode p ch
  | .resStatusCode => e.resStatusCode p ch
  | .resStatusStart => e.resStatusStart p ch
  | .resStatus => e.resStatus p ch
  | .resLineAlmostDone => e.constant p ch 10 .strict .headerFieldStart
  | .startReq => e.startReq p ch
  | .reqMethod => e.reqMethod p ch
  | .reqSpacesBeforeUrl => e.reqSpacesBeforeUrl p ch
  | .reqSchema | .reqSchemaSlash | .reqSchemaSlashSlash | .reqServerStart => e.reqSchema p ch
  | .reqServer | .reqServerWithAt | .reqPath | .reqQueryStringStart | .reqQueryString
  | .reqFragmentStart | .reqFragment => e.reqUrl p ch
  | .reqHttpStart => e.reqHttpStart p ch
  | .reqHttpH => e.constant p ch 84 .strict .reqHttpHT
  | .reqHttpHT => e.constant p ch 84 .strict .reqHttpHTT
  | .reqHttpHTT => e.constant p ch 80 .strict .reqHttpHTTP
  | .reqHttpHTTP => e.constant p ch 47 .strict .reqHttpMajor
  | .reqHttpMajor => e.httpMajorChar p ch .reqHttpDot
  | .reqHttpDot => e.constant p ch 46 .invalidVersion .reqHttpMinor
  | .reqHttpMinor => e.httpMinorChar p ch .reqHttpEnd
  | .reqHttpEnd => e.reqHttpEnd p ch
  | .reqLineAlmostDone => e.constant p ch 10 .lfExpected .headerFieldStart
  | .headerFieldStart => e.headerFieldStart p ch
  | .headerField => e.headerField p len
  | .headerValueDiscardWs => e.headerValueDiscardWs p ch
  | .headerValueDiscardWsAlmostDone => e.constant p ch 10 .strict .headerValueDiscardLws
  | .headerValueDiscardLws => e.headerValueDiscardLws p ch
  | .headerValueStart => e.headerValueStart p ch
  | .headerValue => e.headerValue p
  | .headerValueLws => e.headerValueLws p ch
  | .headerAlmostDone => e.headerAlmostDone p ch
  | .chunkSizeStart => e.chunkSizeStart p ch
  | .chunkSize => e.chunkSize p ch
  | .chunkParameters => e.chunkParameters p ch
  | .chunkSizeAlmostDone => e.chunkSizeAlmostDone p ch
  | .headersAlmostDone => e.headersAlmostDone p ch
  | .headersDone => e.headersDone p ch
  | .chunkData => e.chunkData p
  | .chunkDataAlmostDone => e.chunkDataAlmostDone p ch
  | .chunkDataDone => e.chunkDataDone p ch
  | .bodyIdentity => e.bodyIdentity p
  | .bodyIdentityEof => e.bodyIdentityEof p
  | .messageDone => e.messageDone p

/-- One turn of the loop. -/
def turn (len : ℕ) : Flow :=
  if e.state.parsingHeader then e.countHeaderSize p 1 fun e => e.switch p ch len
  else e.switch p ch len

/-- The number of marks that are set. -/
def marks : ℕ :=
  e.headerFieldMark.toList.length + e.headerValueMark.toList.length + e.urlMark.toList.length +
    e.bodyMark.toList.length + e.statusMark.toList.length

/-- The calls for the marks that are left. -/
def flush : HttpExec :=
  ((((e.dataHeaderField []).dataHeaderValue []).dataUrl []).dataBody []).dataStatus

end HttpExec

/-- The end of a run: what it leaves and the number of bytes it consumed, or an assertion that
failed. -/
abbrev HttpEnd := Option (HttpExec × ℕ)

/-- The loop over the bytes. -/
def httpParserLoop (len : ℕ) : ℕ → HttpExec → Bytes → HttpEnd
  | _, e, [] => if e.marks ≤ 1 then some (e.flush, len) else none
  | skip + 1, e, _ :: rest => httpParserLoop len skip e rest
  | 0, e, ch :: rest =>
    match e.turn (ch :: rest) ch len with
    | .goOn e p => httpParserLoop len ((ch :: rest).length - p.length) e rest
    | .return_ e p => some (e, len - p.length)
    | .abort => none

/-- `http_parser_execute` behind `http_parser_init`. In this state an empty buffer is nothing. -/
def httpParserExecute (data : Bytes) : HttpEnd := httpParserLoop data.length 0 {} data

/-! ## The loops with their short cuts -/

/-- The loop over a name without the short cut. -/
def plainFieldLoop : HeaderState → ℕ → Bytes → Option (HeaderState × ℕ × Bytes)
  | h, index, [] => some (h, index, [])
  | h, index, ch :: rest =>
    if token ch = 0 then some (h, index, ch :: rest)
    else (fieldChar h index ch (token ch)).bind fun s => plainFieldLoop s.1 s.2 rest

end Kimserver
