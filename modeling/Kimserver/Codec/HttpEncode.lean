import Kimserver.Codec.Http
import Kimserver.Lib.OrderedMap
import Kimserver.Util.WriteIndex

/-!
# Encoding HTTP messages

`CodecHttp::encode` prints the start line, the lines of its own table of headers, the length of
the body, and the body. A header of the message is printed only where the table has one of its
name: the table of a request is empty, and that of a response has `Connection`, `Allow` and
`Server`. The encodings that the table could ask for are therefore never used.

The table is empty between two calls, as every return clears it. No allocation fails.

The NUL behind the text is taken back through an `int write_index`. So what `encode` leaves is the
text only while the write index behind the NUL is below `2 ^ 31`.

## Main definitions

* `UrlFields`, `HttpEncodeLib`: what `http_parser_parse_url` finds, and the code that is called
* `HttpWriter`: the members of `CodecHttp` that only `encode` uses
* `requestStart`, `responseStart`: the first lines, and the table
* `mergeHeaders`: the headers of the message in the table
* `CodecHttp.encode`: `CodecHttp::encode`
* `printedTexts`, `CodecHttp.nulIndex`: the lines of a message, and where its text ends

## Main results

* `lookup_mergeHeaders`: what the table has after the headers of the message were merged
* `CodecHttp.encode_ok`, `CodecHttp.encode_inv`: what `encode` does, and what it accepts
* `CodecHttp.encode_contents`, `CodecHttp.encode_lost`: the text is appended, or it is lost
-/

namespace Kimserver

/-! ## Names and numbers -/

/-- `%u` of an `int`. -/
def unsignedText (n : ℤ) : Bytes := natToDecimal (CInt.toUInt32 n).toNat

/-- The character of a hexadecimal digit. -/
def hexChar (d : ℕ) : UInt8 := if d < 10 then digitChar d else UInt8.ofNat (87 + d)

/-- `%x` of an `unsigned int`. -/
def hexText (n : ℕ) : Bytes :=
  if n = 0 then [digitChar 0] else (Nat.digits 16 n).reverse.map hexChar

def crlf : Bytes := [13, 10]

/-- `status_string`, and what `%s` prints of a null pointer. -/
def statusString (code : ℤ) : Bytes :=
  match code with
  | 100 => text "Continue"
  | 101 => text "Switching Protocols"
  | 102 => text "Processing"
  | 200 => text "OK"
  | 201 => text "Created"
  | 202 => text "Accepted"
  | 203 => text "Non-Authoritative Information"
  | 204 => text "No Content"
  | 205 => text "Reset Content"
  | 206 => text "Partial Content"
  | 207 => text "Multi-Status"
  | 300 => text "Multiple Choices"
  | 301 => text "Moved Permanently"
  | 302 => text "Moved Temporarily"
  | 303 => text "See Other"
  | 304 => text "Not Modified"
  | 305 => text "Use Proxy"
  | 307 => text "Temporary Redirect"
  | 400 => text "Bad Request"
  | 401 => text "Unauthorized"
  | 402 => text "Payment Required"
  | 403 => text "Forbidden"
  | 404 => text "Not Found"
  | 405 => text "Method Not Allowed"
  | 406 => text "Not Acceptable"
  | 407 => text "Proxy Authentication Required"
  | 408 => text "Request Time-out"
  | 409 => text "Conflict"
  | 410 => text "Gone"
  | 411 => text "Length Required"
  | 412 => text "Precondition Failed"
  | 413 => text "Request Entity Too Large"
  | 414 => text "Request-URI Too Large"
  | 415 => text "Unsupported Media Type"
  | 416 => text "Requested Range Not Satisfiable"
  | 417 => text "Expectation Failed"
  | 418 => text "I\"m a teapot"
  | 422 => text "Unprocessable Entity"
  | 423 => text "Locked"
  | 424 => text "Failed Dependency"
  | 425 => text "Unordered Collection"
  | 426 => text "Upgrade Required"
  | 500 => text "Internal Server Error"
  | 501 => text "Not Implemented"
  | 502 => text "Bad Gateway"
  | 503 => text "Service Unavailable"
  | 504 => text "Gateway Time-out"
  | 505 => text "HTTP Version not supported"
  | 506 => text "Variant Also Negotiates"
  | 507 => text "Insufficient Storage"
  | 509 => text "Bandwidth Limit Exceeded"
  | 510 => text "Not Extended"
  | _ => text "(null)"

/-- `HTTP_METHOD_MAP`, in the order of the numbers. -/
def httpMethods : List String :=
  ["DELETE", "GET", "HEAD", "POST", "PUT", "CONNECT", "OPTIONS", "TRACE", "COPY", "LOCK", "MKCOL",
    "MOVE", "PROPFIND", "PROPPATCH", "SEARCH", "UNLOCK", "BIND", "REBIND", "UNBIND", "ACL",
    "REPORT", "MKACTIVITY", "CHECKOUT", "MERGE", "M - SEARCH", "NOTIFY", "SUBSCRIBE",
    "UNSUBSCRIBE", "PATCH", "PURGE", "MKCALENDAR", "LINK", "UNLINK", "SOURCE"]

/-- `http_method_str`; a negative number is a large one. -/
def httpMethodStr (method : ℤ) : Bytes :=
  text ((httpMethods[(CInt.toUInt32 method).toNat]?).getD "<unknown>")

/-! ## The code that is called -/

/-- `http_parser_url`: where the fields that are set lie in the url, and the port. -/
structure UrlFields where
  host : Option (ℕ × ℕ)
  path : Option (ℕ × ℕ)
  query : Option (ℕ × ℕ)
  port : Option ℕ
  deriving DecidableEq

/-- `substr` of a field. -/
def field (url : Bytes) (at_ : ℕ × ℕ) : Bytes := (url.drop at_.1).take at_.2

/-- The code that `encode` and `decode` call. `urlFields` is `http_parser_parse_url`, `gzip` fails
with `none`, and `visit` is the order of an iteration over a table. -/
structure HttpEncodeLib extends HttpLib where
  urlFields : Bytes → Option UrlFields
  gzip : Bytes → Option Bytes
  visit : FiniteMap Bytes Bytes → List (Bytes × Bytes)
  parseUrl_eq : ∀ url, parseUrl url =
    (urlFields url).map fun f => ⟨f.path.map (field url), f.query.map (field url)⟩
  enumerates : ∀ t, FiniteMap.Enumerates t (visit t)

/-- A table in the order of its names, as an iteration may visit it. -/
def byName (t : FiniteMap Bytes Bytes) : List (Bytes × Bytes) := FiniteMap.sorted (· ≤ ·) t

theorem enumerates_byName (t : FiniteMap Bytes Bytes) : FiniteMap.Enumerates t (byName t) :=
  FiniteMap.enumerates_sorted _ t

/-! ## The message and its headers -/

/-- A message as `encode` reads it. -/
structure HttpOut extends HttpMsg where
  encoding : ℤ := 0

/-- `m_encode_cnt` and `m_is_client`. -/
structure HttpWriter where
  encodeCnt : ℕ := 0
  isClient : Bool := false
  deriving DecidableEq

/-- A codec that has encoded more messages than it decoded is one of a client. -/
def HttpWriter.count (writer : HttpWriter) (codec : CodecHttp) : HttpWriter where
  encodeCnt := writer.encodeCnt + 1
  isClient := writer.isClient || decide (codec.decodeCnt < writer.encodeCnt + 1)

section Lines

variable (lib : HttpEncodeLib) (stray : ℕ) (codec : CodecHttp) (writer : HttpWriter)
  (msg : HttpMsg)

/-- The offset of the path; where the url has none, the member was not written, and `stray` is
what it holds. -/
def pathOffset (f : UrlFields) : ℕ := (f.path.map Prod.fst).getD stray

/-- What is printed for the host: the path of the url takes its place. -/
def printedHost (f : UrlFields) : Bytes :=
  let host := (f.host.map (field msg.url)).getD []
  (f.path.map (field msg.url)).getD host

/-- The part of the url in front of the first colon, or all of it. -/
def urlSchema (url : Bytes) : Bytes := url.takeWhile (· ≠ 58)

def printedPort (f : UrlFields) : ℕ :=
  let port := f.port.getD 80
  if urlSchema msg.url = text "https" then 443 else port

/-- `"HTTP/%u.%u"`. -/
def versionText (major minor : ℤ) : Bytes :=
  text "HTTP/" ++ unsignedText major ++ text "." ++ unsignedText minor

/-- A line of the table. -/
def headerLine (e : Bytes × Bytes) : Bytes := cStr e.1 ++ text ": " ++ cStr e.2 ++ crlf

/-- The first lines of a request. -/
def requestStart : Option (List Bytes) :=
  if msg.url = [] then none
  else
    match lib.urlFields msg.url with
    | none => none
    | some f =>
      let off := pathOffset stray f
      if msg.url.length ≤ off then none
      else some
        [httpMethodStr msg.method ++ text " " ++ cStr (msg.url.drop off) ++ text " " ++
            versionText msg.httpMajor msg.httpMinor ++ crlf,
          text "Host: " ++ cStr (printedHost msg f) ++ text ":" ++
            natToDecimal (printedPort msg f) ++ crlf]

/-- The first line of a response. -/
def responseStart : Option (List Bytes) :=
  if msg.statusCode = 0 then none
  else some
    [versionText codec.httpMajor codec.httpMinor ++ text " " ++ unsignedText msg.statusCode ++
      text " " ++ statusString msg.statusCode ++ crlf]

/-- The first lines; nothing is printed where they cannot be made. -/
def startLines : Option (List Bytes) :=
  if msg.type = httpRequest then requestStart lib stray msg
  else if msg.type = httpResponse then responseStart codec msg
  else some []

/-- `m_http_headers` in front of the merge. -/
def ownHeaders : FiniteMap Bytes Bytes :=
  if msg.type = httpResponse then
    let table : FiniteMap Bytes Bytes :=
      if writer.isClient then ∅
      else (∅ : FiniteMap Bytes Bytes).insert (text "Connection")
        (if codec.keepAlive.isZero then text "close" else text "keep-alive")
    (table.insert (text "Allow") (text "POST,GET")).insert (text "Server") (text "KimHttp")
  else ∅

/-- The loop over the headers of the message. -/
def mergeHeaders (table : FiniteMap Bytes Bytes) (entries : List (Bytes × Bytes)) :
    FiniteMap Bytes Bytes :=
  entries.foldl (fun table e =>
    if e.1 = text "Host" ∨ e.1 = text "Content-Length" then table
    else if (table.lookup e.1).isSome then table.insert e.1 e.2 else table) table

/-- `m_http_headers` as it is printed. -/
def printedHeaders : FiniteMap Bytes Bytes :=
  mergeHeaders (ownHeaders codec writer msg) (lib.visit msg.headers)

end Lines

/-! ## Printing -/

/-- The buffer and `writed_len`. -/
abbrev Printed := SocketBuffer × ℤ

/-- `_printf`, whose result is never negative. The sum wraps around. -/
def printLine (p : Printed) (line : Bytes) : Printed :=
  let r := p.1.vprintf true (some line)
  (r.1, CInt.toInt (p.2 + r.2))

/-- Take back what was written. An index below zero wraps around. -/
def takeBack (p : Printed) : SocketBuffer :=
  let i := (p.1.writeIdx : ℤ) - p.2
  p.1.setWriteIndex (if 0 ≤ i then i else i + 18446744073709551616).toNat

/-- `_write` of a body, whose size is returned as an `int`; a negative one counts as a failure. -/
def writeData (p : Printed) (data : Bytes) : Except Printed Printed :=
  let size := CInt.toInt data.length
  let sbuf := (p.1.write true data).1
  if size < 0 then .error (sbuf, p.2) else .ok (sbuf, CInt.toInt (p.2 + size))

/-- `%u` of a size. -/
def sizeText (n : ℕ) : Bytes := natToDecimal (n % 4294967296)

/-- The line with the length, which ends the head. -/
def lengthLine (body : Bytes) : Bytes :=
  text "Content-Length: " ++ sizeText body.length ++ crlf ++ crlf

/-- The length and the body. A body that can be compressed is given up: `gzip` returns true where
it succeeds. -/
def printBody (lib : HttpEncodeLib) (isGzip isChunked : Bool) (msg : HttpOut) (p : Printed) :
    Except Printed Printed :=
  if 0 < msg.body.length then
    if isGzip && (lib.gzip msg.body).isSome then .error p
    else if isChunked then
      let p := if msg.encoding = 0 then printLine p crlf else (takeBack p, 0)
      let p := printLine p (hexText (msg.body.length % 4294967296) ++ crlf)
      (writeData p msg.body).map fun p => printLine p (crlf ++ text "0" ++ crlf ++ crlf)
    else
      writeData (printLine p (lengthLine msg.body)) msg.body
  else if isChunked then
    let p := if msg.encoding = 0 then printLine p crlf else (takeBack p, p.2)
    .ok (printLine p (text "0" ++ crlf ++ crlf))
  else .ok (printLine p (text "Content-Length: 0" ++ crlf ++ crlf))

/-- `CodecHttp::encode`. -/
def CodecHttp.encode (lib : HttpEncodeLib) (stray : ℕ) (codec : CodecHttp) (writer : HttpWriter)
    (msg : HttpOut) (sbuf : SocketBuffer) : CodecStatus × HttpWriter × SocketBuffer :=
  let writer := writer.count codec
  if msg.httpMajor = 0 then (.err, writer, sbuf)
  else
    match startLines lib stray codec msg.toHttpMsg with
    | none => (.err, writer, takeBack (sbuf, 0))
    | some lines =>
      let entries := lib.visit (printedHeaders lib codec writer msg.toHttpMsg)
      let isGzip := decide ((text "Content-Encoding", text "gzip") ∈ entries)
      let isChunked := decide ((text "Transfer-Encoding", text "chunked") ∈ entries)
      let p := (lines ++ entries.map headerLine).foldl printLine (sbuf, 0)
      match printBody lib isGzip isChunked msg p with
      | .error p => (.err, writer, takeBack p)
      | .ok p =>
        -- a NUL behind the text, which is taken back through an `int`
        (.ok, writer, (p.1.write true [0]).1.dropNul)

/-! ## The table -/

/-- The headers that the loop leaves out. -/
def Skipped (name : Bytes) : Prop := name = text "Host" ∨ name = text "Content-Length"

instance : DecidablePred Skipped := fun _ => inferInstanceAs (Decidable (_ ∨ _))

section Table

variable {table : FiniteMap Bytes Bytes} {entries : List (Bytes × Bytes)} {name value : Bytes}

/-- One turn of the loop. -/
def mergeHeader (table : FiniteMap Bytes Bytes) (e : Bytes × Bytes) : FiniteMap Bytes Bytes :=
  if Skipped e.1 then table
  else if (table.lookup e.1).isSome then table.insert e.1 e.2 else table

theorem mergeHeaders_cons (e : Bytes × Bytes) :
    mergeHeaders table (e :: entries) = mergeHeaders (mergeHeader table e) entries := rfl

theorem lookup_mergeHeader (e : Bytes × Bytes) (name : Bytes) :
    (mergeHeader table e).lookup name =
      if name = e.1 ∧ ¬ Skipped name then (table.lookup name).map fun _ => e.2
      else table.lookup name := by
  unfold mergeHeader
  by_cases hskip : Skipped e.1
  · rw [if_pos hskip]
    split_ifs with h
    · exact absurd (h.1 ▸ hskip) h.2
    · rfl
  · rw [if_neg hskip]
    by_cases hname : name = e.1
    · subst hname
      cases hown : table.lookup e.1 with
      | none => simp [hown]
      | some own => simp [hskip]
    · have hother : ¬ (name = e.1 ∧ ¬ Skipped name) := fun h => hname h.1
      rw [if_neg hother]
      split_ifs
      · rw [FiniteMap.lookup_insert, if_neg hname]
      · rfl

theorem lookup_mergeHeaders_of_notMem (h : name ∉ entries.map Prod.fst) :
    (mergeHeaders table entries).lookup name = table.lookup name := by
  induction entries generalizing table with
  | nil => rfl
  | cons e entries ih =>
    rw [List.map_cons, List.mem_cons, not_or] at h
    rw [mergeHeaders_cons, ih h.2, lookup_mergeHeader, if_neg fun hname => h.1 hname.1]

theorem lookup_mergeHeaders_of_skipped (h : Skipped name) :
    (mergeHeaders table entries).lookup name = table.lookup name := by
  induction entries generalizing table with
  | nil => rfl
  | cons e entries ih =>
    rw [mergeHeaders_cons, ih, lookup_mergeHeader, if_neg fun hname => hname.2 h]

/-- A header of the message takes the place of one in the table. -/
theorem lookup_mergeHeaders_of_mem (hnodup : (entries.map Prod.fst).Nodup)
    (hmem : (name, value) ∈ entries) (hskip : ¬ Skipped name) :
    (mergeHeaders table entries).lookup name = (table.lookup name).map fun _ => value := by
  induction entries generalizing table with
  | nil => exact absurd hmem List.not_mem_nil
  | cons e entries ih =>
    rw [List.map_cons, List.nodup_cons] at hnodup
    rw [mergeHeaders_cons]
    rcases List.mem_cons.mp hmem with rfl | hrest
    · rw [lookup_mergeHeaders_of_notMem hnodup.1, lookup_mergeHeader, if_pos ⟨rfl, hskip⟩]
    · have hne : name ≠ e.1 := by
        rintro rfl
        exact hnodup.1 (List.mem_map.mpr ⟨_, hrest, rfl⟩)
      rw [ih hnodup.2 hrest, lookup_mergeHeader, if_neg fun h => hne h.1]

/-- **The merged table**: it has the names it had, and a value of the message where there is
one. -/
theorem lookup_mergeHeaders {headers : FiniteMap Bytes Bytes}
    (h : FiniteMap.Enumerates headers entries) (hskip : ¬ Skipped name) :
    (mergeHeaders table entries).lookup name =
      (table.lookup name).map fun own => (headers.lookup name).getD own := by
  cases hfound : headers.lookup name with
  | some value =>
    exact lookup_mergeHeaders_of_mem h.1 ((h.2 name value).mpr hfound) hskip
  | none =>
    have hnot : name ∉ entries.map Prod.fst := by
      intro hmem
      obtain ⟨e, he, rfl⟩ := List.mem_map.mp hmem
      rw [(h.2 e.1 e.2).mp he] at hfound
      cases hfound
    rw [lookup_mergeHeaders_of_notMem hnot]
    cases table.lookup name <;> rfl

end Table

section Printed

variable {lib : HttpEncodeLib} {codec : CodecHttp} {writer : HttpWriter} {msg : HttpMsg}

/-- The names in the table of a response. -/
def ownNames (writer : HttpWriter) : List Bytes :=
  [text "Allow", text "Server"] ++ if writer.isClient then [] else [text "Connection"]

/-- The table of a request is empty, and that of a response has three names, for a client two. -/
theorem lookup_ownHeaders_isSome (name : Bytes) :
    ((ownHeaders codec writer msg).lookup name).isSome = true ↔
      msg.type = httpResponse ∧ name ∈ ownNames writer := by
  unfold ownHeaders ownNames
  by_cases htype : msg.type = httpResponse
  · rw [if_pos htype]
    cases writer.isClient
    · simp only [FiniteMap.lookup_insert, Bool.false_eq_true, if_false, List.cons_append,
        List.nil_append, List.mem_cons, List.not_mem_nil, or_false]
      split_ifs <;> simp_all
    · simp only [FiniteMap.lookup_insert, if_true, List.append_nil, List.mem_cons,
        List.not_mem_nil, or_false]
      split_ifs <;> simp_all
  · rw [if_neg htype]
    simp [htype]

/-- A client leaves `Connection` out. -/
theorem mem_of_mem_ownNames {name : Bytes} (h : name ∈ ownNames writer) :
    name ∈ [text "Allow", text "Server", text "Connection"] := by
  unfold ownNames at h
  split_ifs at h
  · rw [List.append_nil] at h
    exact List.mem_append_left [text "Connection"] h
  · exact h

theorem not_skipped_ownNames {name : Bytes} (h : name ∈ ownNames writer) : ¬ Skipped name := by
  have hnames : ∀ x ∈ [text "Allow", text "Server", text "Connection"], ¬ Skipped x := by decide
  exact hnames name (mem_of_mem_ownNames h)

/-- The lines of the table are those of its own names, with the values of the message. -/
theorem mem_printedHeaders {name value : Bytes} :
    (name, value) ∈ lib.visit (printedHeaders lib codec writer msg) ↔
      ∃ own, (ownHeaders codec writer msg).lookup name = some own ∧
        value = (msg.headers.lookup name).getD own := by
  rw [(lib.enumerates _).2 name value]
  unfold printedHeaders
  by_cases hskip : Skipped name
  · rw [lookup_mergeHeaders_of_skipped hskip]
    have hnone : (ownHeaders codec writer msg).lookup name = none := by
      rw [← Option.not_isSome_iff_eq_none, lookup_ownHeaders_isSome]
      exact fun h => not_skipped_ownNames h.2 hskip
    simp [hnone]
  · rw [lookup_mergeHeaders (lib.enumerates _) hskip, Option.map_eq_some_iff]
    simp only [eq_comm]

/-- The table never asks for an encoding. -/
theorem not_mem_printedHeaders {name : Bytes} (h : name ∉ ownNames writer) (value : Bytes) :
    (name, value) ∉ lib.visit (printedHeaders lib codec writer msg) := by
  rw [mem_printedHeaders]
  rintro ⟨own, hown, -⟩
  have hsome : ((ownHeaders codec writer msg).lookup name).isSome = true := by
    rw [hown]
    rfl
  exact h ((lookup_ownHeaders_isSome name).mp hsome).2

theorem not_mem_ownNames (writer : HttpWriter) :
    text "Content-Encoding" ∉ ownNames writer ∧ text "Transfer-Encoding" ∉ ownNames writer := by
  unfold ownNames
  cases writer.isClient <;> decide

end Printed

/-! ## The text -/

section Text

variable {p : Printed}

theorem foldl_printLine (lines : List Bytes) :
    (lines.foldl printLine p).1 = p.1.printLines lines := by
  induction lines generalizing p with
  | nil => rfl
  | cons line lines ih => exact ih

/-- A body whose size is not negative as an `int` is printed behind its length. -/
theorem printBody_ok (lib : HttpEncodeLib) (p : Printed) {msg : HttpOut}
    (hsize : 0 ≤ CInt.toInt msg.body.length) :
    ∃ p', printBody lib false false msg p = .ok p' ∧
      p'.1 = ((printLine p (lengthLine msg.body)).1.write true msg.body).1 := by
  unfold printBody
  by_cases hbody : 0 < msg.body.length
  · rw [if_pos hbody, Bool.false_and, if_neg Bool.false_ne_true, if_neg Bool.false_ne_true]
    unfold writeData
    exact ⟨_, if_neg (not_lt.mpr hsize), rfl⟩
  · have hnil : msg.body = [] := List.length_eq_zero_iff.mp (Nat.eq_zero_of_not_pos hbody)
    have hline : text "Content-Length: 0" ++ crlf ++ crlf = lengthLine [] := by decide
    rw [if_neg hbody, if_neg Bool.false_ne_true]
    refine ⟨_, rfl, ?_⟩
    rw [hline, hnil, SocketBuffer.write_nil]

theorem printBody_error (lib : HttpEncodeLib) {msg : HttpOut}
    (hsize : CInt.toInt msg.body.length < 0) :
    ∃ p', printBody lib false false msg p = .error p' := by
  unfold printBody
  have hbody : 0 < msg.body.length := by
    by_contra hzero
    rw [Nat.eq_zero_of_not_pos hzero] at hsize
    exact absurd hsize (by decide)
  rw [if_pos hbody, Bool.false_and, if_neg Bool.false_ne_true, if_neg Bool.false_ne_true]
  unfold writeData
  exact ⟨_, if_pos hsize⟩

end Text

/-- The text of a message: the first lines, the table, the length and the body. -/
def encodedText (lib : HttpEncodeLib) (codec : CodecHttp) (writer : HttpWriter) (lines : List Bytes)
    (msg : HttpMsg) : Bytes :=
  lines.flatten ++ (lib.visit (printedHeaders lib codec writer msg)).flatMap headerLine ++
    lengthLine msg.body ++ msg.body

/-- What is printed in front of the body. -/
def printedTexts (lib : HttpEncodeLib) (codec : CodecHttp) (writer : HttpWriter)
    (lines : List Bytes) (msg : HttpMsg) : List Bytes :=
  lines ++ (lib.visit (printedHeaders lib codec writer msg)).map headerLine ++
    [lengthLine msg.body]

/-- The write index behind the text of a message and a NUL. -/
def CodecHttp.nulIndex (lib : HttpEncodeLib) (stray : ℕ) (codec : CodecHttp) (writer : HttpWriter)
    (msg : HttpOut) (sbuf : SocketBuffer) : ℕ :=
  let lines := (startLines lib stray codec msg.toHttpMsg).getD []
  sbuf.nulIndex (printedTexts lib codec (writer.count codec) lines msg.toHttpMsg) msg.body

section Encode

variable {lib : HttpEncodeLib} {stray : ℕ} {codec : CodecHttp} {writer : HttpWriter} {msg : HttpOut}
  {sbuf : SocketBuffer} {lines : List Bytes}

theorem encodedText_eq {msg : HttpMsg} : encodedText lib codec writer lines msg =
    (printedTexts lib codec writer lines msg).flatten ++ msg.body := by
  unfold encodedText printedTexts
  rw [List.flatten_append, List.flatten_append, ← List.flatMap_def, List.flatten_singleton]

theorem CodecHttp.nulIndex_eq (hstart : startLines lib stray codec msg.toHttpMsg = some lines) :
    codec.nulIndex lib stray writer msg sbuf =
      sbuf.nulIndex (printedTexts lib codec (writer.count codec) lines msg.toHttpMsg) msg.body := by
  unfold CodecHttp.nulIndex
  rw [hstart]
  rfl

/-- **What `encode` does** with a message that has a version, whose first lines can be made and
whose body has a size that is not negative as an `int`. -/
theorem CodecHttp.encode_ok (writer : HttpWriter) (sbuf : SocketBuffer) (hmajor : msg.httpMajor ≠ 0)
    (hstart : startLines lib stray codec msg.toHttpMsg = some lines)
    (hsize : 0 ≤ CInt.toInt msg.body.length) :
    codec.encode lib stray writer msg sbuf = (.ok, writer.count codec,
      ((sbuf.printLines (printedTexts lib codec (writer.count codec) lines msg.toHttpMsg)).writeNul
        msg.body).dropNul) := by
  obtain ⟨hgzip, hchunked⟩ := not_mem_ownNames (writer.count codec)
  obtain ⟨p, hp, hbuf⟩ := printBody_ok lib ((lines ++
    (lib.visit (printedHeaders lib codec (writer.count codec) msg.toHttpMsg)).map headerLine).foldl
      printLine (sbuf, 0)) hsize
  -- the line with the length is the last one
  have hall : (printLine ((lines ++ (lib.visit (printedHeaders lib codec (writer.count codec)
      msg.toHttpMsg)).map headerLine).foldl printLine (sbuf, 0)) (lengthLine msg.body)).1 =
        sbuf.printLines (printedTexts lib codec (writer.count codec) lines msg.toHttpMsg) := by
    rw [← foldl_printLine (p := (sbuf, 0)), printedTexts, List.foldl_concat]
  rw [hall] at hbuf
  unfold CodecHttp.encode
  simp only [if_neg hmajor, hstart, not_mem_printedHeaders hgzip, not_mem_printedHeaders hchunked,
    decide_false, hp, hbuf]
  rfl

/-- **Below `2 ^ 31`** the text is appended. -/
theorem CodecHttp.encode_contents (h : sbuf.Wf) (hmajor : msg.httpMajor ≠ 0)
    (hstart : startLines lib stray codec msg.toHttpMsg = some lines)
    (hsize : 0 ≤ CInt.toInt msg.body.length)
    (hidx : codec.nulIndex lib stray writer msg sbuf < 2147483648) :
    (codec.encode lib stray writer msg sbuf).2.2.Wf ∧
      (codec.encode lib stray writer msg sbuf).2.2.contents = sbuf.contents ++
        encodedText lib codec (writer.count codec) lines msg.toHttpMsg := by
  obtain ⟨hwf, hcontents, hwrite⟩ := SocketBuffer.writeNul_spec h
    (printedTexts lib codec (writer.count codec) lines msg.toHttpMsg) msg.body
  rw [← CodecHttp.nulIndex_eq hstart] at hwrite
  have hpos := SocketBuffer.length_contents hwf
  rw [hcontents, List.length_append, List.length_singleton] at hpos
  obtain ⟨hwf', hdropped⟩ := SocketBuffer.dropNul_spec hwf (by omega) (hwrite ▸ hidx)
  rw [CodecHttp.encode_ok writer sbuf hmajor hstart hsize, encodedText_eq]
  refine ⟨hwf', ?_⟩
  rw [hdropped, hcontents, List.length_append, List.length_singleton, Nat.add_sub_cancel,
    List.take_left' rfl]

/-- **From `2 ^ 31` on** the indices are out of order, or `2 ^ 32` bytes are missing at the end. -/
theorem CodecHttp.encode_lost (h : sbuf.Wf) (hmajor : msg.httpMajor ≠ 0)
    (hstart : startLines lib stray codec msg.toHttpMsg = some lines)
    (hsize : 0 ≤ CInt.toInt msg.body.length)
    (hidx : 2147483648 ≤ codec.nulIndex lib stray writer msg sbuf)
    (hmem : (codec.encode lib stray writer msg sbuf).2.2.InMemory) :
    ¬ (codec.encode lib stray writer msg sbuf).2.2.Wf ∨
      ∃ n, n + 4294967296 ≤ (sbuf.contents ++
          encodedText lib codec (writer.count codec) lines msg.toHttpMsg).length ∧
        (codec.encode lib stray writer msg sbuf).2.2.contents = (sbuf.contents ++
          encodedText lib codec (writer.count codec) lines msg.toHttpMsg).take n := by
  obtain ⟨hwf, hcontents, hwrite⟩ := SocketBuffer.writeNul_spec h
    (printedTexts lib codec (writer.count codec) lines msg.toHttpMsg) msg.body
  rw [← CodecHttp.nulIndex_eq hstart] at hwrite
  rw [CodecHttp.encode_ok writer sbuf hmajor hstart hsize] at hmem ⊢
  refine (SocketBuffer.dropNul_of_le hwf (hwrite ▸ hidx)
    (SocketBuffer.inMemory_dropNul.mp hmem)).imp_right ?_
  rintro ⟨n, hn, hdropped⟩
  rw [hcontents, List.length_append, List.length_singleton] at hn
  rw [encodedText_eq]
  refine ⟨n, by omega, ?_⟩
  rw [hdropped, hcontents, List.take_append_of_le_length (by omega)]

/-- **What `encode` accepts.** -/
theorem CodecHttp.encode_inv (h : (codec.encode lib stray writer msg sbuf).1 = .ok) :
    msg.httpMajor ≠ 0 ∧ 0 ≤ CInt.toInt msg.body.length ∧
      ∃ lines, startLines lib stray codec msg.toHttpMsg = some lines := by
  obtain ⟨hgzip, hchunked⟩ := not_mem_ownNames (writer.count codec)
  unfold CodecHttp.encode at h
  by_cases hmajor : msg.httpMajor = 0
  · simp only [if_pos hmajor] at h
    cases h
  · cases hstart : startLines lib stray codec msg.toHttpMsg with
    | none =>
      simp only [if_neg hmajor, hstart] at h
      cases h
    | some lines =>
      refine ⟨hmajor, ?_, lines, rfl⟩
      simp only [if_neg hmajor, hstart, not_mem_printedHeaders hgzip,
        not_mem_printedHeaders hchunked, decide_false] at h
      by_contra hsize
      obtain ⟨p, hp⟩ := printBody_error lib (not_le.mp hsize)
      rw [hp] at h
      cases h

end Encode

end Kimserver
