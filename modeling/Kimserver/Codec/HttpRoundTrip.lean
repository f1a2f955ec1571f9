import Kimserver.Codec.HttpPrinted

/-!
# Encoding and decoding HTTP messages

A message that `encode` accepts is printed and decoded again. Much of it is lost on the way. The
loop over the headers of the message only replaces values in the table of the codec, which is
empty for a request and has three names for a response. The path of the url is stored in `host`,
where the host should be, and the port of an `https` url is always 443. A value ends at its first
NUL, and the parser skips the blanks in front of it. It takes one digit for a part of the version
and three for a status code. And where the write index behind the text is not below `2 ^ 31`, the
index that `encode` leaves is not the end of the text.

## Main definitions

* `SaysSame`, `KeepsMessage`: the decoded message says what the encoded one says
* `UrlShape`: what `http_parser_parse_url` accepts
* `KeptRequest`, `KeptResponse`: the messages that survive

## Main results

* `keepsMessage_iff_text`: a message survives when its text is read and says the same
* `not_keepsMessage_of_lost`: a message whose end is lost does not survive
* `keepsMessage_iff`: exactly the messages that survive
-/

namespace Kimserver

/-! ## What should be kept -/

section Same

variable (lib : HttpEncodeLib)

def urlPath (url : Bytes) : Bytes := ((lib.parseUrl url).bind ParsedUrl.path).getD []

def urlQuery (url : Bytes) : Bytes := ((lib.parseUrl url).bind ParsedUrl.query).getD []

/-- The port in an url, or that of its scheme. -/
def urlPort (url : Bytes) (f : UrlFields) : ℕ :=
  f.port.getD (if urlSchema url = text "https" then 443 else 80)

/-- A decoded message says what the encoded one says. -/
structure SaysSame (msg got : HttpMsg) : Prop where
  type : got.type = msg.type
  method : msg.type = httpRequest → got.method = msg.method
  path : msg.type = httpRequest → got.path = urlPath lib msg.url
  query : msg.type = httpRequest → urlQuery lib got.url = urlQuery lib msg.url
  host : msg.type = httpRequest → ∀ f ∈ lib.urlFields msg.url, ∀ at_ ∈ f.host,
    got.headers.lookup (text "Host") =
      some (field msg.url at_ ++ [58] ++ natToDecimal (urlPort msg.url f))
  status : msg.type = httpResponse → got.statusCode = msg.statusCode
  headers : ∀ name value, msg.headers.lookup name = some value → ¬ Skipped name →
    got.headers.lookup name = some value
  body : got.body = msg.body

/-- A new codec decodes the bytes that `encode` appends as one message, which says the same. The
indices of the buffer stay in order. -/
def KeepsMessage (stray : ℕ) (codec : CodecHttp) (writer : HttpWriter) (msg : HttpOut)
    (sbuf : SocketBuffer) : Prop :=
  (codec.encode lib stray writer msg sbuf).2.2.Wf ∧
  ∃ bytes, (codec.encode lib stray writer msg sbuf).2.2.contents = sbuf.contents ++ bytes ∧
    (lib.execute bytes).messages = 1 ∧
    ∃ codec' sbuf' got, CodecHttp.decode lib.toHttpLib {} ⟨bytes, 0, bytes.length⟩ {} =
      (.ok, codec', sbuf', got) ∧ SaysSame lib msg.toHttpMsg got

/-- What `http_parser_parse_url` accepts: urls of visible characters. What begins with the path is
an url with the same path and query, and behind a host the path begins with a slash. -/
structure UrlShape : Prop where
  visible : ∀ {url f}, lib.urlFields url = some f → ∀ c ∈ url, 32 < c ∧ c ≠ 127
  suffix : ∀ {url f at_}, lib.urlFields url = some f → f.path = some at_ →
    lib.parseUrl (url.drop at_.1) = lib.parseUrl url
  server : ∀ {url f host path}, lib.urlFields url = some f → f.host = some host →
    f.path = some path → 47 ∉ field url host ∧ (field url path).head? = some 47

end Same

/-! ## The messages that survive -/

section Kept

variable (lib : HttpEncodeLib) (G : HttpGrammar lib.toHttpLib) (stray : ℕ) (codec : CodecHttp)
  (writer : HttpWriter) (msg : HttpMsg)

/-- The requests that survive: they have no headers that `encode` would have to print, and an url
with a host has no path. Where an url has no path, what happens to be printed for it says the
same. -/
structure KeptRequest (f : UrlFields) : Prop where
  major : OneDigit msg.httpMajor
  minor : OneDigit msg.httpMinor
  method : KnownMethod msg.method
  headers : ∀ name value, msg.headers.lookup name = some value → Skipped name
  host : f.host.isSome → f.path = none ∧
    (urlSchema msg.url = text "https" → f.port.getD 443 = 443)
  pathless : f.path = none → urlPath lib (msg.url.drop stray) = urlPath lib msg.url ∧
    urlQuery lib (msg.url.drop stray) = urlQuery lib msg.url
  target : msg.method = httpConnect ∨ f.path = none →
    G.Target msg.method (msg.url.drop (pathOffset stray f))
  connect : msg.method = httpConnect → msg.body = []
  body : msg.body.length < 4294967296
  head : requestHeadLen stray msg f ≤ maxHeaderSize

/-- A value that is printed and read as it is. -/
structure PlainValue (name value : Bytes) : Prop where
  noNul : ∀ c ∈ value, c ≠ 0
  first : ∀ c ∈ value.head?, isBlank c = false
  taken : G.Value name value

/-- The responses that survive: their headers have names that the table of the codec has. -/
structure KeptResponse : Prop where
  major : OneDigit codec.httpMajor
  minor : OneDigit codec.httpMinor
  code : 0 < msg.statusCode ∧ msg.statusCode ≤ 999
  headers : ∀ name value, msg.headers.lookup name = some value → ¬ Skipped name →
    name ∈ ownNames writer ∧ PlainValue lib G name value
  body : msg.body.length < 4294967296
  head : responseHeadLen codec writer msg ≤ maxHeaderSize

/-- The messages that survive. -/
def Kept : Prop :=
  (msg.type = httpRequest → ∀ f ∈ lib.urlFields msg.url, KeptRequest lib G stray msg f) ∧
    (msg.type = httpResponse → KeptResponse lib G codec writer msg)

end Kept

/-! ## Messages and their texts -/

section Read

variable {lib : HttpEncodeLib} {G : HttpGrammar lib.toHttpLib} {stray : ℕ} {codec : CodecHttp}
  {writer : HttpWriter} {msg : HttpOut} {sbuf : SocketBuffer} {t : HttpText}

theorem SaysSame.of_message {msg : HttpMsg} {keeps : Bool} (keeps' : Bool)
    (h : SaysSame lib msg (t.message lib.toHttpLib keeps)) :
    SaysSame lib msg (t.message lib.toHttpLib keeps') := by
  rw [HttpText.message_eq] at h ⊢
  exact ⟨h.type, h.method, h.path, h.query, h.host, h.status, h.headers, h.body⟩

theorem length_content_lt : t.content.length < 4294967296 := by
  unfold HttpText.content
  split_ifs
  · exact Nat.zero_lt_succ _
  · exact lt_of_le_of_lt (List.length_take_le _ _) (Nat.mod_lt _ (by decide))

/-- Bytes that are decoded are read without an error, up to the end of a message. -/
theorem execute_of_decode {bytes : Bytes} {codec' : CodecHttp} {sbuf' : SocketBuffer}
    {got : HttpMsg}
    (h : CodecHttp.decode lib.toHttpLib {} ⟨bytes, 0, bytes.length⟩ {} =
      (.ok, codec', sbuf', got)) :
    bytes ≠ [] ∧ (lib.execute bytes).inMessage = false ∧ (lib.execute bytes).ok = true := by
  have hne : bytes ≠ [] := by
    rintro rfl
    cases h
  have hread : SocketBuffer.isReadable ⟨bytes, 0, bytes.length⟩ = true := by
    rw [SocketBuffer.isReadable_iff]
    exact List.length_pos_of_ne_nil hne
  have hnew : ({} : HttpMsg).isDecoding = false := rfl
  obtain ⟨hpause, hother⟩ := CodecHttp.decode_status lib.toHttpLib {} hread hnew
  rw [SocketBuffer.contents_mk, h] at hpause hother
  have hended : (lib.execute bytes).inMessage = false := by
    cases hcase : (lib.execute bytes).inMessage with
    | false => rfl
    | true => exact absurd (hpause hcase) (by simp)
  refine ⟨hne, hended, ?_⟩
  cases hcase : (lib.execute bytes).ok with
  | true => rfl
  | false => exact absurd ((hother hended).2 hcase) (by simp)

/-- **A message survives** when the parser takes its text and the callbacks leave a message that
says the same. -/
theorem keepsMessage_iff_text (hclean : t.Clean) (hparser : lib.ParsesText G t)
    (hwf : (codec.encode lib stray writer msg sbuf).2.2.Wf)
    (hcontents : (codec.encode lib stray writer msg sbuf).2.2.contents =
      sbuf.contents ++ t.raw) (hbody : t.body = msg.body) :
    KeepsMessage lib stray codec writer msg sbuf ↔
      t.Valid G ∧ t.body.length < 4294967296 ∧
        SaysSame lib msg.toHttpMsg (t.message lib.toHttpLib true) := by
  constructor
  · rintro ⟨-, bytes, hbytes, hone, codec', sbuf', got, hdecode, hsame⟩
    obtain rfl : t.raw = bytes := List.append_cancel_left (hcontents.symm.trans hbytes)
    -- the parser has stopped without an error and behind the end of a message
    obtain ⟨hne, hended, hok⟩ := execute_of_decode hdecode
    have hvalid : t.Valid G := by
      by_contra hinvalid
      rcases hparser.rejects hinvalid with h | h
      · rw [hok] at h
        exact absurd h (by decide)
      · rw [hended] at h
        exact absurd h (by decide)
    obtain ⟨keeps, hcalls⟩ := hparser.cuts hvalid hok hended hone
    obtain ⟨codec'', sbuf'', hgot⟩ := hclean.decode_eq {} hne hok hcalls
    rw [hdecode] at hgot
    obtain rfl : got = t.message lib.toHttpLib keeps :=
      (Prod.mk.inj (Prod.mk.inj (Prod.mk.inj hgot).2).2).2
    refine ⟨hvalid, ?_, hsame.of_message true⟩
    have hlen := congrArg List.length hsame.body
    rw [HttpText.body_message] at hlen
    rw [hbody, ← hlen]
    exact length_content_lt
  · rintro ⟨hvalid, hlen, hsame⟩
    obtain ⟨keeps, len, hrun⟩ := hparser.accepts hvalid hlen
    have hok : (lib.execute t.raw).ok = true := by rw [hrun]
    have hcalls : (lib.execute t.raw).calls = t.calls keeps := by rw [hrun]
    obtain ⟨codec', sbuf', hdecode⟩ := hclean.decode_eq {} HttpText.raw_ne_nil hok hcalls
    refine ⟨hwf, t.raw, hcontents, ?_, codec', sbuf', _, hdecode, hsame.of_message keeps⟩
    rw [Execution.messages, hcalls]
    exact HttpText.messages_calls

/-- What a list has in front of the same beginning, where the end was cut off. -/
theorem prefix_of_take {a bytes raw : Bytes} {n : ℕ} (h : a ++ bytes = (a ++ raw).take n) :
    bytes <+: raw ∧ a.length + bytes.length ≤ n := by
  constructor
  · rw [← List.prefix_append_right_inj a, h]
    exact List.take_prefix n _
  · rw [← List.length_append, h]
    exact List.length_take_le n _

end Read

/-! ## Requests -/

section Request

variable {lib : HttpEncodeLib} {G : HttpGrammar lib.toHttpLib} {stray : ℕ} {msg : HttpMsg}
  {f : UrlFields}

theorem valid_request_iff (hvisible : ∀ c ∈ msg.url, 32 < c ∧ c ≠ 127) :
    (requestText stray msg f).Valid G ↔
      (requestText stray msg f).start.Valid G ∧ requestHeadLen stray msg f ≤ maxHeaderSize := by
  constructor
  · intro h
    rw [← length_head_request h.start.2.2.1 h.start.2.2.2 hvisible]
    exact ⟨h.start, h.head⟩
  · rintro ⟨hstart, hhead⟩
    refine ⟨hstart, fun e he => ?_, ?_⟩
    · rw [List.mem_singleton.mp he]
      refine G.value_of_visible _ fun c hc => ?_
      obtain ⟨hlow, hdel⟩ := visible_hostText hvisible c hc
      exact ⟨le_of_lt hlow, hdel⟩
    · rwa [length_head_request hstart.2.2.1 hstart.2.2.2 hvisible]

theorem lookup_host_request (hvisible : ∀ c ∈ msg.url, 32 < c ∧ c ≠ 127) :
    (requestText stray msg f).fields.lookup (text "Host") =
      some (printedHost msg f ++ [58] ++ natToDecimal (printedPort msg f)) := by
  have hclean : (requestText stray msg f).Clean := requestText_clean hvisible
  rw [hclean.lookup_fields (List.mem_append_left _ List.mem_cons_self),
    skipBlanks_of_visible (visible_hostText hvisible)]

/-- A request has no other headers in its text. -/
theorem lookup_fields_request {name : Bytes} (h : ¬ Skipped name) :
    (requestText stray msg f).fields.lookup name = none := by
  refine HttpText.lookup_fields_of_notMem fun hmem => h ?_
  simpa [HttpText.entries, requestText, Skipped] using hmem

/-- **The host of an url is printed** where the url has no path, and the port where the scheme
does not take its place. -/
theorem host_request_iff (hurls : UrlShape lib) (hf : lib.urlFields msg.url = some f) :
    (∀ at_ ∈ f.host, printedHost msg f ++ [58] ++ natToDecimal (printedPort msg f) =
        field msg.url at_ ++ [58] ++ natToDecimal (urlPort msg.url f)) ↔
      (f.host.isSome → f.path = none ∧
        (urlSchema msg.url = text "https" → f.port.getD 443 = 443)) := by
  have hcolon : ∀ n, (58 : UInt8) ∉ natToDecimal n := by
    intro n hmem
    rcases isDecimalChar_of_mem_natToDecimal hmem with h | ⟨-, h⟩ <;> exact absurd h (by decide)
  have hport : printedPort msg f = urlPort msg.url f ↔
      (urlSchema msg.url = text "https" → f.port.getD 443 = 443) := by
    unfold printedPort urlPort
    by_cases hschema : urlSchema msg.url = text "https"
    · simp only [hschema, if_true, true_imp_iff, eq_comm]
    · simp only [hschema, if_false, false_imp_iff]
  cases hhost : f.host with
  | none => simp
  | some host =>
    simp only [Option.mem_some_iff, forall_eq', Option.isSome_some, true_imp_iff]
    rw [← hport]
    cases hpath : f.path with
    | some path =>
      obtain ⟨hslash, hhead⟩ := hurls.server hf hhost hpath
      refine iff_of_false (fun h => hslash ?_) fun h => absurd h.1 (by simp)
      -- the printed text begins with a slash
      obtain ⟨hsame, -⟩ := append_sep_inj (hcolon _) (hcolon _) h
      have hprinted : printedHost msg f = field msg.url path := by
        unfold printedHost
        rw [hpath]
        rfl
      rw [← hsame, hprinted]
      exact List.mem_of_mem_head? hhead
    | none =>
      have hprinted : printedHost msg f = field msg.url host := by
        unfold printedHost
        rw [hpath, hhost]
        rfl
      rw [hprinted]
      constructor
      · intro h
        exact ⟨rfl, natToDecimal_injective (append_sep_inj (hcolon _) (hcolon _) h).2⟩
      · rintro ⟨-, h⟩
        rw [h]

/-- What is printed of an url with a path has the same path and query. -/
theorem target_request_iff (hurls : UrlShape lib) (hf : lib.urlFields msg.url = some f) :
    (urlPath lib (msg.url.drop (pathOffset stray f)) = urlPath lib msg.url ∧
        urlQuery lib (msg.url.drop (pathOffset stray f)) = urlQuery lib msg.url) ↔
      (f.path = none → urlPath lib (msg.url.drop stray) = urlPath lib msg.url ∧
        urlQuery lib (msg.url.drop stray) = urlQuery lib msg.url) := by
  unfold pathOffset
  cases hpath : f.path with
  | none => simp
  | some at_ =>
    have hsuffix := hurls.suffix hf hpath
    refine iff_of_true ?_ fun h => absurd h (by simp)
    rw [Option.map_some, Option.getD_some, urlPath, urlPath, urlQuery, urlQuery, hsuffix]
    exact ⟨rfl, rfl⟩

theorem content_request_iff (hlen : msg.body.length < 4294967296) :
    (requestText stray msg f).content = msg.body ↔ (msg.method = httpConnect → msg.body = []) := by
  have htake : msg.body.take (msg.body.length % 4294967296) = msg.body := by
    rw [Nat.mod_eq_of_lt hlen, List.take_length]
  unfold HttpText.content
  simp only [requestText, StartLine.isConnect, decide_eq_true_eq, htake]
  by_cases hconnect : msg.method = httpConnect
  · simp only [hconnect, if_true, true_imp_iff, eq_comm]
  · simp only [hconnect, if_false, false_imp_iff]

theorem saysSame_request_iff (hurls : UrlShape lib) (htype : msg.type = httpRequest)
    (hf : lib.urlFields msg.url = some f) (hlen : msg.body.length < 4294967296) :
    SaysSame lib msg ((requestText stray msg f).message lib.toHttpLib true) ↔
      (∀ name value, msg.headers.lookup name = some value → Skipped name) ∧
      (f.host.isSome → f.path = none ∧
        (urlSchema msg.url = text "https" → f.port.getD 443 = 443)) ∧
      (f.path = none → urlPath lib (msg.url.drop stray) = urlPath lib msg.url ∧
        urlQuery lib (msg.url.drop stray) = urlQuery lib msg.url) ∧
      (msg.method = httpConnect → msg.body = []) := by
  have hvisible := hurls.visible hf
  have hheaders := @HttpText.headers_message lib.toHttpLib (requestText stray msg f) true
  have hbody := @HttpText.body_message lib.toHttpLib (requestText stray msg f) true
  obtain ⟨hgotType, hmethod, hurl, hpath⟩ :=
    @HttpText.message_request lib.toHttpLib (requestText stray msg f) true _ _ _ _ rfl
  have hsameBody : (requestText stray msg f).content = msg.body ↔ _ := content_request_iff hlen
  rw [← host_request_iff hurls hf, ← target_request_iff hurls hf, ← hsameBody]
  constructor
  · intro h
    refine ⟨fun name value hlookup => ?_, fun at_ hat => ?_, ⟨?_, ?_⟩, ?_⟩
    · by_contra hskip
      have hfound := h.headers name value hlookup hskip
      rw [hheaders, lookup_fields_request hskip] at hfound
      cases hfound
    · have hfound := h.host htype f hf at_ hat
      rw [hheaders, lookup_host_request hvisible] at hfound
      exact Option.some.inj hfound
    · rw [← h.path htype, hpath]
      rfl
    · rw [← h.query htype, hurl]
    · rw [← h.body, hbody]
  · rintro ⟨hskip, hhost, ⟨hsamePath, hquery⟩, hcontent⟩
    constructor
    · rw [hgotType, htype]
    · exact fun _ => hmethod
    · exact fun _ => hpath.trans hsamePath
    · intro _
      rw [hurl, hquery]
    · intro _ f' hf' at_ hat
      obtain rfl : f = f' := Option.some.inj (hf.symm.trans hf')
      rw [hheaders, lookup_host_request hvisible, hhost at_ hat]
    · intro hresponse
      rw [htype] at hresponse
      exact absurd hresponse (by decide)
    · exact fun name value hlookup hnot => absurd (hskip name value hlookup) hnot
    · rw [hbody, hcontent]

/-- **The requests whose texts are read back.** -/
theorem kept_request_iff (hurls : UrlShape lib) (htype : msg.type = httpRequest)
    (hf : lib.urlFields msg.url = some f) :
    ((requestText stray msg f).Valid G ∧ (requestText stray msg f).body.length < 4294967296 ∧
        SaysSame lib msg ((requestText stray msg f).message lib.toHttpLib true)) ↔
      KeptRequest lib G stray msg f := by
  have hlen : (requestText stray msg f).body.length = msg.body.length := rfl
  rw [valid_request_iff (hurls.visible hf), hlen]
  constructor
  · rintro ⟨⟨⟨hmethod, htarget, hmajor, hminor⟩, hhead⟩, hbody, hsame⟩
    obtain ⟨hheaders, hhost, hpathless, hconnect⟩ :=
      (saysSame_request_iff hurls htype hf hbody).mp hsame
    exact ⟨hmajor, hminor, hmethod, hheaders, hhost, hpathless, fun _ => htarget, hconnect, hbody,
      hhead⟩
  · intro h
    have htarget : G.Target msg.method (msg.url.drop (pathOffset stray f)) := by
      by_cases hcase : msg.method = httpConnect ∨ f.path = none
      · exact h.target hcase
      · rw [not_or] at hcase
        obtain ⟨at_, hpath⟩ := Option.ne_none_iff_exists'.mp hcase.2
        refine G.target_of_parsed hcase.1 ?_
        have hoff : pathOffset stray f = at_.1 := by
          unfold pathOffset
          rw [hpath]
          rfl
        rw [hoff, hurls.suffix hf hpath, lib.parseUrl_eq, hf]
        rfl
    exact ⟨⟨⟨h.method, htarget, h.major, h.minor⟩, h.head⟩, h.body,
      (saysSame_request_iff hurls htype hf h.body).mpr
        ⟨h.headers, h.host, h.pathless, h.connect⟩⟩

end Request

/-! ## Responses -/

section Response

variable {lib : HttpEncodeLib} {G : HttpGrammar lib.toHttpLib} {codec : CodecHttp}
  {writer : HttpWriter} {msg : HttpMsg}

/-- **A value is read as it is** when it has no NUL in it and no blank in front. -/
theorem skipBlanks_cStr_iff {value : Bytes} :
    skipBlanks (cStr value) = value ↔
      (∀ c ∈ value, c ≠ 0) ∧ ∀ c ∈ value.head?, isBlank c = false := by
  constructor
  · intro h
    have hskip : (skipBlanks (cStr value)).length ≤ (cStr value).length :=
      (List.dropWhile_sublist _).length_le
    have hprefix : cStr value <+: value := List.takeWhile_prefix _
    have hwhole : cStr value = value := by
      rw [h] at hskip
      exact hprefix.eq_of_length_le hskip
    refine ⟨fun c hc => ?_, fun c hc => ?_⟩
    · rw [← hwhole] at hc
      simpa using List.mem_takeWhile_imp hc
    · rw [hwhole] at h
      cases value with
      | nil => exact absurd hc (by simp)
      | cons d rest =>
        obtain rfl : d = c := Option.some.inj hc
        by_contra hblank
        rw [Bool.not_eq_false] at hblank
        rw [skipBlanks, List.dropWhile_cons, if_pos hblank] at h
        have hle := (List.dropWhile_sublist isBlank (l := rest)).length_le
        rw [h, List.length_cons] at hle
        omega
  · rintro ⟨hnul, hfirst⟩
    rw [cStr_eq_self hnul]
    cases value with
    | nil => rfl
    | cons c rest =>
      rw [skipBlanks, List.dropWhile_cons, hfirst c rfl]
      rfl

/-- The text has a line for every name in the table of the codec. -/
theorem mem_headers_response (htype : msg.type = httpResponse) {name : Bytes}
    (hname : name ∈ ownNames writer) :
    (name, cStr (ownValue codec writer msg name)) ∈ (responseText lib codec writer msg).headers := by
  refine List.mem_map.mpr ⟨(name, ownValue codec writer msg name), ?_, rfl⟩
  exact (perm_visit_response htype).mem_iff.mpr (List.mem_map.mpr ⟨name, hname, rfl⟩)

theorem name_of_mem_response {e : Bytes × Bytes} (htype : msg.type = httpResponse)
    (he : e ∈ (responseText lib codec writer msg).headers) :
    e.1 ∈ ownNames writer ∧ e.2 = cStr (ownValue codec writer msg e.1) := by
  obtain ⟨entry, hmem, rfl⟩ := List.mem_map.mp he
  obtain ⟨name, hname, rfl⟩ := List.mem_map.mp ((perm_visit_response htype).mem_iff.mp hmem)
  exact ⟨hname, rfl⟩

theorem lookup_fields_response (hclean : CleanHeaders msg.headers)
    (htype : msg.type = httpResponse) {name : Bytes} (hname : name ∈ ownNames writer) :
    (responseText lib codec writer msg).fields.lookup name =
      some (skipBlanks (cStr (ownValue codec writer msg name))) :=
  (responseText_clean hclean).lookup_fields
    (List.mem_append_left _ (mem_headers_response htype hname))

/-- The other names are lost. -/
theorem lookup_fields_response_of_notMem (htype : msg.type = httpResponse) {name : Bytes}
    (hname : name ∉ ownNames writer) (hskip : ¬ Skipped name) :
    (responseText lib codec writer msg).fields.lookup name = none := by
  refine HttpText.lookup_fields_of_notMem fun hmem => ?_
  obtain ⟨e, he, rfl⟩ := List.mem_map.mp hmem
  rcases List.mem_append.mp he with hheader | hlength
  · exact hname (name_of_mem_response htype hheader).1
  · rw [List.mem_singleton.mp hlength] at hskip
    exact hskip (Or.inr rfl)

theorem ownValue_of_lookup {name value : Bytes} (h : msg.headers.lookup name = some value) :
    ownValue codec writer msg name = value := by
  rw [ownValue, h]
  rfl

/-- The values of the table are visible. -/
theorem value_of_own {name : Bytes} (hname : name ∈ ownNames writer)
    (htype : msg.type = httpResponse) (h : msg.headers.lookup name = none) :
    G.Value name (cStr (ownValue codec writer msg name)) := by
  have hsome : ((ownHeaders codec writer msg).lookup name).isSome = true :=
    (lookup_ownHeaders_isSome name).mpr ⟨htype, hname⟩
  obtain ⟨own, hown⟩ := Option.isSome_iff_exists.mp hsome
  have hvalues : ∀ own ∈ [text "close", text "keep-alive", text "POST,GET", text "KimHttp"],
      ∀ c ∈ own, 32 ≤ c ∧ c ≠ 127 := by decide +kernel
  refine G.value_of_visible _ fun c hc => ?_
  rw [ownValue, h, hown] at hc
  exact hvalues own (mem_ownValues hown) c (List.takeWhile_subset _ hc)

/-- **The responses whose texts are read back.** -/
theorem kept_response_iff (hclean : CleanHeaders msg.headers) (htype : msg.type = httpResponse)
    (hcode : msg.statusCode ≠ 0) :
    ((responseText lib codec writer msg).Valid G ∧
        (responseText lib codec writer msg).body.length < 4294967296 ∧
        SaysSame lib msg ((responseText lib codec writer msg).message lib.toHttpLib true)) ↔
      KeptResponse lib G codec writer msg := by
  have hheaders := @HttpText.headers_message lib.toHttpLib (responseText lib codec writer msg) true
  have hbody := @HttpText.body_message lib.toHttpLib (responseText lib codec writer msg) true
  obtain ⟨hgotType, hstatus⟩ :=
    @HttpText.message_response lib.toHttpLib (responseText lib codec writer msg) true _ _ _ rfl hcode
  have hnotRequest : msg.type ≠ httpRequest := by
    rw [htype]
    decide
  constructor
  · rintro ⟨⟨⟨hmajor, hminor, hlow, hhigh⟩, hvalues, hhead⟩, hlen, hsame⟩
    refine ⟨hmajor, hminor, ⟨hlow, hhigh⟩, fun name value hlookup hskip => ?_, hlen, ?_⟩
    · have hfound := hsame.headers name value hlookup hskip
      rw [hheaders] at hfound
      have hname : name ∈ ownNames writer := by
        by_contra hnot
        rw [lookup_fields_response_of_notMem htype hnot hskip] at hfound
        cases hfound
      have hvalue : ownValue codec writer msg name = value := ownValue_of_lookup hlookup
      rw [lookup_fields_response hclean htype hname, hvalue] at hfound
      obtain ⟨hnul, hfirst⟩ := skipBlanks_cStr_iff.mp (Option.some.inj hfound)
      have htaken := hvalues _ (mem_headers_response htype hname)
      rw [hvalue, cStr_eq_self hnul] at htaken
      exact ⟨hname, hnul, hfirst, htaken⟩
    · rwa [← length_head_response htype hmajor hminor]
  · intro h
    refine ⟨⟨⟨h.major, h.minor, h.code⟩, fun e he => ?_, ?_⟩, h.body, ?_⟩
    · obtain ⟨hname, hvalue⟩ := name_of_mem_response htype he
      rw [hvalue]
      cases hlookup : msg.headers.lookup e.1 with
      | none => exact value_of_own hname htype hlookup
      | some value =>
        have hplain := (h.headers e.1 value hlookup (not_skipped_ownNames hname)).2
        rw [ownValue_of_lookup hlookup, cStr_eq_self hplain.noNul]
        exact hplain.taken
    · rw [length_head_response htype h.major h.minor]
      exact h.head
    · constructor
      · rw [hgotType, htype]
      · exact fun hrequest => absurd hrequest hnotRequest
      · exact fun hrequest => absurd hrequest hnotRequest
      · exact fun hrequest => absurd hrequest hnotRequest
      · exact fun hrequest => absurd hrequest hnotRequest
      · exact fun _ => hstatus
      · intro name value hlookup hskip
        obtain ⟨hname, hplain⟩ := h.headers name value hlookup hskip
        rw [hheaders, lookup_fields_response hclean htype hname, ownValue_of_lookup hlookup,
          skipBlanks_cStr_iff.mpr ⟨hplain.noNul, hplain.first⟩]
      · rw [hbody]
        have hwhole : msg.body.take (msg.body.length % 4294967296) = msg.body := by
          rw [Nat.mod_eq_of_lt h.body, List.take_length]
        exact hwhole

end Response

section Messages

variable {lib : HttpEncodeLib} {G : HttpGrammar lib.toHttpLib} {stray : ℕ} {codec : CodecHttp}
  {writer : HttpWriter} {msg : HttpMsg} {f : UrlFields} {lines : List Bytes}

theorem kept_of_request (htype : msg.type = httpRequest) (hf : lib.urlFields msg.url = some f) :
    Kept lib G stray codec writer msg ↔ KeptRequest lib G stray msg f := by
  constructor
  · exact fun h => h.1 htype f hf
  · intro h
    refine ⟨fun _ f' hf' => ?_, fun hresponse => ?_⟩
    · rwa [← Option.some.inj (hf.symm.trans hf')]
    · rw [htype] at hresponse
      exact absurd hresponse (by decide)

theorem kept_of_response (htype : msg.type = httpResponse) :
    Kept lib G stray codec writer msg ↔ KeptResponse lib G codec writer msg := by
  constructor
  · exact fun h => h.2 htype
  · intro h
    refine ⟨fun hrequest => ?_, fun _ => h⟩
    rw [htype] at hrequest
    exact absurd hrequest (by decide)

end Messages

/-- The urls that are a path. -/
def IsPath (url : Bytes) : Prop := url.head? = some 47 ∧ ∀ c ∈ url, 32 < c ∧ c ≠ 127

instance : DecidablePred IsPath := fun _ => inferInstanceAs (Decidable (_ ∧ ∀ c ∈ _, _))

/-- A parser that takes one text, and the code that `encode` calls. -/
def oneTextLib (t : HttpText) : HttpEncodeLib where
  execute input := if input = t.raw then ⟨t.calls true, t.raw.length, true⟩ else ⟨[], 0, false⟩
  parseUrl url := if IsPath url then some ⟨some url, none⟩ else none
  ungzip _ := none
  atof _ := zero
  path_noNul := by
    intro url parsed path hparse hpath hzero
    split_ifs at hparse with h
    rw [← Option.some.inj hparse] at hpath
    rw [← Option.some.inj hpath] at hzero
    exact absurd (h.2 0 hzero).1 (by decide)
  urlFields url := if IsPath url then some ⟨none, some (0, url.length), none, none⟩ else none
  gzip _ := none
  visit := byName
  parseUrl_eq := by
    intro url
    split_ifs
    · simp [field]
    · rfl
  enumerates := enumerates_byName

/-- `GET /a` of HTTP/1.1. -/
def getMsg (headers : FiniteMap Bytes Bytes) : HttpOut where
  type := httpRequest
  httpMajor := 1
  httpMinor := 1
  method := 1
  url := text "/a"
  headers := headers

/-- What is printed for it, whatever its headers are. -/
def getText : HttpText where
  start := .request 1 (text "/a") 1 1
  headers := [(text "Host", text "/a:80")]
  body := []

end Kimserver
