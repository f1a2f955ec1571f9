import Kimserver.Codec.HttpParserText
import Kimserver.Codec.HttpRoundTrip
import Kimserver.Codec.UrlAccept

/-!
# Messages through the parser of the source

What the round trip of a message asks of the parser is what the parser of the source does. So for
the codec with this parser the messages that survive are known without an assumption.

An url of 65536 bytes or more has parts whose positions do not fit into their 16 bits. The round
trip looks at no url but the one of the message and its end, so that a library that takes short
urls only stands in for the source.

## Main definitions

* `sourceEncodeLib`: the code that the codec calls
* `HttpEncodeLib.short`: a library without the long urls

## Main results

* `shortSource_urls`: the urls that `http_parser_parse_url` accepts are as the codec asks for
* `sourceLib_keepsMessage_iff`: the messages that survive
-/

namespace Kimserver

/-! ## Urls -/

section Urls

variable {url : Bytes} {t : UrlText}

theorem visible_urlChar : ∀ c, (isAlpha c = true ∨ isServerChar c = true ∨ isUrlChar c = true ∨
    isQueryChar c = true ∨ isFragmentChar c = true ∨ c = 58 ∨ c = 47 ∨ c = 63 ∨ c = 35 ∨ c = 64) →
    32 < c ∧ c ≠ 127 := by
  decide +kernel

theorem UrlServer.WellFormed.visible {a : UrlServer} (h : a.WellFormed) :
    ∀ c ∈ a.bytes, 32 < c ∧ c ≠ 127 := by
  intro c hc
  apply visible_urlChar
  rw [UrlServer.bytes, List.append_assoc] at hc
  rcases List.mem_append.mp hc with hc | hc
  · cases hinfo : a.userinfo with
    | none =>
      rw [UrlServer.info, hinfo] at hc
      cases hc
    | some u =>
      rw [UrlServer.info, hinfo] at hc
      rcases List.mem_append.mp hc with hc | hc
      · have hchar : isServerChar c = true := by
          rw [isServerChar, h.userinfo u hinfo c hc]
          rfl
        exact Or.inr (Or.inl hchar)
      · simp [List.mem_singleton.mp hc]
  · exact Or.inr (Or.inl (h.chars c hc))

theorem UrlText.WellFormed.visible (h : t.WellFormed) : ∀ c ∈ t.bytes, 32 < c ∧ c ≠ 127 := by
  intro c hc
  simp only [UrlText.bytes, List.mem_append] at hc
  rcases hc with (((hc | hc) | hc) | hc) | hc
  · apply visible_urlChar
    cases hserver : t.server with
    | none =>
      rw [UrlText.schemeBytes, hserver] at hc
      cases hc
    | some p =>
      rw [UrlText.schemeBytes, hserver] at hc
      rcases List.mem_append.mp hc with hc | hc
      · exact Or.inl ((h.scheme p hserver).2 c hc)
      · have hmem : c = 58 ∨ c = 47 ∨ c = 47 := by
          have htext : text "://" = [58, 47, 47] := rfl
          rwa [htext, List.mem_cons, List.mem_cons, List.mem_singleton] at hc
        rcases hmem with rfl | rfl | rfl <;> simp
  · cases hserver : t.server with
    | none =>
      rw [UrlText.serverBytes, hserver] at hc
      cases hc
    | some p =>
      rw [UrlText.serverBytes, hserver] at hc
      exact (h.server p hserver).visible c hc
  · exact visible_urlChar c (Or.inr (Or.inr (Or.inl (h.path c hc))))
  · apply visible_urlChar
    cases hquery : t.query with
    | none =>
      rw [UrlText.queryBytes, hquery] at hc
      cases hc
    | some q =>
      rw [UrlText.queryBytes, hquery] at hc
      rcases List.mem_cons.mp hc with rfl | hc
      · simp
      · exact Or.inr (Or.inr (Or.inr (Or.inl (h.query q hquery c hc))))
  · apply visible_urlChar
    cases hfragment : t.fragment with
    | none =>
      rw [UrlText.fragmentBytes, hfragment] at hc
      cases hc
    | some s =>
      rw [UrlText.fragmentBytes, hfragment] at hc
      rcases List.mem_cons.mp hc with rfl | hc
      · simp
      · exact Or.inr (Or.inr (Or.inr (Or.inr (Or.inl (h.fragment s hfragment c hc)))))

/-- An url from its path on. -/
def UrlText.fromPath (t : UrlText) : UrlText := { t with server := none }

theorem UrlText.WellFormed.fromPath (h : t.WellFormed) (hpath : t.path ≠ []) :
    t.fromPath.WellFormed where
  scheme := fun p hp => absurd hp (by simp [UrlText.fromPath])
  server := fun p hp => absurd hp (by simp [UrlText.fromPath])
  first := fun c hc => (h.first c hc).imp id fun h => ⟨h.1, rfl⟩
  path := h.path
  query := h.query
  fragment := h.fragment
  begun := fun _ => hpath
  hashed := h.hashed

theorem UrlText.bytes_fromPath : t.fromPath.bytes = t.bytes.drop t.pathPos := by
  have hlen : t.pathPos = (t.schemeBytes ++ t.serverBytes).length := by
    rw [List.length_append]
    rfl
  have hbytes : t.bytes = (t.schemeBytes ++ t.serverBytes) ++ (t.path ++ t.queryBytes ++
      t.fragmentBytes) := by
    simp only [UrlText.bytes, List.append_assoc]
  rw [hlen, hbytes, List.drop_left' rfl]
  rfl

/-- The part that a position tells. -/
theorem field_at_ {a part b : Bytes} {pos : ℕ} (hpos : pos = a.length) :
    (UrlText.at_ pos part).map (field (a ++ part ++ b)) = if part = [] then none else some part := by
  rw [UrlText.at_]
  split_ifs with hempty
  · rfl
  · rw [Option.map_some, field, List.append_assoc, hpos, List.drop_left' rfl, List.take_left' rfl]

theorem UrlText.parsed_fields : t.fields.parsed t.bytes =
    ⟨if t.path = [] then none else some t.path,
      t.query.bind fun q => if q = [] then none else some q⟩ := by
  rw [HttpParserUrl.parsed, ParsedUrl.mk.injEq]
  constructor
  · have hbytes : t.bytes = (t.schemeBytes ++ t.serverBytes) ++ t.path ++
        (t.queryBytes ++ t.fragmentBytes) := by
      simp only [UrlText.bytes, List.append_assoc]
    rw [hbytes]
    exact field_at_ (by rw [List.length_append]; rfl)
  · change (t.query.bind (UrlText.at_ t.queryPos)).map _ = _
    cases hquery : t.query with
    | none => rfl
    | some q =>
      have hbytes : t.bytes = (t.schemeBytes ++ t.serverBytes ++ t.path ++ [63]) ++ q ++
          t.fragmentBytes := by
        simp only [UrlText.bytes, UrlText.queryBytes, hquery, Option.elim_some, List.append_assoc,
          List.cons_append, List.nil_append]
      rw [hbytes]
      refine field_at_ ?_
      simp only [UrlText.queryPos, UrlText.pathPos, UrlText.serverPos, List.length_append,
        List.length_singleton]

theorem HostName.bytes_eq (h : HostName) :
    ∃ pre post, h.bytes = pre ++ h.text ++ post ∧ pre.length = h.skip := by
  cases h with
  | name s => exact ⟨[], [], by simp [HostName.bytes, HostName.text], rfl⟩
  | v6 address zone => exact ⟨[91], [93], by simp [HostName.bytes, HostName.text], rfl⟩

theorem UrlText.field_host {n : Bytes} {a : UrlServer} (hserver : t.server = some (n, a)) :
    (t.fieldData .host).map (field t.bytes) = if a.host.text = [] then none else some a.host.text := by
  obtain ⟨pre, post, hbytes, hskip⟩ := a.host.bytes_eq
  have hsplit : t.bytes = (t.schemeBytes ++ a.info ++ pre) ++ a.host.text ++
      (post ++ a.port.elim [] (58 :: ·) ++ t.path ++ t.queryBytes ++ t.fragmentBytes) := by
    have hserverBytes : t.serverBytes = a.info ++ a.host.bytes ++ a.port.elim [] (58 :: ·) := by
      rw [UrlText.serverBytes, hserver]
      rfl
    rw [UrlText.bytes, hserverBytes, hbytes]
    simp only [List.append_assoc]
  have hdata : t.fieldData .host = UrlText.at_ (t.hostPos a) a.host.text := by
    rw [UrlText.fieldData, hserver]
    rfl
  rw [hdata, hsplit]
  apply field_at_
  rw [UrlText.hostPos, UrlText.serverPos, ← hskip, List.length_append, List.length_append]

end Urls

/-! ## The library -/

/-- The members of `http_parser_url` that `encode` reads. -/
def HttpParserUrl.toFields (u : HttpParserUrl) : UrlFields where
  host := u.fieldData .host
  path := u.fieldData .path
  query := u.fieldData .query
  port := (u.fieldData .port).map fun _ => u.port

/-- The code that `CodecHttp` calls. -/
def sourceEncodeLib (ungzip gzip : Bytes → Option Bytes) (atof : Bytes → Double)
    (visit : FiniteMap Bytes Bytes → List (Bytes × Bytes))
    (hvisit : ∀ t, FiniteMap.Enumerates t (visit t)) : HttpEncodeLib where
  toHttpLib := sourceLib ungzip atof
  urlFields url := (httpParserParseUrl url false).map HttpParserUrl.toFields
  gzip := gzip
  visit := visit
  parseUrl_eq url := by
    change (httpParserParseUrl url false).map _ = _
    rw [Option.map_map]
    rfl
  enumerates := hvisit

/-- A library that takes short urls only. -/
def HttpEncodeLib.short (lib : HttpEncodeLib) : HttpEncodeLib where
  execute := lib.execute
  parseUrl url := if url.length < 65536 then lib.parseUrl url else none
  ungzip := lib.ungzip
  atof := lib.atof
  path_noNul hparse := by
    split_ifs at hparse
    exact lib.path_noNul hparse
  urlFields url := if url.length < 65536 then lib.urlFields url else none
  gzip := lib.gzip
  visit := lib.visit
  parseUrl_eq url := by
    split_ifs
    · exact lib.parseUrl_eq url
    · rfl
  enumerates := lib.enumerates

section Short

variable {lib : HttpEncodeLib} {url : Bytes}

theorem short_parseUrl (h : url.length < 65536) : lib.short.parseUrl url = lib.parseUrl url :=
  if_pos h

theorem short_urlFields (h : url.length < 65536) : lib.short.urlFields url = lib.urlFields url :=
  if_pos h

/-- The same targets and values. -/
def HttpGrammar.short (G : HttpGrammar lib.toHttpLib) : HttpGrammar lib.short.toHttpLib where
  Target := G.Target
  Value := G.Value
  target_of_parsed hmethod hparsed := by
    refine G.target_of_parsed hmethod ?_
    change (if _ then _ else _ : Option ParsedUrl).isSome = true at hparsed
    split_ifs at hparsed with hlen
    · exact hparsed
    · cases hparsed
  value_of_visible := G.value_of_visible

theorem valid_short {G : HttpGrammar lib.toHttpLib} {t : HttpText} : t.Valid G.short ↔ t.Valid G := by
  have hstart : t.start.Valid G.short ↔ t.start.Valid G := by
    cases t.start <;> exact Iff.rfl
  constructor
  · exact fun h => ⟨hstart.mp h.start, h.values, h.head⟩
  · exact fun h => ⟨hstart.mpr h.start, h.values, h.head⟩

/-- The calls that a text is reported with parse no url but its target. -/
theorem fire_short {calls : List HttpCallback} {msg : HttpMsg}
    (h : ∀ url, HttpCallback.url url ∈ calls → url.length < 65536) :
    fire lib.short.toHttpLib calls msg = fire lib.toHttpLib calls msg := by
  induction calls generalizing msg with
  | nil => rfl
  | cons call calls ih =>
    have hcall : call.run lib.short.toHttpLib msg = call.run lib.toHttpLib msg := by
      cases call with
      | url url =>
        have hlen := h url List.mem_cons_self
        simp only [HttpCallback.run, onUrl, short_parseUrl hlen]
      | _ => rfl
    rw [fire_cons, fire_cons, hcall, ih fun url hmem => h url (List.mem_cons_of_mem _ hmem)]

theorem urls_calls {t : HttpText} {keeps : Bool} (h : HttpCallback.url url ∈ t.calls keeps) :
    url = t.start.target := by
  rw [HttpText.calls, List.mem_cons, List.mem_cons, List.mem_append, List.mem_cons,
    List.mem_append, List.mem_singleton] at h
  rcases h with h | h | h | h | h | h
  · cases h
  · cases hstart : t.start with
    | request method target major minor =>
      rw [hstart] at h
      exact HttpCallback.url.inj h
    | response major minor code =>
      rw [hstart] at h
      cases h
  · obtain ⟨line, -, hmem⟩ := List.mem_flatMap.mp h
    rw [HeaderLine.calls, List.mem_cons, List.mem_map] at hmem
    rcases hmem with hmem | ⟨value, -, hmem⟩ <;> cases hmem
  · cases h
  · rw [HttpBody.calls] at h
    split_ifs at h
    · cases h
    · cases List.mem_singleton.mp h
  · cases h

theorem message_short {t : HttpText} {keeps : Bool} (h : t.start.target.length < 65536) :
    t.message lib.short.toHttpLib keeps = t.message lib.toHttpLib keeps :=
  fire_short fun _ hmem => urls_calls hmem ▸ h

/-- A round trip of a message looks at its url and at the end of it that is printed. -/
theorem saysSame_short {t : HttpText} {msg : HttpMsg} {keeps : Bool}
    (hurl : msg.url.length < 65536) (htarget : t.start.target.length < 65536)
    (hgot : (t.message lib.toHttpLib keeps).url.length < 65536) :
    SaysSame lib.short msg (t.message lib.short.toHttpLib keeps) ↔
      SaysSame lib msg (t.message lib.toHttpLib keeps) := by
  have hpath : urlPath lib.short msg.url = urlPath lib msg.url := by
    rw [urlPath, urlPath, short_parseUrl hurl]
  have hquery : ∀ {url : Bytes}, url.length < 65536 → urlQuery lib.short url = urlQuery lib url := by
    intro url hlen
    rw [urlQuery, urlQuery, short_parseUrl hlen]
  have hfields := @short_urlFields lib _ hurl
  rw [message_short htarget]
  constructor
  · intro h
    have hhost := h.host
    rw [hfields] at hhost
    exact ⟨h.type, h.method, fun ht => (h.path ht).trans hpath,
      fun ht => (hquery hgot).symm.trans ((h.query ht).trans (hquery hurl)), hhost, h.status,
      h.headers, h.body⟩
  · intro h
    have hhost := h.host
    rw [← hfields] at hhost
    exact ⟨h.type, h.method, fun ht => (h.path ht).trans hpath.symm,
      fun ht => (hquery hgot).trans ((h.query ht).trans (hquery hurl).symm), hhost, h.status,
      h.headers, h.body⟩

theorem keptRequest_short {G : HttpGrammar lib.toHttpLib} {stray : ℕ} {msg : HttpMsg}
    {f : UrlFields} (hurl : msg.url.length < 65536) :
    KeptRequest lib.short G.short stray msg f ↔ KeptRequest lib G stray msg f := by
  have hdrop : (msg.url.drop stray).length < 65536 := by
    rw [List.length_drop]
    omega
  have hparse : ∀ {url : Bytes}, url.length < 65536 → urlPath lib.short url = urlPath lib url ∧
      urlQuery lib.short url = urlQuery lib url := by
    intro url hlen
    rw [urlPath, urlPath, urlQuery, urlQuery, short_parseUrl hlen]
    exact ⟨rfl, rfl⟩
  have hsame : (urlPath lib.short (msg.url.drop stray) = urlPath lib.short msg.url ∧
      urlQuery lib.short (msg.url.drop stray) = urlQuery lib.short msg.url) ↔
        (urlPath lib (msg.url.drop stray) = urlPath lib msg.url ∧
          urlQuery lib (msg.url.drop stray) = urlQuery lib msg.url) := by
    rw [(hparse hdrop).1, (hparse hdrop).2, (hparse hurl).1, (hparse hurl).2]
  constructor
  · intro h
    exact ⟨h.major, h.minor, h.method, h.headers, h.host, fun hp => hsame.mp (h.pathless hp),
      h.target, h.connect, h.body, h.head⟩
  · intro h
    exact ⟨h.major, h.minor, h.method, h.headers, h.host, fun hp => hsame.mpr (h.pathless hp),
      h.target, h.connect, h.body, h.head⟩

end Short

/-! ## The urls of the source -/

section Source

variable {ungzip gzip : Bytes → Option Bytes} {atof : Bytes → Double}
  {visit : FiniteMap Bytes Bytes → List (Bytes × Bytes)}
  {hvisit : ∀ t, FiniteMap.Enumerates t (visit t)}

/-- **The short urls** that `http_parser_parse_url` accepts. -/
theorem shortSource_urls : UrlShape (sourceEncodeLib ungzip gzip atof visit hvisit).short := by
  -- such an url is the text of its parts
  have hparts : ∀ {url f}, (sourceEncodeLib ungzip gzip atof visit hvisit).short.urlFields url =
      some f → url.length < 65536 ∧ ∃ t : UrlText, t.WellFormed ∧ t.bytes = url ∧
        httpParserParseUrl t.bytes false = some t.fields ∧ f = t.fields.toFields := by
    intro url f hf
    change (if url.length < 65536 then
      (httpParserParseUrl url false).map HttpParserUrl.toFields else none) = some f at hf
    split_ifs at hf with hlen
    obtain ⟨u, hu, rfl⟩ := Option.map_eq_some_iff.mp hf
    obtain ⟨t, ht, rfl⟩ := url_of_parse hlen hu
    have hparse := UrlText.parse_bytes ht hlen
    rw [hu] at hparse
    split_ifs at hparse with hfits
    obtain rfl := Option.some.inj hparse
    exact ⟨hlen, t, ht, rfl, hu, rfl⟩
  constructor
  · intro url f hf
    obtain ⟨-, t, ht, rfl, -⟩ := hparts hf
    exact ht.visible
  · intro url f place hf hpath
    obtain ⟨hlen, t, ht, rfl, hparse, rfl⟩ := hparts hf
    change UrlText.at_ t.pathPos t.path = some place at hpath
    rw [UrlText.at_] at hpath
    split_ifs at hpath with hempty
    obtain rfl := Option.some.inj hpath
    have hshort : t.fromPath.bytes.length < 65536 := by
      rw [UrlText.bytes_fromPath, List.length_drop]
      omega
    have hfits : t.fromPath.PortFits := by
      intro s hs
      cases hs
    have hparse' := UrlText.parse_bytes (ht.fromPath hempty) hshort
    rw [if_pos hfits] at hparse'
    rw [← UrlText.bytes_fromPath, short_parseUrl hshort, short_parseUrl hlen]
    change (httpParserParseUrl t.fromPath.bytes false).map _ =
      (httpParserParseUrl t.bytes false).map _
    rw [hparse', hparse, Option.map_some, Option.map_some, UrlText.parsed_fields,
      UrlText.parsed_fields]
    rfl
  · intro url f host path hf hhost hpath
    obtain ⟨-, t, ht, rfl, -, rfl⟩ := hparts hf
    change t.fieldData .host = some host at hhost
    change t.fieldData .path = some path at hpath
    have hparsed : ((t.fieldData .path).map (field t.bytes)) = _ :=
      (congrArg ParsedUrl.path t.parsed_fields)
    constructor
    · cases hserver : t.server with
      | none =>
        rw [UrlText.fieldData, hserver] at hhost
        cases hhost
      | some p =>
        have htext := UrlText.field_host hserver
        rw [hhost, Option.map_some] at htext
        split_ifs at htext
        obtain ⟨pre, post, hbytes, -⟩ := p.2.host.bytes_eq
        rw [Option.some.inj htext]
        intro hmem
        refine ((ht.server p hserver).noSlash 47 ?_).1 rfl
        rw [UrlServer.bytes, hbytes]
        simp [hmem]
    · rw [hpath, Option.map_some] at hparsed
      split_ifs at hparsed with hempty
      rw [Option.some.inj hparsed]
      obtain ⟨c, rest, hcons⟩ := List.exists_cons_of_ne_nil hempty
      rw [hcons]
      rcases ht.first c (by rw [hcons]; rfl) with hc | ⟨-, hnone⟩
      · rw [hc]
        rfl
      · rw [UrlText.fieldData, hnone] at hhost
        cases hhost

/-! ## The round trip -/

variable {stray : ℕ} {codec : CodecHttp} {writer : HttpWriter} {msg : HttpOut}
  {sbuf : SocketBuffer}

/-- The numbers of a message and of its codec are `int`s. -/
structure HttpOut.Ints (codec : CodecHttp) (msg : HttpOut) : Prop where
  method : CInt.InRange msg.method
  status : CInt.InRange msg.statusCode
  major : CInt.InRange msg.httpMajor
  minor : CInt.InRange msg.httpMinor
  ownMajor : CInt.InRange codec.httpMajor
  ownMinor : CInt.InRange codec.httpMinor

/-- A request that is printed has a target. -/
theorem target_of_requestStart {lib : HttpEncodeLib} {msg : HttpMsg} {f : UrlFields}
    {lines : List Bytes} (hf : lib.urlFields msg.url = some f)
    (h : requestStart lib stray msg = some lines) : msg.url.drop (pathOffset stray f) ≠ [] := by
  rw [requestStart] at h
  split_ifs at h
  simp only [hf] at h
  split_ifs at h with hoff
  rw [Ne, List.drop_eq_nil_iff]
  exact hoff

/-- What is visible in an url that is taken. -/
theorem visible_of_urlFields {url : Bytes} {f : UrlFields} (hurl : url.length < 65536)
    (hf : (sourceEncodeLib ungzip gzip atof visit hvisit).urlFields url = some f) :
    ∀ c ∈ url, 32 < c ∧ c ≠ 127 :=
  shortSource_urls.visible ((short_urlFields hurl).trans hf)

/-- What is printed of a message is a text that the parser of the source is known to read. -/
theorem printable_printed {lines : List Bytes}
    (htype : msg.type = httpRequest ∨ msg.type = httpResponse) (hints : msg.Ints codec)
    (hclean : CleanHeaders msg.headers) (hurl : msg.url.length < 65536)
    (hhead : (printedText (sourceEncodeLib ungzip gzip atof visit hvisit) stray codec writer
      msg.toHttpMsg).head.length < 2147483640)
    (hstart : startLines (sourceEncodeLib ungzip gzip atof visit hvisit) stray codec
      msg.toHttpMsg = some lines) :
    (printedText (sourceEncodeLib ungzip gzip atof visit hvisit) stray codec writer
      msg.toHttpMsg).Printable := by
  obtain ⟨hprinted, -⟩ := encodedText_printed writer htype hclean
    (fun _ hf => visible_of_urlFields hurl hf) hstart
  refine { hprinted with start := ?_, head := hhead }
  rcases printedText_cases writer htype hstart with ⟨f, -, hf, hlines, htext⟩ |
    ⟨-, hcode, -, htext⟩
  · rw [htext]
    exact ⟨hints.method, hints.major, hints.minor, target_of_requestStart hf hlines⟩
  · rw [htext]
    exact ⟨hints.ownMajor, hints.ownMinor, hints.status, hcode⟩

/-- **The messages whose texts are read back** by the parser of the source. -/
theorem kept_source_iff (writer : HttpWriter) {lines : List Bytes}
    (htype : msg.type = httpRequest ∨ msg.type = httpResponse)
    (hclean : CleanHeaders msg.headers) (hurl : msg.url.length < 65536)
    (hstart : startLines (sourceEncodeLib ungzip gzip atof visit hvisit) stray codec
      msg.toHttpMsg = some lines) :
    ((printedText (sourceEncodeLib ungzip gzip atof visit hvisit) stray codec writer
        msg.toHttpMsg).Valid (sourceGrammar ungzip atof) ∧
      (printedText (sourceEncodeLib ungzip gzip atof visit hvisit) stray codec writer
        msg.toHttpMsg).body.length < 4294967296 ∧
      SaysSame (sourceEncodeLib ungzip gzip atof visit hvisit) msg.toHttpMsg
        ((printedText (sourceEncodeLib ungzip gzip atof visit hvisit) stray codec writer
          msg.toHttpMsg).message (sourceLib ungzip atof) true)) ↔
      Kept (sourceEncodeLib ungzip gzip atof visit hvisit) (sourceGrammar ungzip atof) stray codec
        writer msg.toHttpMsg := by
  set lib := sourceEncodeLib ungzip gzip atof visit hvisit
  let G : HttpGrammar lib.toHttpLib := sourceGrammar ungzip atof
  rcases printedText_cases writer htype hstart with ⟨f, htype, hf, -, htext⟩ |
    ⟨htype, hcode, -, htext⟩
  · -- the library that takes short urls only says the same of this url and of its end
    set t := requestText stray msg.toHttpMsg f
    have hf' : lib.short.urlFields msg.url = some f := (short_urlFields hurl).trans hf
    have htarget : t.start.target.length < 65536 := by
      change (msg.url.drop _).length < 65536
      rw [List.length_drop]
      omega
    have hgot : (t.message lib.toHttpLib true).url.length < 65536 := by
      obtain ⟨-, -, hurl', -⟩ :=
        @HttpText.message_request lib.toHttpLib t true msg.method msg.httpMajor msg.httpMinor
          (msg.url.drop (pathOffset stray f)) rfl
      rw [hurl']
      exact htarget
    rw [htext]
    change (t.Valid G ∧ _ ∧ SaysSame lib _ (t.message lib.toHttpLib true)) ↔
      Kept lib G stray codec writer _
    rw [kept_of_request htype hf, ← valid_short, ← saysSame_short hurl htarget hgot,
      ← keptRequest_short hurl]
    exact kept_request_iff shortSource_urls htype hf'
  · rw [htext]
    change _ ↔ Kept lib G stray codec writer _
    rw [kept_of_response htype]
    exact kept_response_iff (G := G) hclean htype hcode

end Source

/-- **The messages that survive** encoding, the parser of the source and decoding: for every
request with an url of less than 65536 bytes and every response, with any headers without line
ends and any body of less than `2 ^ 32` bytes, into any buffer. They are those of a kind, and the
write index behind the text and the NUL is below `2 ^ 31`. -/
theorem sourceLib_keepsMessage_iff (ungzip gzip : Bytes → Option Bytes) (atof : Bytes → Double)
    (visit : FiniteMap Bytes Bytes → List (Bytes × Bytes))
    (hvisit : ∀ t, FiniteMap.Enumerates t (visit t)) (stray : ℕ) (codec : CodecHttp)
    (writer : HttpWriter) (msg : HttpOut) (sbuf : SocketBuffer) (hwf : sbuf.Wf)
    (htype : msg.type = httpRequest ∨ msg.type = httpResponse) (hints : msg.Ints codec)
    (hclean : CleanHeaders msg.headers) (hurl : msg.url.length < 65536)
    (hbody : msg.body.length < 4294967296)
    (hhead : (printedText (sourceEncodeLib ungzip gzip atof visit hvisit) stray codec
      (writer.count codec) msg.toHttpMsg).head.length < 2147483640)
    (hok : (codec.encode (sourceEncodeLib ungzip gzip atof visit hvisit) stray writer msg sbuf).1 =
      .ok)
    (hmem : (codec.encode (sourceEncodeLib ungzip gzip atof visit hvisit) stray writer msg
      sbuf).2.2.InMemory) :
    KeepsMessage (sourceEncodeLib ungzip gzip atof visit hvisit) stray codec writer msg sbuf ↔
      Kept (sourceEncodeLib ungzip gzip atof visit hvisit) (sourceGrammar ungzip atof) stray codec
          (writer.count codec) msg.toHttpMsg ∧
        codec.nulIndex (sourceEncodeLib ungzip gzip atof visit hvisit) stray writer msg sbuf <
          2147483648 := by
  obtain ⟨hmajor, hsize, lines, hstart⟩ := CodecHttp.encode_inv hok
  obtain ⟨hprinted, htext, hsame⟩ := encodedText_printed (writer.count codec) htype hclean
    (fun _ hf => visible_of_urlFields hurl hf) hstart
  rcases lt_or_ge (codec.nulIndex (sourceEncodeLib ungzip gzip atof visit hvisit) stray writer msg
    sbuf) 2147483648 with hidx | hidx
  · obtain ⟨hwf', hcontents⟩ := CodecHttp.encode_contents hwf hmajor hstart hsize hidx
    rw [htext] at hcontents
    have hparses : (sourceLib ungzip atof).ParsesText (sourceGrammar ungzip atof) _ :=
      sourceLib_parsesText (printable_printed htype hints hclean hurl hhead hstart)
    have hread := kept_source_iff (writer.count codec) htype hclean hurl hstart
    exact ((keepsMessage_iff_text hprinted hparses hwf' hcontents hsame).trans hread).trans
      ⟨fun h => ⟨h, hidx⟩, fun h => h.1⟩
  · refine iff_of_false ?_ fun h => absurd h.2 (not_lt.mpr hidx)
    -- a text that is shorter than `2 ^ 32` bytes is lost as a whole, and more than that
    rintro ⟨hwf', bytes, hbytes, -⟩
    obtain ⟨n, hn, hcut⟩ :=
      (CodecHttp.encode_lost hwf hmajor hstart hsize hidx hmem).resolve_left (not_not_intro hwf')
    obtain ⟨-, hle⟩ := prefix_of_take (hbytes.symm.trans hcut)
    have hshort : msg.body.length < 2147483648 := by
      by_contra hlarge
      have hlost := CInt.toInt_natCast_of_le (not_lt.mp hlarge)
      omega
    rw [htext, List.length_append, HttpText.raw, List.length_append, hsame] at hn
    omega

/-- `GET /a` with a body survives. -/
theorem sourceLib_keepsMessage_iff_get :
    KeepsMessage (sourceEncodeLib some some (fun _ => zero) byName enumerates_byName) 0 {} {}
      { getMsg ∅ with body := [120, 10, 121] } {} := by
  have hfields : (sourceEncodeLib some some (fun _ => zero) byName enumerates_byName).urlFields
      (text "/a") = some ⟨none, some (0, 2), none, none⟩ := by decide +kernel
  refine (sourceLib_keepsMessage_iff some some (fun _ => zero) byName enumerates_byName 0 {} {}
    { getMsg ∅ with body := [120, 10, 121] } {} SocketBuffer.wf_empty (Or.inl rfl)
    ⟨by decide, by decide, by decide, by decide, by decide, by decide⟩ ?_ (by decide +kernel)
    (by decide) (by decide +kernel) (by decide +kernel) (by decide +kernel)).mpr
      ⟨⟨?_, ?_⟩, by decide +kernel⟩
  · intro name value h
    cases h
  · intro _ f hf
    obtain rfl := Option.some.inj (hfields.symm.trans hf)
    refine ⟨by decide, by decide, by decide, ?_, by decide, by decide, ?_, by decide, by decide,
      by decide +kernel⟩
    · intro name value h
      cases h
    · exact fun h => absurd h (by decide)
  · exact fun h => absurd h (by decide)

end Kimserver
