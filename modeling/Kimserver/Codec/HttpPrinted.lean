import Kimserver.Codec.HttpText
import Kimserver.Lib.OrderedMap

/-!
# The texts that are printed

The bytes that `CodecHttp::encode` appends for a request or a response, as a text with a start
line, header lines and a body, and the size of their heads. The path of the url stands where the
host should be, and every value ends at its first NUL.

## Main definitions

* `requestText`, `responseText`, `printedText`: the text of a message
* `requestHeadLen`, `responseHeadLen`: the sizes of their heads

## Main results

* `encodedText_request`, `encodedText_response`: `encode` prints these texts
* `requestText_clean`, `responseText_clean`: they have the shape that the parser is asked for
* `encodedText_printed`: both for a message whose first lines can be made
* `perm_visit_response`: the header lines of a response are those of the table
-/

namespace Kimserver

/-! ## The text of a message -/

section Printed

variable (lib : HttpEncodeLib) (stray : ℕ) (codec : CodecHttp) (writer : HttpWriter)
  (msg : HttpMsg)

def requestText (f : UrlFields) : HttpText where
  start := .request msg.method (msg.url.drop (pathOffset stray f)) msg.httpMajor msg.httpMinor
  headers := [(text "Host", printedHost msg f ++ [58] ++ natToDecimal (printedPort msg f))]
  body := msg.body

def responseText : HttpText where
  start := .response codec.httpMajor codec.httpMinor msg.statusCode
  headers := (lib.visit (printedHeaders lib codec writer msg)).map fun e => (e.1, cStr e.2)
  body := msg.body

/-- The text of a request or a response. -/
def printedText : HttpText :=
  if msg.type = httpRequest then
    requestText stray msg ((lib.urlFields msg.url).getD ⟨none, none, none, none⟩)
  else responseText lib codec writer msg

/-- The bytes in the head of a request with a version of two digits. -/
def requestHeadLen (f : UrlFields) : ℕ :=
  (httpMethodStr msg.method).length + (msg.url.length - pathOffset stray f) +
    (printedHost msg f).length + (natToDecimal (printedPort msg f)).length +
    (sizeText msg.body.length).length + 41

/-- The value that is printed for a name in the table of the codec. -/
def ownValue (name : Bytes) : Bytes :=
  (msg.headers.lookup name).getD (((ownHeaders codec writer msg).lookup name).getD [])

/-- The bytes in the head of a response with a version of two digits. -/
def responseHeadLen : ℕ :=
  (unsignedText msg.statusCode).length + (statusString msg.statusCode).length +
    ((ownNames writer).map fun name =>
      name.length + (cStr (ownValue codec writer msg name)).length + 4).sum +
    (sizeText msg.body.length).length + 32

end Printed

/-- Names without a line end or a colon, and values without a line end. -/
def CleanHeaders (headers : FiniteMap Bytes Bytes) : Prop :=
  ∀ name value, headers.lookup name = some value →
    (∀ c ∈ name, c ≠ 10 ∧ c ≠ 13 ∧ c ≠ 58) ∧ ∀ c ∈ value, c ≠ 10 ∧ c ≠ 13

section Text

variable {lib : HttpEncodeLib} {stray : ℕ} {codec : CodecHttp} {writer : HttpWriter}
  {msg : HttpMsg} {f : UrlFields}

theorem cStr_cStr (s : Bytes) : cStr (cStr s) = cStr s :=
  cStr_eq_self fun _ hc => by simpa using List.mem_takeWhile_imp hc

theorem visible_of_isDecimalChar {c : UInt8} (h : IsDecimalChar c) : 32 < c ∧ c ≠ 127 := by
  rcases h with rfl | ⟨hlow, hhigh⟩
  · decide
  · refine ⟨lt_of_lt_of_le (by decide) hlow, ?_⟩
    rintro rfl
    exact absurd hhigh (by decide)

theorem mem_of_mem_field {url : Bytes} {at_ : ℕ × ℕ} {c : UInt8} (h : c ∈ field url at_) :
    c ∈ url :=
  List.mem_of_mem_drop (List.mem_of_mem_take h)

theorem mem_of_mem_printedHost {c : UInt8} (h : c ∈ printedHost msg f) : c ∈ msg.url := by
  unfold printedHost at h
  cases hpath : f.path with
  | some at_ =>
    rw [hpath] at h
    exact mem_of_mem_field h
  | none =>
    cases hhost : f.host with
    | some at_ =>
      rw [hpath, hhost] at h
      exact mem_of_mem_field h
    | none =>
      rw [hpath, hhost] at h
      exact absurd h List.not_mem_nil

/-- What is printed for the host of a visible url is visible. -/
theorem visible_hostText (hvisible : ∀ c ∈ msg.url, 32 < c ∧ c ≠ 127) :
    ∀ c ∈ printedHost msg f ++ [58] ++ natToDecimal (printedPort msg f), 32 < c ∧ c ≠ 127 := by
  intro c hc
  rw [List.mem_append, List.mem_append, List.mem_singleton] at hc
  rcases hc with (hhost | rfl) | hport
  · exact hvisible c (mem_of_mem_printedHost hhost)
  · decide
  · exact visible_of_isDecimalChar (isDecimalChar_of_mem_natToDecimal hport)

theorem ne_of_visible {c d : UInt8} (h : 32 < c) (hd : d ≤ 32) : c ≠ d := by
  rintro rfl
  exact absurd h (not_lt.mpr hd)

theorem cStr_of_visible {s : Bytes} (h : ∀ c ∈ s, 32 < c ∧ c ≠ 127) : cStr s = s :=
  cStr_eq_self fun c hc => ne_of_visible (h c hc).1 (by decide)

theorem skipBlanks_of_visible {s : Bytes} (h : ∀ c ∈ s, 32 < c ∧ c ≠ 127) : skipBlanks s = s := by
  cases s with
  | nil => rfl
  | cons c s =>
    have hc := (h c List.mem_cons_self).1
    have hblank : isBlank c = false := by
      unfold isBlank
      rw [Bool.or_eq_false_iff, decide_eq_false_iff_not, decide_eq_false_iff_not]
      exact ⟨ne_of_visible hc (by decide), ne_of_visible hc (by decide)⟩
    rw [skipBlanks, List.dropWhile_cons, hblank]
    rfl

/-- The table of a request is empty. -/
theorem visit_request (htype : msg.type = httpRequest) :
    lib.visit (printedHeaders lib codec writer msg) = [] := by
  rw [List.eq_nil_iff_forall_not_mem]
  rintro ⟨name, value⟩ hmem
  obtain ⟨own, hown, -⟩ := mem_printedHeaders.mp hmem
  have hsome : ((ownHeaders codec writer msg).lookup name).isSome = true := by
    rw [hown]
    rfl
  have hresponse := ((lookup_ownHeaders_isSome name).mp hsome).1
  rw [htype] at hresponse
  exact absurd hresponse (by decide)

theorem urlFields_of_requestStart {lines : List Bytes}
    (h : requestStart lib stray msg = some lines) : ∃ f, lib.urlFields msg.url = some f := by
  cases hf : lib.urlFields msg.url with
  | some f => exact ⟨f, rfl⟩
  | none =>
    simp only [requestStart, hf, ite_self] at h
    cases h

/-- **The text of a request.** -/
theorem encodedText_request {lines : List Bytes} (htype : msg.type = httpRequest)
    (hf : lib.urlFields msg.url = some f) (hstart : requestStart lib stray msg = some lines)
    (hvisible : ∀ c ∈ msg.url, 32 < c ∧ c ≠ 127) :
    encodedText lib codec writer lines msg = (requestText stray msg f).raw := by
  have htarget : cStr (msg.url.drop (pathOffset stray f)) = msg.url.drop (pathOffset stray f) :=
    cStr_of_visible fun c hc => hvisible c (List.mem_of_mem_drop hc)
  have hhost : cStr (printedHost msg f) = printedHost msg f :=
    cStr_of_visible fun c hc => hvisible c (mem_of_mem_printedHost hc)
  have hline : cStr (printedHost msg f ++ ([58] ++ natToDecimal (printedPort msg f))) =
      printedHost msg f ++ ([58] ++ natToDecimal (printedPort msg f)) := by
    rw [← List.append_assoc]
    exact cStr_of_visible (visible_hostText hvisible)
  have hname : cStr (text "Host") ++ text ": " = text "Host: " := by decide
  have hcolon : text ":" = [58] := by decide
  unfold requestStart at hstart
  by_cases hurl : msg.url = []
  · rw [if_pos hurl] at hstart
    cases hstart
  · simp only [if_neg hurl, hf] at hstart
    by_cases hoff : msg.url.length ≤ pathOffset stray f
    · rw [if_pos hoff] at hstart
      cases hstart
    · rw [if_neg hoff] at hstart
      rw [encodedText, visit_request htype, ← Option.some.inj hstart, htarget, hhost, hcolon]
      simp only [HttpText.raw, HttpText.head, requestText, StartLine.bytes, headerLine,
        List.flatMap_cons, List.flatMap_nil, List.append_nil, List.flatten_cons,
        List.flatten_nil, hline, hname, List.append_assoc]

/-- **The text of a response.** -/
theorem encodedText_response {lines : List Bytes} (hstart : responseStart codec msg = some lines) :
    encodedText lib codec writer lines msg = (responseText lib codec writer msg).raw := by
  have hlines : ∀ e : Bytes × Bytes, headerLine (e.1, cStr e.2) = headerLine e := by
    intro e
    simp only [headerLine, cStr_cStr]
  unfold responseStart at hstart
  by_cases hcode : msg.statusCode = 0
  · rw [if_pos hcode] at hstart
    cases hstart
  · rw [if_neg hcode] at hstart
    rw [encodedText, ← Option.some.inj hstart, List.flatten_singleton]
    simp only [HttpText.raw, HttpText.head, responseText, StartLine.bytes, List.flatMap_map, hlines]

theorem requestText_clean (hvisible : ∀ c ∈ msg.url, 32 < c ∧ c ≠ 127) :
    (requestText stray msg f).Clean where
  target c hc := hvisible c (List.mem_of_mem_drop hc)
  names e he := by
    rw [List.mem_singleton.mp he]
    exact List.mem_cons_self
  nodup := List.nodup_singleton _
  values e he c hc := by
    rw [List.mem_singleton.mp he] at hc
    have h := (visible_hostText hvisible c hc).1
    exact ⟨ne_of_visible h (by decide), ne_of_visible h (by decide), ne_of_visible h (by decide)⟩

/-- The values that the table has of its own. -/
theorem mem_ownValues {name own : Bytes}
    (h : (ownHeaders codec writer msg).lookup name = some own) :
    own ∈ [text "close", text "keep-alive", text "POST,GET", text "KimHttp"] := by
  unfold ownHeaders at h
  by_cases htype : msg.type = httpResponse
  · rw [if_pos htype] at h
    rcases FiniteMap.eq_or_of_lookup_insert h with rfl | h
    · simp
    rcases FiniteMap.eq_or_of_lookup_insert h with rfl | h
    · simp
    cases hclient : writer.isClient with
    | true =>
      rw [hclient, if_pos rfl] at h
      cases h
    | false =>
      rw [hclient, if_neg Bool.false_ne_true] at h
      rcases FiniteMap.eq_or_of_lookup_insert h with rfl | h
      · cases codec.keepAlive.isZero <;> simp
      · cases h
  · rw [if_neg htype] at h
    cases h

theorem responseText_clean (hclean : CleanHeaders msg.headers) :
    (responseText lib codec writer msg).Clean where
  target c hc := absurd hc List.not_mem_nil
  names e he := by
    obtain ⟨⟨name, value⟩, hmem, rfl⟩ := List.mem_map.mp he
    obtain ⟨own, hown, -⟩ := mem_printedHeaders.mp hmem
    have hsome : ((ownHeaders codec writer msg).lookup name).isSome = true := by
      rw [hown]
      rfl
    exact List.mem_cons_of_mem _ (mem_of_mem_ownNames ((lookup_ownHeaders_isSome name).mp hsome).2)
  nodup := by
    change (((lib.visit _).map _).map Prod.fst).Nodup
    rw [List.map_map]
    exact (lib.enumerates _).1
  values e he c hc := by
    obtain ⟨⟨name, value⟩, hmem, rfl⟩ := List.mem_map.mp he
    obtain ⟨own, hown, rfl⟩ := mem_printedHeaders.mp hmem
    have hzero : c ≠ 0 := by simpa using List.mem_takeWhile_imp hc
    have hvalue := List.takeWhile_subset _ hc
    refine ⟨hzero, ?_⟩
    cases hlookup : msg.headers.lookup name with
    | some value =>
      rw [hlookup] at hvalue
      exact (hclean name value hlookup).2 c hvalue
    | none =>
      rw [hlookup] at hvalue
      have hvalues : ∀ own ∈ [text "close", text "keep-alive", text "POST,GET", text "KimHttp"],
          ∀ c ∈ own, c ≠ 10 ∧ c ≠ 13 := by decide +kernel
      exact hvalues own (mem_ownValues hown) c hvalue

/-! ## The text of a request or a response -/

/-- A message whose first lines can be made is a request with an url that was parsed, or a response
with a status code. -/
theorem printedText_cases {lines : List Bytes} (writer : HttpWriter)
    (htype : msg.type = httpRequest ∨ msg.type = httpResponse)
    (hstart : startLines lib stray codec msg = some lines) :
    (∃ f, msg.type = httpRequest ∧ lib.urlFields msg.url = some f ∧
      requestStart lib stray msg = some lines ∧
      printedText lib stray codec writer msg = requestText stray msg f) ∨
    (msg.type = httpResponse ∧ msg.statusCode ≠ 0 ∧ responseStart codec msg = some lines ∧
      printedText lib stray codec writer msg = responseText lib codec writer msg) := by
  rcases htype with htype | htype
  · rw [startLines, if_pos htype] at hstart
    obtain ⟨f, hf⟩ := urlFields_of_requestStart hstart
    refine Or.inl ⟨f, htype, hf, hstart, ?_⟩
    rw [printedText, if_pos htype, hf]
    rfl
  · have hne : msg.type ≠ httpRequest := by
      rw [htype]
      decide
    rw [startLines, if_neg hne, if_pos htype] at hstart
    refine Or.inr ⟨htype, ?_, hstart, if_neg hne⟩
    intro hzero
    rw [responseStart, if_pos hzero] at hstart
    cases hstart

/-- **What is printed of a message** is a text of the shape that the parser is asked for. -/
theorem encodedText_printed {lines : List Bytes} (writer : HttpWriter)
    (htype : msg.type = httpRequest ∨ msg.type = httpResponse) (hclean : CleanHeaders msg.headers)
    (hvisible : ∀ f, lib.urlFields msg.url = some f → ∀ c ∈ msg.url, 32 < c ∧ c ≠ 127)
    (hstart : startLines lib stray codec msg = some lines) :
    (printedText lib stray codec writer msg).Clean ∧
      encodedText lib codec writer lines msg = (printedText lib stray codec writer msg).raw ∧
      (printedText lib stray codec writer msg).body = msg.body := by
  rcases printedText_cases writer htype hstart with ⟨f, htype, hf, hlines, htext⟩ |
    ⟨-, -, hlines, htext⟩
  · have hurl := hvisible f hf
    rw [htext]
    exact ⟨requestText_clean hurl, encodedText_request htype hf hlines hurl, rfl⟩
  · rw [htext]
    exact ⟨responseText_clean hclean, encodedText_response hlines, rfl⟩

/-! ## The size of the head -/

theorem length_unsignedText {n : ℤ} (h : OneDigit n) : (unsignedText n).length = 1 := by
  obtain ⟨hlow, hhigh⟩ := h
  interval_cases n <;> decide

theorem length_versionText {major minor : ℤ} (hmajor : OneDigit major) (hminor : OneDigit minor) :
    (versionText major minor).length = 8 := by
  have hname : (text "HTTP/").length = 5 ∧ (text ".").length = 1 := by decide
  simp only [versionText, List.length_append, length_unsignedText hmajor,
    length_unsignedText hminor, hname]

theorem length_lengthLine (body : Bytes) :
    (lengthLine body).length = (sizeText body.length).length + 20 := by
  have hname : (text "Content-Length: ").length = 16 ∧ crlf.length = 2 := by decide
  simp only [lengthLine, List.length_append, hname]
  omega

theorem length_head_request (hmajor : OneDigit msg.httpMajor) (hminor : OneDigit msg.httpMinor)
    (hvisible : ∀ c ∈ msg.url, 32 < c ∧ c ≠ 127) :
    (requestText stray msg f).head.length = requestHeadLen stray msg f := by
  have hname : (cStr (text "Host")).length = 4 ∧ (text ": ").length = 2 ∧
      (text " ").length = 1 ∧ crlf.length = 2 := by decide
  have hline := cStr_of_visible (visible_hostText hvisible) (s := printedHost msg f ++ [58] ++
    natToDecimal (printedPort msg f))
  simp only [HttpText.head, requestText, StartLine.bytes, headerLine, List.flatMap_cons,
    List.flatMap_nil, List.append_nil, List.length_append, length_versionText hmajor hminor,
    length_lengthLine, List.length_drop, hline, hname, List.length_singleton, requestHeadLen]
  omega

theorem nodup_ownNames (writer : HttpWriter) : (ownNames writer).Nodup := by
  unfold ownNames
  cases writer.isClient <;> decide

/-- The lines of a response are those of the names in the table. -/
theorem perm_visit_response (htype : msg.type = httpResponse) :
    (lib.visit (printedHeaders lib codec writer msg)).Perm
      ((ownNames writer).map fun name => (name, ownValue codec writer msg name)) := by
  have hnodup : ((ownNames writer).map fun name =>
      (name, ownValue codec writer msg name)).Nodup :=
    (nodup_ownNames writer).map fun _ _ h => (Prod.mk.inj h).1
  refine (List.perm_ext_iff_of_nodup (lib.enumerates _).1.of_map hnodup).mpr ?_
  rintro ⟨name, value⟩
  rw [mem_printedHeaders, List.mem_map]
  constructor
  · rintro ⟨own, hown, rfl⟩
    have hsome : ((ownHeaders codec writer msg).lookup name).isSome = true := by
      rw [hown]
      rfl
    refine ⟨name, ((lookup_ownHeaders_isSome name).mp hsome).2, ?_⟩
    rw [ownValue, hown]
    rfl
  · rintro ⟨name', hname, heq⟩
    obtain ⟨rfl, rfl⟩ := Prod.mk.inj heq
    have hsome : ((ownHeaders codec writer msg).lookup name').isSome = true :=
      (lookup_ownHeaders_isSome name').mpr ⟨htype, hname⟩
    obtain ⟨own, hown⟩ := Option.isSome_iff_exists.mp hsome
    refine ⟨own, hown, ?_⟩
    rw [ownValue, hown]
    rfl

theorem length_head_response (htype : msg.type = httpResponse) (hmajor : OneDigit codec.httpMajor)
    (hminor : OneDigit codec.httpMinor) :
    (responseText lib codec writer msg).head.length = responseHeadLen codec writer msg := by
  have hsize : (text ": ").length = 2 ∧ (text " ").length = 1 ∧ crlf.length = 2 := by decide
  have hnames : ∀ name ∈ ownNames writer, cStr name = name := by
    intro name hname
    have hall : ∀ x ∈ [text "Allow", text "Server", text "Connection"], cStr x = x := by decide
    exact hall name (mem_of_mem_ownNames hname)
  -- the order of the lines does not matter
  have hlines : ((responseText lib codec writer msg).headers.flatMap headerLine).length =
      ((ownNames writer).map fun name =>
        name.length + (cStr (ownValue codec writer msg name)).length + 4).sum := by
    have hperm : (lib.visit (printedHeaders lib codec writer msg)).Perm _ :=
      perm_visit_response htype
    simp only [responseText, List.length_flatMap, List.map_map]
    refine (hperm.map _).sum_eq.trans ?_
    rw [List.map_map]
    refine congrArg List.sum (List.map_congr_left fun name hname => ?_)
    simp only [Function.comp, headerLine, cStr_cStr, List.length_append, hnames name hname, hsize]
    omega
  unfold HttpText.head
  rw [List.length_append, List.length_append, hlines]
  simp only [responseText, StartLine.bytes, List.length_append, length_versionText hmajor hminor,
    length_lengthLine, hsize, responseHeadLen]
  omega

end Text

end Kimserver
