import Kimserver.Codec.Http

/-!
# HTTP requests and their calls

A keep-alive HTTP/1.1 request as it lies in a stream: its bytes, and the parts the parser reports
with its callbacks. The assumptions on the parser are about a stream of such requests: it goes on
from one message to the next until the bytes end, and stops behind a request for an upgrade.

A message that takes the calls of a request may hold the parts of another one. What it holds
afterwards is `HttpRequest.laidOver`, and `HttpRequest.Hides` tells when that is the request alone.

## Main definitions

* `HeaderLine`, `HttpBody`, `HttpRequest`: the parts of a request
* `HttpRequest.calls`, `HttpRequest.view`: what the parser reports, and what a handler should read
* `Recognises`: the behaviour of the parser on a stream
* `HttpRequest.laidOver`, `HttpRequest.Hides`: a request in a message that holds something already

## Main results

* `view_fire_calls`: the callbacks of a request compute `HttpRequest.laidOver`
* `HttpRequest.hides_iff`: exactly a request that hides the message before is read as it is
-/

namespace Kimserver

/-! ## The parts of a request -/

/-- A header line. The value of a folded line is reported one line at a time. -/
structure HeaderLine where
  name : Bytes
  first : Bytes
  folded : List Bytes := []
  deriving DecidableEq

namespace HeaderLine

variable (h : HeaderLine)

def value : Bytes := h.first ++ h.folded.flatten

def calls : List HttpCallback := .headerField h.name :: (h.first :: h.folded).map .headerValue

/-- What `on_header_value` assigns: the second line of a value finds an empty name. -/
def assigned : List (Bytes × Bytes) := (h.name, h.first) :: h.folded.map fun value => ([], value)

end HeaderLine

/-- A body with its transfer encoding; trailers are header lines behind the last chunk. -/
inductive HttpBody
  | identity (data : Bytes)
  | chunked (chunks : List Bytes) (trailers : List HeaderLine)
  deriving DecidableEq

namespace HttpBody

def data : HttpBody → Bytes
  | .identity data => data
  | .chunked chunks _ => chunks.flatten

def trailers : HttpBody → List HeaderLine
  | .identity _ => []
  | .chunked _ trailers => trailers

def calls : HttpBody → List HttpCallback
  | .identity data => if data = [] then [] else [.body data]
  | .chunked chunks trailers =>
    chunks.flatMap (fun data => [.chunkHeader, .body data, .chunkComplete]) ++
      .chunkHeader :: (trailers.flatMap HeaderLine.calls ++ [.chunkComplete])

end HttpBody

/-- A keep-alive HTTP/1.1 request: its bytes and its parts. `upgrade` tells that the parser takes
what follows for another protocol. -/
structure HttpRequest where
  raw : Bytes
  method : ℤ
  url : Bytes
  headers : List HeaderLine
  body : HttpBody
  upgrade : Bool := false
  deriving DecidableEq

namespace HttpRequest

variable (lib : HttpLib) (r : HttpRequest)

def lines : List HeaderLine := r.headers ++ r.body.trailers

/-- What the parser reports of the request. -/
def calls : List HttpCallback :=
  .messageBegin :: .url r.url :: (r.headers.flatMap HeaderLine.calls ++
    .headersComplete :: (r.body.calls ++ [.messageComplete ⟨0, r.method, 1, 1, true⟩]))

def path? : Option Bytes := (lib.parseUrl r.url).bind ParsedUrl.path

def params : FiniteMap Bytes Bytes :=
  ((lib.parseUrl r.url).bind ParsedUrl.query).elim ∅ decodeParams

def fields : FiniteMap Bytes Bytes :=
  FiniteMap.assignAll ∅ (r.lines.map fun h => (h.name, h.value))

/-- The content of a body with the content coding of the request. -/
def content (body : Bytes) : Option Bytes :=
  if gzipped r.fields then lib.ungzip body else some body

/-- What a handler should read of the request. -/
def view : HttpView where
  method := r.method
  url := r.url
  path := (r.path? lib).getD []
  params := r.params lib
  headers := r.fields
  body := (r.content lib r.body.data).getD []

/-- A request has bytes and, as it names its host, a header line; every line has a name; and a
body that is said to be compressed can be decompressed. -/
structure WellFormed : Prop where
  raw : r.raw ≠ []
  host : r.headers ≠ []
  names : ∀ h ∈ r.lines, h.name ≠ []
  content : (r.content lib r.body.data).isSome

/-! ## A request in a message that holds something already -/

/-- The bytes that `on_body` has collected at the end: a trailer puts its name in their place. -/
def kept : Bytes := if r.body.trailers = [] then r.body.data else []

/-- What the callbacks make of a message. -/
def laidOver (v : HttpView) : HttpView where
  method := r.method
  url := r.url
  path := (r.path? lib).getD v.path
  params := r.params lib ∪ v.params
  headers := FiniteMap.assignAll v.headers (r.lines.flatMap HeaderLine.assigned)
  body := r.kept

/-- No line is folded, no trailer takes the place of a body, and the path, the parameters and the
header lines of `v` are written over. -/
structure Hides (v : HttpView) : Prop where
  unfolded : ∀ h ∈ r.lines, h.folded = []
  path : (r.path? lib).isSome ∨ v.path = []
  params : ∀ k ∈ v.params, k ∈ r.params lib
  headers : ∀ k ∈ v.headers, k ∈ r.fields
  body : r.content lib r.kept = r.content lib r.body.data

end HttpRequest

/-! ## Streams and the parser -/

/-- The bytes of a stream. -/
def rawAll (rs : List HttpRequest) : Bytes := rs.flatMap HttpRequest.raw

/-- The calls for a stream. -/
def callsAll (rs : List HttpRequest) : List HttpCallback := rs.flatMap HttpRequest.calls

/-- What the callbacks of several requests in a row make of a message. -/
def overAll (lib : HttpLib) (v : HttpView) (rs : List HttpRequest) : HttpView :=
  rs.foldl (fun v r => r.laidOver lib v) v

/-- None of the requests asks for an upgrade. -/
def Plain (rs : List HttpRequest) : Prop := ∀ r ∈ rs, r.upgrade = false

instance (rs : List HttpRequest) : Decidable (Plain rs) := inferInstanceAs (Decidable (∀ r ∈ rs, _))

/-- The call for the end of a message. -/
def HttpCallback.isComplete : HttpCallback → Bool
  | .messageComplete _ => true
  | _ => false

/-- The calls for the beginning of a message. -/
def Unfinished (calls : List HttpCallback) : Prop :=
  calls.head? = some .messageBegin ∧ ∀ call ∈ calls, call.isComplete = false

instance (calls : List HttpCallback) : Decidable (Unfinished calls) :=
  inferInstanceAs (Decidable (_ ∧ ∀ call ∈ calls, _))

/-- The parser on the requests of a stream: it reports all requests in its input, up to one that
asks for an upgrade, and the beginning of a request that the input cuts off. -/
structure Recognises (lib : HttpLib) (rs : List HttpRequest) : Prop where
  whole : ∀ g, g <:+: rs → g ≠ [] → Plain g →
    lib.execute (rawAll g) = ⟨callsAll g, (rawAll g).length, true⟩
  upgrade : ∀ g r rest, g ++ [r] <:+: rs → Plain g → r.upgrade = true →
    lib.execute (rawAll (g ++ [r]) ++ rest) =
      ⟨callsAll (g ++ [r]), (rawAll (g ++ [r])).length, true⟩
  part : ∀ g r k, g ++ [r] <:+: rs → Plain g → 0 < k → k < r.raw.length →
    ∃ calls, (lib.execute (rawAll g ++ r.raw.take k)).calls = callsAll g ++ calls ∧
      Unfinished calls

theorem Recognises.mono {lib : HttpLib} {rs rs' : List HttpRequest} (h : Recognises lib rs)
    (hsub : rs' <:+: rs) : Recognises lib rs' where
  whole g hg := h.whole g (hg.trans hsub)
  upgrade g r rest hg := h.upgrade g r rest (hg.trans hsub)
  part g r k hg := h.part g r k (hg.trans hsub)

section Texts

variable {rs rs' : List HttpRequest}

@[simp] theorem rawAll_nil : rawAll [] = [] := rfl

@[simp] theorem rawAll_cons (r : HttpRequest) : rawAll (r :: rs) = r.raw ++ rawAll rs := rfl

theorem rawAll_append : rawAll (rs ++ rs') = rawAll rs ++ rawAll rs' := List.flatMap_append

@[simp] theorem callsAll_cons (r : HttpRequest) : callsAll (r :: rs) = r.calls ++ callsAll rs := rfl

/-- Every request takes a byte. -/
theorem length_le_rawAll (h : ∀ r ∈ rs, r.raw ≠ []) : rs.length ≤ (rawAll rs).length := by
  induction rs with
  | nil => exact le_rfl
  | cons r rs ih =>
    have hpos := List.length_pos_of_ne_nil (h r List.mem_cons_self)
    have hrest := ih fun x hx => h x (List.mem_cons_of_mem _ hx)
    rw [rawAll_cons, List.length_append, List.length_cons]
    omega

theorem callsAll_append : callsAll (rs ++ rs') = callsAll rs ++ callsAll rs' :=
  List.flatMap_append

@[simp] theorem callsAll_singleton (r : HttpRequest) : callsAll [r] = r.calls :=
  List.flatMap_singleton ..

theorem plain_append : Plain (rs ++ rs') ↔ Plain rs ∧ Plain rs' := List.forall_mem_append

theorem plain_singleton {r : HttpRequest} : Plain [r] ↔ r.upgrade = false :=
  List.forall_mem_singleton

end Texts

/-! ## The callbacks of a request -/

section Calls

variable {lib : HttpLib}

/-- Values without a name of their own go to the empty name. -/
theorem view_fire_values {values : List Bytes} {msg : HttpMsg} (h : msg.view.body = []) :
    (fire lib (values.map .headerValue) msg).view =
      { msg.view with
        headers :=
          FiniteMap.assignAll msg.view.headers (values.map fun value => ([], value)) } := by
  induction values generalizing msg with
  | nil => rfl
  | cons value values ih =>
    have hstep := @view_onHeaderValue lib msg value
    rw [List.map_cons, fire_cons, HttpCallback.run, ih (by rw [hstep]), hstep, h]
    refine HttpView.ext rfl rfl rfl rfl rfl ?_
    exact h.symm

/-- **A header line** assigns its values and leaves an empty body. -/
theorem view_fire_line (line : HeaderLine) (msg : HttpMsg) :
    (fire lib line.calls msg).view =
      { msg.view with
        headers := FiniteMap.assignAll msg.view.headers line.assigned
        body := [] } := by
  have hstep := @view_onHeaderValue lib (onHeaderField line.name msg) line.first
  rw [HeaderLine.calls, fire_cons, List.map_cons, fire_cons, HttpCallback.run, HttpCallback.run,
    view_fire_values (by rw [hstep]), hstep]
  rfl

theorem view_fire_lines {lines : List HeaderLine} {msg : HttpMsg} :
    (fire lib (lines.flatMap HeaderLine.calls) msg).view =
      { msg.view with
        headers := FiniteMap.assignAll msg.view.headers (lines.flatMap HeaderLine.assigned)
        body := if lines = [] then msg.view.body else [] } := by
  induction lines generalizing msg with
  | nil => rfl
  | cons line lines ih =>
    rw [List.flatMap_cons, fire_append, ih, view_fire_line, List.flatMap_cons,
      FiniteMap.assignAll_append]
    simp

/-- The chunks of a body follow one another. -/
theorem view_fire_chunks {chunks : List Bytes} {msg : HttpMsg} :
    (fire lib (chunks.flatMap fun data => [.chunkHeader, .body data, .chunkComplete]) msg).view =
      { msg.view with body := msg.view.body ++ chunks.flatten } := by
  induction chunks generalizing msg with
  | nil => simp [fire]
  | cons data chunks ih =>
    rw [List.flatMap_cons, fire_append, ih]
    have hstep := @view_onBody msg data
    simp only [fire_cons, fire_nil, HttpCallback.run, id_eq, hstep, List.flatten_cons,
      List.append_assoc]

/-- **A body** is what was collected before with the data behind it, unless trailers follow. -/
theorem view_fire_body (body : HttpBody) (msg : HttpMsg) :
    (fire lib body.calls msg).view =
      { msg.view with
        headers := FiniteMap.assignAll msg.view.headers (body.trailers.flatMap HeaderLine.assigned)
        body := if body.trailers = [] then msg.view.body ++ body.data else [] } := by
  cases body with
  | identity data =>
    simp only [HttpBody.calls, HttpBody.trailers, HttpBody.data, if_true]
    split_ifs with hdata
    · simp [hdata]
    · exact view_onBody data
  | chunked chunks trailers =>
    simp only [HttpBody.calls, HttpBody.trailers, HttpBody.data]
    rw [fire_append, fire_cons, fire_append]
    simp only [fire_cons, fire_nil, HttpCallback.run, id_eq]
    rw [view_fire_lines, view_fire_chunks]
    rfl

/-- **The callbacks of a request** write its parts over what the message holds. -/
theorem view_fire_calls {r : HttpRequest} (h : r.headers ≠ []) (msg : HttpMsg) :
    (fire lib r.calls msg).view = r.laidOver lib msg.view := by
  have hurl := @view_onUrl lib (onMessageBegin msg) r.url
  rw [HttpRequest.calls, fire_cons, fire_cons, fire_append, fire_cons, fire_append]
  simp only [fire_cons, fire_nil, HttpCallback.run, id_eq]
  rw [view_onMessageComplete rfl, view_fire_body, view_fire_lines, hurl, if_neg h,
    List.nil_append]
  simp only [HttpRequest.laidOver, HttpRequest.lines, HttpRequest.kept, List.flatMap_append,
    FiniteMap.assignAll_append]
  rfl

variable (lib) in
/-- The calls of several requests in a row all write into one message. -/
theorem view_fire_callsAll {rs : List HttpRequest} (h : ∀ r ∈ rs, r.headers ≠ [])
    (msg : HttpMsg) :
    (fire lib (callsAll rs) msg).view = overAll lib msg.view rs := by
  induction rs generalizing msg with
  | nil => rfl
  | cons r rs ih =>
    rw [callsAll_cons, fire_append, ih fun x hx => h x (List.mem_cons_of_mem _ hx),
      view_fire_calls (h r List.mem_cons_self)]
    rfl

theorem isDecoding_fire_calls (r : HttpRequest) (msg : HttpMsg) :
    (fire lib r.calls msg).isDecoding = false := by
  rw [HttpRequest.calls, fire_cons, fire_cons, fire_append, fire_cons, fire_append, fire_cons,
    fire_nil]
  exact isDecoding_complete _

variable (lib) in
theorem isDecoding_fire_callsAll {rs : List HttpRequest} (h : rs ≠ []) (msg : HttpMsg) :
    (fire lib (callsAll rs) msg).isDecoding = false := by
  obtain ⟨init, r, rfl⟩ := (List.eq_nil_or_concat' rs).resolve_left h
  rw [callsAll_append, fire_append, callsAll_singleton]
  exact isDecoding_fire_calls r _

/-- A run that ends within a message leaves it unfinished, whatever came before. -/
theorem Unfinished.isDecoding {calls : List HttpCallback} (h : Unfinished calls) (msg : HttpMsg) :
    (fire lib calls msg).isDecoding = true := by
  obtain ⟨hbegin, hcomplete⟩ := h
  cases calls with
  | nil => exact absurd hbegin (by simp)
  | cons call calls =>
    obtain rfl : call = .messageBegin := Option.some.inj hbegin
    rw [fire_cons]
    refine isDecoding_fire rfl fun parser hmem => ?_
    exact absurd (hcomplete _ (List.mem_cons_of_mem _ hmem)) (by simp [HttpCallback.isComplete])

end Calls

/-! ## What a request hides -/

section Hides

variable {lib : HttpLib} {r : HttpRequest} {v : HttpView}

/-- A line that is folded assigns to the empty name. -/
theorem mem_assigned_of_folded {lines : List HeaderLine} {line : HeaderLine} (h : line ∈ lines)
    (hfolded : line.folded ≠ []) :
    [] ∈ (lines.flatMap HeaderLine.assigned).map Prod.fst := by
  obtain ⟨value, values, heq⟩ := List.exists_cons_of_ne_nil hfolded
  rw [List.mem_map]
  refine ⟨([], value), List.mem_flatMap.mpr ⟨line, h, ?_⟩, rfl⟩
  rw [HeaderLine.assigned, heq]
  exact List.mem_cons_of_mem _ List.mem_cons_self

/-- Lines that are not folded assign their values to their names. -/
theorem assigned_of_unfolded {lines : List HeaderLine} (h : ∀ line ∈ lines, line.folded = []) :
    lines.flatMap HeaderLine.assigned = lines.map fun line => (line.name, line.value) := by
  induction lines with
  | nil => rfl
  | cons line lines ih =>
    have hline := h line List.mem_cons_self
    rw [List.flatMap_cons, ih fun x hx => h x (List.mem_cons_of_mem _ hx)]
    simp [HeaderLine.assigned, HeaderLine.value, hline]

/-- The header lines are read as they are when none is folded and they write over the headers
of the message. -/
theorem headers_over_iff (hnames : ∀ line ∈ r.lines, line.name ≠ []) :
    (r.laidOver lib v).headers = r.fields ↔
      (∀ line ∈ r.lines, line.folded = []) ∧ ∀ k ∈ v.headers, k ∈ r.fields := by
  have hunfolded : (r.laidOver lib v).headers = r.fields → ∀ line ∈ r.lines, line.folded = [] := by
    intro heq line hline
    by_contra hfolded
    have hempty : [] ∈ (r.laidOver lib v).headers :=
      FiniteMap.mem_assignAll.mpr (Or.inr (mem_assigned_of_folded hline hfolded))
    rw [heq, HttpRequest.fields, FiniteMap.mem_assignAll, List.map_map, List.mem_map] at hempty
    rcases hempty with habs | ⟨other, hother, hname⟩
    · exact absurd habs Finmap.notMem_empty
    · exact hnames other hother hname
  have hover : ∀ (_ : ∀ line ∈ r.lines, line.folded = []),
      (r.laidOver lib v).headers = r.fields ∪ v.headers := by
    intro h
    rw [HttpRequest.laidOver, assigned_of_unfolded h, FiniteMap.assignAll_eq_union]
    rfl
  constructor
  · intro heq
    refine ⟨hunfolded heq, ?_⟩
    rw [hover (hunfolded heq)] at heq
    exact FiniteMap.union_eq_left_iff.mp heq
  · rintro ⟨h, hkeys⟩
    rw [hover h]
    exact FiniteMap.union_eq_left_iff.mpr hkeys

/-- A message whose header lines are those of the request is decompressed as the request says. -/
theorem unpack_over (h : (r.laidOver lib v).headers = r.fields) :
    unpack lib (r.laidOver lib v) =
      (r.content lib r.kept).map fun data => { r.laidOver lib v with body := data } := by
  have hcoding : gzipped (r.laidOver lib v).headers = gzipped r.fields := congrArg gzipped h
  unfold unpack HttpRequest.content
  rw [hcoding]
  split_ifs
  · rfl
  · rfl

/-- Decompression changes nothing but the body. -/
theorem unpack_eq_some {v w : HttpView} (h : unpack lib v = some w) :
    w = { v with body := w.body } := by
  unfold unpack at h
  split_ifs at h
  · obtain ⟨data, -, rfl⟩ := Option.map_eq_some_iff.mp h
    rfl
  · rw [← Option.some.inj h]

/-- **A request that hides the message** is read as it is, and no other is. -/
theorem HttpRequest.hides_iff (h : r.WellFormed lib) :
    unpack lib (r.laidOver lib v) = some (r.view lib) ↔ r.Hides lib v := by
  obtain ⟨data, hdata⟩ := Option.isSome_iff_exists.mp h.content
  have hbody : (r.view lib).body = data := by
    rw [HttpRequest.view, hdata]
    rfl
  constructor
  · intro hview
    have hfields : r.view lib = { r.laidOver lib v with body := (r.view lib).body } :=
      unpack_eq_some hview
    have hheaders : (r.laidOver lib v).headers = r.fields :=
      (congrArg HttpView.headers hfields).symm
    obtain ⟨hunfolded, hkeys⟩ := (headers_over_iff h.names).mp hheaders
    refine ⟨hunfolded, ?_, ?_, hkeys, ?_⟩
    · have hpath : (r.path? lib).getD [] = (r.path? lib).getD v.path :=
        congrArg HttpView.path hfields
      cases hp : r.path? lib with
      | some path => exact Or.inl rfl
      | none =>
        rw [hp] at hpath
        exact Or.inr hpath.symm
    · have hparams : r.params lib = r.params lib ∪ v.params := congrArg HttpView.params hfields
      exact FiniteMap.union_eq_left_iff.mp hparams.symm
    · rw [unpack_over hheaders] at hview
      obtain ⟨data', hkept, heq⟩ := Option.map_eq_some_iff.mp hview
      have hsame : data' = data := by
        rw [← hbody, ← heq]
      rw [hkept, hdata, hsame]
  · intro hhides
    have hheaders : (r.laidOver lib v).headers = r.fields :=
      (headers_over_iff h.names).mpr ⟨hhides.unfolded, hhides.headers⟩
    have hpath : (r.path? lib).getD v.path = (r.path? lib).getD [] := by
      rcases hhides.path with hsome | hnil
      · obtain ⟨path, hp⟩ := Option.isSome_iff_exists.mp hsome
        rw [hp]
        rfl
      · rw [hnil]
    have hparams : r.params lib ∪ v.params = r.params lib :=
      FiniteMap.union_eq_left_iff.mpr hhides.params
    rw [unpack_over hheaders, hhides.body, hdata, Option.map_some]
    refine congrArg some (HttpView.ext rfl rfl hpath hparams hheaders ?_)
    exact hbody.symm

end Hides

end Kimserver
