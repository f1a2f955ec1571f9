import Kimserver.Codec.UrlParser

/-!
# The urls that are accepted

An url is a scheme with a server, a path, a query and a fragment. The two loops of
`http_parser_parse_url` set the fields to where these parts lie, as long as positions fit into
16 bits.

## Main definitions

* `HostName`, `UrlServer`, `UrlText`: the parts of an url
* `UrlText.bytes`, `UrlText.fields`: its text, and where the parts lie in it
* `UrlText.WellFormed`: the parts consist of the characters of their kind

## Main results

* `scan_path`, `scan_server`, `scanHost_server`: the loops on the parts of an url
-/

namespace Kimserver

/-! ## The parts of an url -/

/-- The characters of an address. -/
def isV6Char (c : UInt8) : Bool := isHex c || c = 58 || c = 46

/-- The characters of a query. -/
def isQueryChar (c : UInt8) : Bool := isUrlChar c || c = 63

/-- The characters of a fragment. -/
def isFragmentChar (c : UInt8) : Bool := isUrlChar c || c = 63 || c = 35

/-- A host: a name, or an address in brackets, which may have a zone. -/
inductive HostName
  | name (s : Bytes)
  | v6 (address : Bytes) (zone : Option Bytes)

namespace HostName

/-- What the field covers. -/
def text : HostName → Bytes
  | .name s => s
  | .v6 address zone => address ++ zone.elim [] (37 :: ·)

def bytes : HostName → Bytes
  | .name s => s
  | .v6 address zone => 91 :: (address ++ zone.elim [] (37 :: ·) ++ [93])

/-- The bracket in front of an address. -/
def skip : HostName → ℕ
  | .name _ => 0
  | .v6 .. => 1

def WellFormed : HostName → Prop
  | .name s => s ≠ [] ∧ ∀ c ∈ s, isHostChar c
  | .v6 address zone => address ≠ [] ∧ (∀ c ∈ address, isV6Char c) ∧
      ∀ z ∈ zone, z ≠ [] ∧ ∀ c ∈ z, isZoneChar c

end HostName

/-- A server. -/
structure UrlServer where
  userinfo : Option Bytes
  host : HostName
  port : Option Bytes

namespace UrlServer

variable (a : UrlServer)

/-- The part in front of the host. -/
def info : Bytes := a.userinfo.elim [] (· ++ [64])

def bytes : Bytes := a.info ++ a.host.bytes ++ a.port.elim [] (58 :: ·)

structure WellFormed : Prop where
  userinfo : ∀ s ∈ a.userinfo, ∀ c ∈ s, isUserinfoChar c
  host : a.host.WellFormed
  port : ∀ s ∈ a.port, s ≠ [] ∧ ∀ c ∈ s, isNum c

end UrlServer

/-- An url; the scheme comes with a server. -/
structure UrlText where
  server : Option (Bytes × UrlServer)
  path : Bytes
  query : Option Bytes
  fragment : Option Bytes

namespace UrlText

variable (t : UrlText)

/-- The scheme and what separates it from the server. -/
def schemeBytes : Bytes := t.server.elim [] fun p => p.1 ++ Kimserver.text "://"

def serverBytes : Bytes := t.server.elim [] fun p => p.2.bytes

def queryBytes : Bytes := t.query.elim [] (63 :: ·)

def fragmentBytes : Bytes := t.fragment.elim [] (35 :: ·)

def bytes : Bytes :=
  t.schemeBytes ++ t.serverBytes ++ t.path ++ t.queryBytes ++ t.fragmentBytes

structure WellFormed : Prop where
  scheme : ∀ p ∈ t.server, p.1 ≠ [] ∧ ∀ c ∈ p.1, isAlpha c
  server : ∀ p ∈ t.server, p.2.WellFormed
  first : ∀ c ∈ t.path.head?, c = 47 ∨ c = 42 ∧ t.server = none
  path : ∀ c ∈ t.path, isUrlChar c
  query : ∀ s ∈ t.query, ∀ c ∈ s, isQueryChar c
  fragment : ∀ s ∈ t.fragment, ∀ c ∈ s, isFragmentChar c
  begun : t.server = none → t.path ≠ []
  hashed : t.fragment.isSome → t.path ≠ [] ∨ t.query.isSome

/-- Where a part lies, unless it is empty. -/
def at_ (pos : ℕ) (part : Bytes) : Option (ℕ × ℕ) :=
  if part = [] then none else some (pos, part.length)

/-- Where the server begins. -/
def serverPos : ℕ := t.schemeBytes.length

def hostPos (a : UrlServer) : ℕ := t.serverPos + a.info.length + a.host.skip

def portPos (a : UrlServer) : ℕ := t.serverPos + a.info.length + a.host.bytes.length + 1

def pathPos : ℕ := t.serverPos + t.serverBytes.length

def queryPos : ℕ := t.pathPos + t.path.length + 1

def fragmentPos : ℕ := t.pathPos + t.path.length + t.queryBytes.length + 1

/-- The signs in front of a fragment are no part of it. -/
def hashes (s : Bytes) : Bytes := s.takeWhile (· = 35)

/-- Where the parts lie. -/
def fieldData : FieldData
  | .schema => t.server.bind fun p => at_ 0 p.1
  | .userinfo => t.server.bind fun p => p.2.userinfo.bind (at_ t.serverPos)
  | .host => t.server.bind fun p => at_ (t.hostPos p.2) p.2.host.text
  | .port => t.server.bind fun p => p.2.port.bind (at_ (t.portPos p.2))
  | .path => at_ t.pathPos t.path
  | .query => t.query.bind (at_ t.queryPos)
  | .fragment => t.fragment.bind fun s =>
      at_ (t.fragmentPos + (hashes s).length) (s.dropWhile (· = 35))

def port : Option Bytes := t.server.bind fun p => p.2.port

/-- The value of the port has 16 bits. -/
def PortFits : Prop := ∀ s ∈ t.port, decimalValue s < 65536

instance instDecidablePortFits : Decidable t.PortFits :=
  inferInstanceAs (Decidable (∀ s ∈ t.port, _))

/-- What is found in the url. -/
def fields : HttpParserUrl where
  fieldData := t.fieldData
  port := (t.port.map decimalValue).getD 0

end UrlText

/-! ## The states of the loop -/

/-- The states alone: the loop goes through the bytes. -/
def readsUrl : ParserState → Bytes → Bool
  | _, [] => true
  | s, ch :: rest =>
    urlChar (parseUrlChar s ch) != .fail && readsUrl (parseUrlChar s ch) rest

theorem isSome_scanUrl {rest : Bytes} {scan : UrlScan} {pos : ℕ} :
    (scanUrl pos rest scan).isSome = readsUrl scan.s rest := by
  induction rest generalizing pos scan with
  | nil => rfl
  | cons ch rest ih =>
    rw [scanUrl, readsUrl, UrlScan.next]
    cases hchar : urlChar (parseUrlChar scan.s ch) with
    | fail => rfl
    | delimiter =>
      simp only [Option.bind_some, ih]
      rfl
    | field uf =>
      simp only
      split_ifs <;> simp only [Option.bind_some, ih] <;> rfl

theorem scanUrl_append {a b : Bytes} {scan : UrlScan} {pos : ℕ} :
    scanUrl pos (a ++ b) scan = (scanUrl pos a scan).bind (scanUrl (pos + a.length) b) := by
  induction a generalizing pos scan with
  | nil => rfl
  | cons ch a ih =>
    simp only [List.cons_append, scanUrl, Option.bind_assoc, List.length_cons, ih]
    congr 1
    ext1 mid
    rw [Nat.add_assoc, Nat.add_comm 1]

/-! ## Reading a part -/

section Parts

variable {s s₀ : ParserState} {uf : UrlField} {old : Option UrlField} {foundAt : Bool}
  {fields : FieldData} {pos off len : ℕ} {c : UInt8} {seg rest : Bytes}

/-- The loop stays in a field. -/
theorem scan_stay (hs : urlChar s = .field uf) (hat : s ≠ .reqServerWithAt)
    (hseg : ∀ c ∈ seg, parseUrlChar s c = s) (hcur : fields uf = some (off, len))
    (hlen : len + seg.length < 65536) :
    scanUrl pos seg ⟨s, some uf, foundAt, fields⟩ =
      some ⟨s, some uf, foundAt, Function.update fields uf (some (off, len + seg.length))⟩ := by
  induction seg generalizing pos fields len with
  | nil =>
    rw [List.length_nil, Nat.add_zero, ← hcur, Function.update_eq_self]
    rfl
  | cons c seg ih =>
    rw [List.length_cons] at hlen
    have hnext : UrlScan.next ⟨s, some uf, foundAt, fields⟩ pos c =
        some ⟨s, some uf, foundAt, Function.update fields uf (some (off, len + 1))⟩ := by
      have hfound : (s == ParserState.reqServerWithAt) = false := beq_false_of_ne hat
      simp only [UrlScan.next, hseg c List.mem_cons_self, hs, hfound, Bool.or_false, if_true,
        FieldData.grow, hcur, Option.map_some]
      rw [u16_of_lt (by omega)]
    rw [scanUrl, hnext, Option.bind_some,
      ih (fun c hc => hseg c (List.mem_cons_of_mem _ hc)) (Function.update_self ..) (by omega),
      Function.update_idem, List.length_cons, Nat.add_assoc, Nat.add_comm 1]

/-- A field begins, and the loop stays in it. -/
theorem scan_field (hfirst : parseUrlChar s₀ c = s) (hs : urlChar s = .field uf)
    (hat : s ≠ .reqServerWithAt) (hseg : ∀ c ∈ seg, parseUrlChar s c = s) (hold : old ≠ some uf)
    (hlen : pos + (c :: seg).length < 65536) :
    scanUrl pos (c :: seg) ⟨s₀, old, foundAt, fields⟩ =
      some ⟨s, some uf, foundAt, Function.update fields uf (some (pos, (c :: seg).length))⟩ := by
  rw [List.length_cons] at hlen
  have hnext : UrlScan.next ⟨s₀, old, foundAt, fields⟩ pos c =
      some ⟨s, some uf, foundAt, Function.update fields uf (some (pos, 1))⟩ := by
    have hfound : (s == ParserState.reqServerWithAt) = false := beq_false_of_ne hat
    simp only [UrlScan.next, hfirst, hs, hfound, Bool.or_false, if_neg hold, FieldData.begin_]
    rw [u16_of_lt (by omega)]
  rw [scanUrl, hnext, Option.bind_some, scan_stay hs hat hseg (Function.update_self ..) (by omega),
    Function.update_idem, List.length_cons, Nat.add_comm 1]

/-- What separates two fields. -/
theorem scan_delimiter (hfirst : parseUrlChar s₀ c = s) (hs : urlChar s = .delimiter) :
    scanUrl pos (c :: rest) ⟨s₀, old, foundAt, fields⟩ =
      scanUrl (pos + 1) rest ⟨s, old, foundAt, fields⟩ := by
  rw [scanUrl]
  simp only [UrlScan.next, hfirst, hs, Option.bind_some]

end Parts

/-! ### The end of an url -/

/-- The characters of an url behind its server, and those of a scheme. -/
theorem url_chars : ∀ c,
    (isUrlChar c = true → parseUrlChar .reqPath c = .reqPath) ∧
    (isQueryChar c = true → parseUrlChar .reqQueryStringStart c = .reqQueryString ∧
      parseUrlChar .reqQueryString c = .reqQueryString) ∧
    (isFragmentChar c = true → parseUrlChar .reqFragment c = .reqFragment ∧
      parseUrlChar .reqFragmentStart c = if c = 35 then .reqFragmentStart else .reqFragment) ∧
    (isAlpha c = true → parseUrlChar .reqSpacesBeforeUrl c = .reqSchema ∧
      parseUrlChar .reqSchema c = .reqSchema) := by
  decide +kernel

theorem char_path (c : UInt8) : isUrlChar c = true → parseUrlChar .reqPath c = .reqPath :=
  (url_chars c).1

theorem char_query (c : UInt8) : isQueryChar c = true →
    parseUrlChar .reqQueryStringStart c = .reqQueryString ∧
      parseUrlChar .reqQueryString c = .reqQueryString :=
  (url_chars c).2.1

theorem char_fragment (c : UInt8) : isFragmentChar c = true →
    parseUrlChar .reqFragment c = .reqFragment ∧
      parseUrlChar .reqFragmentStart c = if c = 35 then .reqFragmentStart else .reqFragment :=
  (url_chars c).2.2.1

section Tail

variable {s₀ : ParserState} {old : Option UrlField} {foundAt : Bool} {fields : FieldData}
  {pos : ℕ}

theorem scan_hashes {s : Bytes} (hs : ∀ c ∈ s, isFragmentChar c = true)
    (hold : old ≠ some .fragment) (hunset : fields .fragment = none)
    (hlen : pos + s.length < 65536) :
    ∃ scan', scanUrl pos s ⟨.reqFragmentStart, old, foundAt, fields⟩ = some scan' ∧
      scan'.foundAt = foundAt ∧ scan'.fields = Function.update fields .fragment
        (UrlText.at_ (pos + (UrlText.hashes s).length) (s.dropWhile (· = 35))) := by
  induction s generalizing pos with
  | nil =>
    refine ⟨_, rfl, rfl, ?_⟩
    change fields = Function.update fields .fragment none
    rw [← hunset, Function.update_eq_self]
  | cons c s ih =>
    have hchar := (char_fragment c (hs c List.mem_cons_self)).2
    have hrest : ∀ c ∈ s, isFragmentChar c = true := fun c hc => hs c (List.mem_cons_of_mem _ hc)
    rw [List.length_cons] at hlen
    by_cases hc : c = 35
    · rw [if_pos hc] at hchar
      rw [scan_delimiter hchar rfl]
      obtain ⟨scan', hscan, hat, hfields⟩ := @ih (pos + 1) hrest (by omega)
      refine ⟨scan', hscan, hat, ?_⟩
      rw [hfields, UrlText.hashes, UrlText.hashes, List.takeWhile_cons_of_pos (by simpa using hc),
        List.dropWhile_cons_of_pos (by simpa using hc), List.length_cons, Nat.add_assoc,
        Nat.add_comm 1]
    · rw [if_neg hc] at hchar
      have hstay : ∀ c ∈ s, parseUrlChar .reqFragment c = .reqFragment :=
        fun c hc => (char_fragment c (hrest c hc)).1
      refine ⟨_, scan_field hchar rfl (by decide) hstay hold (by simpa using hlen), rfl, ?_⟩
      rw [UrlText.hashes, List.takeWhile_cons_of_neg (by simpa using hc),
        List.dropWhile_cons_of_neg (by simpa using hc)]
      rfl

/-- A query and a fragment are read, where the state goes on to them. -/
theorem scan_tail {query fragment : Option Bytes}
    (hquery : ∀ s ∈ query, (∀ c ∈ s, isQueryChar c = true) ∧
      parseUrlChar s₀ 63 = .reqQueryStringStart)
    (hfragment : ∀ s ∈ fragment, (∀ c ∈ s, isFragmentChar c = true) ∧
      (query = none → parseUrlChar s₀ 35 = .reqFragmentStart))
    (hold : old ≠ some .query ∧ old ≠ some .fragment)
    (hunset : fields .query = none ∧ fields .fragment = none)
    (hlen : pos + (query.elim [] (63 :: ·)).length + (fragment.elim [] (35 :: ·)).length < 65536) :
    ∃ scan', scanUrl pos (query.elim [] (63 :: ·) ++ fragment.elim [] (35 :: ·))
        ⟨s₀, old, foundAt, fields⟩ = some scan' ∧
      scan'.foundAt = foundAt ∧ scan'.fields = Function.update
        (Function.update fields .query (query.bind (UrlText.at_ (pos + 1)))) .fragment
        (fragment.bind fun s => UrlText.at_
          (pos + (query.elim [] (63 :: ·)).length + 1 + (UrlText.hashes s).length)
          (s.dropWhile (· = 35))) := by
  -- the fragment, behind whatever was read
  have hlast : ∀ (s : ParserState) (old : Option UrlField) (fields : FieldData) (pos : ℕ),
      (fragment.isSome → parseUrlChar s 35 = .reqFragmentStart) → old ≠ some .fragment →
      fields .fragment = none → pos + (fragment.elim [] (35 :: ·)).length < 65536 →
      ∃ scan', scanUrl pos (fragment.elim [] (35 :: ·)) ⟨s, old, foundAt, fields⟩ = some scan' ∧
        scan'.foundAt = foundAt ∧ scan'.fields = Function.update fields .fragment
          (fragment.bind fun s => UrlText.at_ (pos + 1 + (UrlText.hashes s).length)
            (s.dropWhile (· = 35))) := by
    intro s old fields pos hs hold hunset hlen
    cases fragment with
    | none =>
      refine ⟨_, rfl, rfl, ?_⟩
      change fields = Function.update fields .fragment none
      rw [← hunset, Function.update_eq_self]
    | some f =>
      have hlen' : pos + (f.length + 1) < 65536 := hlen
      change ∃ scan', scanUrl pos (35 :: f) _ = _ ∧ _
      rw [scan_delimiter (hs rfl) rfl]
      exact scan_hashes (hfragment f rfl).1 hold hunset (by omega)
  cases query with
  | none =>
    obtain ⟨scan', hscan, hat, hfields⟩ := hlast s₀ old fields pos
      (fun hsome => by
        obtain ⟨f, hf⟩ := Option.isSome_iff_exists.mp hsome
        exact (hfragment f hf).2 rfl) hold.2 hunset.2 hlen
    refine ⟨scan', hscan, hat, ?_⟩
    have hnone : Function.update fields .query none = fields := by
      rw [← hunset.1, Function.update_eq_self]
    rw [hfields, Option.bind_none, hnone]
    rfl
  | some q =>
    obtain ⟨hchars, hdelimiter⟩ := hquery q rfl
    have hlen' : pos + (q.length + 1) + (fragment.elim [] (35 :: ·)).length < 65536 := hlen
    change ∃ scan', scanUrl pos (63 :: q ++ _) _ = _ ∧ _
    rw [List.cons_append, scan_delimiter hdelimiter rfl, scanUrl_append]
    cases q with
    | nil =>
      obtain ⟨scan', hscan, hat, hfields⟩ := hlast .reqQueryStringStart old fields (pos + 1)
        (fun _ => by decide) hold.2 hunset.2 (by simpa using hlen')
      refine ⟨scan', hscan, hat, ?_⟩
      have hnone : Function.update fields .query none = fields := by
        rw [← hunset.1, Function.update_eq_self]
      change scan'.fields = Function.update (Function.update fields .query none) _ _
      rw [hfields, hnone]
      rfl
    | cons c q =>
      have hfirst := (char_query c (hchars c List.mem_cons_self)).1
      have hstay : ∀ c ∈ q, parseUrlChar .reqQueryString c = .reqQueryString :=
        fun d hd => (char_query d (hchars d (List.mem_cons_of_mem _ hd))).2
      rw [scan_field hfirst rfl (by decide) hstay hold.1 (by omega), Option.bind_some]
      obtain ⟨scan', hscan, hat, hfields⟩ := hlast .reqQueryString (some .query)
        (Function.update fields .query (some (pos + 1, (c :: q).length)))
        (pos + 1 + (c :: q).length) (fun _ => by decide) (by decide)
        (by rw [Function.update_of_ne (by decide)]; exact hunset.2) (by omega)
      refine ⟨scan', hscan, hat, ?_⟩
      rw [hfields]
      have hpos : pos + 1 + (c :: q).length = pos + ((c :: q).length + 1) := by omega
      rw [hpos]
      rfl

variable (s₀ old foundAt fields pos)

/-- A path and what is behind it. -/
theorem scan_path {path : Bytes} {query fragment : Option Bytes}
    (hfirst : ∀ c ∈ path.head?, parseUrlChar s₀ c = .reqPath)
    (hpath : ∀ c ∈ path, isUrlChar c = true)
    (hquery : ∀ s ∈ query, (∀ c ∈ s, isQueryChar c = true) ∧
      (path = [] → parseUrlChar s₀ 63 = .reqQueryStringStart))
    (hfragment : ∀ s ∈ fragment, (∀ c ∈ s, isFragmentChar c = true) ∧
      (path ≠ [] ∨ query.isSome))
    (hold : old ≠ some .path ∧ old ≠ some .query ∧ old ≠ some .fragment)
    (hunset : fields .path = none ∧ fields .query = none ∧ fields .fragment = none)
    (hlen : pos + path.length + (query.elim [] (63 :: ·)).length +
      (fragment.elim [] (35 :: ·)).length < 65536) :
    ∃ scan', scanUrl pos (path ++ (query.elim [] (63 :: ·) ++ fragment.elim [] (35 :: ·)))
        ⟨s₀, old, foundAt, fields⟩ = some scan' ∧
      scan'.foundAt = foundAt ∧ scan'.fields = Function.update (Function.update
        (Function.update fields .path (UrlText.at_ pos path)) .query
        (query.bind (UrlText.at_ (pos + path.length + 1)))) .fragment
        (fragment.bind fun s => UrlText.at_
          (pos + path.length + (query.elim [] (63 :: ·)).length + 1 + (UrlText.hashes s).length)
          (s.dropWhile (· = 35))) := by
  rw [scanUrl_append]
  cases path with
  | nil =>
    have hnone : Function.update fields .path (UrlText.at_ pos []) = fields := by
      change Function.update fields .path none = fields
      rw [← hunset.1, Function.update_eq_self]
    rw [hnone]
    refine scan_tail (fun s hs => ⟨(hquery s hs).1, (hquery s hs).2 rfl⟩)
      (fun s hs => ⟨(hfragment s hs).1, fun hq => ?_⟩) hold.2 hunset.2 hlen
    rcases (hfragment s hs).2 with h | h
    · exact absurd rfl h
    · rw [hq] at h
      cases h
  | cons c path =>
    have hstay : ∀ c ∈ path, parseUrlChar .reqPath c = .reqPath :=
      fun d hd => char_path d (hpath d (List.mem_cons_of_mem _ hd))
    rw [scan_field (hfirst c rfl) rfl (by decide) hstay hold.1 (by omega), Option.bind_some]
    refine scan_tail (fun s hs => ⟨(hquery s hs).1, by decide⟩)
      (fun s hs => ⟨(hfragment s hs).1, fun _ => by decide⟩) (by decide) ?_ hlen
    rw [Function.update_of_ne (by decide), Function.update_of_ne (by decide)]
    exact hunset.2

end Tail

/-! ### The server of an url -/

/-- The states in a server. -/
def serverStates : List ParserState := [.reqServerStart, .reqServer, .reqServerWithAt]

theorem char_server : ∀ c, c ≠ 47 → c ≠ 63 → ∀ s ∈ serverStates,
    urlChar (parseUrlChar s c) ≠ .fail →
      parseUrlChar s c = if c = 64 then .reqServerWithAt else .reqServer := by
  intro c h47 h63 s hs hfail
  simp only [serverStates, List.mem_cons, List.not_mem_nil, or_false] at hs
  rcases hs with rfl | rfl | rfl
  all_goals
    simp only [parseUrlChar, serverChar, if_neg h47, if_neg h63] at hfail ⊢
    split_ifs at hfail ⊢ <;> first | rfl | exact absurd rfl hfail

section Server

variable {s : ParserState} {old : Option UrlField} {foundAt : Bool} {fields : FieldData}
  {pos off len : ℕ} {seg rest : Bytes}

theorem readsUrl_cons {c : UInt8} : readsUrl s (c :: rest) = true ↔
    urlChar (parseUrlChar s c) ≠ .fail ∧ readsUrl (parseUrlChar s c) rest = true := by
  rw [readsUrl, Bool.and_eq_true, bne_iff_ne]

theorem scan_server_stay (hs : s = .reqServer ∨ s = .reqServerWithAt)
    (hseg : ∀ c ∈ seg, c ≠ 47 ∧ c ≠ 63) (hreads : readsUrl s seg = true)
    (hcur : fields .host = some (off, len)) (hlen : len + seg.length < 65536) :
    ∃ s' ∈ serverStates, scanUrl pos seg ⟨s, some .host, foundAt, fields⟩ =
      some ⟨s', some .host, foundAt || seg.contains 64,
        Function.update fields .host (some (off, len + seg.length))⟩ := by
  induction seg generalizing pos s foundAt fields len with
  | nil =>
    refine ⟨s, by rcases hs with rfl | rfl <;> decide, ?_⟩
    rw [List.length_nil, Nat.add_zero, ← hcur, Function.update_eq_self, List.contains_nil,
      Bool.or_false]
    rfl
  | cons c seg ih =>
    rw [List.length_cons] at hlen
    obtain ⟨hfail, hrest⟩ := readsUrl_cons.mp hreads
    obtain ⟨h47, h63⟩ := hseg c List.mem_cons_self
    have hchar := char_server c h47 h63 s (by rcases hs with rfl | rfl <;> decide) hfail
    have hnext : UrlScan.next ⟨s, some .host, foundAt, fields⟩ pos c =
        some ⟨parseUrlChar s c, some .host, foundAt || c == 64,
          Function.update fields .host (some (off, len + 1))⟩ := by
      have hfield : urlChar (parseUrlChar s c) = .field .host := by
        rw [hchar]
        split_ifs <;> rfl
      have hfound : (parseUrlChar s c == ParserState.reqServerWithAt) = (c == 64) := by
        rw [hchar]
        split_ifs with hc
        · rw [hc]
          rfl
        · rw [beq_false_of_ne hc]
          rfl
      simp only [UrlScan.next, hfield, hfound, if_true, FieldData.grow, hcur, Option.map_some]
      rw [u16_of_lt (by omega)]
    rw [scanUrl, hnext, Option.bind_some, List.contains_cons, List.length_cons, Bool.beq_comm,
      ← Bool.or_assoc, Nat.add_comm seg.length, ← Nat.add_assoc]
    have hupdate : Function.update (Function.update fields .host (some (off, len + 1))) .host
        (some (off, len + 1 + seg.length)) =
          Function.update fields .host (some (off, len + 1 + seg.length)) :=
      Function.update_idem ..
    rw [← hupdate]
    refine ih ?_ (fun d hd => hseg d (List.mem_cons_of_mem _ hd)) hrest (Function.update_self ..)
      (by omega)
    rw [hchar]
    split_ifs <;> simp

variable (old fields pos)

/-- A server is one field, and it is noticed whether it has an at sign. -/
theorem scan_server (hne : seg ≠ []) (hseg : ∀ c ∈ seg, c ≠ 47 ∧ c ≠ 63)
    (hreads : readsUrl .reqServerStart seg = true) (hold : old ≠ some .host)
    (hlen : pos + seg.length < 65536) :
    ∃ s' ∈ serverStates, scanUrl pos seg ⟨.reqServerStart, old, false, fields⟩ =
      some ⟨s', some .host, seg.contains 64,
        Function.update fields .host (some (pos, seg.length))⟩ := by
  cases seg with
  | nil => exact absurd rfl hne
  | cons c seg =>
    rw [List.length_cons] at hlen
    obtain ⟨hfail, hrest⟩ := readsUrl_cons.mp hreads
    obtain ⟨h47, h63⟩ := hseg c List.mem_cons_self
    have hchar := char_server c h47 h63 .reqServerStart (by decide) hfail
    have hnext : UrlScan.next ⟨.reqServerStart, old, false, fields⟩ pos c =
        some ⟨parseUrlChar .reqServerStart c, some .host, c == 64,
          Function.update fields .host (some (pos, 1))⟩ := by
      have hfield : urlChar (parseUrlChar .reqServerStart c) = .field .host := by
        rw [hchar]
        split_ifs <;> rfl
      have hfound :
          (parseUrlChar .reqServerStart c == ParserState.reqServerWithAt) = (c == 64) := by
        rw [hchar]
        split_ifs with hc
        · rw [hc]
          rfl
        · rw [beq_false_of_ne hc]
          rfl
      simp only [UrlScan.next, hfield, hfound, if_neg hold, FieldData.begin_, Bool.false_or]
      rw [u16_of_lt (by omega)]
    have hupdate : Function.update (Function.update fields .host (some (pos, 1))) .host
        (some (pos, 1 + seg.length)) = Function.update fields .host (some (pos, 1 + seg.length)) :=
      Function.update_idem ..
    rw [scanUrl, hnext, Option.bind_some, List.contains_cons, List.length_cons, Bool.beq_comm,
      Nat.add_comm seg.length, ← hupdate]
    refine scan_server_stay ?_ (fun d hd => hseg d (List.mem_cons_of_mem _ hd)) hrest
      (Function.update_self ..) (by omega)
    rw [hchar]
    split_ifs <;> simp

end Server

/-! ### The scheme of an url -/

theorem char_scheme (c : UInt8) : isAlpha c = true →
    parseUrlChar .reqSpacesBeforeUrl c = .reqSchema ∧ parseUrlChar .reqSchema c = .reqSchema :=
  (url_chars c).2.2.2

/-- A scheme is read up to the server. -/
theorem scan_scheme {n rest : Bytes} {fields : FieldData} (hne : n ≠ [])
    (hn : ∀ c ∈ n, isAlpha c = true) (hlen : n.length < 65536) :
    scanUrl 0 (n ++ (text "://" ++ rest)) ⟨.reqSpacesBeforeUrl, none, false, fields⟩ =
      scanUrl (n.length + 3) rest ⟨.reqServerStart, some .schema, false,
        Function.update fields .schema (some (0, n.length))⟩ := by
  cases n with
  | nil => exact absurd rfl hne
  | cons c n =>
    have hstay : ∀ c ∈ n, parseUrlChar .reqSchema c = .reqSchema :=
      fun d hd => (char_scheme d (hn d (List.mem_cons_of_mem _ hd))).2
    rw [scanUrl_append, scan_field (char_scheme c (hn c List.mem_cons_self)).1 rfl (by decide) hstay
      (by decide) (by omega), Option.bind_some]
    change scanUrl _ (58 :: 47 :: 47 :: rest) _ = _
    rw [scan_delimiter (s := .reqSchemaSlash) (by decide) rfl,
      scan_delimiter (s := .reqSchemaSlashSlash) (by decide) rfl,
      scan_delimiter (s := .reqServerStart) (by decide) rfl, Nat.zero_add]

/-! ## Reading the server -/

/-- The field that a state of the second machine belongs to. -/
def HostState.field : HostState → Option UrlField
  | .userinfo => some .userinfo
  | .host | .v6 | .v6Zone => some .host
  | .port => some .port
  | _ => none

section Host

variable {s s₀ : HostState} {uf : UrlField} {fields : FieldData} {pos off len : ℕ} {c : UInt8}
  {seg rest : Bytes}

theorem scanHost_append {a b : Bytes} {scan : HostScan} :
    scanHost pos (a ++ b) scan = (scanHost pos a scan).bind (scanHost (pos + a.length) b) := by
  induction a generalizing pos scan with
  | nil => rfl
  | cons ch a ih =>
    simp only [List.cons_append, scanHost, Option.bind_assoc, List.length_cons, ih]
    congr 1
    ext1 mid
    rw [Nat.add_assoc, Nat.add_comm 1]

/-- The loop stays in a field. -/
theorem host_stay (hs : s.field = some uf) (hseg : ∀ c ∈ seg, httpParseHostChar s c = s)
    (hcur : fields uf = some (off, len)) (hlen : len + seg.length < 65536) :
    scanHost pos seg ⟨s, fields⟩ =
      some ⟨s, Function.update fields uf (some (off, len + seg.length))⟩ := by
  induction seg generalizing pos fields len with
  | nil =>
    rw [List.length_nil, Nat.add_zero, ← hcur, Function.update_eq_self]
    rfl
  | cons c seg ih =>
    rw [List.length_cons] at hlen
    have hnext : HostScan.next ⟨s, fields⟩ pos c =
        some ⟨s, Function.update fields uf (some (off, len + 1))⟩ := by
      have hgrow : fields.grow uf = Function.update fields uf (some (off, len + 1)) := by
        rw [FieldData.grow, hcur, Option.map_some, u16_of_lt (by omega)]
      rw [HostScan.next]
      simp only [hseg c List.mem_cons_self, if_true]
      rw [← hgrow]
      cases s <;> simp only [HostState.field, Option.some.injEq, reduceCtorEq] at hs <;> rw [← hs]
    rw [scanHost, hnext, Option.bind_some,
      ih (fun c hc => hseg c (List.mem_cons_of_mem _ hc)) (Function.update_self ..) (by omega),
      Function.update_idem, List.length_cons, Nat.add_assoc, Nat.add_comm 1]

/-- A field begins behind another state. What begins was empty. -/
theorem host_field (hfirst : httpParseHostChar s₀ c = s)
    (hs : s = .userinfo ∧ uf = .userinfo ∨ s = .port ∧ uf = .port ∨
      (s = .host ∨ s = .v6) ∧ uf = .host ∧ ∃ at_, fields .host = some (at_, 0))
    (hne : s₀ ≠ s) (hseg : ∀ c ∈ seg, httpParseHostChar s c = s)
    (hlen : pos + (c :: seg).length < 65536) :
    scanHost pos (c :: seg) ⟨s₀, fields⟩ =
      some ⟨s, Function.update fields uf (some (pos, (c :: seg).length))⟩ := by
  rw [List.length_cons] at hlen
  have hpos : u16 pos = pos := u16_of_lt (by omega)
  have hnext : HostScan.next ⟨s₀, fields⟩ pos c =
      some ⟨s, Function.update fields uf (some (pos, 1))⟩ := by
    rw [HostScan.next]
    simp only [hfirst, if_neg hne]
    rcases hs with ⟨rfl, rfl⟩ | ⟨rfl, rfl⟩ | ⟨rfl | rfl, rfl, at_, hat⟩
    · simp only [FieldData.grow, FieldData.begin_, Function.update_self, Option.map_some,
        Function.update_idem, hpos]
      rfl
    · simp only [FieldData.grow, FieldData.begin_, Function.update_self, Option.map_some,
        Function.update_idem, hpos]
      rfl
    · simp only [FieldData.grow, FieldData.move, Function.update_self, Option.map_some,
        Function.update_idem, hpos, hat]
      rfl
    · simp only [FieldData.grow, FieldData.move, Function.update_self, Option.map_some,
        Function.update_idem, hpos, hat]
      rfl
  have hfield : s.field = some uf := by
    rcases hs with ⟨rfl, rfl⟩ | ⟨rfl, rfl⟩ | ⟨rfl | rfl, rfl, -⟩ <;> rfl
  rw [scanHost, hnext, Option.bind_some, host_stay hfield hseg (Function.update_self ..) (by omega),
    Function.update_idem, List.length_cons, Nat.add_comm 1]

/-- What separates two fields. -/
theorem host_delimiter (hfirst : httpParseHostChar s₀ c = s)
    (hs : s = .hostStart ∨ s = .v6Start ∨ s = .v6End ∨ s = .portStart) :
    scanHost pos (c :: rest) ⟨s₀, fields⟩ = scanHost (pos + 1) rest ⟨s, fields⟩ := by
  rw [scanHost, HostScan.next]
  simp only [hfirst]
  rcases hs with rfl | rfl | rfl | rfl <;> rfl

/-- A zone goes on with the field of the host. -/
theorem scan_zone (hfirst : httpParseHostChar s₀ c = s) (hs : s = .v6ZoneStart ∨ s = .v6Zone)
    (hcur : fields .host = some (off, len)) (hlen : len + 1 < 65536) :
    scanHost pos (c :: rest) ⟨s₀, fields⟩ =
      scanHost (pos + 1) rest ⟨s, Function.update fields .host (some (off, len + 1))⟩ := by
  have hgrow : fields.grow .host = Function.update fields .host (some (off, len + 1)) := by
    rw [FieldData.grow, hcur, Option.map_some, u16_of_lt hlen]
  rw [scanHost, HostScan.next]
  simp only [hfirst]
  rcases hs with rfl | rfl <;> rw [← hgrow] <;> rfl

end Host

/-- The characters of a server. -/
theorem host_chars : ∀ c,
    (isUserinfoChar c = true → httpParseHostChar .userinfoStart c = .userinfo ∧
      httpParseHostChar .userinfo c = .userinfo) ∧
    (isHostChar c = true → httpParseHostChar .hostStart c = .host ∧
      httpParseHostChar .host c = .host) ∧
    (isV6Char c = true → httpParseHostChar .v6Start c = .v6 ∧ httpParseHostChar .v6 c = .v6) ∧
    (isZoneChar c = true → httpParseHostChar .v6ZoneStart c = .v6Zone ∧
      httpParseHostChar .v6Zone c = .v6Zone) ∧
    (isNum c = true → httpParseHostChar .portStart c = .port ∧
      httpParseHostChar .port c = .port) := by
  decide +kernel

theorem char_userinfo (c : UInt8) : isUserinfoChar c = true →
    httpParseHostChar .userinfoStart c = .userinfo ∧ httpParseHostChar .userinfo c = .userinfo :=
  (host_chars c).1

theorem char_host (c : UInt8) : isHostChar c = true →
    httpParseHostChar .hostStart c = .host ∧ httpParseHostChar .host c = .host :=
  (host_chars c).2.1

theorem char_v6 (c : UInt8) : isV6Char c = true →
    httpParseHostChar .v6Start c = .v6 ∧ httpParseHostChar .v6 c = .v6 :=
  (host_chars c).2.2.1

theorem char_zone (c : UInt8) : isZoneChar c = true →
    httpParseHostChar .v6ZoneStart c = .v6Zone ∧ httpParseHostChar .v6Zone c = .v6Zone :=
  (host_chars c).2.2.2.1

theorem char_port (c : UInt8) : isNum c = true →
    httpParseHostChar .portStart c = .port ∧ httpParseHostChar .port c = .port :=
  (host_chars c).2.2.2.2

section HostParts

variable (fields : FieldData) (pos : ℕ) {at_ : ℕ}

/-- The name of a host, or an address in brackets. -/
theorem scan_hostName {h : HostName} (hh : h.WellFormed)
    (hhost : fields .host = some (at_, 0)) (hlen : pos + h.bytes.length < 65536) :
    ∃ s : HostState, (s = .host ∨ s = .v6End) ∧
      scanHost pos h.bytes ⟨.hostStart, fields⟩ =
        some ⟨s, Function.update fields .host (UrlText.at_ (pos + h.skip) h.text)⟩ := by
  cases h with
  | name n =>
    obtain ⟨hne, hn⟩ := hh
    cases n with
    | nil => exact absurd rfl hne
    | cons c n =>
      have hstay : ∀ c ∈ n, httpParseHostChar .host c = .host :=
        fun d hd => (char_host d (hn d (List.mem_cons_of_mem _ hd))).2
      exact ⟨.host, Or.inl rfl, host_field (char_host c (hn c List.mem_cons_self)).1
        (Or.inr (Or.inr ⟨Or.inl rfl, rfl, at_, hhost⟩)) (by decide) hstay hlen⟩
  | v6 address zone =>
    obtain ⟨hne, ha, hz⟩ := hh
    refine ⟨.v6End, Or.inr rfl, ?_⟩
    change scanHost pos (91 :: (address ++ zone.elim [] (37 :: ·) ++ [93])) _ = _
    change pos + (91 :: (address ++ zone.elim [] (37 :: ·) ++ [93])).length < 65536 at hlen
    rw [List.length_cons, List.length_append, List.length_append] at hlen
    rw [host_delimiter (s := .v6Start) (by decide) (by simp), List.append_assoc, scanHost_append]
    cases address with
    | nil => exact absurd rfl hne
    | cons c a =>
      have hstay : ∀ c ∈ a, httpParseHostChar .v6 c = .v6 :=
        fun d hd => (char_v6 d (ha d (List.mem_cons_of_mem _ hd))).2
      rw [host_field (char_v6 c (ha c List.mem_cons_self)).1
        (Or.inr (Or.inr ⟨Or.inr rfl, rfl, at_, hhost⟩)) (by decide) hstay (by omega),
        Option.bind_some]
      cases zone with
      | none =>
        change scanHost _ [93] _ = _
        rw [host_delimiter (s := .v6End) (by decide) (by simp)]
        change _ = some (⟨.v6End, Function.update fields .host
          (some (pos + 1, (c :: (a ++ [])).length))⟩ : HostScan)
        rw [List.append_nil]
        rfl
      | some z =>
        obtain ⟨hzne, hzone⟩ := hz z rfl
        cases z with
        | nil => exact absurd rfl hzne
        | cons d z =>
          have hstay : ∀ c ∈ z, httpParseHostChar .v6Zone c = .v6Zone :=
            fun e he => (char_zone e (hzone e (List.mem_cons_of_mem _ he))).2
          change pos + ((c :: a).length + (z.length + 1 + 1) + 1 + 1) < 65536 at hlen
          change scanHost _ (37 :: (d :: z ++ [93])) _ = _
          rw [scan_zone (by decide) (Or.inl rfl) (Function.update_self ..) (by omega),
            List.cons_append, scan_zone (char_zone d (hzone d List.mem_cons_self)).1 (Or.inr rfl)
              (Function.update_self ..) (by omega), scanHost_append,
            host_stay rfl hstay (Function.update_self ..) (by omega), Option.bind_some,
            host_delimiter (s := .v6End) (by decide) (by simp)]
          have hlength :
              (c :: (a ++ 37 :: d :: z)).length = (c :: a).length + 1 + 1 + z.length := by
            simp only [List.length_cons, List.length_append]
            omega
          change _ = some (⟨.v6End, Function.update fields .host
            (some (pos + 1, (c :: (a ++ 37 :: d :: z)).length))⟩ : HostScan)
          rw [hlength, Function.update_idem, Function.update_idem, Function.update_idem]
          rfl

/-- A port behind a host. -/
theorem scan_port {port : Option Bytes} {s₀ : HostState}
    (hs : s₀ = .host ∨ s₀ = .v6End)
    (hport : ∀ s ∈ port, s ≠ [] ∧ ∀ c ∈ s, isNum c = true) (hunset : fields .port = none)
    (hlen : pos + (port.elim [] (58 :: ·)).length < 65536) :
    ∃ s : HostState, s.mayEnd = true ∧ scanHost pos (port.elim [] (58 :: ·)) ⟨s₀, fields⟩ =
      some ⟨s, Function.update fields .port (port.bind (UrlText.at_ (pos + 1)))⟩ := by
  cases port with
  | none =>
    refine ⟨s₀, by rcases hs with rfl | rfl <;> rfl, ?_⟩
    rw [Option.bind_none, ← hunset, Function.update_eq_self]
    rfl
  | some p =>
    obtain ⟨hne, hp⟩ := hport p rfl
    have hfirst : httpParseHostChar s₀ 58 = .portStart := by
      rcases hs with rfl | rfl <;> decide
    cases p with
    | nil => exact absurd rfl hne
    | cons c p =>
      have hstay : ∀ c ∈ p, httpParseHostChar .port c = .port :=
        fun d hd => (char_port d (hp d (List.mem_cons_of_mem _ hd))).2
      change pos + ((c :: p).length + 1) < 65536 at hlen
      refine ⟨.port, rfl, ?_⟩
      change scanHost pos (58 :: c :: p) _ = _
      rw [host_delimiter (s := .portStart) hfirst (by simp),
        host_field (char_port c (hp c List.mem_cons_self)).1 (Or.inr (Or.inl ⟨rfl, rfl⟩))
          (by decide) hstay (by omega)]
      rfl

/-- The part in front of a host. -/
theorem scan_userinfo {a : UrlServer}
    (hinfo : ∀ s ∈ a.userinfo, ∀ c ∈ s, isUserinfoChar c = true)
    (hunset : fields .userinfo = none) (hlen : pos + a.info.length < 65536) :
    scanHost pos a.info ⟨if a.userinfo.isSome then .userinfoStart else .hostStart, fields⟩ =
      some ⟨.hostStart, Function.update fields .userinfo (a.userinfo.bind (UrlText.at_ pos))⟩ := by
  obtain ⟨userinfo, host, port⟩ := a
  cases userinfo with
  | none =>
    change _ = some (⟨.hostStart, Function.update fields .userinfo none⟩ : HostScan)
    rw [← hunset, Function.update_eq_self]
    rfl
  | some u =>
    have hu := hinfo u rfl
    change scanHost pos (u ++ [64]) ⟨.userinfoStart, fields⟩ = _
    change pos + (u ++ [64]).length < 65536 at hlen
    rw [List.length_append] at hlen
    cases u with
    | nil =>
      change scanHost pos [64] _ = some (⟨.hostStart, Function.update fields .userinfo none⟩ :
        HostScan)
      rw [host_delimiter (s := .hostStart) (by decide) (by simp), ← hunset,
        Function.update_eq_self]
      rfl
    | cons c u =>
      have hstay : ∀ c ∈ u, httpParseHostChar .userinfo c = .userinfo :=
        fun d hd => (char_userinfo d (hu d (List.mem_cons_of_mem _ hd))).2
      rw [scanHost_append, host_field (char_userinfo c (hu c List.mem_cons_self)).1
        (Or.inl ⟨rfl, rfl⟩) (by decide) hstay (by omega), Option.bind_some,
        host_delimiter (s := .hostStart) (by decide) (by simp)]
      rfl

/-- The fields of a server are set to where its parts lie. -/
theorem scanHost_server {a : UrlServer} (ha : a.WellFormed)
    (hhost : fields .host = some (at_, 0))
    (hunset : fields .userinfo = none ∧ fields .port = none)
    (hlen : pos + a.bytes.length < 65536) :
    ∃ s : HostState, s.mayEnd = true ∧ scanHost pos a.bytes
        ⟨if a.userinfo.isSome then .userinfoStart else .hostStart, fields⟩ =
      some ⟨s, Function.update (Function.update
        (Function.update fields .userinfo (a.userinfo.bind (UrlText.at_ pos))) .host
          (UrlText.at_ (pos + a.info.length + a.host.skip) a.host.text)) .port
        (a.port.bind (UrlText.at_ (pos + a.info.length + a.host.bytes.length + 1)))⟩ := by
  obtain ⟨hinfo, hname, hport⟩ := ha
  rw [UrlServer.bytes, List.length_append, List.length_append] at hlen
  rw [UrlServer.bytes, List.append_assoc, scanHost_append,
    scan_userinfo fields pos hinfo hunset.1 (by omega), Option.bind_some, scanHost_append]
  obtain ⟨s₁, hs₁, hscan₁⟩ := scan_hostName
    (Function.update fields .userinfo (a.userinfo.bind (UrlText.at_ pos))) (pos + a.info.length)
    hname (by rw [Function.update_of_ne (by decide)]; exact hhost) (by omega)
  rw [hscan₁, Option.bind_some]
  obtain ⟨s₂, hs₂, hscan₂⟩ := scan_port (Function.update (Function.update fields .userinfo
      (a.userinfo.bind (UrlText.at_ pos))) .host
      (UrlText.at_ (pos + a.info.length + a.host.skip) a.host.text))
    (pos + a.info.length + a.host.bytes.length) hs₁
    hport (by
      rw [Function.update_of_ne (by decide), Function.update_of_ne (by decide)]
      exact hunset.2) (by omega)
  exact ⟨s₂, hs₂, hscan₂⟩

end HostParts

end Kimserver
