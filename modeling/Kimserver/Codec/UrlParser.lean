import Mathlib.Data.FinEnum
import Mathlib.Logic.Function.Basic
import Kimserver.Lib.CInt
import Kimserver.Util.Text

/-!
# The parser of urls

`http_parser_parse_url` runs a state machine over the bytes of an url. The machine has the states
of `http_parser_execute`, which checks the target of a request with it. A run of bytes in one of
the states is a field. A second machine reads the server: a name and a password, the host and the
port.

The members of `http_parser_url` have 16 bits: positions and lengths are taken modulo `2 ^ 16`.

## Main definitions

* `ParserState`, `parseUrlChar`: `enum state` and `parse_url_char`
* `HostState`, `httpParseHostChar`: `enum http_host_state` and `http_parse_host_char`
* `HttpParserUrl`, `httpParserParseUrl`: `http_parser_url` and `http_parser_parse_url`

## Main results

* `scanUrl_inBounds`, `httpParserParseUrl_inBounds`: every field lies in the url
-/

namespace Kimserver

/-! ## Characters -/

/-- `LOWER`. -/
def lower (c : UInt8) : UInt8 := c ||| 0x20

/-- `IS_ALPHA`. -/
def isAlpha (c : UInt8) : Bool := 97 ≤ lower c && lower c ≤ 122

/-- `IS_NUM`. -/
def isNum (c : UInt8) : Bool := 48 ≤ c && c ≤ 57

/-- `IS_ALPHANUM`. -/
def isAlphanum (c : UInt8) : Bool := isAlpha c || isNum c

/-- `IS_HEX`. -/
def isHex (c : UInt8) : Bool := isNum c || (97 ≤ lower c && lower c ≤ 102)

/-- `IS_MARK`: one of `-_.!~*'()`. -/
def isMark (c : UInt8) : Bool := [45, 95, 46, 33, 126, 42, 39, 40, 41].contains c

/-- `IS_USERINFO_CHAR`: besides the others one of `%;:&=+$,`. -/
def isUserinfoChar (c : UInt8) : Bool :=
  isAlphanum c || isMark c || [37, 59, 58, 38, 61, 43, 36, 44].contains c

/-- `IS_URL_CHAR`, strict: the bits of `normal_url_char`. -/
def isUrlChar (c : UInt8) : Bool := 32 < c && c < 127 && c ≠ 35 && c ≠ 63

/-- `IS_HOST_CHAR`, strict. -/
def isHostChar (c : UInt8) : Bool := isAlphanum c || c = 46 || c = 45

/-- The characters of a zone id: besides the others one of `%.-_~`. -/
def isZoneChar (c : UInt8) : Bool := isAlphanum c || [37, 46, 45, 95, 126].contains c

/-! ## The states -/

/-- `enum state`. -/
inductive ParserState
  | dead
  | startReqOrRes | resOrRespH | startRes
  | resH | resHT | resHTT | resHTTP | resHttpMajor | resHttpDot | resHttpMinor | resHttpEnd
  | resFirstStatusCode | resStatusCode | resStatusStart | resStatus | resLineAlmostDone
  | startReq | reqMethod
  | reqSpacesBeforeUrl | reqSchema | reqSchemaSlash | reqSchemaSlashSlash | reqServerStart
  | reqServer | reqServerWithAt | reqPath | reqQueryStringStart | reqQueryString
  | reqFragmentStart | reqFragment
  | reqHttpStart | reqHttpH | reqHttpHT | reqHttpHTT | reqHttpHTTP | reqHttpMajor | reqHttpDot
  | reqHttpMinor | reqHttpEnd | reqLineAlmostDone
  | headerFieldStart | headerField | headerValueDiscardWs | headerValueDiscardWsAlmostDone
  | headerValueDiscardLws | headerValueStart | headerValue | headerValueLws | headerAlmostDone
  | chunkSizeStart | chunkSize | chunkParameters | chunkSizeAlmostDone
  | headersAlmostDone | headersDone
  | chunkData | chunkDataAlmostDone | chunkDataDone
  | bodyIdentity | bodyIdentityEof
  | messageDone
  deriving DecidableEq

/-- The case of `s_req_server_start` and `s_req_server`. -/
def serverChar (ch : UInt8) : ParserState :=
  if ch = 47 then .reqPath -- '/'
  else if ch = 63 then .reqQueryStringStart -- '?'
  else if ch = 64 then .reqServerWithAt -- '@'
  else if isUserinfoChar ch || ch = 91 || ch = 93 then .reqServer -- '[' and ']'
  else .dead

/-- `parse_url_char`. -/
def parseUrlChar (s : ParserState) (ch : UInt8) : ParserState :=
  if ch = 32 || ch = 13 || ch = 10 then .dead -- ' ', '\r' and '\n'
  else if ch = 9 || ch = 12 then .dead -- '\t' and '\f'
  else match s with
  | .reqSpacesBeforeUrl =>
    if ch = 47 || ch = 42 then .reqPath -- '/' and '*'
    else if isAlpha ch then .reqSchema
    else .dead
  | .reqSchema =>
    if isAlpha ch then s
    else if ch = 58 then .reqSchemaSlash -- ':'
    else .dead
  | .reqSchemaSlash => if ch = 47 then .reqSchemaSlashSlash else .dead
  | .reqSchemaSlashSlash => if ch = 47 then .reqServerStart else .dead
  | .reqServerWithAt => if ch = 64 then .dead else serverChar ch
  | .reqServerStart | .reqServer => serverChar ch
  | .reqPath =>
    if isUrlChar ch then s
    else if ch = 63 then .reqQueryStringStart
    else if ch = 35 then .reqFragmentStart -- '#'
    else .dead
  | .reqQueryStringStart | .reqQueryString =>
    if isUrlChar ch then .reqQueryString
    else if ch = 63 then .reqQueryString
    else if ch = 35 then .reqFragmentStart
    else .dead
  | .reqFragmentStart =>
    if isUrlChar ch then .reqFragment
    else if ch = 63 then .reqFragment
    else if ch = 35 then s
    else .dead
  | .reqFragment => if isUrlChar ch then s else if ch = 63 || ch = 35 then s else .dead
  | _ => .dead

/-- `enum http_host_state`. -/
inductive HostState
  | dead | userinfoStart | userinfo | hostStart | v6Start | host | v6 | v6End | v6ZoneStart
  | v6Zone | portStart | port
  deriving DecidableEq

/-- `http_parse_host_char`. -/
def httpParseHostChar (s : HostState) (ch : UInt8) : HostState :=
  match s with
  | .userinfo | .userinfoStart =>
    if ch = 64 then .hostStart else if isUserinfoChar ch then .userinfo else .dead
  | .hostStart => if ch = 91 then .v6Start else if isHostChar ch then .host else .dead
  | .host => if isHostChar ch then .host else if ch = 58 then .portStart else .dead
  | .v6End => if ch = 58 then .portStart else .dead
  | .v6 =>
    if ch = 93 then .v6End
    else if isHex ch || ch = 58 || ch = 46 then .v6
    else if ch = 37 then .v6ZoneStart -- '%'
    else .dead
  | .v6Start => if isHex ch || ch = 58 || ch = 46 then .v6 else .dead
  | .v6Zone => if ch = 93 then .v6End else if isZoneChar ch then .v6Zone else .dead
  | .v6ZoneStart => if isZoneChar ch then .v6Zone else .dead
  | .port | .portStart => if isNum ch then .port else .dead
  | .dead => .dead

/-! ## The fields -/

/-- `enum http_parser_url_fields`. -/
inductive UrlField
  | schema | host | port | path | query | fragment | userinfo
  deriving DecidableEq

/-- `field_data`, where a field is set: its position and its length. -/
abbrev FieldData := UrlField → Option (ℕ × ℕ)

/-- A `uint16_t`. -/
def u16 (n : ℕ) : ℕ := n % 65536

namespace FieldData

variable (fields : FieldData)

/-- `off = pos` and `len = len`, and the bit of the field is set. -/
def begin_ (uf : UrlField) (pos len : ℕ) : FieldData :=
  Function.update fields uf (some (u16 pos, len))

/-- `len++`. -/
def grow (uf : UrlField) : FieldData :=
  Function.update fields uf ((fields uf).map fun at_ => (at_.1, u16 (at_.2 + 1)))

/-- `off = pos`. -/
def move (uf : UrlField) (pos : ℕ) : FieldData :=
  Function.update fields uf ((fields uf).map fun at_ => (u16 pos, at_.2))

end FieldData

/-- `http_parser_url`. -/
structure HttpParserUrl where
  fieldData : FieldData := fun _ => none
  port : ℕ := 0

/-! ## The loop over the url -/

/-- What the loop of `http_parser_parse_url` makes of a state. -/
inductive UrlChar
  | fail
  | delimiter
  | field (uf : UrlField)
  deriving DecidableEq

/-- The `switch` of the loop. -/
def urlChar : ParserState → UrlChar
  | .reqSchemaSlash | .reqSchemaSlashSlash | .reqServerStart | .reqQueryStringStart
  | .reqFragmentStart => .delimiter
  | .reqSchema => .field .schema
  | .reqServerWithAt | .reqServer => .field .host
  | .reqPath => .field .path
  | .reqQueryString => .field .query
  | .reqFragment => .field .fragment
  | _ => .fail

/-- The variables of the loop. -/
structure UrlScan where
  s : ParserState
  oldUf : Option UrlField := none
  foundAt : Bool := false
  fields : FieldData := fun _ => none

/-- One turn of the loop, at position `pos`. -/
def UrlScan.next (scan : UrlScan) (pos : ℕ) (ch : UInt8) : Option UrlScan :=
  let s := parseUrlChar scan.s ch
  match urlChar s with
  | .fail => none
  | .delimiter => some { scan with s := s }
  | .field uf =>
    let scan := { scan with s := s, foundAt := scan.foundAt || s == ParserState.reqServerWithAt }
    if scan.oldUf = some uf then some { scan with fields := scan.fields.grow uf }
    else some { scan with fields := scan.fields.begin_ uf pos 1, oldUf := some uf }

/-- The loop, from position `pos` on. -/
def scanUrl (pos : ℕ) : Bytes → UrlScan → Option UrlScan
  | [], scan => some scan
  | ch :: rest, scan => (scan.next pos ch).bind (scanUrl (pos + 1) rest)

/-! ## The loop over the server -/

/-- The variables of the loop of `http_parse_host`. -/
structure HostScan where
  s : HostState
  fields : FieldData

/-- One turn of the loop, at position `pos`. -/
def HostScan.next (scan : HostScan) (pos : ℕ) (ch : UInt8) : Option HostScan :=
  let s := httpParseHostChar scan.s ch
  let start uf := if scan.s = s then scan.fields else scan.fields.begin_ uf pos 0
  match s with
  | .dead => none
  | .host | .v6 =>
    let fields := if scan.s = s then scan.fields else scan.fields.move .host pos
    some ⟨s, fields.grow .host⟩
  | .v6ZoneStart | .v6Zone => some ⟨s, scan.fields.grow .host⟩
  | .port => some ⟨s, (start .port).grow .port⟩
  | .userinfo => some ⟨s, (start .userinfo).grow .userinfo⟩
  | _ => some ⟨s, scan.fields⟩

/-- The loop, from position `pos` on. -/
def scanHost (pos : ℕ) : Bytes → HostScan → Option HostScan
  | [], scan => some scan
  | ch :: rest, scan => (scan.next pos ch).bind (scanHost (pos + 1) rest)

/-- The states in which the server may end. -/
def HostState.mayEnd : HostState → Bool
  | .dead | .host | .v6End | .port => true
  | _ => false

/-- `http_parse_host`, where the host is set. -/
def httpParseHost (buf : Bytes) (fields : FieldData) (foundAt : Bool) : Option FieldData :=
  match fields .host with
  | none => none
  | some (off, len) =>
    let s : HostState := if foundAt then .userinfoStart else .hostStart
    let fields := Function.update fields .host (some (off, 0))
    match scanHost off ((buf.drop off).take len) ⟨s, fields⟩ with
    | none => none
    | some scan => if scan.s.mayEnd then some scan.fields else none

/-! ## The function -/

/-- The loop over the digits of the port. `*p - '0'` is an `int`, of a signed `char`, and is added
to an `unsigned long`. It is a digit where the offset of the port did not wrap around. -/
def portValue (v : ℕ) : Bytes → Option ℕ
  | [] => some v
  | ch :: rest =>
    let v := CInt.toSize (v * 10 + (ch.toInt8.toInt - 48))
    if 65535 < v then none else portValue v rest

/-- The fields of a `CONNECT`: a host and a port, and nothing else. -/
def FieldData.isConnect (fields : FieldData) : Bool :=
  (fields .host).isSome && (fields .port).isSome && (fields .schema).isNone &&
    (fields .path).isNone && (fields .query).isNone && (fields .fragment).isNone &&
    (fields .userinfo).isNone

/-- The end of `http_parser_parse_url`. -/
def withPort (buf : Bytes) (fields : FieldData) : Option HttpParserUrl :=
  match fields .port with
  | none => some ⟨fields, 0⟩
  | some (off, len) => (portValue 0 ((buf.drop off).take len)).map fun v => ⟨fields, u16 v⟩

/-- The state in front of an url. -/
def urlStart (isConnect : Bool) : ParserState :=
  if isConnect then .reqServerStart else .reqSpacesBeforeUrl

/-- The server is read where the loop found one. -/
def serverFields (buf : Bytes) (scan : UrlScan) : Option FieldData :=
  if (scan.fields .host).isSome then httpParseHost buf scan.fields scan.foundAt
  else some scan.fields

/-- `http_parser_parse_url`. -/
def httpParserParseUrl (buf : Bytes) (isConnect : Bool) : Option HttpParserUrl :=
  if buf.length = 0 then none
  else (scanUrl 0 buf { s := urlStart isConnect }).bind fun scan =>
    -- a schema needs a host
    if (scan.fields .schema).isSome && (scan.fields .host).isNone then none
    else (serverFields buf scan).bind fun fields =>
      if isConnect && !fields.isConnect then none else withPort buf fields

/-! ## The fields lie in the url -/

theorem u16_le (n : ℕ) : u16 n ≤ n := Nat.mod_le n _

theorem u16_of_lt {n : ℕ} (h : n < 65536) : u16 n = n := Nat.mod_eq_of_lt h

/-- The fields of a kind that are set end in front of a position. -/
def FieldData.EndBy (kind : UrlField → Bool) (fields : FieldData) (pos : ℕ) : Prop :=
  ∀ uf at_, kind uf = true → fields uf = some at_ → at_.1 + at_.2 ≤ pos

/-- All fields. -/
def anyField : UrlField → Bool := fun _ => true

/-- The fields of the server. -/
def serverField : UrlField → Bool
  | .userinfo | .host | .port => true
  | _ => false

theorem ne_of_serverField {uf : UrlField} (h : serverField uf = false) :
    uf ≠ .host ∧ uf ≠ .port ∧ uf ≠ .userinfo := by
  revert h
  cases uf <;> decide

namespace FieldData.EndBy

variable {kind : UrlField → Bool} {fields : FieldData} {pos : ℕ}

theorem mono {pos' : ℕ} (h : fields.EndBy kind pos) (hle : pos ≤ pos') :
    fields.EndBy kind pos' :=
  fun uf at_ huf hat => (h uf at_ huf hat).trans hle

theorem update (h : fields.EndBy kind pos) (uf : UrlField) {new : Option (ℕ × ℕ)}
    (hnew : kind uf = true → ∀ at_, new = some at_ → at_.1 + at_.2 ≤ pos) :
    FieldData.EndBy kind (Function.update fields uf new) pos := by
  intro uf' at_ huf hat
  rcases eq_or_ne uf' uf with rfl | hne
  · rw [Function.update_self] at hat
    exact hnew huf at_ hat
  · rw [Function.update_of_ne hne] at hat
    exact h uf' at_ huf hat

theorem begin_ {len at_ : ℕ} (h : fields.EndBy kind pos) (uf : UrlField) (hle : at_ + len ≤ pos) :
    (fields.begin_ uf at_ len).EndBy kind pos := by
  refine h.update uf fun _ p hp => ?_
  rw [← Option.some.inj hp]
  exact (Nat.add_le_add_right (u16_le at_) len).trans hle

/-- A field takes one byte more, which moves the position. -/
theorem grow (h : fields.EndBy kind pos) (uf : UrlField) :
    (fields.grow uf).EndBy kind (pos + 1) := by
  refine (h.mono (Nat.le_add_right pos 1)).update uf fun huf p hp => ?_
  obtain ⟨at_, hat, rfl⟩ := Option.map_eq_some_iff.mp hp
  have hend := h uf at_ huf hat
  have hlen := u16_le (at_.2 + 1)
  simp only
  omega

theorem move {at_ : ℕ} (h : fields.EndBy kind pos) (uf : UrlField)
    (hle : ∀ p, fields uf = some p → at_ + p.2 ≤ pos) : (fields.move uf at_).EndBy kind pos := by
  refine h.update uf fun _ p hp => ?_
  obtain ⟨q, hq, rfl⟩ := Option.map_eq_some_iff.mp hp
  exact (Nat.add_le_add_right (u16_le at_) q.2).trans (hle q hq)

end FieldData.EndBy

section Url

variable {scan scan' : UrlScan} {pos : ℕ}

theorem UrlScan.next_inBounds {ch : UInt8} (h : scan.fields.EndBy anyField pos)
    (hnext : scan.next pos ch = some scan') : scan'.fields.EndBy anyField (pos + 1) := by
  unfold UrlScan.next at hnext
  simp only at hnext
  split at hnext
  · cases hnext
  · rw [← Option.some.inj hnext]
    exact h.mono (Nat.le_add_right pos 1)
  · split_ifs at hnext with hold
    · rw [← Option.some.inj hnext]
      exact h.grow _
    · rw [← Option.some.inj hnext]
      exact (h.mono (Nat.le_add_right pos 1)).begin_ _ le_rfl

/-- The loop keeps the fields in front of its position. -/
theorem scanUrl_inBounds {rest : Bytes} (h : scan.fields.EndBy anyField pos)
    (hscan : scanUrl pos rest scan = some scan') :
    scan'.fields.EndBy anyField (pos + rest.length) := by
  induction rest generalizing pos scan with
  | nil =>
    rw [← Option.some.inj hscan]
    exact h
  | cons ch rest ih =>
    obtain ⟨mid, hmid, hrest⟩ := Option.bind_eq_some_iff.mp hscan
    have hend := ih (UrlScan.next_inBounds h hmid) hrest
    rwa [List.length_cons, Nat.add_comm rest.length, ← Nat.add_assoc]

end Url

/-- The states in front of the host. -/
def HostState.beforeHost : HostState → Bool
  | .userinfoStart | .userinfo | .hostStart | .v6Start => true
  | _ => false

/-- The host begins behind such a state. -/
theorem beforeHost_of_host {s : HostState} {ch : UInt8}
    (h : httpParseHostChar s ch = .host ∨ httpParseHostChar s ch = .v6)
    (hne : s ≠ httpParseHostChar s ch) : s.beforeHost = true := by
  cases s <;> simp only [httpParseHostChar] at h hne <;> first | rfl | skip
  case dead => exact absurd rfl hne
  all_goals split_ifs at h hne <;> simp_all

/-- They are not reached again. -/
theorem beforeHost_of_beforeHost {s : HostState} {ch : UInt8}
    (h : (httpParseHostChar s ch).beforeHost = true) : s.beforeHost = true := by
  cases s <;> simp only [httpParseHostChar] at h <;> first | rfl | skip
  case dead => exact h
  all_goals split_ifs at h <;> cases h

/-- In front of the host, its length is zero. -/
def HostScan.Unread (scan : HostScan) : Prop :=
  scan.s.beforeHost = true → ∀ at_, scan.fields .host = some at_ → at_.2 = 0

section Host

variable {scan scan' : HostScan} {pos : ℕ}

theorem HostScan.next_inBounds {ch : UInt8} (h : scan.fields.EndBy serverField pos)
    (hunread : scan.Unread) (hnext : scan.next pos ch = some scan') :
    scan'.fields.EndBy serverField (pos + 1) ∧ scan'.Unread := by
  have hstart : ∀ uf, FieldData.EndBy serverField
      (if scan.s = httpParseHostChar scan.s ch then scan.fields else scan.fields.begin_ uf pos 0)
      pos := by
    intro uf
    split_ifs
    · exact h
    · exact h.begin_ uf le_rfl
  have hhost : httpParseHostChar scan.s ch = .host ∨ httpParseHostChar scan.s ch = .v6 →
      FieldData.EndBy serverField (if scan.s = httpParseHostChar scan.s ch then scan.fields
        else scan.fields.move .host pos) pos := by
    intro hs
    split_ifs with heq
    · exact h
    · refine h.move .host fun at_ hat => ?_
      rw [hunread (beforeHost_of_host hs heq) at_ hat, Nat.add_zero]
  unfold HostScan.next at hnext
  simp only at hnext
  unfold HostScan.Unread
  -- one case for each result of the `switch`; only in front of the host `Unread` says something
  split at hnext
  · cases hnext
  · next hs =>
    rw [← Option.some.inj hnext, hs]
    rw [hs] at hhost
    exact ⟨(hhost (Or.inl rfl)).grow _, fun hb => (Bool.false_ne_true hb).elim⟩
  · next hs =>
    rw [← Option.some.inj hnext, hs]
    rw [hs] at hhost
    exact ⟨(hhost (Or.inr rfl)).grow _, fun hb => (Bool.false_ne_true hb).elim⟩
  · next hs =>
    rw [← Option.some.inj hnext, hs]
    exact ⟨h.grow _, fun hb => (Bool.false_ne_true hb).elim⟩
  · next hs =>
    rw [← Option.some.inj hnext, hs]
    exact ⟨h.grow _, fun hb => (Bool.false_ne_true hb).elim⟩
  · next hs =>
    rw [← Option.some.inj hnext, hs]
    rw [hs] at hstart
    exact ⟨(hstart _).grow _, fun hb => (Bool.false_ne_true hb).elim⟩
  · next hs =>
    rw [← Option.some.inj hnext, hs]
    rw [hs] at hstart
    refine ⟨(hstart _).grow _, fun _ at_ hat => ?_⟩
    have hbefore : scan.s.beforeHost = true := by
      apply beforeHost_of_beforeHost
      rw [hs]
      rfl
    refine hunread hbefore at_ ?_
    simp only [FieldData.grow, FieldData.begin_] at hat
    split_ifs at hat <;> simpa [Function.update_of_ne] using hat
  · rw [← Option.some.inj hnext]
    exact ⟨h.mono (Nat.le_add_right pos 1),
      fun hb at_ hat => hunread (beforeHost_of_beforeHost hb) at_ hat⟩

theorem scanHost_inBounds {rest : Bytes} (h : scan.fields.EndBy serverField pos)
    (hunread : scan.Unread) (hscan : scanHost pos rest scan = some scan') :
    scan'.fields.EndBy serverField (pos + rest.length) := by
  induction rest generalizing pos scan with
  | nil =>
    rw [← Option.some.inj hscan]
    exact h
  | cons ch rest ih =>
    obtain ⟨mid, hmid, hrest⟩ := Option.bind_eq_some_iff.mp hscan
    obtain ⟨hend, hunread⟩ := HostScan.next_inBounds h hunread hmid
    have hall := ih hend hunread hrest
    rwa [List.length_cons, Nat.add_comm rest.length, ← Nat.add_assoc]

/-- The loop over the server leaves the other fields. -/
theorem HostScan.next_other {ch : UInt8} {uf : UrlField} (huf : serverField uf = false)
    (hnext : scan.next pos ch = some scan') : scan'.fields uf = scan.fields uf := by
  obtain ⟨hhost, hport, hinfo⟩ := ne_of_serverField huf
  unfold HostScan.next at hnext
  simp only at hnext
  split at hnext
  · cases hnext
  all_goals
    rw [← Option.some.inj hnext]
    try split_ifs
    all_goals simp only [FieldData.grow, FieldData.begin_, FieldData.move,
      Function.update_of_ne hhost, Function.update_of_ne hport, Function.update_of_ne hinfo]

theorem scanHost_other {rest : Bytes} {uf : UrlField} (huf : serverField uf = false)
    (hscan : scanHost pos rest scan = some scan') : scan'.fields uf = scan.fields uf := by
  induction rest generalizing pos scan with
  | nil => rw [← Option.some.inj hscan]
  | cons ch rest ih =>
    obtain ⟨mid, hmid, hrest⟩ := Option.bind_eq_some_iff.mp hscan
    rw [ih hrest, HostScan.next_other huf hmid]

end Host

/-! ## The whole function -/

/-- In a new url nothing but the host is set, as far as the server goes. -/
def FieldData.ServerUnset (fields : FieldData) : Prop :=
  fields .port = none ∧ fields .userinfo = none

theorem scanUrl_serverUnset {rest : Bytes} {scan scan' : UrlScan} {pos : ℕ}
    (h : scan.fields.ServerUnset) (hscan : scanUrl pos rest scan = some scan') :
    scan'.fields.ServerUnset := by
  induction rest generalizing pos scan with
  | nil =>
    rw [← Option.some.inj hscan]
    exact h
  | cons ch rest ih =>
    obtain ⟨mid, hmid, hrest⟩ := Option.bind_eq_some_iff.mp hscan
    refine ih ?_ hrest
    have hne : ∀ uf, urlChar (parseUrlChar scan.s ch) = .field uf →
        UrlField.port ≠ uf ∧ UrlField.userinfo ≠ uf := by
      intro uf huf
      revert huf
      cases parseUrlChar scan.s ch <;> intro huf <;> cases huf <;> decide
    unfold UrlScan.next at hmid
    simp only at hmid
    split at hmid
    · cases hmid
    · rw [← Option.some.inj hmid]
      exact h
    · next uf huf =>
      obtain ⟨hport, hinfo⟩ := hne uf huf
      split_ifs at hmid
      all_goals
        rw [← Option.some.inj hmid]
        simp only [FieldData.ServerUnset, FieldData.grow, FieldData.begin_,
          Function.update_of_ne hport, Function.update_of_ne hinfo]
        exact h

theorem httpParseHost_inBounds {buf : Bytes} {fields fields' : FieldData} {foundAt : Bool}
    (h : fields.EndBy anyField buf.length) (hunset : fields.ServerUnset)
    (hhost : httpParseHost buf fields foundAt = some fields') :
    fields'.EndBy anyField buf.length := by
  unfold httpParseHost at hhost
  split at hhost
  · cases hhost
  · next off len hat =>
    have hle : off + len ≤ buf.length := h .host _ rfl hat
    have hslice : off + ((buf.drop off).take len).length = off + len := by
      rw [List.length_take, List.length_drop]
      omega
    simp only at hhost
    split at hhost
    · cases hhost
    · next scan hscan =>
      split_ifs at hhost with hend
      rw [← Option.some.inj hhost]
      intro uf at_ huf hat'
      cases hserver : serverField uf with
      | false =>
        rw [scanHost_other hserver hscan] at hat'
        dsimp only at hat'
        rw [Function.update_of_ne (ne_of_serverField hserver).1] at hat'
        exact h uf at_ huf hat'
      | true =>
        refine (scanHost_inBounds ?_ ?_ hscan uf at_ hserver hat').trans (hslice.trans_le hle)
        · intro uf' p huf' hp
          dsimp only at hp
          rcases eq_or_ne uf' .host with rfl | hne
          · rw [Function.update_self] at hp
            rw [← Option.some.inj hp]
            exact le_rfl
          · rw [Function.update_of_ne hne] at hp
            cases uf' <;> cases huf'
            · exact absurd rfl hne
            · rw [hunset.1] at hp
              cases hp
            · rw [hunset.2] at hp
              cases hp
        · intro _ p hp
          simp only [Function.update_self, Option.some.injEq] at hp
          rw [← hp]

/-- **The fields of a url lie in it.** This holds of every input, also of one that is longer than
the 16 bits of a position. -/
theorem httpParserParseUrl_inBounds (buf : Bytes) (isConnect : Bool) (u : HttpParserUrl)
    (h : httpParserParseUrl buf isConnect = some u) :
    u.fieldData.EndBy anyField buf.length ∧ u.port < 65536 := by
  unfold httpParserParseUrl at h
  split_ifs at h with hempty
  obtain ⟨scan, hscan, h⟩ := Option.bind_eq_some_iff.mp h
  have hbounds : scan.fields.EndBy anyField buf.length := by
    have hnone : FieldData.EndBy anyField (fun _ => none) 0 := by
      intro uf at_ _ hat
      cases hat
    have hend := scanUrl_inBounds hnone hscan
    rwa [Nat.zero_add] at hend
  have hunset : scan.fields.ServerUnset := scanUrl_serverUnset ⟨rfl, rfl⟩ hscan
  split_ifs at h with hschema
  obtain ⟨fields, hfields, h⟩ := Option.bind_eq_some_iff.mp h
  have hall : fields.EndBy anyField buf.length := by
    unfold serverFields at hfields
    split_ifs at hfields with hhost
    · exact httpParseHost_inBounds hbounds hunset hfields
    · rwa [← Option.some.inj hfields]
  split_ifs at h with hconnect
  unfold withPort at h
  split at h
  · rw [← Option.some.inj h]
    exact ⟨hall, Nat.zero_lt_succ 65535⟩
  · obtain ⟨v, -, rfl⟩ := Option.map_eq_some_iff.mp h
    exact ⟨hall, Nat.mod_lt v (by decide)⟩

/-- The url `h://k:8/?`. -/
theorem httpParserParseUrl_inBounds_server :
    ((httpParserParseUrl [104, 58, 47, 47, 107, 58, 56, 47, 63] false).get
        (by decide)).fieldData.EndBy anyField 9 ∧
      ((httpParserParseUrl [104, 58, 47, 47, 107, 58, 56, 47, 63] false).get
        (by decide)).port < 65536 :=
  httpParserParseUrl_inBounds [104, 58, 47, 47, 107, 58, 56, 47, 63] false _
    (Option.some_get _).symm

end Kimserver
