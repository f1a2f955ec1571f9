import Kimserver.Codec.HttpParserRuns
import Kimserver.Codec.HttpRollback

/-!
# The HTTP parser on a header line

A line is a name, a colon, blanks, a value and a line end. The parser compares the name with the
names it knows while it reads it. It does not look at the first character of a value; of the others
it checks the first one in the state `h_general` and skips the rest, while in the states of a
`Connection` it checks each of them.

The end of a value is found at the first byte of the next line.

## Main definitions

* `HttpExec.AtLines`: between two lines
* `acceptsValue`: the values that the parser takes

## Main results

* `HttpExec.passes_name`, `HttpExec.passes_value`: the parts of a line
* `HttpExec.passes_headerLine`, `HttpExec.passes_lengthLine`: a line
-/

namespace Kimserver

namespace HttpExec

/-! ## The name -/

section Name

variable {len : ℕ} {e : HttpExec} {ch : UInt8} {seg rest mark : Bytes} {s : HeaderState × ℕ}

theorem switch_headerField {p : Bytes} (hs : e.state = .headerField) :
    e.switch p ch len = e.headerField p len := by
  rw [switch, hs]

/-- Behind a name and a colon. -/
def behindName (e : HttpExec) (name : Bytes) (s : HeaderState × ℕ) (n : ℕ) : HttpExec :=
  { (e.counted n).notify (.headerField name) with
    state := .headerValueDiscardWs, headerState := s.1, index := s.2, headerFieldMark := none }

/-- The name behind its first character. -/
theorem passes_nameChars (hs : e.state = .headerField)
    (hmark : e.headerFieldMark = some (mark ++ (seg ++ 58 :: rest)))
    (hseg : ∀ c ∈ seg, token c ≠ 0) (hstates : nameStates (e.headerState, e.index) seg = some s)
    (hn : e.nread ≤ httpMaxHeaderSize) (hlen : seg.length < 2147483648) :
    Passes len e (seg ++ [58]) rest (e.nread + (seg.length + 1) ≤ httpMaxHeaderSize)
      (· = e.behindName (mark ++ seg) s (seg.length + 1)) := by
  have hheader : e.state.parsingHeader = true := by
    rw [hs]
    rfl
  let e₁ : HttpExec := { e.counted 1 with headerState := s.1, index := s.2 }
  let k : HttpExec → Flow := fun e =>
    .goOn ((e.goTo .headerValueDiscardWs).dataHeaderField (58 :: rest)) (58 :: rest)
  have hswitch : ∀ c more, seg ++ 58 :: rest = c :: more →
      (e.counted 1).switch (c :: more) c len = e₁.countHeaderSize (58 :: rest) seg.length k := by
    intro c more hcons
    have hcolon : token 58 = 0 := by decide
    have hloop : headerFieldLoop len 0 e.headerState e.index (c :: more) =
        some (s.1, s.2, 58 :: rest) := by
      rw [headerFieldLoop_eq, ← hcons, plainFieldLoop_name (s := (e.headerState, e.index)) hseg
        hcolon, hstates]
      rfl
    have hcount : (c :: more).length - (58 :: rest).length = seg.length := by
      rw [← hcons, List.length_append, Nat.add_sub_cancel]
    rw [switch_headerField (e := e.counted 1) hs, headerField]
    simp only [counted, hloop, hcount, if_true]
    rfl
  have hk : k (e₁.counted seg.length) =
      .goOn (e.behindName (mark ++ seg) s (seg.length + 1)) (58 :: rest) := by
    have hbetween : between (mark ++ (seg ++ 58 :: rest)) (58 :: rest) = mark ++ seg := by
      rw [← List.append_assoc, between_append]
    refine congrArg (Flow.goOn · _) ?_
    simp only [e₁, dataHeaderField, goTo, counted, hmark, hbetween, behindName, notify,
      Nat.add_assoc, Nat.add_comm 1]
  exact passes_counted hheader hn hlen hswitch rfl hk

end Name

/-! ## Between two lines -/

/-- What header lines leave alone. -/
def core (e : HttpExec) : HttpExec :=
  { e with
    state := .dead
    headerState := .general
    index := 0
    nread := 0
    flags := { e.flags with
      connectionKeepAlive := false
      connectionClose := false
      connectionUpgrade := false }
    calls := [] }

/-- Between two lines. The value of the last one may still have to be reported, and its flag to be
set. -/
structure AtLines (base : HttpExec) (calls : List HttpCallback) (n : ℕ) (e : HttpExec) : Prop where
  core : e.core = base
  nread : e.nread = n
  pending : e.state = .headerFieldStart ∧ e.calls = calls ∨
    e.headerState ≠ .transferEncodingChunked ∧ (e.state = .headerValueLws ∧ e.calls = calls ∨
      e.state = .headerValueDiscardLws ∧ e.calls ++ [.headerValue []] = calls)

section Lines

variable {base e : HttpExec} {calls : List HttpCallback} {n len : ℕ} {ch : UInt8} {p : Bytes}

theorem core_setConnection {h : HeaderState} :
    ({ e with flags := setConnection h e.flags } : HttpExec).core = e.core := by
  cases h <;> rfl

theorem core_setFinished (h : e.headerState ≠ .transferEncodingChunked) :
    ({ e with flags := e.setFinished } : HttpExec).core = e.core := by
  rw [setFinished, if_neg h]
  exact core_setConnection

theorem AtLines.parsingHeader (h : AtLines base calls n e) : e.state.parsingHeader = true := by
  rcases h.pending with ⟨hs, -⟩ | ⟨-, ⟨hs, -⟩ | ⟨hs, -⟩⟩ <;> rw [hs] <;> rfl

/-- **The first byte of a line** ends the value in front of it. -/
theorem AtLines.switch (h : AtLines base calls n e) (hbase : base.headerValueMark = none)
    (hblank : isBlank ch = false) : ∃ e₀ : HttpExec, e₀.state = .headerFieldStart ∧
      e₀.core = base ∧ e₀.nread = n ∧ e₀.calls = calls ∧
      ∀ p len, (e.counted 1).switch p ch len = (e₀.counted 1).headerFieldStart p ch := by
  obtain ⟨hcore, hn, hpending⟩ := h
  have hif : ¬ (ch = 32 || ch = 9) = true := by
    rw [isBlank] at hblank
    rw [hblank]
    exact Bool.false_ne_true
  have hmark : e.headerValueMark = none := (congrArg HttpExec.headerValueMark hcore).trans hbase
  rcases hpending with ⟨hs, hcalls⟩ | ⟨hfinished, ⟨hs, hcalls⟩ | ⟨hs, hcalls⟩⟩
  · refine ⟨e, hs, hcore, hn, hcalls, fun p len => ?_⟩
    rw [HttpExec.switch, show (e.counted 1).state = .headerFieldStart from hs]
  · refine ⟨({ e with flags := e.setFinished } : HttpExec).goTo .headerFieldStart, rfl,
      (core_setFinished hfinished).trans hcore, hn, hcalls, fun p len => ?_⟩
    rw [HttpExec.switch, show (e.counted 1).state = .headerValueLws from hs]
    exact if_neg hif
  · refine ⟨{ ({ e with flags := e.setFinished } : HttpExec).goTo .headerFieldStart with
      calls := calls }, rfl, (core_setFinished hfinished).trans hcore, hn, rfl, fun p len => ?_⟩
    have hempty : between p p = [] := by
      rw [between, Nat.sub_self, List.take_zero]
    have hset : (none <|> some p) = some p := rfl
    rw [HttpExec.switch, show (e.counted 1).state = .headerValueDiscardLws from hs]
    simp only [headerValueDiscardLws, if_neg hif, counted, goTo, dataHeaderValue, hmark, hset,
      hempty, notify, ← hcalls]
    rfl

/-- Behind the name of a line: the state that the name led to. -/
structure BehindName (base : HttpExec) (calls : List HttpCallback) (n : ℕ) (h : HeaderState)
    (e : HttpExec) : Prop where
  core : e.core = base
  nread : e.nread = n
  state : e.state = .headerValueDiscardWs
  headerState : e.headerState = h
  calls : e.calls = calls

theorem unmarked (h : e.markSet = {}) : e.headerFieldMark = none ∧ e.headerValueMark = none := by
  simp only [markSet, MarkSet.mk.injEq, Option.isSome_eq_false_iff, Option.isNone_iff_eq_none] at h
  exact ⟨h.1, h.2.1⟩

/-- **The name of a line.** -/
theorem passes_name {name rest : Bytes} {s : HeaderState × ℕ} (h : AtLines base calls n e)
    (hbase : base.markSet = {}) (hn : n ≤ httpMaxHeaderSize) (htoken : ∀ c ∈ ch :: name, token c ≠ 0)
    (hstates : nameStates (firstHeaderState (token ch), 0) name = some s)
    (hlen : name.length < 2147483648) :
    Passes len e ((ch :: name) ++ [58]) rest (n + (name.length + 2) ≤ httpMaxHeaderSize)
      (BehindName base (calls ++ [.headerField (ch :: name)]) (n + (name.length + 2)) s.1) := by
  have hfirst := htoken ch List.mem_cons_self
  have hne : ch ≠ 13 ∧ ch ≠ 10 ∧ isBlank ch = false := by
    refine ⟨?_, ?_, ?_⟩
    · rintro rfl
      exact hfirst (by decide)
    · rintro rfl
      exact hfirst (by decide)
    · rw [isBlank, Bool.or_eq_false_iff, decide_eq_false_iff_not, decide_eq_false_iff_not]
      constructor
      · rintro rfl
        exact hfirst (by decide)
      · rintro rfl
        exact hfirst (by decide)
  obtain ⟨hcr, hlf, hblank⟩ := hne
  obtain ⟨hfield, hvalue⟩ := unmarked hbase
  obtain ⟨e₀, hs₀, hcore₀, hn₀, hcalls₀, hswitch₀⟩ := h.switch hvalue hblank
  have hmark₀ : e₀.headerFieldMark = none :=
    (congrArg HttpExec.headerFieldMark hcore₀).trans hfield
  let marked (p : Bytes) : HttpExec := { e₀.counted 1 with
    headerFieldMark := some p
    index := 0
    state := .headerField
    headerState := firstHeaderState (token ch) }
  have hswitch : ∀ p, (e.counted 1).switch p ch len = .goOn (marked p) p := by
    intro p
    have hset : (none <|> some p) = some p := rfl
    rw [hswitch₀, headerFieldStart, if_neg hcr, if_neg hlf, if_neg hfirst]
    simp only [counted, hmark₀, hset, marked]
  have hbyte : Passes len e [ch] (name ++ [58] ++ rest) (n + 1 ≤ httpMaxHeaderSize)
      (· = marked (ch :: (name ++ [58] ++ rest))) := by
    rw [← h.nread]
    exact passes_byte h.parsingHeader (h.nread ▸ hn) (hswitch _) rfl
  have hmark : (marked (ch :: (name ++ [58] ++ rest))).headerFieldMark =
      some ([ch] ++ (name ++ 58 :: rest)) := congrArg some (by simp)
  have hnread : ∀ p, (marked p).nread = n + 1 := fun p => congrArg (· + 1) hn₀
  refine ((hbyte.append_of_eq fun hle => passes_nameChars rfl hmark
    (fun c hc => htoken c (List.mem_cons_of_mem _ hc)) hstates ((hnread _).trans_le hle)
    hlen).congr ?_).mono fun _ e₂ he₂ => ?_
  · rw [hnread]
    omega
  · subst he₂
    refine ⟨?_, ?_, rfl, rfl, ?_⟩
    · rw [← hcore₀]
      simp only [core, behindName, marked, counted, notify, hmark₀]
    · change e₀.nread + 1 + (name.length + 1) = _
      omega
    · change e₀.calls ++ [.headerField ([ch] ++ name)] = _
      rw [hcalls₀]
      rfl

end Lines

end HttpExec

/-! ## Values -/

/-- The states of the value of a `Connection` and of a name that the parser does not know. -/
def HeaderState.plainValue : HeaderState → Bool
  | .general | .matchingConnectionTokenStart | .matchingConnectionKeepAlive
  | .matchingConnectionClose | .matchingConnectionUpgrade | .matchingConnectionToken
  | .connectionKeepAlive | .connectionClose | .connectionUpgrade => true
  | _ => false

/-- The state and the index behind a character of such a value. -/
def valueNext (s : HeaderState × ℕ) (ch : UInt8) : HeaderState × ℕ :=
  match ({ index := s.2 } : HttpExec).valueChar ch s.1 (lower ch) with
  | .next h e => (h, e.index)
  | _ => s

/-- The values that the parser takes, behind their first character. -/
def acceptsValue : HeaderState × ℕ → Bytes → Bool
  | _, [] => true
  | s, ch :: rest => isHeaderChar ch && (s.1 = .general || acceptsValue (valueNext s ch) rest)

/-- The state that a name leads to, where its characters are those of a token. -/
def nameState (name : Bytes) : Option HeaderState :=
  match name with
  | [] => none
  | ch :: rest =>
    if (ch :: rest).all (token · ≠ 0) then
      (nameStates (HttpExec.firstHeaderState (token ch), 0) rest).map Prod.fst
    else none

/-- The state behind the first character of a value, by the state that the name led to. -/
def valueState (h : HeaderState) (ch : UInt8) : HeaderState :=
  if h = .connection then
    if lower ch = 107 then .matchingConnectionKeepAlive
    else if lower ch = 99 then .matchingConnectionClose
    else if lower ch = 117 then .matchingConnectionUpgrade
    else .matchingConnectionToken
  else .general

/-- The values that the parser takes. -/
def isValue (h : HeaderState) (value : Bytes) : Bool :=
  match skipBlanks value with
  | [] => true
  | ch :: rest => acceptsValue (valueState h ch, 0) rest

namespace HttpExec

section Values

variable {e e' : HttpExec} {h : HeaderState} {ch : UInt8} {cs rest : Bytes}

/-- What the characters of a value leave alone. -/
structure LineFrame (e e' : HttpExec) : Prop where
  core : e'.core = e.core
  state : e'.state = e.state
  nread : e'.nread = e.nread
  calls : e'.calls = e.calls

theorem LineFrame.refl : LineFrame e e := ⟨rfl, rfl, rfl, rfl⟩

theorem LineFrame.trans {e₁ e₂ e₃ : HttpExec} (h : LineFrame e₁ e₂) (h' : LineFrame e₂ e₃) :
    LineFrame e₁ e₃ :=
  ⟨h'.core.trans h.core, h'.state.trans h.state, h'.nread.trans h.nread, h'.calls.trans h.calls⟩

theorem matchWord_plainValue {word : Bytes} {self matched other : HeaderState} {index : ℕ}
    {c : UInt8} (h : self.plainValue = true ∧ matched.plainValue = true ∧
      other.plainValue = true) :
    (matchWord word self matched other index c).1.plainValue = true := by
  rw [matchWord]
  split_ifs
  · exact h.2.2
  · exact h.2.1
  · exact h.1

/-- **A character of such a value.** -/
theorem valueChar_plain (hh : h.plainValue = true) :
    ∃ e', e.valueChar ch h (lower ch) = .next (valueNext (h, e.index) ch).1 e' ∧
      e'.index = (valueNext (h, e.index) ch).2 ∧
      (valueNext (h, e.index) ch).1.plainValue = true ∧ LineFrame e e' := by
  cases h <;> cases hh <;> simp only [valueNext, valueChar, matched]
  case general => exact ⟨e, rfl, rfl, rfl, .refl⟩
  case matchingConnectionTokenStart =>
    refine ⟨e, rfl, rfl, ?_, .refl⟩
    rw [connectionTokenStart]
    split_ifs <;> rfl
  case matchingConnectionKeepAlive | matchingConnectionClose | matchingConnectionUpgrade =>
    exact ⟨_, rfl, rfl, matchWord_plainValue (by decide), rfl, rfl, rfl, rfl⟩
  case matchingConnectionToken =>
    split_ifs
    · exact ⟨_, rfl, rfl, rfl, rfl, rfl, rfl, rfl⟩
    · exact ⟨e, rfl, rfl, rfl, .refl⟩
  case connectionKeepAlive | connectionClose | connectionUpgrade =>
    split_ifs
    · exact ⟨_, rfl, rfl, rfl, rfl, rfl, rfl, rfl⟩
    · exact ⟨e, rfl, rfl, rfl, .refl⟩
    · exact ⟨e, rfl, rfl, rfl, .refl⟩

theorem headerValueLoop_skip {skip : ℕ} {p : Bytes} :
    headerValueLoop skip h e p = headerValueLoop 0 h e (p.drop skip) := by
  induction p generalizing skip with
  | nil => cases skip <;> rfl
  | cons c rest ih =>
    cases skip with
    | zero => rfl
    | succ skip => exact ih

theorem memchr_cons {x c : UInt8} {p : Bytes} {limit : ℕ} : memchr (x :: p) c (limit + 1) =
    if x = c then some 0 else (memchr p c limit).map (· + 1) := by
  rw [memchr, List.take_succ_cons, List.findIdx?_cons]
  simp only [decide_eq_true_eq]
  rfl

/-- The first byte that is the one in question. -/
theorem memchr_append {seg : Bytes} {c : UInt8} {limit : ℕ} (h : ∀ x ∈ seg, x ≠ c) :
    memchr (seg ++ c :: rest) c limit = if seg.length < limit then some seg.length else none := by
  induction seg generalizing limit with
  | nil =>
    cases limit with
    | zero => rfl
    | succ limit => exact memchr_cons.trans (if_pos rfl)
  | cons x seg ih =>
    cases limit with
    | zero => rfl
    | succ limit =>
      rw [List.cons_append, memchr_cons, if_neg (h x List.mem_cons_self),
        ih fun y hy => h y (List.mem_cons_of_mem _ hy)]
      simp only [List.length_cons, Nat.add_lt_add_iff_right]
      split_ifs <;> rfl

/-- It does not stand in front of those bytes that are others. -/
theorem le_of_memchr {seg q : Bytes} {c : UInt8} {limit i : ℕ} (h : ∀ x ∈ seg, x ≠ c)
    (hi : memchr (seg ++ q) c limit = some i) : seg.length ≤ i ∧ i < limit := by
  induction seg generalizing limit i with
  | nil =>
    refine ⟨Nat.zero_le i, ?_⟩
    obtain ⟨hlt, -⟩ := List.findIdx?_eq_some_iff_getElem.mp hi
    exact hlt.trans_le (List.length_take_le _ _)
  | cons x seg ih =>
    cases limit with
    | zero => cases hi
    | succ limit =>
      rw [List.cons_append, memchr_cons, if_neg (h x List.mem_cons_self)] at hi
      obtain ⟨j, hj, rfl⟩ := Option.map_eq_some_iff.mp hi
      obtain ⟨hle, hlt⟩ := ih (fun y hy => h y (List.mem_cons_of_mem _ hy)) hj
      exact ⟨Nat.add_le_add_right hle 1, Nat.add_lt_add_right hlt 1⟩

/-- **The short cut over a value.** Within its limit it goes to the end of the line; behind it, to
the end of the buffer. -/
theorem generalValue_eq (hcs : ∀ c ∈ ch :: cs, c ≠ 13 ∧ c ≠ 10) :
    generalValue (ch :: (cs ++ 13 :: rest)) =
      if cs.length + 1 < httpMaxHeaderSize then cs.length else (cs ++ 13 :: rest).length := by
  have hshape : ch :: (cs ++ 13 :: rest) = (ch :: cs) ++ 13 :: rest := rfl
  have hshape' : (ch :: cs) ++ 13 :: rest = ((ch :: cs) ++ [13]) ++ rest := by simp
  have hlen : ((ch :: cs) ++ 13 :: rest).length = cs.length + 1 + (rest.length + 1) := by
    simp only [List.length_append, List.length_cons]
  have hlf : ∀ i, memchr ((ch :: cs) ++ 13 :: rest) 10 (min ((ch :: cs) ++ 13 :: rest).length
      httpMaxHeaderSize) = some i → cs.length + 1 < i ∧ i < httpMaxHeaderSize := by
    intro i hi
    rw [hshape'] at hi
    have hother : ∀ x ∈ (ch :: cs) ++ [13], x ≠ 10 := by
      intro x hx
      rcases List.mem_append.mp hx with hx | hx
      · exact (hcs x hx).2
      · rw [List.mem_singleton.mp hx]
        decide
    obtain ⟨hle, hlt⟩ := le_of_memchr hother hi
    rw [List.length_append, List.length_cons, List.length_singleton] at hle
    exact ⟨by omega, hlt.trans_le (min_le_right _ _)⟩
  rw [generalValue, hshape]
  simp only [memchr_append fun x hx => (hcs x hx).1]
  by_cases hshort : cs.length + 1 < httpMaxHeaderSize
  · have hlimit : (ch :: cs).length < min ((ch :: cs) ++ 13 :: rest).length httpMaxHeaderSize := by
      rw [List.length_cons, hlen]
      omega
    rw [if_pos hlimit, if_pos hshort]
    cases hfind : memchr ((ch :: cs) ++ 13 :: rest) 10 (min ((ch :: cs) ++ 13 :: rest).length
      httpMaxHeaderSize) with
    | none => rfl
    | some i =>
      have hlt := (hlf i hfind).1
      simp only [List.length_cons]
      rw [if_neg (by omega)]
      rfl
  · have hlimit : ¬ (ch :: cs).length < min ((ch :: cs) ++ 13 :: rest).length
        httpMaxHeaderSize := by
      rw [List.length_cons]
      omega
    rw [if_neg hlimit, if_neg hshort]
    cases hfind : memchr ((ch :: cs) ++ 13 :: rest) 10 (min ((ch :: cs) ++ 13 :: rest).length
      httpMaxHeaderSize) with
    | none =>
      simp only [List.length_append, List.length_cons]
      omega
    | some i =>
      have := hlf i hfind
      omega

/-- How the loop over a value ends at a line end: behind a value that is taken, at a byte that is
not, or, where the line is too long for the short cut, behind the buffer. -/
theorem headerValueLoop_plain (hh : h.plainValue = true) (hcs : ∀ c ∈ cs, c ≠ 13 ∧ c ≠ 10) :
    (acceptsValue (h, e.index) cs = true ∧ ∃ e', LineFrame e e' ∧
      e'.headerState ≠ .transferEncodingChunked ∧ headerValueLoop 0 h e (cs ++ 13 :: rest) =
        .cr ((e'.goTo .headerAlmostDone).dataHeaderValue (13 :: rest)) (13 :: rest)) ∨
    (acceptsValue (h, e.index) cs = false ∧ ∃ e' q errno, errno ≠ .ok ∧
      headerValueLoop 0 h e (cs ++ 13 :: rest) = .error e' q errno) ∨
    (httpMaxHeaderSize ≤ cs.length ∧ ∃ e', LineFrame e e' ∧
      headerValueLoop 0 h e (cs ++ 13 :: rest) = .last e') := by
  have hfinished : h ≠ .transferEncodingChunked := by
    rintro rfl
    exact Bool.false_ne_true hh
  induction cs generalizing h e with
  | nil => exact Or.inl ⟨rfl, { e with headerState := h }, ⟨rfl, rfl, rfl, rfl⟩, hfinished, rfl⟩
  | cons ch cs ih =>
    obtain ⟨hcr, hlf⟩ := hcs ch List.mem_cons_self
    have hcs' : ∀ c ∈ cs, c ≠ 13 ∧ c ≠ 10 := fun c hc => hcs c (List.mem_cons_of_mem _ hc)
    rw [List.cons_append, headerValueLoop, if_neg hcr, if_neg hlf, acceptsValue]
    cases hchar : isHeaderChar ch with
    | false => exact Or.inr (Or.inl ⟨rfl, e, _, _, HttpErrno.noConfusion, rfl⟩)
    | true =>
      simp only [Bool.not_true, Bool.false_eq_true, if_false, Bool.true_and]
      by_cases hgeneral : h = .general
      · subst hgeneral
        rw [if_pos rfl, headerValueLoop_skip, generalValue_eq hcs]
        split_ifs with hshort
        · rw [List.drop_left]
          exact Or.inl ⟨rfl, { e with headerState := .general }, ⟨rfl, rfl, rfl, rfl⟩, hfinished,
            rfl⟩
        · rw [List.drop_length]
          refine Or.inr (Or.inr ⟨?_, { e with headerState := .general }, ⟨rfl, rfl, rfl, rfl⟩, rfl⟩)
          rw [List.length_cons]
          omega
      · rw [if_neg hgeneral]
        obtain ⟨e', hnext, hindex, hh', hframe⟩ : ∃ e',
            e.valueChar ch h (lower ch) = .next (valueNext (h, e.index) ch).1 e' ∧ _ := valueChar_plain hh
        rw [hnext]
        have hfinished' : (valueNext (h, e.index) ch).1 ≠ .transferEncodingChunked := by
          intro heq
          rw [heq] at hh'
          exact Bool.false_ne_true hh'
        have hstate : (valueNext (h, e.index) ch) = ((valueNext (h, e.index) ch).1, e'.index) := by
          rw [hindex]
        simp only [hgeneral, decide_false, Bool.false_or]
        rw [hstate]
        rcases ih (e := e') hh' hcs' hfinished' with ⟨hok, e₁, hframe₁, hrest⟩ |
          ⟨hbad, e₁, q, errno, hrest⟩ | ⟨hlong, e₁, hframe₁, hrest⟩
        · exact Or.inl ⟨hok, e₁, hframe.trans hframe₁, hrest⟩
        · exact Or.inr (Or.inl ⟨hbad, e₁, q, errno, hrest⟩)
        · refine Or.inr (Or.inr ⟨?_, e₁, hframe.trans hframe₁, hrest⟩)
          rw [List.length_cons]
          omega

end Values

section Value

variable {e e' : HttpExec} {h : HeaderState} {ch : UInt8} {cs mark rest p : Bytes} {len : ℕ}

theorem tail_lastByte (hp : p ≠ []) : (lastByte p).tail = [] := by
  have hpos := List.length_pos_of_ne_nil hp
  apply List.eq_nil_of_length_eq_zero
  rw [List.length_tail, lastByte, List.length_drop]
  omega

theorem inMessage_concat {calls : List HttpCallback} (call : HttpCallback) :
    inMessage (calls ++ [call]) = call.marks (inMessage calls) := by
  rw [inMessage, List.foldl_append]
  rfl

/-- A value that goes on to the end of the buffer. -/
theorem refused_last {n : ℕ} (hs : e.state.parsingHeader = true) (hn : e.nread ≤ httpMaxHeaderSize)
    (hswitch : (e.counted 1).switch (ch :: rest) ch len =
      e'.countHeaderSize (lastByte (ch :: rest)) n fun e => .goOn e (lastByte (ch :: rest)))
    (hmarks : e'.markSet = { headerValue := true }) (hcalls : inMessage e'.calls = true) :
    (httpParserLoop len 0 e (ch :: rest)).Refused := by
  have hp : ch :: rest ≠ [] := List.cons_ne_nil ch rest
  rw [countHeaderSize] at hswitch
  dsimp only at hswitch
  split_ifs at hswitch with hover
  · exact refused_byte hs hn hswitch HttpErrno.noConfusion
  · rcases Nat.lt_or_eq_of_le hn with hlt | heq
    · have hturn : e.turn (ch :: rest) ch len = (e.counted 1).switch (ch :: rest) ch len :=
        turn_header hs hlt
      have hloop := loop_goOn (hturn.trans hswitch) lastByte_suffix (lastByte_ne_nil hp)
      rw [tail_lastByte hp] at hloop
      -- the value is reported, and the message has not ended
      obtain ⟨hcount, value, hvalue⟩ := (flush_marked (e := { e' with
        nread := u32 (e'.nread + n) }) hmarks).2.1 rfl
      refine ⟨_, len, hloop.trans (if_pos hcount.le), Or.inr ?_⟩
      rw [hvalue, inMessage_concat]
      exact hcalls
    · obtain ⟨e₁, hturn, herr⟩ : ∃ e₁, e.turn (ch :: rest) ch len = .return_ e₁ (ch :: rest) ∧
          e₁.httpErrno ≠ .ok := turn_overflow hs heq
      exact ⟨e₁, _, loop_return hturn, Or.inl herr⟩

/-- Behind a value and a `'\r'`. -/
def behindValue (e : HttpExec) (value : Bytes) : HttpExec :=
  { (e.goTo .headerAlmostDone).notify (.headerValue value) with headerValueMark := none }

theorem switch_headerValue (hs : e.state = .headerValue) :
    (e.counted 1).switch p ch len = (e.counted 1).headerValue p := by
  rw [HttpExec.switch, show (e.counted 1).state = .headerValue from hs]

/-- A value up to its `'\r'`. -/
theorem passes_valueCr {e₁ : HttpExec} (hs : e.state = .headerValue)
    (hloop : headerValueLoop 0 (e.counted 1).headerState (e.counted 1) (cs ++ 13 :: rest) =
      .cr ((e₁.goTo .headerAlmostDone).dataHeaderValue (13 :: rest)) (13 :: rest))
    (hmark : e₁.headerValueMark = some (mark ++ (cs ++ 13 :: rest)))
    (hnread : e₁.nread = e.nread + 1) (hn : e.nread ≤ httpMaxHeaderSize)
    (hlen : cs.length < 2147483648) :
    Passes len e (cs ++ [13]) rest (e.nread + (cs.length + 1) ≤ httpMaxHeaderSize)
      (· = (e₁.behindValue (mark ++ cs)).counted cs.length) := by
  have hheader : e.state.parsingHeader = true := by
    rw [hs]
    rfl
  have hbetween : between (mark ++ (cs ++ 13 :: rest)) (13 :: rest) = mark ++ cs := by
    rw [← List.append_assoc, between_append]
  have hdata : (e₁.goTo .headerAlmostDone).dataHeaderValue (13 :: rest) =
      e₁.behindValue (mark ++ cs) := by
    simp only [dataHeaderValue, goTo, hmark, hbetween, behindValue]
  have hcr : ∀ c more, cs ++ 13 :: rest = c :: more → (e.counted 1).switch (c :: more) c len =
      (e₁.behindValue (mark ++ cs)).countHeaderSize (13 :: rest) cs.length fun e =>
        .goOn e (13 :: rest) := by
    intro c more hcons
    have hcount : (c :: more).length - (13 :: rest).length = cs.length := by
      rw [← hcons, List.length_append, Nat.add_sub_cancel]
    rw [switch_headerValue hs, headerValue, ← hcons, hloop, hdata]
    simp only [hcons, hcount]
  exact passes_counted hheader hn hlen hcr hnread rfl

/-- **The value** behind its first character. -/
theorem passes_valueChars (hs : e.state = .headerValue)
    (hmark : e.headerValueMark = some (mark ++ (cs ++ 13 :: rest)))
    (hmarks : e.markSet = { headerValue := true }) (hh : e.headerState.plainValue = true)
    (hcs : ∀ c ∈ cs, c ≠ 13 ∧ c ≠ 10) (hcalls : inMessage e.calls = true)
    (hn : e.nread ≤ httpMaxHeaderSize) (hlen : cs.length < 2147483648) :
    Passes len e (cs ++ [13]) rest (acceptsValue (e.headerState, e.index) cs = true ∧
        e.nread + (cs.length + 1) ≤ httpMaxHeaderSize)
      (fun e' => e'.core = { e.core with headerValueMark := none } ∧
        e'.state = .headerAlmostDone ∧ e'.headerState ≠ .transferEncodingChunked ∧
        e'.nread = e.nread + (cs.length + 1) ∧
        e'.calls = e.calls ++ [.headerValue (mark ++ cs)]) := by
  have hheader : e.state.parsingHeader = true := by
    rw [hs]
    rfl
  obtain ⟨ch, more, hcons⟩ : ∃ ch more, cs ++ 13 :: rest = ch :: more :=
    List.exists_cons_of_ne_nil (by simp)
  have hplain : (e.counted 1).headerState.plainValue = true := hh
  rcases headerValueLoop_plain (e := e.counted 1) hplain hcs with ⟨hok, e₁, hframe, hfinished, hloop⟩ | ⟨hbad, e₁, q, errno, herrno, hloop⟩ |
      ⟨hlong, e₁, hframe, hloop⟩
  · have hmark₁ : e₁.headerValueMark = some (mark ++ (cs ++ 13 :: rest)) :=
      (congrArg HttpExec.headerValueMark hframe.core).trans hmark
    refine ((passes_valueCr hs hloop hmark₁ hframe.nread hn hlen).congr
      ⟨fun hle => ⟨hok, hle⟩, And.right⟩).mono ?_
    rintro - _ rfl
    refine ⟨?_, rfl, hfinished, ?_, ?_⟩
    · exact congrArg (fun e : HttpExec => { e with headerValueMark := none }) hframe.core
    · change e₁.nread + cs.length = _
      rw [hframe.nread]
      simp only [counted]
      omega
    · exact congrArg (· ++ [HttpCallback.headerValue (mark ++ cs)]) hframe.calls
  · refine Passes.refused ?_ fun h => Bool.false_ne_true (hbad.symm.trans h.1)
    rw [List.append_assoc, List.singleton_append, hcons]
    have hswitch : (e.counted 1).switch (ch :: more) ch len =
        .return_ { e₁ with httpErrno := errno } q := by
      rw [switch_headerValue hs, headerValue, ← hcons, hloop]
      rfl
    exact refused_byte hheader hn hswitch herrno
  · refine Passes.refused ?_ fun h => by omega
    rw [List.append_assoc, List.singleton_append, hcons]
    have hlast : (e.counted 1).switch (ch :: more) ch len =
        e₁.countHeaderSize (lastByte (ch :: more))
          ((ch :: more).length - (lastByte (ch :: more)).length)
          fun e => .goOn e (lastByte (ch :: more)) := by
      rw [switch_headerValue hs, headerValue, ← hcons, hloop]
    refine refused_last hheader hn hlast ((congrArg markSet hframe.core).trans hmarks) ?_
    rw [hframe.calls]
    exact hcalls

end Value

section Line

variable {base e : HttpExec} {calls : List HttpCallback} {n len : ℕ} {h : HeaderState}
  {ch : UInt8} {cs value blanks rest p : Bytes}

theorem BehindName.parsingHeader (hname : BehindName base calls n h e) :
    e.state.parsingHeader = true := by
  rw [hname.state]
  rfl

theorem BehindName.switch (hname : BehindName base calls n h e) :
    (e.counted 1).switch p ch len = (e.counted 1).headerValueDiscardWs p ch := by
  rw [HttpExec.switch, show (e.counted 1).state = .headerValueDiscardWs from hname.state]

/-- The blanks in front of a value. -/
theorem passes_blanks (hname : BehindName base calls n h e) (hn : n ≤ httpMaxHeaderSize)
    (hblanks : ∀ c ∈ blanks, isBlank c = true) :
    Passes len e blanks rest (n + blanks.length ≤ httpMaxHeaderSize)
      (BehindName base calls (n + blanks.length) h) := by
  induction blanks generalizing e n with
  | nil => exact Or.inl ⟨hn, e, hname, rfl⟩
  | cons ch blanks ih =>
    have hch := hblanks ch List.mem_cons_self
    have hswitch : (e.counted 1).switch (ch :: (blanks ++ rest)) ch len =
        .goOn (e.counted 1) (ch :: (blanks ++ rest)) := by
      rw [hname.switch, headerValueDiscardWs]
      exact if_pos hch
    have hnext : BehindName base calls (n + 1) h (e.counted 1) :=
      ⟨hname.core, congrArg (· + 1) hname.nread, hname.state, hname.headerState, hname.calls⟩
    have hbyte : Passes len e [ch] (blanks ++ rest) (n + 1 ≤ httpMaxHeaderSize)
        (· = e.counted 1) := by
      rw [← hname.nread]
      exact passes_byte hname.parsingHeader (hname.nread ▸ hn) hswitch rfl
    refine ((hbyte.append_of_eq fun hle => ih hnext hle fun c hc =>
      hblanks c (List.mem_cons_of_mem _ hc)).congr ?_).mono fun _ e₂ he₂ => ?_
    · rw [List.length_cons]
      omega
    · rwa [List.length_cons, Nat.add_comm blanks.length, ← Nat.add_assoc]

/-- The first character of a value. -/
theorem headerValueStart_eq (hh : e.headerState = .general ∨ e.headerState = .connection)
    (hmark : e.headerValueMark = none) : e.headerValueStart p ch =
      .goOn { e with headerValueMark := some p, state := .headerValue, index := 0,
                     headerState := valueState e.headerState ch } p := by
  have hset : (none <|> some p) = some p := rfl
  rcases hh with hh | hh <;> simp only [headerValueStart, hh, hmark, hset, valueState] <;> rfl

theorem valueState_plain : (valueState h ch).plainValue = true := by
  rw [valueState]
  split_ifs <;> rfl

/-- An empty value. -/
theorem passes_empty (hname : BehindName base calls n h e) (hh : h ≠ .transferEncodingChunked)
    (hn : n ≤ httpMaxHeaderSize) :
    Passes len e [13, 10] rest (n + 2 ≤ httpMaxHeaderSize)
      (AtLines base (calls ++ [.headerValue []]) (n + 2)) := by
  have hcr : Passes len e [13] ([10] ++ rest) (n + 1 ≤ httpMaxHeaderSize)
      (· = (e.counted 1).goTo .headerValueDiscardWsAlmostDone) := by
    rw [← hname.nread]
    refine passes_byte hname.parsingHeader (hname.nread ▸ hn) ?_ rfl
    rw [hname.switch]
    rfl
  have hlf : n + 1 ≤ httpMaxHeaderSize →
      Passes len ((e.counted 1).goTo .headerValueDiscardWsAlmostDone) [10] rest
        (n + 1 + 1 ≤ httpMaxHeaderSize) (· = (e.counted 2).goTo .headerValueDiscardLws) := by
    rw [← hname.nread]
    exact fun hle => passes_byte rfl hle rfl rfl
  refine ((hcr.append_of_eq hlf).congr ⟨And.right, fun hle => ⟨by omega, hle⟩⟩).mono ?_
  rintro - _ rfl
  refine ⟨hname.core, congrArg (· + 2) hname.nread, Or.inr ⟨?_, Or.inr ⟨rfl, ?_⟩⟩⟩
  · exact fun heq => hh (hname.headerState.symm.trans heq)
  · exact congrArg (· ++ [HttpCallback.headerValue []]) hname.calls

/-- The `'\n'` behind a value. -/
theorem passes_valueEnd (hs : e.state = .headerAlmostDone) (hcore : e.core = base)
    (hfinished : e.headerState ≠ .transferEncodingChunked) (hn : e.nread ≤ httpMaxHeaderSize)
    (hnext : e.nread + 1 = n) :
    Passes len e [10] rest (n ≤ httpMaxHeaderSize) (AtLines base e.calls n) := by
  have hheader : e.state.parsingHeader = true := by
    rw [hs]
    rfl
  have hswitch : ∀ p, (e.counted 1).switch p 10 len =
      .goOn ((e.counted 1).goTo .headerValueLws) p := by
    intro p
    rw [HttpExec.switch, show (e.counted 1).state = .headerAlmostDone from hs]
    rfl
  subst hnext
  exact passes_byte hheader hn (hswitch _) ⟨hcore, rfl, Or.inr ⟨hfinished, Or.inl ⟨rfl, rfl⟩⟩⟩

/-- A value that is not empty. -/
theorem passes_nonempty (hname : BehindName base calls n h e)
    (hh : h = .general ∨ h = .connection) (hbase : base.markSet = {})
    (hblank : isBlank ch = false) (hcs : ∀ c ∈ ch :: cs, c ≠ 13 ∧ c ≠ 10)
    (hcalls : inMessage calls = true) (hn : n ≤ httpMaxHeaderSize)
    (hlen : cs.length < 2147483648) :
    Passes len e ((ch :: cs) ++ [13, 10]) rest (acceptsValue (valueState h ch, 0) cs = true ∧
        n + (cs.length + 3) ≤ httpMaxHeaderSize)
      (AtLines base (calls ++ [.headerValue (ch :: cs)]) (n + (cs.length + 3))) := by
  obtain ⟨hcr, hlf⟩ := hcs ch List.mem_cons_self
  obtain ⟨hcore, rfl, hstate, rfl, rfl⟩ := hname
  have hmarkSet : e.markSet = {} := (congrArg markSet hcore).trans hbase
  have hunset := (unmarked hmarkSet).2
  let marked (p : Bytes) : HttpExec := { e.counted 1 with
    headerValueMark := some p
    state := .headerValue
    index := 0
    headerState := valueState e.headerState ch }
  have hswitch : ∀ p, (e.counted 1).switch p ch len = .goOn (marked p) p := by
    intro p
    have hif : ¬ (ch = 32 || ch = 9) = true := fun hb => Bool.false_ne_true (hblank.symm.trans hb)
    rw [HttpExec.switch, show (e.counted 1).state = .headerValueDiscardWs from hstate]
    simp only [headerValueDiscardWs, if_neg hif, if_neg hcr, if_neg hlf]
    exact headerValueStart_eq (e := e.counted 1) hh hunset
  have hbyte : Passes len e [ch] (cs ++ [13] ++ ([10] ++ rest)) (e.nread + 1 ≤ httpMaxHeaderSize)
      (· = marked (ch :: (cs ++ [13] ++ ([10] ++ rest)))) := by
    refine passes_byte ?_ hn (hswitch _) rfl
    rw [hstate]
    rfl
  have hmark : (marked (ch :: (cs ++ [13] ++ ([10] ++ rest)))).headerValueMark =
      some ([ch] ++ (cs ++ 13 :: ([10] ++ rest))) := congrArg some (by simp)
  have hmarks : ∀ p, (marked p).markSet = { headerValue := true } := by
    intro p
    exact congrArg (fun set : MarkSet => { set with headerValue := true }) hmarkSet
  have hbaseMark : { base with headerValueMark := none } = base := by
    rw [← (unmarked hbase).2]
  have hvalue : Passes len e ([ch] ++ (cs ++ [13])) ([10] ++ rest)
      (acceptsValue (valueState e.headerState ch, 0) cs = true ∧
        e.nread + (cs.length + 2) ≤ httpMaxHeaderSize)
      (fun e₁ => e₁.state = .headerAlmostDone ∧ e₁.core = base ∧
        e₁.headerState ≠ .transferEncodingChunked ∧ e₁.nread = e.nread + (cs.length + 2) ∧
        e₁.calls = e.calls ++ [.headerValue (ch :: cs)]) := by
    refine ((hbyte.append_of_eq fun hle => passes_valueChars rfl hmark (hmarks _) valueState_plain
      (fun c hc => hcs c (List.mem_cons_of_mem _ hc)) hcalls hle hlen).congr ?_).mono ?_
    · simp only [marked, counted]
      constructor
      · rintro ⟨-, hok, hle⟩
        exact ⟨hok, by omega⟩
      · rintro ⟨hok, hle⟩
        exact ⟨by omega, hok, by omega⟩
    · rintro - e₁ ⟨hcore₁, hs₁, hfinished, hn₁, hcalls₁⟩
      have hcore₂ : e₁.core = { e.core with headerValueMark := none } := hcore₁
      refine ⟨hs₁, hcore₂.trans (by rw [hcore, hbaseMark]), hfinished, ?_, hcalls₁⟩
      rw [hn₁]
      simp only [marked, counted]
      omega
  have hseg : (ch :: cs) ++ [13, 10] = [ch] ++ (cs ++ [13]) ++ [10] := by simp
  rw [hseg]
  refine (hvalue.append fun ok e₁ h₁ => ?_).congr ⟨fun h => ⟨h.1.1, h.2⟩, fun h => ⟨⟨h.1, ?_⟩, h.2⟩⟩
  · rw [← h₁.2.2.2.2]
    exact passes_valueEnd h₁.1 h₁.2.1 h₁.2.2.1 (h₁.2.2.2.1.trans_le ok.2)
      (congrArg (· + 1) h₁.2.2.2.1)
  · exact (Nat.le_succ _).trans h.2

theorem isBlank_of_skipBlanks (hskip : skipBlanks value = ch :: cs) : isBlank ch = false := by
  induction value with
  | nil => cases hskip
  | cons c value ih =>
    rw [skipBlanks, List.dropWhile_cons] at hskip
    split_ifs at hskip with hc
    · exact ih hskip
    · obtain ⟨rfl, -⟩ := List.cons.inj hskip
      exact Bool.eq_false_iff.mpr hc

/-- **The value of a line.** -/
theorem passes_value (hname : BehindName base calls n h e)
    (hh : h = .general ∨ h = .connection) (hbase : base.markSet = {})
    (hvalue : ∀ c ∈ value, c ≠ 13 ∧ c ≠ 10) (hcalls : inMessage calls = true)
    (hn : n ≤ httpMaxHeaderSize) (hlen : value.length < 2147483648) :
    Passes len e (value ++ [13, 10]) rest (isValue h value = true ∧
        n + (value.length + 2) ≤ httpMaxHeaderSize)
      (AtLines base (calls ++ [.headerValue (skipBlanks value)]) (n + (value.length + 2))) := by
  have hsplit : value.takeWhile isBlank ++ skipBlanks value = value := List.takeWhile_append_dropWhile
  have hblanks : ∀ c ∈ value.takeWhile isBlank, isBlank c = true := fun c hc =>
    List.mem_takeWhile_imp hc
  have hsum : (value.takeWhile isBlank).length + (skipBlanks value).length = value.length := by
    rw [← List.length_append, hsplit]
  have hseg : value ++ [13, 10] = value.takeWhile isBlank ++ (skipBlanks value ++ [13, 10]) := by
    rw [← List.append_assoc, hsplit]
  rw [hseg, isValue]
  cases hskip : skipBlanks value with
  | nil =>
    rw [hskip, List.length_nil] at hsum
    have hfinished : h ≠ .transferEncodingChunked := by
      rcases hh with rfl | rfl <;> exact HeaderState.noConfusion
    refine (((passes_blanks hname hn hblanks).append fun hle e₁ hname₁ =>
      passes_empty hname₁ hfinished hle).congr ?_).mono fun _ e₂ he₂ => ?_
    · simp only [true_and]
      omega
    · rwa [Nat.add_assoc, show (value.takeWhile isBlank).length = value.length from hsum] at he₂
  | cons ch cs =>
    have hblank : isBlank ch = false := isBlank_of_skipBlanks hskip
    have hcs : ∀ c ∈ ch :: cs, c ≠ 13 ∧ c ≠ 10 := by
      intro c hc
      rw [← hskip] at hc
      exact hvalue c ((List.dropWhile_sublist isBlank).subset hc)
    rw [hskip, List.length_cons] at hsum
    refine (((passes_blanks hname hn hblanks).append fun hle e₁ hname₁ =>
      passes_nonempty hname₁ hh hbase hblank hcs hcalls hle (by omega)).congr ?_).mono
        fun _ e₂ he₂ => ?_
    · constructor
      · rintro ⟨-, hok, hle⟩
        exact ⟨hok, by omega⟩
      · rintro ⟨hok, hle⟩
        exact ⟨by omega, hok, by omega⟩
    · rwa [show n + (value.takeWhile isBlank).length + (cs.length + 3) = n + (value.length + 2) by
        omega] at he₂

/-- **A name with its colon.** -/
theorem passes_nameState {name : Bytes} (hline : AtLines base calls n e) (hbase : base.markSet = {})
    (hname : nameState name = some h) (hn : n ≤ httpMaxHeaderSize)
    (hlen : name.length < 2147483648) :
    Passes len e (name ++ [58]) rest (n + (name.length + 1) ≤ httpMaxHeaderSize)
      (BehindName base (calls ++ [.headerField name]) (n + (name.length + 1)) h) := by
  cases name with
  | nil => cases hname
  | cons ch name =>
    rw [nameState] at hname
    split_ifs at hname with htoken
    obtain ⟨s, hstates, rfl⟩ := Option.map_eq_some_iff.mp hname
    refine passes_name hline hbase hn (fun c hc => ?_) hstates ?_
    · simpa using List.all_eq_true.mp htoken c hc
    · rw [List.length_cons] at hlen
      omega

/-- **A header line.** -/
theorem passes_headerLine {name : Bytes} (hline : AtLines base calls n e) (hbase : base.markSet = {})
    (hname : nameState name = some h) (hh : h = .general ∨ h = .connection)
    (hvalue : ∀ c ∈ value, c ≠ 13 ∧ c ≠ 10) (hcalls : inMessage calls = true)
    (hn : n ≤ httpMaxHeaderSize) (hlen : name.length + value.length < 2147483640) :
    Passes len e (name ++ text ": " ++ value ++ crlf) rest (isValue h value = true ∧
        n + (name.length + value.length + 4) ≤ httpMaxHeaderSize)
      (AtLines base (calls ++ (HeaderLine.mk name (skipBlanks value) []).calls)
        (n + (name.length + value.length + 4))) := by
  have hseg : name ++ text ": " ++ value ++ crlf = (name ++ [58]) ++ ((32 :: value) ++ [13, 10]) := by
    have hcolon : text ": " = [58, 32] := rfl
    rw [hcolon, crlf]
    simp
  have hblank : skipBlanks (32 :: value) = skipBlanks value := rfl
  have hother : ∀ c ∈ 32 :: value, c ≠ 13 ∧ c ≠ 10 := by
    intro c hc
    rcases List.mem_cons.mp hc with rfl | hc
    · decide
    · exact hvalue c hc
  have hin : inMessage (calls ++ [.headerField name]) = true := by
    rw [inMessage_concat]
    exact hcalls
  rw [hseg]
  refine (((passes_nameState hline hbase hname hn (by omega)).append fun hle e₁ hname₁ =>
    passes_value hname₁ hh hbase hother hin hle (by rw [List.length_cons]; omega)).congr
      ?_).mono fun _ e₂ he₂ => ?_
  · rw [isValue, hblank, List.length_cons]
    constructor
    · rintro ⟨-, hok, hle⟩
      exact ⟨hok, by omega⟩
    · rintro ⟨hok, hle⟩
      exact ⟨by omega, hok, by omega⟩
  · rw [List.append_assoc, hblank, List.length_cons] at he₂
    rwa [show n + (name.length + value.length + 4) =
      n + (name.length + 1) + (value.length + 1 + 2) by omega]

/-- The digits of a length behind the first one. -/
theorem headerValueLoop_digits (hcs : ∀ c ∈ cs, isNum c = true)
    (hvalue : decimalFrom e.contentLength cs < 4294967296) :
    headerValueLoop 0 .contentLengthNum e (cs ++ 13 :: rest) =
      .cr ((({ e with contentLength := decimalFrom e.contentLength cs,
                      headerState := .contentLengthNum } : HttpExec).goTo
        .headerAlmostDone).dataHeaderValue (13 :: rest)) (13 :: rest) := by
  induction cs generalizing e with
  | nil => rfl
  | cons ch cs ih =>
    have hch := hcs ch List.mem_cons_self
    have hcr : ch ≠ 13 := ne_of_isNum hch rfl
    have hlf : ch ≠ 10 := ne_of_isNum hch rfl
    have hblank : ch ≠ 32 := ne_of_isNum hch rfl
    have hheader : isHeaderChar ch = true := by
      have hnum := hch
      rw [isNum, Bool.and_eq_true, decide_eq_true_eq, decide_eq_true_eq] at hnum
      have hlow : 31 < ch := lt_of_lt_of_le (by decide) hnum.1
      have hdel : ch ≠ 127 := by
        rintro rfl
        exact absurd hnum.2 (by decide)
      simp [isHeaderChar, hlow, hdel]
    have hall : decimalFrom e.contentLength (ch :: cs) =
        decimalFrom (10 * e.contentLength + (ch.toNat - 48)) cs := rfl
    rw [hall] at hvalue ⊢
    have hgrow := le_decimalFrom (10 * e.contentLength + (ch.toNat - 48)) cs
    have hsmall : ¬ (ullongMax - 10) / 10 < e.contentLength := by
      simp only [ullongMax]
      omega
    have hchar : e.valueChar ch .contentLengthNum (lower ch) = .next .contentLengthNum
        { e with contentLength := 10 * e.contentLength + (ch.toNat - 48) } := by
      rw [valueChar, contentLengthNum, if_neg hblank, hch, if_neg hsmall, Nat.mul_comm 10]
      rfl
    rw [List.cons_append, headerValueLoop, if_neg hcr, if_neg hlf, hheader, hchar]
    exact ih (e := { e with contentLength := 10 * e.contentLength + (ch.toNat - 48) })
      (fun c hc => hcs c (List.mem_cons_of_mem _ hc)) hvalue

/-- Behind a length. -/
def withLength (base : HttpExec) (length : ℕ) : HttpExec :=
  { base with contentLength := length, flags := { base.flags with contentLength := true } }

/-- **The length of the body.** -/
theorem passes_length (hname : BehindName base calls n .contentLength e)
    (hbase : base.markSet = {}) (hfirst : base.flags.contentLength = false)
    (hcs : ∀ c ∈ ch :: cs, isNum c = true) (hvalue : decimalValue (ch :: cs) < 4294967296)
    (hn : n ≤ httpMaxHeaderSize) (hlen : cs.length < 2147483648) :
    Passes len e ((ch :: cs) ++ [13, 10]) rest (n + (cs.length + 3) ≤ httpMaxHeaderSize)
      (AtLines (base.withLength (decimalValue (ch :: cs))) (calls ++ [.headerValue (ch :: cs)])
        (n + (cs.length + 3))) := by
  have hch := hcs ch List.mem_cons_self
  have hcr : ch ≠ 13 := ne_of_isNum hch rfl
  have hlf : ch ≠ 10 := ne_of_isNum hch rfl
  have hif : ¬ (ch = 32 || ch = 9) = true := by
    have hne : ch ≠ 32 ∧ ch ≠ 9 := ⟨ne_of_isNum hch rfl, ne_of_isNum hch rfl⟩
    simp [hne]
  obtain ⟨hcore, rfl, hstate, hlength, rfl⟩ := hname
  have hmarkSet : e.markSet = {} := (congrArg markSet hcore).trans hbase
  have hunset := (unmarked hmarkSet).2
  have hflag : e.flags.contentLength = false :=
    (congrArg (fun e : HttpExec => e.flags.contentLength) hcore).trans hfirst
  let marked (p : Bytes) : HttpExec := { e.counted 1 with
    headerValueMark := some p
    state := .headerValue
    index := 0
    flags := { e.flags with contentLength := true }
    contentLength := ch.toNat - 48
    headerState := .contentLengthNum }
  have hswitch : ∀ p, (e.counted 1).switch p ch len = .goOn (marked p) p := by
    intro p
    have hset : (none <|> some p) = some p := rfl
    rw [HttpExec.switch, show (e.counted 1).state = .headerValueDiscardWs from hstate]
    simp only [headerValueDiscardWs, if_neg hif, if_neg hcr, if_neg hlf, headerValueStart, counted,
      hunset, hset, hlength, hch, hflag]
    rfl
  have hbyte : Passes len e [ch] (cs ++ [13] ++ ([10] ++ rest)) (e.nread + 1 ≤ httpMaxHeaderSize)
      (· = marked (ch :: (cs ++ [13] ++ ([10] ++ rest)))) := by
    refine passes_byte ?_ hn (hswitch _) rfl
    rw [hstate]
    rfl
  have hall : decimalValue (ch :: cs) = decimalFrom (ch.toNat - 48) cs := by
    rw [decimalValue, List.foldl_cons, Nat.mul_zero, Nat.zero_add, decimalFrom]
  rw [hall] at hvalue ⊢
  let last (p : Bytes) : HttpExec := { (marked p).counted 1 with
    contentLength := decimalFrom (ch.toNat - 48) cs
    headerState := .contentLengthNum }
  have hdigits : e.nread + 1 ≤ httpMaxHeaderSize →
      Passes len (marked (ch :: (cs ++ [13] ++ ([10] ++ rest)))) (cs ++ [13]) ([10] ++ rest)
        (e.nread + 1 + (cs.length + 1) ≤ httpMaxHeaderSize)
        (· = ((last (ch :: (cs ++ [13] ++ ([10] ++ rest)))).behindValue ([ch] ++ cs)).counted
          cs.length) := by
    intro hle
    refine passes_valueCr rfl (headerValueLoop_digits (e := (marked _).counted 1) (fun c hc =>
      hcs c (List.mem_cons_of_mem _ hc)) hvalue) ?_ rfl hle hlen
    exact congrArg some (by simp)
  have hcore₁ : ∀ p, (((last p).behindValue ([ch] ++ cs)).counted cs.length).core =
      base.withLength (decimalFrom (ch.toNat - 48) cs) := by
    intro p
    rw [← hcore]
    simp only [last, marked, behindValue, counted, goTo, notify, core, withLength, hunset]
  have hseg : (ch :: cs) ++ [13, 10] = [ch] ++ (cs ++ [13]) ++ [10] := by simp
  have hnext : ∀ p, (((last p).behindValue ([ch] ++ cs)).counted cs.length).nread + 1 =
      e.nread + (cs.length + 3) := by
    intro p
    simp only [last, marked, behindValue, counted, goTo, notify]
    omega
  rw [hseg]
  refine ((hbyte.append_of_eq hdigits).append_of_eq fun hle => passes_valueEnd rfl (hcore₁ _)
    HeaderState.noConfusion ?_ (hnext _)).congr ⟨And.right, fun hle => ⟨⟨by omega, by omega⟩, hle⟩⟩
  have := hnext (ch :: (cs ++ [13] ++ ([10] ++ rest)))
  omega

/-- **The line with the length.** -/
theorem passes_lengthLine {size : ℕ} (hline : AtLines base calls n e) (hbase : base.markSet = {})
    (hfirst : base.flags.contentLength = false) (hn : n ≤ httpMaxHeaderSize) :
    Passes len e (text "Content-Length: " ++ sizeText size ++ crlf) rest
      (n + ((sizeText size).length + 18) ≤ httpMaxHeaderSize)
      (AtLines (base.withLength (size % 4294967296))
        (calls ++ (HeaderLine.mk (text "Content-Length") (sizeText size) []).calls)
        (n + ((sizeText size).length + 18))) := by
  have hname : nameState (text "Content-Length") = some .contentLength := by decide +kernel
  have hseg : text "Content-Length: " ++ sizeText size ++ crlf =
      (text "Content-Length" ++ [58]) ++ ([32] ++ (sizeText size ++ [13, 10])) := by
    have htext : text "Content-Length: " = text "Content-Length" ++ [58] ++ [32] := by
      decide +kernel
    rw [htext, crlf]
    simp only [List.append_assoc]
  have hvalue : decimalValue (sizeText size) = size % 4294967296 := decimalValue_natToDecimal _
  have hnum : ∀ c ∈ sizeText size, isNum c = true := fun c hc => isNum_of_mem_natToDecimal hc
  have hdigits : (sizeText size).length ≤ 10 :=
    length_natToDecimal_le (Nat.mod_lt _ (by norm_num))
  obtain ⟨ch, cs, hcons⟩ := List.exists_cons_of_ne_nil (natToDecimal_ne_nil (size % 4294967296))
  change sizeText size = ch :: cs at hcons
  rw [hseg]
  rw [hcons] at hvalue hnum hdigits ⊢
  have hsmall : decimalValue (ch :: cs) < 4294967296 := hvalue ▸ Nat.mod_lt _ (by norm_num)
  rw [← hvalue]
  have hblank : ∀ c ∈ [(32 : UInt8)], isBlank c = true := by
    intro c hc
    rw [List.mem_singleton.mp hc]
    rfl
  have hword : (text "Content-Length").length = 14 := by decide +kernel
  have hcs : cs.length < 2147483648 := by
    rw [List.length_cons] at hdigits
    omega
  have hfield : ∀ rest, Passes len e (text "Content-Length" ++ [58]) rest _ _ := fun rest =>
    passes_nameState hline hbase hname hn (by rw [hword]; norm_num)
  have hdigit : ∀ {calls n e}, BehindName base calls n .contentLength e → n ≤ httpMaxHeaderSize →
      Passes len e ((ch :: cs) ++ [13, 10]) rest _ _ :=
    fun hbehind hle => passes_length hbehind hbase hfirst hnum hsmall hle hcs
  have hboth := (hfield _).append fun hle e₁ h₁ => (passes_blanks h₁ hle hblank).append
    fun hle e₂ h₂ => hdigit h₂ hle
  rw [hword] at hboth
  refine (hboth.congr ?_).mono fun _ e₂ he₂ => ?_
  · simp only [List.length_cons, List.length_nil]
    omega
  · rw [List.append_assoc] at he₂
    have hsum : n + ((ch :: cs).length + 18) =
        n + (14 + 1) + [(32 : UInt8)].length + (cs.length + 3) := by
      simp only [List.length_cons, List.length_nil]
      omega
    rw [hsum]
    exact he₂

end Line

end HttpExec

end Kimserver
