import Kimserver.Codec.HttpParserRuns

/-!
# The HTTP parser on a start line

The method of a request is found letter by letter: a letter where two methods part makes one of
the other. The target is checked with `parse_url_char`, but for the end of the line the parser
asks only in which group of states it ended. A version is one digit, a dot and one digit.

## Main definitions

* `HttpExec.methodStep`: a letter of a method
* `IsTarget`: the targets that the parser takes

## Main results

* `HttpExec.advance_method`: the methods that are known
* `HttpExec.passes_target`: the target of a request
* `HttpExec.passes_version`, `HttpExec.passes_code`: the version and the status code
-/

namespace Kimserver

namespace HttpExec

/-! ## The method -/

section Method

variable {e : HttpExec} {ch : UInt8} {seg : Bytes}

/-- `s_req_method` in front of the blank: the number of the method and the index. -/
def methodStep (s : ℕ × ℕ) (ch : UInt8) : Option (ℕ × ℕ) :=
  if ch = 0 || ch = 32 then none
  else if ch = (httpMethodStr s.1).getD s.2 0 then some (s.1, s.2 + 1)
  else if (65 ≤ ch && ch ≤ 90) || ch = 45 then
    (nextMethod s.1 s.2 ch).map fun method => (method, s.2 + 1)
  else none

theorem step_method {s : ℕ × ℕ} (hs : e.state = .reqMethod)
    (h : methodStep (e.method, e.index) ch = some s) :
    e.step ch = some { e with method := s.1, index := s.2, nread := e.nread + 1 } := by
  have hplain : e.state.plain ch = true := by
    rw [hs]
    rfl
  rw [methodStep] at h
  split_ifs at h with hend hmatch hletter
  · rw [Bool.or_eq_true, decide_eq_true_eq, decide_eq_true_eq, not_or] at hend
    rw [← Option.some.inj h, step, if_pos hplain]
    simp only [switch, counted, hs, reqMethod, if_neg hend.1, hend.2, decide_false, Bool.false_and,
      Bool.false_eq_true, if_false, if_pos hmatch]
  · rw [Bool.or_eq_true, decide_eq_true_eq, decide_eq_true_eq, not_or] at hend
    obtain ⟨method, hmethod, rfl⟩ := Option.map_eq_some_iff.mp h
    rw [step, if_pos hplain]
    simp only [switch, counted, hs, reqMethod, if_neg hend.1, hend.2, decide_false, Bool.false_and,
      Bool.false_eq_true, if_false, if_neg hmatch, if_pos hletter, hmethod]

/-- The letters of a method. -/
theorem advance_letters {s : ℕ × ℕ} (hs : e.state = .reqMethod)
    (h : seg.foldlM methodStep (e.method, e.index) = some s) :
    e.advance seg = some { e with method := s.1, index := s.2, nread := e.nread + seg.length } := by
  induction seg generalizing e with
  | nil =>
    rw [← Option.some.inj h]
    rfl
  | cons ch seg ih =>
    obtain ⟨s₁, hstep, hseg⟩ := Option.bind_eq_some_iff.mp h
    have hnext := step_method hs hstep
    rw [advance, List.foldlM_cons, hnext]
    refine (ih (e := { e with method := s₁.1, index := s₁.2, nread := e.nread + 1 }) hs
      hseg).trans ?_
    simp only [List.length_cons, Nat.add_assoc, Nat.add_comm 1]

/-- Behind some letters of a method. -/
def inMethod (method n : ℕ) : HttpExec where
  type := .request
  state := .reqMethod
  index := n
  nread := n
  contentLength := ullongMax
  method := method
  calls := [.messageBegin]

/-- Behind a method and a blank. -/
def behindMethod (method : ℕ) : HttpExec :=
  (inMethod method ((httpMethodStr method).length + 1)).goTo .reqSpacesBeforeUrl

/-- The first letter of a method. -/
theorem step_firstLetter {method : ℕ} (halpha : isAlpha ch = true) (hne : ch ≠ 72)
    (h : firstMethod ch = some method) : ({} : HttpExec).step ch = some (inMethod method 1) := by
  have hend : (ch = 13 || ch = 10) = false := by
    rw [Bool.or_eq_false_iff, decide_eq_false_iff_not, decide_eq_false_iff_not]
    constructor
    · rintro rfl
      exact absurd halpha (by decide)
    · rintro rfl
      exact absurd halpha (by decide)
  rw [step, if_pos (show ParserState.startReqOrRes.plain ch = true from rfl)]
  simp only [switch, counted, startReqOrRes, startReq, hend, if_neg hne, goTo, halpha, h,
    Bool.false_eq_true, if_false, Bool.not_true]
  rfl

/-- The blank behind a method. -/
theorem step_methodEnd (method : ℕ) :
    (inMethod method (httpMethodStr method).length).step 32 = some (behindMethod method) := by
  have hend : (httpMethodStr method).getD (httpMethodStr method).length 0 = 0 :=
    List.getD_eq_default _ _ le_rfl
  have hplain : (inMethod method (httpMethodStr method).length).state.plain 32 = true := rfl
  rw [step, if_pos hplain]
  simp only [switch, counted, inMethod, reqMethod, hend]
  rfl

/-- A method is found by its letters. -/
def foundByLetters (method : ℕ) : Bool :=
  match httpMethodStr method with
  | [] => false
  | ch :: seg => (firstMethod ch).any fun first =>
    isAlpha ch && ch ≠ 72 && seg.foldlM methodStep (first, 1) = some (method, seg.length + 1)

theorem foundByLetters_known : ∀ method : Fin 34, (method : ℕ) ≠ 24 → (method : ℕ) ≠ 2 →
    foundByLetters method = true := by
  decide +kernel

theorem advance_found {method : ℕ} (h : foundByLetters method = true) :
    advance {} (httpMethodStr method) =
      some (inMethod method (httpMethodStr method).length) := by
  unfold foundByLetters at h
  cases hname : httpMethodStr method with
  | nil =>
    rw [hname] at h
    exact absurd h Bool.false_ne_true
  | cons ch seg =>
    rw [hname] at h
    obtain ⟨first, hfirst, hrest⟩ := (Option.any_eq_true _ _).mp h
    rw [Bool.and_eq_true, Bool.and_eq_true, decide_eq_true_eq, decide_eq_true_eq] at hrest
    obtain ⟨⟨halpha, hne⟩, hseg⟩ := hrest
    rw [advance, List.foldlM_cons, step_firstLetter halpha hne hfirst]
    refine (advance_letters (e := inMethod first 1) rfl hseg).trans ?_
    simp only [inMethod, List.length_cons, Nat.add_comm 1]

/-- **The methods that are known.** `HEAD` begins like a response. -/
theorem advance_method {method : ℤ} (h : KnownMethod method) :
    advance {} (httpMethodStr method ++ [32]) = some (behindMethod method.toNat) := by
  obtain ⟨hlow, hhigh, hne⟩ := h
  obtain ⟨n, rfl⟩ := Int.eq_ofNat_of_zero_le hlow
  have hletters : advance {} (httpMethodStr n) = some (inMethod n (httpMethodStr n).length) := by
    rcases eq_or_ne n 2 with rfl | hhead
    · decide +kernel
    · have hn : n < 34 := by omega
      have hother : n ≠ 24 := by omega
      exact advance_found (foundByLetters_known ⟨n, hn⟩ hother hhead)
  rw [advance_append, hletters, Int.toNat_natCast, Option.bind_some, advance_singleton,
    step_methodEnd]

theorem httpMethodStr_unknown {method : ℤ} (hrange : CInt.InRange method)
    (h : ¬ (0 ≤ method ∧ method ≤ 33)) : httpMethodStr method = text "<unknown>" := by
  have hlen : httpMethods.length ≤ (CInt.toUInt32 method).toNat := by
    have hmod : (method % 4294967296).toNat < 4294967296 := by omega
    rw [CInt.toUInt32, UInt32.toNat_ofNat_of_lt' hmod]
    have h34 : httpMethods.length = 34 := rfl
    obtain ⟨hlow, hhigh⟩ := hrange
    omega
  rw [httpMethodStr, List.getElem?_eq_none hlen]
  rfl

/-- The others are not. -/
theorem refused_method {len : ℕ} {rest : Bytes} {method : ℤ} (hrange : CInt.InRange method)
    (h : ¬ KnownMethod method) :
    (httpParserLoop len 0 {} (httpMethodStr method ++ 32 :: rest)).Refused := by
  have hzero : ({} : HttpExec).nread ≤ httpMaxHeaderSize := Nat.zero_le _
  by_cases hin : 0 ≤ method ∧ method ≤ 33
  · obtain rfl : method = 24 := by
      by_contra hne
      exact h ⟨hin.1, hin.2, hne⟩
    have hfirst : advance {} [77] = some (inMethod 10 1) := by decide +kernel
    have hblank : (inMethod 10 1).step 32 = none := by decide +kernel
    have hname : httpMethodStr 24 = [77] ++ 32 :: text "- SEARCH" := by decide +kernel
    rw [hname, List.append_assoc]
    exact refused_advance hfirst rfl hblank hzero
  · have hfirst : ({} : HttpExec).step 60 = none := by decide +kernel
    have hname : text "<unknown>" = [] ++ 60 :: text "unknown>" := by decide +kernel
    have hnil : advance {} [] = some {} := rfl
    rw [httpMethodStr_unknown hrange hin, hname, List.append_assoc]
    exact refused_advance hnil rfl hfirst hzero

end Method

end HttpExec

/-! ## The target -/

/-- The states in which the target may end. -/
def ParserState.endsUrl : ParserState → Bool
  | .reqServer | .reqServerWithAt | .reqPath | .reqQueryStringStart | .reqQueryString
  | .reqFragmentStart | .reqFragment => true
  | _ => false

/-- The targets that the parser takes, behind a `CONNECT` and behind another method. -/
def IsTarget (isConnect : Bool) (url : Bytes) : Prop :=
  url ≠ [] ∧ (url.foldl parseUrlChar (urlStart isConnect)).endsUrl = true

instance instDecidableIsTarget (isConnect : Bool) (url : Bytes) :
    Decidable (IsTarget isConnect url) :=
  inferInstanceAs (Decidable (_ ∧ _))

theorem foldl_parseUrlChar_dead (url : Bytes) : url.foldl parseUrlChar .dead = .dead := by
  induction url with
  | nil => rfl
  | cons ch url ih =>
    have hdead : parseUrlChar .dead ch = .dead := by
      simp only [parseUrlChar]
      split_ifs <;> rfl
    rw [List.foldl_cons, hdead]
    exact ih

namespace HttpExec

section Target

variable {len : ℕ} {e : HttpExec} {ch : UInt8} {seg rest url mark p : Bytes}

theorem not_lineEnd (h : 32 < ch) : (ch = 32 || ch = 13 || ch = 10) = false ∧
    (ch = 13 || ch = 10) = false ∧ ch ≠ 32 := by
  have hne : ch ≠ 32 ∧ ch ≠ 13 ∧ ch ≠ 10 :=
    ⟨ne_of_visible h (by decide), ne_of_visible h (by decide), ne_of_visible h (by decide)⟩
  simp [hne]

theorem urlState_dead {s : ParserState} (h : parseUrlChar s ch = .dead) :
    e.urlState p ch s = (e.goTo .dead).fail p .invalidUrl := by
  rw [urlState, h]
  rfl

theorem urlState_live {s : ParserState} (h : parseUrlChar s ch ≠ .dead) :
    e.urlState p ch s = .goOn (e.goTo (parseUrlChar s ch)) p := if_neg h

/-- In a url a visible character goes to `parse_url_char`. -/
theorem switch_urlChar (hs : e.state.kind = .url) (h : 32 < ch) :
    e.switch p ch len = e.urlState p ch e.state := by
  obtain ⟨hend, hline, hblank⟩ := not_lineEnd h
  have hschema : e.reqSchema p ch = e.urlState p ch e.state := by
    rw [reqSchema, hend]
    rfl
  have hurl : e.reqUrl p ch = e.urlState p ch e.state := by
    rw [reqUrl, if_neg hblank, hline]
    rfl
  unfold switch
  cases hstate : e.state <;> rw [hstate] at hs <;> first
    | exact absurd hs StateKind.noConfusion
    | exact hschema.trans (by rw [hstate])
    | exact hurl.trans (by rw [hstate])

/-- The blank behind a url. -/
theorem switch_urlEnd (hs : e.state.kind = .url) :
    (e.state.endsUrl = true ∧ e.switch p 32 len = .goOn ((e.goTo .reqHttpStart).dataUrl p) p) ∨
    (e.state.endsUrl = false ∧ e.switch p 32 len = e.fail p .invalidUrl) := by
  unfold switch
  cases hstate : e.state <;> rw [hstate] at hs <;> first
    | exact absurd hs StateKind.noConfusion
    | exact Or.inl ⟨rfl, rfl⟩
    | exact Or.inr ⟨rfl, rfl⟩

theorem parsingHeader_of_url {s : ParserState} (hs : s.kind = .url) : s.parsingHeader = true := by
  cases s <;> first
    | rfl
    | exact absurd hs StateKind.noConfusion

theorem ne_dead_of_kind {s : ParserState} (hs : s.kind = .url) : s ≠ .dead := by
  rintro rfl
  exact StateKind.noConfusion hs

/-- Behind a url and a blank. -/
def behindUrl (e : HttpExec) (url : Bytes) (n : ℕ) : HttpExec :=
  { (e.counted n).notify (.url url) with state := .reqHttpStart, urlMark := none }

theorem behindUrl_counted {s : ParserState} {m n : ℕ} :
    ((e.counted m).goTo s).behindUrl url n = e.behindUrl url (n + m) := by
  simp only [behindUrl, counted, goTo, notify, Nat.add_assoc, Nat.add_comm m]

/-- **The url** behind its first character. -/
theorem passes_urlChars (hs : e.state.kind = .url)
    (hmark : e.urlMark = some (url ++ (seg ++ 32 :: rest))) (hseg : ∀ c ∈ seg, 32 < c)
    (hn : e.nread ≤ httpMaxHeaderSize) :
    Passes len e (seg ++ [32]) rest ((seg.foldl parseUrlChar e.state).endsUrl = true ∧
        e.nread + (seg.length + 1) ≤ httpMaxHeaderSize)
      (· = e.behindUrl (url ++ seg) (seg.length + 1)) := by
  have hheader := parsingHeader_of_url hs
  induction seg generalizing e url with
  | nil =>
    have hkind : (e.counted 1).state.kind = .url := hs
    rcases switch_urlEnd hkind
      with ⟨hend, hswitch⟩ | ⟨hend, hswitch⟩
    · refine (passes_byte hheader hn hswitch ?_).congr ⟨fun hle => ⟨hend, hle⟩, fun h => h.2⟩
      have hbetween : between (url ++ 32 :: rest) (32 :: rest) = url := between_append _ _
      rw [List.nil_append] at hmark
      simp only [dataUrl, goTo, counted, hmark, hbetween, notify, List.append_nil]
      rfl
    · refine Passes.refused (refused_byte hheader hn hswitch HttpErrno.noConfusion) fun h => ?_
      exact absurd (hend.symm.trans h.1) Bool.false_ne_true
  | cons ch seg ih =>
    have hch : 32 < ch := hseg ch List.mem_cons_self
    have hswitch : (e.counted 1).switch (ch :: (seg ++ 32 :: rest)) ch len =
        (e.counted 1).urlState (ch :: (seg ++ 32 :: rest)) ch e.state := switch_urlChar hs hch
    rcases parseUrlChar_kind e.state ch with hdead | hkind
    · rw [urlState_dead hdead] at hswitch
      refine Passes.refused ?_ fun h => ?_
      · rw [List.cons_append, List.cons_append, List.append_assoc]
        exact refused_byte hheader hn hswitch HttpErrno.noConfusion
      · rw [List.foldl_cons, hdead, foldl_parseUrlChar_dead] at h
        exact absurd h.1 Bool.false_ne_true
    · rw [urlState_live (ne_dead_of_kind hkind)] at hswitch
      have hbyte : Passes len e [ch] (seg ++ [32] ++ rest) (e.nread + 1 ≤ httpMaxHeaderSize)
          (· = (e.counted 1).goTo (parseUrlChar e.state ch)) := by
        refine passes_byte hheader hn ?_ rfl
        rw [List.append_assoc]
        exact hswitch
      have hmark₁ : ((e.counted 1).goTo (parseUrlChar e.state ch)).urlMark =
          some (url ++ [ch] ++ (seg ++ 32 :: rest)) := hmark.trans (by simp)
      have hrest := hbyte.append_of_eq fun hle => ih hkind hmark₁
        (fun c hc => hseg c (List.mem_cons_of_mem _ hc)) hle (parsingHeader_of_url hkind)
      refine (hrest.congr ?_).mono fun _ e₂ he₂ => ?_
      · simp only [goTo, counted, List.foldl_cons, List.length_cons]
        constructor
        · rintro ⟨-, hend, hle⟩
          exact ⟨hend, by omega⟩
        · rintro ⟨hend, hle⟩
          exact ⟨by omega, hend, by omega⟩
      · rw [he₂, behindUrl_counted, List.append_assoc]
        rfl

/-- **The target of a request.** -/
theorem passes_target (hs : e.state = .reqSpacesBeforeUrl) (hmark : e.urlMark = none)
    (hne : url ≠ []) (hurl : ∀ c ∈ url, 32 < c) (hn : e.nread ≤ httpMaxHeaderSize) :
    Passes len e (url ++ [32]) rest (IsTarget (e.method = 5) url ∧
        e.nread + (url.length + 1) ≤ httpMaxHeaderSize)
      (· = e.behindUrl url (url.length + 1)) := by
  obtain ⟨ch, seg, rfl⟩ := List.exists_cons_of_ne_nil hne
  have hblank : ch ≠ 32 := (not_lineEnd (hurl ch List.mem_cons_self)).2.2
  have hheader : e.state.parsingHeader = true := by
    rw [hs]
    rfl
  -- the first character sets the mark
  let marked (p : Bytes) : HttpExec := { e.counted 1 with urlMark := some p }
  have hswitch : ∀ p, (e.counted 1).switch p ch len =
      (marked p).urlState p ch (urlStart (e.method = 5)) := by
    intro p
    have hstart : (if e.method = 5 then .reqServerStart else e.state) =
        urlStart (e.method = 5) := by
      simp only [urlStart, hs, decide_eq_true_eq]
    rw [← hstart]
    simp only [switch, counted, hs, reqSpacesBeforeUrl, if_neg hblank, hmark]
    rfl
  have hall : (ch :: seg).foldl parseUrlChar (urlStart (e.method = 5)) =
      seg.foldl parseUrlChar (parseUrlChar (urlStart (e.method = 5)) ch) := rfl
  rw [IsTarget, hall]
  rcases parseUrlChar_kind (urlStart (e.method = 5)) ch with hdead | hkind
  · refine Passes.refused ?_ fun h => ?_
    · rw [List.cons_append, List.cons_append]
      exact refused_byte hheader hn ((hswitch _).trans (urlState_dead hdead)) HttpErrno.noConfusion
    · rw [hdead, foldl_parseUrlChar_dead] at h
      exact absurd h.1.2 Bool.false_ne_true
  · have hbyte : Passes len e [ch] (seg ++ [32] ++ rest) (e.nread + 1 ≤ httpMaxHeaderSize)
        (· = (marked (ch :: (seg ++ [32] ++ rest))).goTo (parseUrlChar (urlStart (e.method = 5)) ch)) :=
      passes_byte hheader hn ((hswitch _).trans (urlState_live (ne_dead_of_kind hkind))) rfl
    have hmark₁ : ((marked (ch :: (seg ++ [32] ++ rest))).goTo
        (parseUrlChar (urlStart (e.method = 5)) ch)).urlMark =
          some ([ch] ++ (seg ++ 32 :: rest)) := congrArg some (by simp)
    have hrest := hbyte.append_of_eq fun hle => passes_urlChars hkind hmark₁
      (fun c hc => hurl c (List.mem_cons_of_mem _ hc)) hle
    refine (hrest.congr ?_).mono fun _ e₂ he₂ => ?_
    · simp only [marked, goTo, counted, List.length_cons]
      constructor
      · rintro ⟨-, hend, hle⟩
        exact ⟨⟨hne, hend⟩, by omega⟩
      · rintro ⟨⟨-, hend⟩, hle⟩
        exact ⟨by omega, hend, by omega⟩
    · rw [he₂]
      simp only [marked, behindUrl, counted, goTo, notify, hmark, Nat.add_assoc, Nat.add_comm 1]
      rfl

end Target

end HttpExec

/-! ## The version -/

/-- The byte that a state of a start line asks for, and the state behind it. -/
def ParserState.expects : ParserState → Option (UInt8 × ParserState)
  | .resHT => some (84, .resHTT)
  | .resHTT => some (80, .resHTTP)
  | .resHTTP => some (47, .resHttpMajor)
  | .resHttpDot => some (46, .resHttpMinor)
  | .resHttpEnd => some (32, .resFirstStatusCode)
  | .resLineAlmostDone => some (10, .headerFieldStart)
  | .reqHttpStart => some (72, .reqHttpH)
  | .reqHttpH => some (84, .reqHttpHT)
  | .reqHttpHT => some (84, .reqHttpHTT)
  | .reqHttpHTT => some (80, .reqHttpHTTP)
  | .reqHttpHTTP => some (47, .reqHttpMajor)
  | .reqHttpDot => some (46, .reqHttpMinor)
  | .reqHttpEnd => some (13, .reqLineAlmostDone)
  | .reqLineAlmostDone => some (10, .headerFieldStart)
  | _ => none

/-- The state behind a word. -/
def ParserState.follow (s : ParserState) (word : Bytes) : Option ParserState :=
  word.foldlM (fun s ch => s.expects.bind fun next =>
    if ch = next.1 then some next.2 else none) s

namespace HttpExec

section Version

variable {len : ℕ} {e : HttpExec} {ch : UInt8} {word rest : Bytes} {s : ParserState}

theorem step_expected (h : e.state.expects = some (ch, s)) :
    e.step ch = some ((e.counted 1).goTo s) := by
  have hplain : e.state.plain ch = true ∧
      ∀ p len, (e.counted 1).switch p ch len = .goOn ((e.counted 1).goTo s) p := by
    unfold switch counted
    cases hs : e.state <;> rw [hs] at h <;> cases h <;> exact ⟨rfl, fun p len => rfl⟩
  rw [step, if_pos hplain.1, hplain.2]

/-- A word of the start line. -/
theorem advance_word (h : e.state.follow word = some s) :
    e.advance word = some ((e.counted word.length).goTo s) := by
  induction word generalizing e with
  | nil =>
    rw [← Option.some.inj h]
    rfl
  | cons ch word ih =>
    obtain ⟨s₁, hfirst, hword⟩ := Option.bind_eq_some_iff.mp h
    obtain ⟨⟨expected, s₂⟩, hexpects, hch⟩ := Option.bind_eq_some_iff.mp hfirst
    split_ifs at hch with heq
    obtain rfl : s₂ = s₁ := Option.some.inj hch
    subst heq
    rw [advance, List.foldlM_cons, step_expected hexpects]
    refine (ih (e := (e.counted 1).goTo s₂) hword).trans ?_
    simp only [goTo, counted, List.length_cons, Nat.add_assoc, Nat.add_comm 1]

/-- The states around the digits of a version, in a request and in a response. -/
def majorState (response : Bool) : ParserState := if response then .resHttpMajor else .reqHttpMajor

def dotState (response : Bool) : ParserState := if response then .resHttpDot else .reqHttpDot

def minorState (response : Bool) : ParserState := if response then .resHttpMinor else .reqHttpMinor

def endState (response : Bool) : ParserState := if response then .resHttpEnd else .reqHttpEnd

variable {response : Bool}

theorem step_major (hs : e.state = majorState response) (hch : isNum ch = true) :
    e.step ch = some { (e.counted 1).goTo (dotState response) with
      httpMajor := ch.toNat - 48 } := by
  cases response with
  | false =>
    have hstate : e.state = .reqHttpMajor := hs
    simp only [step, hstate, switch, counted, httpMajorChar, hch]
    rfl
  | true =>
    have hstate : e.state = .resHttpMajor := hs
    simp only [step, hstate, switch, counted, httpMajorChar, hch]
    rfl

theorem step_minor (hs : e.state = minorState response) (hch : isNum ch = true) :
    e.step ch = some { (e.counted 1).goTo (endState response) with
      httpMinor := ch.toNat - 48 } := by
  cases response with
  | false =>
    have hstate : e.state = .reqHttpMinor := hs
    simp only [step, hstate, switch, counted, httpMinorChar, hch]
    rfl
  | true =>
    have hstate : e.state = .resHttpMinor := hs
    simp only [step, hstate, switch, counted, httpMinorChar, hch]
    rfl

theorem step_dot (hs : e.state = dotState response) :
    e.step 46 = some ((e.counted 1).goTo (minorState response)) := by
  apply step_expected
  rw [hs]
  cases response <;> rfl

/-- A second digit is not taken. -/
theorem step_secondDigit (hs : e.state = dotState response ∨ e.state = endState response)
    (hch : isNum ch = true) : e.state.plain ch = true ∧ e.step ch = none := by
  have hne : ch ≠ 46 ∧ ch ≠ 32 ∧ ch ≠ 13 ∧ ch ≠ 10 :=
    ⟨ne_of_isNum hch rfl, ne_of_isNum hch rfl, ne_of_isNum hch rfl, ne_of_isNum hch rfl⟩
  obtain ⟨hdot, hblank, hcr, hlf⟩ := hne
  cases response with
  | false =>
    rcases hs with hs | hs
    · have hstate : e.state = .reqHttpDot := hs
      simp [step, hstate, switch, counted, constant, hdot, ParserState.plain, fail]
    · have hstate : e.state = .reqHttpEnd := hs
      simp [step, hstate, switch, counted, reqHttpEnd, hcr, hlf, ParserState.plain, fail]
  | true =>
    rcases hs with hs | hs
    · have hstate : e.state = .resHttpDot := hs
      simp [step, hstate, switch, counted, constant, hdot, ParserState.plain, fail]
    · have hstate : e.state = .resHttpEnd := hs
      simp [step, hstate, switch, counted, constant, hblank, ParserState.plain, fail]

/-- Behind a version. -/
def behindVersion (e : HttpExec) (response : Bool) (major minor : ℕ) : HttpExec :=
  { (e.counted 3).goTo (endState response) with httpMajor := major, httpMinor := minor }

theorem isNum_digitChar {n : ℕ} (h : n < 10) : isNum (digitChar n) = true :=
  isNum_of_mem_natToDecimal (natToDecimal_digit h ▸ List.mem_singleton_self _)

theorem advance_version {c d : UInt8} (hs : e.state = majorState response) (hc : isNum c = true)
    (hd : isNum d = true) : e.advance [c, 46, d] =
      some (e.behindVersion response (c.toNat - 48) (d.toNat - 48)) := by
  have hmajor := step_major hs hc
  have hdot := step_dot (e := { (e.counted 1).goTo (dotState response) with
    httpMajor := c.toNat - 48 }) rfl
  have hminor := step_minor (e := (({ (e.counted 1).goTo (dotState response) with
    httpMajor := c.toNat - 48 } : HttpExec).counted 1).goTo (minorState response)) rfl hd
  simp only [advance, List.foldlM_cons, List.foldlM_nil, hmajor, Option.bind_eq_bind,
    Option.bind_some, hdot, hminor, behindVersion]
  rfl

/-- **The version.** -/
theorem passes_version {major minor : ℤ} (hs : e.state = majorState response)
    (hn : e.nread ≤ httpMaxHeaderSize) (hmajor : CInt.InRange major) (hminor : CInt.InRange minor) :
    Passes len e (unsignedText major ++ [46] ++ unsignedText minor) rest
      (OneDigit major ∧ OneDigit minor ∧ e.nread + 3 ≤ httpMaxHeaderSize)
      (· = e.behindVersion response major.toNat minor.toNat) := by
  rcases unsignedText_shape hmajor with ⟨hdigit, htext⟩ | ⟨hlong, c, d, more, htext, hc, hd⟩
  · have ha : major.toNat < 10 := by
      unfold OneDigit at hdigit
      omega
    rcases unsignedText_shape hminor with ⟨hdigit', htext'⟩ | ⟨hlong, c, d, more, htext', hc, hd⟩
    · have hb : minor.toNat < 10 := by
        unfold OneDigit at hdigit'
        omega
      have hadvance := advance_version hs (isNum_digitChar ha) (isNum_digitChar hb)
      rw [toNat_digitChar ha, toNat_digitChar hb, Nat.add_sub_cancel_left,
        Nat.add_sub_cancel_left] at hadvance
      rw [htext, htext']
      refine (passes_advance hadvance hn).congr ?_
      exact ⟨fun hle => ⟨hdigit, hdigit', hle⟩, fun h => h.2.2⟩
    · refine Passes.refused ?_ fun h => hlong h.2.1
      have hshape : unsignedText major ++ [46] ++ unsignedText minor ++ rest =
          [digitChar major.toNat, 46, c] ++ d :: (more ++ rest) := by
        rw [htext, htext']
        rfl
      have hadvance := advance_version hs (isNum_digitChar ha) hc
      obtain ⟨hplain, hnone⟩ := step_secondDigit (e := e.behindVersion response _ _)
        (Or.inr rfl) hd
      rw [hshape]
      exact refused_advance hadvance hplain hnone hn
  · refine Passes.refused ?_ fun h => hlong h.1
    have hshape : unsignedText major ++ [46] ++ unsignedText minor ++ rest =
        [c] ++ d :: (more ++ [46] ++ unsignedText minor ++ rest) := by
      rw [htext]
      simp
    have hadvance := advance_singleton.trans (step_major hs hc)
    obtain ⟨hplain, hnone⟩ := step_secondDigit 
      (e := { (e.counted 1).goTo (dotState response) with httpMajor := c.toNat - 48 })
      (Or.inl rfl) hd
    rw [hshape]
    exact refused_advance hadvance hplain hnone hn

end Version

/-! ## The status -/

section Status

variable {len : ℕ} {e : HttpExec} {ch : UInt8} {seg reason rest : Bytes}

/-- A further digit of the status code. -/
theorem step_code (hs : e.state = .resStatusCode) (hch : isNum ch = true) :
    e.state.plain ch = true ∧ e.step ch =
      if 999 < 10 * e.statusCode + (ch.toNat - 48) then none
      else some { e.counted 1 with statusCode := 10 * e.statusCode + (ch.toNat - 48) } := by
  have hplain : e.state.plain ch = true := by
    have hne : ch ≠ 13 ∧ ch ≠ 10 := ⟨ne_of_isNum hch rfl, ne_of_isNum hch rfl⟩
    rw [hs]
    simp [ParserState.plain, hne]
  refine ⟨hplain, ?_⟩
  rw [step, if_pos hplain, Nat.mul_comm 10]
  simp only [switch, counted, hs, resStatusCode, hch, Bool.not_true, Bool.false_eq_true, if_false]
  split_ifs <;> rfl

/-- The digits behind the first one. -/
theorem passes_codeDigits (hs : e.state = .resStatusCode) (hseg : ∀ c ∈ seg, isNum c = true)
    (hn : e.nread ≤ httpMaxHeaderSize) (hcode : e.statusCode ≤ 999) :
    Passes len e seg rest
      (decimalFrom e.statusCode seg ≤ 999 ∧ e.nread + seg.length ≤ httpMaxHeaderSize)
      (· = { e.counted seg.length with statusCode := decimalFrom e.statusCode seg }) := by
  induction seg generalizing e with
  | nil => exact Or.inl ⟨⟨hcode, hn⟩, _, rfl, rfl⟩
  | cons ch seg ih =>
    obtain ⟨hplain, hstep⟩ := step_code hs (hseg ch List.mem_cons_self)
    have hgrow := le_decimalFrom (10 * e.statusCode + (ch.toNat - 48)) seg
    have hall : decimalFrom e.statusCode (ch :: seg) =
        decimalFrom (10 * e.statusCode + (ch.toNat - 48)) seg := rfl
    rw [hall]
    split_ifs at hstep with hlarge
    · refine Passes.refused ?_ fun h => absurd (hgrow.trans h.1) (by omega)
      have hnil : e.advance [] = some e := rfl
      exact refused_advance hnil hplain hstep hn
    · have hbyte : Passes len e [ch] (seg ++ rest) (e.nread + 1 ≤ httpMaxHeaderSize) (· = _) :=
        passes_advance (advance_singleton.trans hstep) hn
      have hrest := hbyte.append_of_eq fun hle => ih hs
        (fun c hc => hseg c (List.mem_cons_of_mem _ hc)) hle (not_lt.mp hlarge)
      refine (hrest.congr ?_).mono fun _ e₂ he₂ => ?_
      · simp only [counted, List.length_cons]
        constructor
        · rintro ⟨-, hend, hle⟩
          exact ⟨hend, by omega⟩
        · rintro ⟨hend, hle⟩
          exact ⟨by omega, hend, by omega⟩
      · rw [he₂]
        simp only [counted, List.length_cons, Nat.add_assoc, Nat.add_comm 1]

/-- Behind a status code. -/
def behindCode (e : HttpExec) (code n : ℕ) : HttpExec :=
  { (e.counted n).goTo .resStatusStart with statusCode := code }

theorem step_firstCode (hs : e.state = .resFirstStatusCode) (hch : isNum ch = true) :
    e.step ch = some { (e.counted 1).goTo .resStatusCode with statusCode := ch.toNat - 48 } := by
  simp only [step, switch, counted, hs, resFirstStatusCode, hch]
  rfl

theorem step_codeEnd (hs : e.state = .resStatusCode) :
    e.step 32 = some ((e.counted 1).goTo .resStatusStart) := by
  simp only [step, switch, counted, hs, resStatusCode]
  rfl

/-- **The status code.** -/
theorem passes_code {code : ℤ} (hs : e.state = .resFirstStatusCode)
    (hn : e.nread ≤ httpMaxHeaderSize) (hcode : CInt.InRange code) :
    Passes len e (unsignedText code ++ [32]) rest
      (0 ≤ code ∧ code ≤ 999 ∧ e.nread + ((unsignedText code).length + 1) ≤ httpMaxHeaderSize)
      (· = e.behindCode code.toNat ((unsignedText code).length + 1)) := by
  have hnum : ∀ c ∈ unsignedText code, isNum c = true := fun c hc => isNum_of_mem_natToDecimal hc
  have hvalue : decimalValue (unsignedText code) = (CInt.toUInt32 code).toNat :=
    decimalValue_natToDecimal _
  obtain ⟨ch, seg, htext⟩ := List.exists_cons_of_ne_nil
    (natToDecimal_ne_nil (CInt.toUInt32 code).toNat)
  change unsignedText code = ch :: seg at htext
  rw [htext] at hnum hvalue ⊢
  have hch := hnum ch List.mem_cons_self
  have hdigit : ch.toNat - 48 ≤ 999 := by
    have := ch.toNat_lt
    omega
  let first : HttpExec := { (e.counted 1).goTo .resStatusCode with statusCode := ch.toNat - 48 }
  let last : HttpExec := { first.counted seg.length with
    statusCode := decimalFrom (ch.toNat - 48) seg }
  have hfirst : Passes len e [ch] (seg ++ [32] ++ rest) (e.nread + 1 ≤ httpMaxHeaderSize)
      (· = first) :=
    passes_advance (advance_singleton.trans (step_firstCode hs hch)) hn
  have hdigits : e.nread + 1 ≤ httpMaxHeaderSize → Passes len first seg ([32] ++ rest)
      (decimalFrom (ch.toNat - 48) seg ≤ 999 ∧ e.nread + 1 + seg.length ≤ httpMaxHeaderSize)
      (· = last) := fun hle =>
    passes_codeDigits rfl (fun c hc => hnum c (List.mem_cons_of_mem _ hc)) hle hdigit
  have hblank : e.nread + 1 + seg.length ≤ httpMaxHeaderSize → Passes len last [32] rest
      (e.nread + 1 + seg.length + 1 ≤ httpMaxHeaderSize)
      (· = (last.counted 1).goTo .resStatusStart) := fun hle =>
    passes_advance (advance_singleton.trans (step_codeEnd rfl)) hle
  have hsmall : decimalFrom (ch.toNat - 48) seg = (CInt.toUInt32 code).toNat := by
    rw [← hvalue, decimalValue, List.foldl_cons, Nat.mul_zero, Nat.zero_add, decimalFrom]
  have hall := hfirst.append_of_eq fun hle => (hdigits hle).append_of_eq fun h => hblank h.2
  have hcases : (CInt.toUInt32 code).toNat ≤ 999 ↔ 0 ≤ code ∧ code ≤ 999 := by
    by_cases hneg : code < 0
    · have := toUInt32_of_neg hcode hneg
      omega
    · have := toUInt32_of_nonneg hcode (not_lt.mp hneg)
      omega
  refine (hall.congr ?_).mono fun hok e₂ he₂ => ?_
  · rw [hsmall, hcases, List.length_cons]
    constructor
    · rintro ⟨-, ⟨⟨hlow, hhigh⟩, -⟩, hle⟩
      exact ⟨hlow, hhigh, by omega⟩
    · rintro ⟨hlow, hhigh, hle⟩
      exact ⟨by omega, ⟨⟨hlow, hhigh⟩, by omega⟩, by omega⟩
  · have hvalue' : decimalFrom (ch.toNat - 48) seg = code.toNat :=
      hsmall.trans (toUInt32_of_nonneg hcode hok.1)
    rw [he₂]
    simp only [last, first, behindCode, counted, goTo, hvalue', List.length_cons, Nat.add_assoc,
      Nat.add_comm 1]

/-- Behind the line of a response. -/
def behindReason (e : HttpExec) (n : ℕ) : HttpExec :=
  { ((e.counted n).notify (.status e.statusCode)).goTo .headerFieldStart with statusMark := none }

theorem passes_reasonChars {mark : Bytes} (hs : e.state = .resStatus)
    (hmark : e.statusMark = some mark) (hseg : ∀ c ∈ seg, c ≠ 13 ∧ c ≠ 10)
    (hn : e.nread ≤ httpMaxHeaderSize) :
    Passes len e (seg ++ [13, 10]) rest (e.nread + (seg.length + 2) ≤ httpMaxHeaderSize)
      (· = e.behindReason (seg.length + 2)) := by
  have hheader : e.state.parsingHeader = true := by
    rw [hs]
    rfl
  induction seg generalizing e with
  | nil =>
    have hswitch : ∀ p, (e.counted 1).switch p 13 len =
        .goOn (((e.counted 1).goTo .resLineAlmostDone).dataStatus) p := by
      intro p
      simp only [switch, counted, hs]
      rfl
    have hdata : ((e.counted 1).goTo .resLineAlmostDone).dataStatus =
        { ((e.counted 1).goTo .resLineAlmostDone).notify (.status e.statusCode) with
          statusMark := none } := by
      simp only [dataStatus, counted, goTo, hmark]
    have hcr : Passes len e [13] ([10] ++ rest) (e.nread + 1 ≤ httpMaxHeaderSize) (· = _) :=
      passes_byte hheader hn (hswitch _) hdata
    refine ((hcr.append_of_eq fun hle => passes_advance (advance_singleton.trans
      (step_expected rfl)) hle).congr ?_).mono fun _ e₂ he₂ => ?_
    · simp only [goTo, counted, notify, List.length_nil]
      omega
    · rw [he₂]
      rfl
  | cons ch seg ih =>
    obtain ⟨hcr, hlf⟩ := hseg ch List.mem_cons_self
    have hswitch : ∀ p, (e.counted 1).switch p ch len = .goOn (e.counted 1) p := by
      intro p
      simp only [switch, counted, hs, resStatus, if_neg hcr, if_neg hlf]
    have hbyte : Passes len e [ch] (seg ++ [13, 10] ++ rest) (e.nread + 1 ≤ httpMaxHeaderSize)
        (· = e.counted 1) := passes_byte hheader hn (hswitch _) rfl
    refine ((hbyte.append_of_eq fun hle => ih hs hmark
      (fun c hc => hseg c (List.mem_cons_of_mem _ hc)) hle hheader).congr ?_).mono
        fun _ e₂ he₂ => ?_
    · simp only [counted, List.length_cons]
      omega
    · rw [he₂]
      simp only [behindReason, counted, List.length_cons, Nat.add_assoc, Nat.add_comm 1]

/-- A text of one line. -/
def isLine (s : Bytes) : Bool := s ≠ [] && s.all fun c => c ≠ 13 && c ≠ 10

/-- **The reason**, which the parser does not report. -/
theorem passes_reason (hs : e.state = .resStatusStart) (hmark : e.statusMark = none)
    (hindex : e.index = 0) (hline : isLine reason = true) (hn : e.nread ≤ httpMaxHeaderSize) :
    Passes len e (reason ++ [13, 10]) rest (e.nread + (reason.length + 2) ≤ httpMaxHeaderSize)
      (· = e.behindReason (reason.length + 2)) := by
  have hheader : e.state.parsingHeader = true := by
    rw [hs]
    rfl
  rw [isLine, Bool.and_eq_true, decide_eq_true_eq, List.all_eq_true] at hline
  obtain ⟨ch, seg, rfl⟩ := List.exists_cons_of_ne_nil hline.1
  have hreason : ∀ c ∈ ch :: seg, c ≠ 13 ∧ c ≠ 10 := fun c hc => by simpa using hline.2 c hc
  obtain ⟨hcr, hlf⟩ := hreason ch List.mem_cons_self
  let marked (p : Bytes) : HttpExec := { e.counted 1 with statusMark := some p, state := .resStatus }
  have hswitch : ∀ p, (e.counted 1).switch p ch len = .goOn (marked p) p := by
    intro p
    have hend : (ch = 13 || ch = 10) = false := by simp [hcr, hlf]
    simp only [switch, counted, hs, resStatusStart, hmark, hend, Bool.false_eq_true, if_false,
      ← hindex]
    rfl
  have hbyte : Passes len e [ch] (seg ++ [13, 10] ++ rest) (e.nread + 1 ≤ httpMaxHeaderSize)
      (· = marked (ch :: (seg ++ [13, 10] ++ rest))) := passes_byte hheader hn (hswitch _) rfl
  refine ((hbyte.append_of_eq fun hle => passes_reasonChars rfl rfl
    (fun c hc => hreason c (List.mem_cons_of_mem _ hc)) hle).congr ?_).mono fun _ e₂ he₂ => ?_
  · simp only [marked, counted, List.length_cons]
    omega
  · rw [he₂]
    simp only [marked, behindReason, counted, goTo, notify, List.length_cons, Nat.add_assoc,
      Nat.add_comm 1]

theorem statusString_isLine (code : ℤ) : isLine (statusString code) = true := by
  unfold statusString
  split
  all_goals decide +kernel

end Status

/-! ## Start lines -/

section Lines

variable {len : ℕ} {rest : Bytes}

/-- Behind the line of a request. -/
def requestLine (method : ℕ) (target : Bytes) (major minor n : ℕ) : HttpExec where
  type := .request
  state := .headerFieldStart
  index := (httpMethodStr method).length + 1
  nread := n
  contentLength := ullongMax
  httpMajor := major
  httpMinor := minor
  method := method
  calls := [.messageBegin, .url target]

/-- Behind the line of a response. -/
def responseLine (major minor code n : ℕ) : HttpExec where
  type := .response
  state := .headerFieldStart
  nread := n
  contentLength := ullongMax
  httpMajor := major
  httpMinor := minor
  statusCode := code
  calls := [.messageBegin, .status code]

/-- In front of the version of a response. -/
def responseBegun : HttpExec where
  type := .response
  state := .resHttpMajor
  nread := 5
  contentLength := ullongMax
  calls := [.messageBegin]

theorem advance_responseBegun : advance {} (text "HTTP/") = some responseBegun := by
  have htext : text "HTTP/" = [72, 84] ++ [84, 80, 47] := rfl
  have hfirst : advance {} [72, 84] =
      some { responseBegun with state := .resHT, nread := 2 } := by decide +kernel
  rw [htext, advance_append, hfirst, Option.bind_some]
  exact advance_word (e := { responseBegun with state := .resHT, nread := 2 }) rfl

/-- The line of a request, part by part. -/
theorem requestLine_bytes (method : ℤ) (target : Bytes) (major minor : ℤ) :
    (StartLine.request method target major minor).bytes =
      (httpMethodStr method ++ [32]) ++ ((target ++ [32]) ++ (text "HTTP/" ++
        ((unsignedText major ++ [46] ++ unsignedText minor) ++ [13, 10]))) := by
  have hblank : text " " = [32] ∧ text "." = [46] := ⟨rfl, rfl⟩
  simp only [StartLine.bytes, versionText, crlf, hblank, List.append_assoc]

/-- **The line of a request.** -/
theorem passes_requestLine {method major minor : ℤ} {target : Bytes}
    (hmethod : CInt.InRange method) (hmajor : CInt.InRange major) (hminor : CInt.InRange minor)
    (hne : target ≠ []) (htarget : ∀ c ∈ target, 32 < c) :
    Passes len {} (StartLine.request method target major minor).bytes rest
      ((KnownMethod method ∧ IsTarget (method = httpConnect) target ∧ OneDigit major ∧
          OneDigit minor) ∧
        (StartLine.request method target major minor).bytes.length ≤ httpMaxHeaderSize)
      (· = requestLine method.toNat target major.toNat minor.toNat
        (StartLine.request method target major minor).bytes.length) := by
  have hbytes := requestLine_bytes method target major minor
  by_cases hknown : KnownMethod method
  · have hconnect : decide ((behindMethod method.toNat).method = 5) =
        decide (method = httpConnect) := by
      obtain ⟨hlow, -, -⟩ := hknown
      refine decide_eq_decide.mpr ?_
      change method.toNat = 5 ↔ method = 5
      omega
    let urlEnd := (behindMethod method.toNat).behindUrl target (target.length + 1)
    let version := (urlEnd.counted 5).goTo .reqHttpMajor
    let lineEnd := version.behindVersion false major.toNat minor.toNat
    have h₁ : ∀ rest, Passes len {} (httpMethodStr method ++ [32]) rest
        ((behindMethod method.toNat).nread ≤ httpMaxHeaderSize) (· = behindMethod method.toNat) :=
      fun rest => passes_advance (advance_method hknown) (Nat.zero_le _)
    have h₂ : ∀ rest, (behindMethod method.toNat).nread ≤ httpMaxHeaderSize →
        Passes len (behindMethod method.toNat) (target ++ [32]) rest
          (IsTarget (method = httpConnect) target ∧ urlEnd.nread ≤ httpMaxHeaderSize)
          (· = urlEnd) := by
      intro rest hle
      rw [← hconnect]
      exact passes_target rfl rfl hne htarget hle
    have h₃ : ∀ rest, urlEnd.nread ≤ httpMaxHeaderSize → Passes len urlEnd (text "HTTP/") rest
        (version.nread ≤ httpMaxHeaderSize) (· = version) :=
      fun rest hle => passes_advance (advance_word rfl) hle
    have h₄ : ∀ rest, version.nread ≤ httpMaxHeaderSize →
        Passes len version (unsignedText major ++ [46] ++ unsignedText minor) rest
          (OneDigit major ∧ OneDigit minor ∧ lineEnd.nread ≤ httpMaxHeaderSize) (· = lineEnd) :=
      fun rest hle => passes_version rfl hle hmajor hminor
    have h₅ : ∀ rest, lineEnd.nread ≤ httpMaxHeaderSize → Passes len lineEnd [13, 10] rest
        (((lineEnd.counted 2).goTo .headerFieldStart).nread ≤ httpMaxHeaderSize)
        (· = (lineEnd.counted 2).goTo .headerFieldStart) :=
      fun rest hle => passes_advance (advance_word rfl) hle
    have hall := (h₁ _).append_of_eq fun ok₁ => (h₂ _ ok₁).append_of_eq fun ok₂ =>
      (h₃ _ ok₂.2).append_of_eq fun ok₃ => (h₄ _ ok₃).append_of_eq fun ok₄ => h₅ rest ok₄.2.2
    have hlen : (httpMethodStr method).length = (httpMethodStr method.toNat).length := by
      rw [Int.toNat_of_nonneg hknown.1]
    have hlast : lineEnd.nread = (behindMethod method.toNat).nread + (target.length + 1) + 5 + 3 :=
      rfl
    have hfirst : (behindMethod method.toNat).nread = (httpMethodStr method).length + 1 := by
      rw [hlen]
      rfl
    have hsum : OneDigit major → OneDigit minor → (StartLine.request method target major
        minor).bytes.length = lineEnd.nread + 2 := by
      intro hma hmi
      have hword : (text "HTTP/").length = 5 := rfl
      simp only [hbytes, List.length_append, length_unsignedText hma, length_unsignedText hmi,
        List.length_cons, List.length_nil, hword, hlast, hfirst]
      omega
    rw [← hbytes] at hall
    refine (hall.congr ?_).mono fun hok e₂ he₂ => ?_
    · constructor
      · rintro ⟨-, ⟨htarget, -⟩, -, ⟨hma, hmi, -⟩, hle⟩
        exact ⟨⟨hknown, htarget, hma, hmi⟩, (hsum hma hmi).le.trans hle⟩
      · rintro ⟨⟨-, htarget, hma, hmi⟩, hle⟩
        rw [hsum hma hmi, hlast] at hle
        have hurl : urlEnd.nread = (behindMethod method.toNat).nread + (target.length + 1) := rfl
        have hversion : version.nread = urlEnd.nread + 5 := rfl
        refine ⟨by omega, ⟨htarget, by omega⟩, by omega, ⟨hma, hmi, by omega⟩, ?_⟩
        change lineEnd.nread + 2 ≤ httpMaxHeaderSize
        omega
    · rw [he₂, hsum hok.1.2.2.1 hok.1.2.2.2]
      rfl
  · refine Passes.refused ?_ fun h => hknown h.1.1
    rw [hbytes]
    simp only [List.append_assoc, List.cons_append, List.nil_append]
    exact refused_method hmethod hknown

/-- The line of a response, part by part. -/
theorem responseLine_bytes (major minor code : ℤ) : (StartLine.response major minor code).bytes =
    text "HTTP/" ++ ((unsignedText major ++ [46] ++ unsignedText minor) ++ ([32] ++
      ((unsignedText code ++ [32]) ++ (statusString code ++ [13, 10])))) := by
  have hblank : text " " = [32] ∧ text "." = [46] := ⟨rfl, rfl⟩
  simp only [StartLine.bytes, versionText, crlf, hblank, List.append_assoc]

/-- **The line of a response.** -/
theorem passes_responseLine {major minor code : ℤ} (hmajor : CInt.InRange major)
    (hminor : CInt.InRange minor) (hcode : CInt.InRange code) :
    Passes len {} (StartLine.response major minor code).bytes rest
      ((OneDigit major ∧ OneDigit minor ∧ 0 ≤ code ∧ code ≤ 999) ∧
        (StartLine.response major minor code).bytes.length ≤ httpMaxHeaderSize)
      (· = responseLine major.toNat minor.toNat code.toNat
        (StartLine.response major minor code).bytes.length) := by
  have hbytes := responseLine_bytes major minor code
  let version := responseBegun.behindVersion true major.toNat minor.toNat
  let blank := (version.counted 1).goTo .resFirstStatusCode
  let status := blank.behindCode code.toNat ((unsignedText code).length + 1)
  let last := status.behindReason ((statusString code).length + 2)
  have h₁ : ∀ rest, Passes len {} (text "HTTP/") rest (responseBegun.nread ≤ httpMaxHeaderSize)
      (· = responseBegun) := fun rest => passes_advance advance_responseBegun (Nat.zero_le _)
  have h₂ : ∀ rest, responseBegun.nread ≤ httpMaxHeaderSize →
      Passes len responseBegun (unsignedText major ++ [46] ++ unsignedText minor) rest
        (OneDigit major ∧ OneDigit minor ∧ version.nread ≤ httpMaxHeaderSize) (· = version) :=
    fun rest hle => passes_version rfl hle hmajor hminor
  have h₃ : ∀ rest, version.nread ≤ httpMaxHeaderSize → Passes len version [32] rest
      (blank.nread ≤ httpMaxHeaderSize) (· = blank) :=
    fun rest hle => passes_advance (advance_word rfl) hle
  have h₄ : ∀ rest, blank.nread ≤ httpMaxHeaderSize → Passes len blank (unsignedText code ++ [32])
      rest (0 ≤ code ∧ code ≤ 999 ∧ status.nread ≤ httpMaxHeaderSize) (· = status) :=
    fun rest hle => passes_code rfl hle hcode
  have h₅ : ∀ rest, status.nread ≤ httpMaxHeaderSize →
      Passes len status (statusString code ++ [13, 10]) rest (last.nread ≤ httpMaxHeaderSize)
        (· = last) := fun rest hle => passes_reason rfl rfl rfl (statusString_isLine code) hle
  have hall := (h₁ _).append_of_eq fun ok₁ => (h₂ _ ok₁).append_of_eq fun ok₂ =>
    (h₃ _ ok₂.2.2).append_of_eq fun ok₃ => (h₄ _ ok₃).append_of_eq fun ok₄ => h₅ rest ok₄.2.2
  have hlast : last.nread = 5 + 3 + 1 + ((unsignedText code).length + 1) +
      ((statusString code).length + 2) := rfl
  have hstatus : last.nread = status.nread + ((statusString code).length + 2) := rfl
  have hblank : status.nread = blank.nread + ((unsignedText code).length + 1) := rfl
  have hversion : blank.nread = version.nread + 1 ∧ version.nread = responseBegun.nread + 3 :=
    ⟨rfl, rfl⟩
  have hsum : OneDigit major → OneDigit minor →
      (StartLine.response major minor code).bytes.length = last.nread := by
    intro hma hmi
    have hword : (text "HTTP/").length = 5 := rfl
    simp only [hbytes, List.length_append, length_unsignedText hma, length_unsignedText hmi,
      List.length_cons, List.length_nil, hword, hlast]
    omega
  rw [← hbytes] at hall
  refine (hall.congr ?_).mono fun hok e₂ he₂ => ?_
  · constructor
    · rintro ⟨-, ⟨hma, hmi, -⟩, -, ⟨hlow, hhigh, -⟩, hle⟩
      exact ⟨⟨hma, hmi, hlow, hhigh⟩, (hsum hma hmi).le.trans hle⟩
    · rintro ⟨⟨hma, hmi, hlow, hhigh⟩, hle⟩
      rw [hsum hma hmi] at hle
      exact ⟨by omega, ⟨hma, hmi, by omega⟩, by omega, ⟨hlow, hhigh, by omega⟩, hle⟩
  · rw [he₂, hsum hok.1.1 hok.1.2.1, hlast]
    rfl

end Lines

end HttpExec

end Kimserver
