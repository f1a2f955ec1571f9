import Kimserver.Codec.HttpParserSafe
import Kimserver.Codec.HttpPrinted

/-!
# The HTTP parser on a part of a text

A run over a text is put together from runs over its parts. A part that is as it should be takes
the loop from one state to another one; a part that is not ends the run with an error, and so does
one that makes the head too long. `HttpExec.Passes` says both at once.

The short cuts of the loops over names and values are replaced by loops that read one byte after
the other.

## Main definitions

* `HttpEnd.Refused`: a run that ends with an error or in a message
* `HttpExec.Passes`: a part of a text and what it asks for
* `nameStates`: the states of a name

## Main results

* `headerFieldLoop_eq`: the loop over a name without its short cut
* `HttpExec.Passes.append`: parts of a text in a row
-/

namespace Kimserver

/-! ## Decimal text -/

/-- The value of digits behind those that were read. -/
def decimalFrom (v : ℕ) (s : Bytes) : ℕ := s.foldl (fun acc c => 10 * acc + (c.toNat - 48)) v

theorem le_decimalFrom (v : ℕ) (s : Bytes) : v ≤ decimalFrom v s := by
  induction s generalizing v with
  | nil => exact le_rfl
  | cons c s ih => exact le_trans (by omega) (ih (10 * v + (c.toNat - 48)))

theorem isNum_of_mem_natToDecimal {n : ℕ} {c : UInt8} (hc : c ∈ natToDecimal n) :
    isNum c = true := isDigit_of_mem_natToDecimal hc

theorem ne_of_isNum {c d : UInt8} (h : isNum c = true) (hd : isNum d = false) : c ≠ d := by
  rintro rfl
  exact Bool.noConfusion (h.symm.trans hd)

theorem natToDecimal_digit {n : ℕ} (h : n < 10) : natToDecimal n = [digitChar n] := by
  rcases Nat.eq_zero_or_pos n with rfl | hpos
  · rfl
  · rw [natToDecimal, if_neg hpos.ne', Nat.digits_of_lt 10 n hpos.ne' h]
    rfl

theorem natToDecimal_long {n : ℕ} (h : 10 ≤ n) :
    ∃ c d rest, natToDecimal n = c :: d :: rest := by
  have hlen : 1 < (natToDecimal n).length := by
    have hne : n ≠ 0 := by omega
    rw [natToDecimal, if_neg hne, List.length_map, List.length_reverse]
    by_contra hle
    have hlt := (Nat.digits_length_le_iff (by norm_num : 1 < 10) (k := 1) n).mp (not_lt.mp hle)
    omega
  match hs : natToDecimal n with
  | [] => simp [hs] at hlen
  | [c] => simp [hs] at hlen
  | c :: d :: rest => exact ⟨c, d, rest, rfl⟩

theorem toUInt32_of_nonneg {n : ℤ} (hrange : CInt.InRange n) (h : 0 ≤ n) :
    (CInt.toUInt32 n).toNat = n.toNat := by
  obtain ⟨-, hhigh⟩ := hrange
  rw [CInt.toUInt32, Int.emod_eq_of_lt h (by omega), UInt32.toNat_ofNat_of_lt']
  rw [UInt32.size]
  omega

/-- A negative `int` is a large `unsigned int`. -/
theorem toUInt32_of_neg {n : ℤ} (hrange : CInt.InRange n) (h : n < 0) :
    2147483648 ≤ (CInt.toUInt32 n).toNat := by
  have hmod : (n % 4294967296).toNat < 4294967296 := by omega
  rw [CInt.toUInt32, UInt32.toNat_ofNat_of_lt' hmod]
  obtain ⟨hlow, -⟩ := hrange
  omega

/-- `%u` prints one digit or more. -/
theorem unsignedText_shape {n : ℤ} (hrange : CInt.InRange n) :
    (OneDigit n ∧ unsignedText n = [digitChar n.toNat]) ∨
    (¬ OneDigit n ∧ ∃ c d rest, unsignedText n = c :: d :: rest ∧ isNum c = true ∧
      isNum d = true) := by
  have hlong : 10 ≤ (CInt.toUInt32 n).toNat → ∃ c d rest, unsignedText n = c :: d :: rest ∧
      isNum c = true ∧ isNum d = true := by
    intro h
    obtain ⟨c, d, rest, htext⟩ := natToDecimal_long h
    have hnum : ∀ x ∈ c :: d :: rest, isNum x = true := fun x hx =>
      isNum_of_mem_natToDecimal (htext ▸ hx)
    exact ⟨c, d, rest, htext, hnum c (by simp), hnum d (by simp)⟩
  by_cases hneg : n < 0
  · have hlarge := toUInt32_of_neg hrange hneg
    exact Or.inr ⟨fun h => by unfold OneDigit at h; omega, hlong (by omega)⟩
  · have heq := toUInt32_of_nonneg hrange (not_lt.mp hneg)
    by_cases hdigit : n ≤ 9
    · refine Or.inl ⟨⟨not_lt.mp hneg, hdigit⟩, ?_⟩
      rw [unsignedText, heq, natToDecimal_digit (by omega)]
    · exact Or.inr ⟨fun h => hdigit h.2, hlong (by omega)⟩

/-! ## The loop over a name -/

section Names

variable {len skip index : ℕ} {h : HeaderState} {p rest seg : Bytes}

theorem headerFieldLoop_skip :
    headerFieldLoop len skip h index p = headerFieldLoop len 0 h index (p.drop skip) := by
  induction p generalizing skip with
  | nil => cases skip <;> rfl
  | cons c rest ih =>
    cases skip with
    | zero => rfl
    | succ skip => exact ih

/-- In `h_general` a token character changes nothing. -/
theorem plainFieldLoop_general (hseg : ∀ c ∈ seg, token c ≠ 0) :
    plainFieldLoop .general index (seg ++ rest) = plainFieldLoop .general index rest := by
  induction seg with
  | nil => rfl
  | cons c seg ih =>
    rw [List.cons_append, plainFieldLoop, if_neg (hseg c List.mem_cons_self)]
    exact ih fun d hd => hseg d (List.mem_cons_of_mem _ hd)

/-- What the short cut skips are token characters. -/
theorem generalTokens_split : ∃ seg, p.tail = seg ++ p.tail.drop (generalTokens len p) ∧
    ∀ c ∈ seg, token c ≠ 0 := by
  have hprefix : (p.tail.take (min p.length httpMaxHeaderSize -
      (len - p.length + 1))).takeWhile (token · ≠ 0) <+: p.tail :=
    (List.takeWhile_prefix _).trans (List.take_prefix _ _)
  refine ⟨p.tail.take (generalTokens len p), (List.take_append_drop _ _).symm, ?_⟩
  rw [generalTokens, ← List.prefix_iff_eq_take.mp hprefix]
  intro c hc
  simpa using List.mem_takeWhile_imp hc

/-- **The loop over a name** does what it does without its short cut. -/
theorem headerFieldLoop_eq : headerFieldLoop len 0 h index p = plainFieldLoop h index p := by
  induction hn : p.length using Nat.strong_induction_on generalizing p h index with
  | _ n ih =>
    cases p with
    | nil => rfl
    | cons c rest =>
      rw [List.length_cons] at hn
      rw [headerFieldLoop, plainFieldLoop]
      split_ifs with htoken hgeneral
      · rfl
      · subst hgeneral
        obtain ⟨seg, hsplit, hseg⟩ := @generalTokens_split len (c :: rest)
        rw [List.tail_cons] at hsplit
        have hdrop : (rest.drop (generalTokens len (c :: rest))).length < n := by
          rw [List.length_drop]
          omega
        rw [headerFieldLoop_skip, ih _ hdrop rfl]
        conv_rhs => rw [hsplit]
        exact (plainFieldLoop_general hseg).symm
      · cases fieldChar h index c (token c) with
        | none => rfl
        | some s => exact ih rest.length (by omega) rfl

/-- The states of a name. -/
def nameStates (s : HeaderState × ℕ) (name : Bytes) : Option (HeaderState × ℕ) :=
  name.foldlM (fun s c => fieldChar s.1 s.2 c (token c)) s

theorem plainFieldLoop_name {s : HeaderState × ℕ} {c : UInt8} (hname : ∀ c ∈ seg, token c ≠ 0)
    (hc : token c = 0) : plainFieldLoop s.1 s.2 (seg ++ c :: rest) =
      (nameStates s seg).map fun s => (s.1, s.2, c :: rest) := by
  induction seg generalizing s with
  | nil =>
    rw [List.nil_append, plainFieldLoop, if_pos hc]
    rfl
  | cons d seg ih =>
    rw [List.cons_append, plainFieldLoop, if_neg (hname d List.mem_cons_self), nameStates,
      List.foldlM_cons]
    cases fieldChar s.1 s.2 d (token d) with
    | none => rfl
    | some s' => exact ih fun x hx => hname x (List.mem_cons_of_mem _ hx)

end Names

/-! ## Runs -/

/-- The bytes from a mark on, up to what follows them. -/
theorem between_append (seg rest : Bytes) : between (seg ++ rest) rest = seg := by
  rw [between, List.length_append, Nat.add_sub_cancel, List.take_left]

/-- A message has begun and not ended. -/
def inMessage (calls : List HttpCallback) : Bool := calls.foldl HttpCallback.marks false

/-- A run ends with an error, or in a message. -/
def HttpEnd.Refused (run : HttpEnd) : Prop :=
  ∃ e n, run = some (e, n) ∧ (e.httpErrno ≠ .ok ∨ inMessage e.calls = true)

section Loop

variable {len skip : ℕ} {e e' : HttpExec} {p q rest : Bytes} {ch : UInt8}

theorem httpParserLoop_skip :
    httpParserLoop len skip e p = httpParserLoop len 0 e (p.drop skip) := by
  induction p generalizing skip with
  | nil => cases skip <;> rfl
  | cons c rest ih =>
    cases skip with
    | zero => rfl
    | succ skip => exact ih

/-- A turn goes on behind a pointer. -/
theorem loop_goOn (hturn : e.turn (ch :: rest) ch len = .goOn e' q) (hq : q <:+ ch :: rest)
    (hne : q ≠ []) : httpParserLoop len 0 e (ch :: rest) = httpParserLoop len 0 e' q.tail := by
  obtain ⟨front, hsplit⟩ := hq
  have hdrop : rest.drop ((ch :: rest).length - q.length) = q.tail := by
    have hlen : (ch :: rest).length - q.length = front.length := by
      rw [← hsplit, List.length_append, Nat.add_sub_cancel]
    rw [hlen]
    cases front with
    | nil =>
      rw [List.nil_append] at hsplit
      rw [hsplit]
      rfl
    | cons d front =>
      rw [List.cons_append, List.cons.injEq] at hsplit
      cases q with
      | nil => exact absurd rfl hne
      | cons x q =>
        rw [← hsplit.2, List.length_cons, List.drop_append, List.tail_cons]
        simp
  rw [httpParserLoop, hturn]
  simp only
  rw [httpParserLoop_skip, hdrop]

theorem loop_return (hturn : e.turn (ch :: rest) ch len = .return_ e' q) :
    httpParserLoop len 0 e (ch :: rest) = some (e', len - q.length) := by
  rw [httpParserLoop, hturn]

/-- Some bytes more in the head. -/
def HttpExec.counted (e : HttpExec) (n : ℕ) : HttpExec := { e with nread := e.nread + n }

/-- In a header a byte is counted. -/
theorem turn_header (hs : e.state.parsingHeader = true) (hn : e.nread < httpMaxHeaderSize) :
    e.turn p ch len = (e.counted 1).switch p ch len := by
  have hu : u32 (e.nread + 1) = e.nread + 1 := by
    simp only [httpMaxHeaderSize] at hn
    exact Nat.mod_eq_of_lt (by omega)
  rw [HttpExec.turn, if_pos hs, HttpExec.countHeaderSize, hu]
  exact if_neg (Nat.not_lt.mpr hn)

theorem countHeaderSize_of_le {n : ℕ} {k : HttpExec → Flow} (h : e.nread + n ≤ httpMaxHeaderSize) :
    e.countHeaderSize q n k = k (e.counted n) := by
  have hu : u32 (e.nread + n) = e.nread + n := by
    simp only [httpMaxHeaderSize] at h
    exact Nat.mod_eq_of_lt (by omega)
  simp only [HttpExec.countHeaderSize, hu, if_neg (not_lt.mpr h)]
  rfl

/-- Too many bytes, but not so many that the counter wraps around. -/
theorem countHeaderSize_overflow {n : ℕ} {k : HttpExec → Flow}
    (h : httpMaxHeaderSize < e.nread + n) (hwrap : e.nread + n < 4294967296) :
    ∃ e', e.countHeaderSize q n k = .return_ e' q ∧ e'.httpErrno ≠ .ok := by
  have hu : u32 (e.nread + n) = e.nread + n := Nat.mod_eq_of_lt hwrap
  simp only [HttpExec.countHeaderSize, hu, if_pos h]
  exact ⟨_, rfl, fun herr => HttpErrno.noConfusion herr⟩

/-- A byte too many. -/
theorem turn_overflow (hs : e.state.parsingHeader = true) (hn : e.nread = httpMaxHeaderSize) :
    ∃ e', e.turn p ch len = .return_ e' p ∧ e'.httpErrno ≠ .ok := by
  rw [HttpExec.turn, if_pos hs, HttpExec.countHeaderSize, hn]
  exact ⟨_, if_pos (show httpMaxHeaderSize < u32 (httpMaxHeaderSize + 1) by decide),
    fun h => HttpErrno.noConfusion h⟩

end Loop

namespace HttpExec

/-! ## Parts of a text -/

/-- The loop passes a part of a text if it is as it should be, and leaves what `post` says; if it
is not, the run is refused. -/
def Passes (len : ℕ) (e : HttpExec) (seg rest : Bytes) (ok : Prop) (post : HttpExec → Prop) :
    Prop :=
  (ok ∧ ∃ e', post e' ∧ httpParserLoop len 0 e (seg ++ rest) = httpParserLoop len 0 e' rest) ∨
    (¬ ok ∧ (httpParserLoop len 0 e (seg ++ rest)).Refused)

section Passes

variable {len : ℕ} {e : HttpExec} {a b seg rest : Bytes} {ok ok₁ ok₂ : Prop} {ch : UInt8}
  {post post₁ post₂ : HttpExec → Prop}

theorem Passes.of_eq {e' : HttpExec} (h : httpParserLoop len 0 e (seg ++ rest) =
    httpParserLoop len 0 e' rest) (hpost : post e') : Passes len e seg rest True post :=
  Or.inl ⟨trivial, e', hpost, h⟩

theorem Passes.refused (h : (httpParserLoop len 0 e (seg ++ rest)).Refused) (hok : ¬ ok) :
    Passes len e seg rest ok post := Or.inr ⟨hok, h⟩

theorem Passes.congr (h : Passes len e seg rest ok₁ post) (hok : ok₁ ↔ ok₂) :
    Passes len e seg rest ok₂ post := by
  rcases h with ⟨h, hrun⟩ | ⟨h, hrun⟩
  · exact Or.inl ⟨hok.mp h, hrun⟩
  · exact Or.inr ⟨fun h' => h (hok.mpr h'), hrun⟩

theorem Passes.mono (h : Passes len e seg rest ok post₁)
    (hpost : ok → ∀ e', post₁ e' → post₂ e') : Passes len e seg rest ok post₂ := by
  rcases h with ⟨h, e', hp, hrun⟩ | ⟨h, hrun⟩
  · exact Or.inl ⟨h, e', hpost h e' hp, hrun⟩
  · exact Or.inr ⟨h, hrun⟩

/-- **Parts of a text in a row.** -/
theorem Passes.append (h₁ : Passes len e a (b ++ rest) ok₁ post₁)
    (h₂ : ok₁ → ∀ e₁, post₁ e₁ → Passes len e₁ b rest ok₂ post₂) :
    Passes len e (a ++ b) rest (ok₁ ∧ ok₂) post₂ := by
  rw [Passes, List.append_assoc]
  rcases h₁ with ⟨hok₁, e₁, hpost₁, hrun₁⟩ | ⟨hok₁, hrun₁⟩
  · rw [hrun₁]
    rcases h₂ hok₁ e₁ hpost₁ with ⟨hok₂, hrest⟩ | ⟨hok₂, hrefused⟩
    · exact Or.inl ⟨⟨hok₁, hok₂⟩, hrest⟩
    · exact Or.inr ⟨fun h => hok₂ h.2, hrefused⟩
  · exact Or.inr ⟨fun h => hok₁ h.1, hrun₁⟩

theorem Passes.append_of_eq {e₁ : HttpExec} (h₁ : Passes len e a (b ++ rest) ok₁ (· = e₁))
    (h₂ : ok₁ → Passes len e₁ b rest ok₂ post₂) :
    Passes len e (a ++ b) rest (ok₁ ∧ ok₂) post₂ := by
  apply h₁.append
  rintro hok₁ e₂ rfl
  exact h₂ hok₁

end Passes

/-! ## Single bytes -/

section Bytes

variable {len : ℕ} {e e₁ e₂ : HttpExec} {seg rest q : Bytes} {ch : UInt8}

/-- A byte that the state takes. -/
theorem passes_byte {post : HttpExec → Prop} (hs : e.state.parsingHeader = true)
    (hn : e.nread ≤ httpMaxHeaderSize)
    (hswitch : (e.counted 1).switch (ch :: rest) ch len = .goOn e₁ (ch :: rest))
    (hpost : post e₁) :
    Passes len e [ch] rest (e.nread + 1 ≤ httpMaxHeaderSize) post := by
  rcases Nat.lt_or_eq_of_le hn with hlt | heq
  · have hturn : e.turn (ch :: rest) ch len = (e.counted 1).switch (ch :: rest) ch len :=
      turn_header hs hlt
    refine Or.inl ⟨hlt, e₁, hpost, ?_⟩
    exact loop_goOn (hturn.trans hswitch) (List.suffix_refl _) (List.cons_ne_nil ch rest)
  · obtain ⟨e', hturn, herr⟩ : ∃ e', e.turn (ch :: rest) ch len = .return_ e' (ch :: rest) ∧
        e'.httpErrno ≠ .ok := turn_overflow hs heq
    refine Or.inr ⟨by omega, e', _, loop_return hturn, Or.inl herr⟩

/-- A byte that the state does not take. -/
theorem refused_byte (hs : e.state.parsingHeader = true) (hn : e.nread ≤ httpMaxHeaderSize)
    (hswitch : (e.counted 1).switch (ch :: rest) ch len = .return_ e₂ q)
    (herr : e₂.httpErrno ≠ .ok) :
    (httpParserLoop len 0 e (ch :: rest)).Refused := by
  rcases Nat.lt_or_eq_of_le hn with hlt | heq
  · have hturn : e.turn (ch :: rest) ch len = (e.counted 1).switch (ch :: rest) ch len :=
      turn_header hs hlt
    exact ⟨e₂, _, loop_return (hturn.trans hswitch), Or.inl herr⟩
  · obtain ⟨e', hturn, herr'⟩ : ∃ e', e.turn (ch :: rest) ch len = .return_ e' (ch :: rest) ∧
        e'.httpErrno ≠ .ok := turn_overflow hs heq
    exact ⟨e', _, loop_return hturn, Or.inl herr'⟩

/-- Bytes that a loop of a state counts behind the first one. -/
theorem passes_counted {k : HttpExec → Flow} (hs : e.state.parsingHeader = true)
    (hn : e.nread ≤ httpMaxHeaderSize) (hlen : seg.length < 2147483648)
    (hswitch : ∀ c more, seg ++ ch :: rest = c :: more →
      (e.counted 1).switch (c :: more) c len = e₁.countHeaderSize (ch :: rest) seg.length k)
    (hnread : e₁.nread = e.nread + 1) (hk : k (e₁.counted seg.length) = .goOn e₂ (ch :: rest)) :
    Passes len e (seg ++ [ch]) rest (e.nread + (seg.length + 1) ≤ httpMaxHeaderSize) (· = e₂) := by
  obtain ⟨c, more, hcons⟩ : ∃ c more, seg ++ ch :: rest = c :: more :=
    List.exists_cons_of_ne_nil (by simp)
  have hfirst := hswitch c more hcons
  rw [Passes, List.append_assoc, List.singleton_append, hcons]
  rcases Nat.lt_or_eq_of_le hn with hlt | heq
  · have hturn : e.turn (c :: more) c len = (e.counted 1).switch (c :: more) c len :=
      turn_header hs hlt
    by_cases hle : e.nread + 1 + seg.length ≤ httpMaxHeaderSize
    · rw [hfirst, countHeaderSize_of_le (hnread ▸ hle), hk] at hturn
      exact Or.inl ⟨by omega, e₂, rfl, loop_goOn hturn ⟨seg, hcons⟩ (List.cons_ne_nil _ _)⟩
    · have hwrap : e₁.nread + seg.length < 4294967296 := by
        simp only [httpMaxHeaderSize] at hn
        omega
      obtain ⟨e', hreturn, herr⟩ := countHeaderSize_overflow (q := ch :: rest) (k := k)
        (hnread ▸ not_le.mp hle) hwrap
      exact Or.inr ⟨by omega, e', _, loop_return (hturn.trans (hfirst.trans hreturn)), Or.inl herr⟩
  · obtain ⟨e', hturn, herr⟩ : ∃ e', e.turn (c :: more) c len = .return_ e' (c :: more) ∧
        e'.httpErrno ≠ .ok := turn_overflow hs heq
    exact Or.inr ⟨by omega, e', _, loop_return hturn, Or.inl herr⟩

end Bytes

end HttpExec

/-- The bytes of a start line of which a state keeps no pointer. -/
def ParserState.plain (s : ParserState) (ch : UInt8) : Bool :=
  match s with
  | .startReqOrRes | .resOrRespH | .resH | .resHT | .resHTT | .resHTTP | .resHttpMajor
  | .resHttpDot | .resHttpMinor | .resHttpEnd | .resFirstStatusCode | .resLineAlmostDone
  | .startReq | .reqMethod
  | .reqHttpStart | .reqHttpH | .reqHttpHT | .reqHttpHTT | .reqHttpHTTP | .reqHttpMajor
  | .reqHttpDot | .reqHttpMinor | .reqHttpEnd | .reqLineAlmostDone => true
  | .resStatusCode => ch ≠ 13 && ch ≠ 10
  | _ => false

/-- A function of a state that goes on or fails, wherever the byte stands, and does not count. -/
inductive Flow.Plain (n : ℕ) (f : Bytes → ℕ → Flow) : Prop
  | goOn (e : HttpExec) (hn : e.nread = n) (h : ∀ p len, f p len = .goOn e p)
  | fail (e : HttpExec) (herr : e.httpErrno ≠ .ok) (h : ∀ p len, f p len = .return_ e p)

namespace HttpExec

section Plain

variable {len n : ℕ} {e e' : HttpExec} {seg rest p : Bytes} {ch : UInt8}

theorem plain_goOn (h : e.nread = n) : Flow.Plain n fun p _ => .goOn e p :=
  .goOn e h fun _ _ => rfl

theorem plain_fail {errno : HttpErrno} (h : errno ≠ .ok) :
    Flow.Plain n fun p _ => e.fail p errno := .fail _ h fun _ _ => rfl

theorem plain_ite {c : Prop} [Decidable c] {f g : Bytes → ℕ → Flow} (hf : Flow.Plain n f)
    (hg : Flow.Plain n g) : Flow.Plain n fun p len => if c then f p len else g p len := by
  by_cases hc : c
  · simpa only [if_pos hc] using hf
  · simpa only [if_neg hc] using hg

theorem constant_plain {expected : UInt8} {errno : HttpErrno} {s : ParserState}
    (h : errno ≠ .ok) : Flow.Plain e.nread fun p _ => e.constant p ch expected errno s :=
  plain_ite (plain_fail h) (plain_goOn rfl)

theorem startReq_plain : Flow.Plain e.nread fun p _ => e.startReq p ch := by
  refine plain_ite (plain_goOn rfl) (plain_ite (plain_fail (by simp)) ?_)
  cases firstMethod ch with
  | none => exact plain_fail (by simp)
  | some method => exact plain_goOn rfl

theorem startReqOrRes_plain : Flow.Plain e.nread fun p _ => e.startReqOrRes p ch :=
  plain_ite (plain_goOn rfl) (plain_ite (plain_goOn rfl)
    (startReq_plain (e := ({ e.restart with type := .request } : HttpExec).goTo .startReq)))

theorem resOrRespH_plain : Flow.Plain e.nread fun p _ => e.resOrRespH p ch :=
  plain_ite (plain_goOn rfl) (plain_ite (plain_fail (by simp)) (plain_goOn rfl))

theorem reqMethod_plain : Flow.Plain e.nread fun p _ => e.reqMethod p ch := by
  refine plain_ite (plain_fail (by simp)) (plain_ite (plain_goOn rfl)
    (plain_ite (plain_goOn rfl) (plain_ite ?_ (plain_fail (by simp)))))
  cases nextMethod e.method e.index ch with
  | none => exact plain_fail (by simp)
  | some method => exact plain_goOn rfl

theorem httpMajorChar_plain {s : ParserState} :
    Flow.Plain e.nread fun p _ => e.httpMajorChar p ch s :=
  plain_ite (plain_fail (by simp)) (plain_goOn rfl)

theorem httpMinorChar_plain {s : ParserState} :
    Flow.Plain e.nread fun p _ => e.httpMinorChar p ch s :=
  plain_ite (plain_fail (by simp)) (plain_goOn rfl)

theorem resStatusCode_plain (hcr : ch ≠ 13) (hlf : ch ≠ 10) :
    Flow.Plain e.nread fun p _ => e.resStatusCode p ch := by
  have hend : ¬ (ch = 13 || ch = 10) = true := by simp [hcr, hlf]
  simp only [resStatusCode, if_neg hend]
  exact plain_ite (plain_ite (plain_goOn rfl) (plain_fail (by simp)))
    (plain_ite (plain_fail (by simp)) (plain_goOn rfl))

/-- **These states** keep no pointer. -/
theorem switch_plain (h : e.state.plain ch = true) :
    Flow.Plain e.nread fun p len => e.switch p ch len := by
  unfold switch
  cases hs : e.state <;> rw [hs] at h <;> first
    | exact absurd h Bool.false_ne_true
    | exact constant_plain HttpErrno.noConfusion
    | skip
  case startReqOrRes => exact startReqOrRes_plain
  case resOrRespH => exact resOrRespH_plain
  case resHttpMajor | reqHttpMajor => exact httpMajorChar_plain
  case resHttpMinor | reqHttpMinor => exact httpMinorChar_plain
  case resFirstStatusCode =>
    exact plain_ite (plain_ite (plain_goOn rfl) (plain_fail (by simp))) (plain_goOn rfl)
  case resStatusCode =>
    simp only [ParserState.plain, Bool.and_eq_true, decide_eq_true_eq] at h
    exact resStatusCode_plain h.1 h.2
  case startReq => exact startReq_plain
  case reqMethod => exact reqMethod_plain
  case reqHttpStart | reqHttpEnd =>
    exact plain_ite (plain_goOn rfl) (plain_ite (plain_goOn rfl) (plain_fail (by simp)))

theorem parsingHeader_of_plain {s : ParserState} (h : s.plain ch = true) :
    s.parsingHeader = true := by
  cases s <;> first
    | rfl
    | exact absurd h Bool.false_ne_true

/-- What such a byte leaves. -/
def step (e : HttpExec) (ch : UInt8) : Option HttpExec :=
  if e.state.plain ch then
    match (e.counted 1).switch [ch] ch 1 with
    | .goOn e _ => some e
    | _ => none
  else none

theorem step_of_plain (h : e.state.plain ch = true) :
    (∃ e', e.step ch = some e' ∧ e'.nread = e.nread + 1 ∧ ∀ p len,
      (e.counted 1).switch p ch len = .goOn e' p) ∨
    (e.step ch = none ∧ ∃ e', e'.httpErrno ≠ .ok ∧ ∀ p len,
      (e.counted 1).switch p ch len = .return_ e' p) := by
  have hplain : Flow.Plain (e.nread + 1) fun p len =>
      (e.counted 1).switch p ch len :=
    switch_plain (e := e.counted 1) h
  rw [step, if_pos h]
  rcases hplain with ⟨e', hn, hf⟩ | ⟨e', herr, hf⟩
  · rw [hf]
    exact Or.inl ⟨e', rfl, hn, hf⟩
  · rw [hf]
    exact Or.inr ⟨rfl, e', herr, hf⟩

/-- What bytes in a row leave. -/
def advance (e : HttpExec) (seg : Bytes) : Option HttpExec := seg.foldlM step e

theorem advance_append {a b : Bytes} : e.advance (a ++ b) = (e.advance a).bind (advance · b) :=
  List.foldlM_append

theorem advance_singleton : e.advance [ch] = e.step ch := by
  rw [advance, List.foldlM_cons]
  exact bind_pure _

theorem step_some (h : e.step ch = some e') : e.state.plain ch = true ∧
    e'.nread = e.nread + 1 ∧ ∀ p len, (e.counted 1).switch p ch len = .goOn e' p := by
  have hplain : e.state.plain ch = true := by
    by_contra hp
    rw [step, if_neg hp] at h
    cases h
  rcases step_of_plain hplain with ⟨e₂, hstep, hn, hswitch⟩ | ⟨hnone, -⟩
  · obtain rfl : e₂ = e' := Option.some.inj (hstep.symm.trans h)
    exact ⟨hplain, hn, hswitch⟩
  · rw [hnone] at h
    cases h

theorem advance_nread (h : e.advance seg = some e') : e'.nread = e.nread + seg.length := by
  induction seg generalizing e with
  | nil =>
    rw [← Option.some.inj h]
    rfl
  | cons ch seg ih =>
    obtain ⟨e₁, hstep, hseg⟩ := Option.bind_eq_some_iff.mp h
    rw [ih hseg, (step_some hstep).2.1, List.length_cons, Nat.add_assoc, Nat.add_comm 1]

/-- **Bytes without a pointer.** -/
theorem passes_advance (h : e.advance seg = some e') (hn : e.nread ≤ httpMaxHeaderSize) :
    Passes len e seg rest (e'.nread ≤ httpMaxHeaderSize) (· = e') := by
  induction seg generalizing e with
  | nil =>
    obtain rfl := Option.some.inj h
    exact Or.inl ⟨hn, e, rfl, rfl⟩
  | cons ch seg ih =>
    obtain ⟨e₁, hstep, hseg⟩ := Option.bind_eq_some_iff.mp h
    obtain ⟨hplain, hn₁, hswitch⟩ := step_some hstep
    have hbyte : Passes len e [ch] (seg ++ rest) (e₁.nread ≤ httpMaxHeaderSize) (· = e₁) := by
      rw [hn₁]
      exact passes_byte (parsingHeader_of_plain hplain) hn (hswitch _ _) rfl
    refine (hbyte.append_of_eq fun hle => ih hseg hle).congr ⟨And.right, fun hle => ⟨?_, hle⟩⟩
    have hgrow := advance_nread hseg
    omega

/-- Bytes up to one that its state does not take. -/
theorem refused_advance (h : e.advance seg = some e') (hplain : e'.state.plain ch = true)
    (hstep : e'.step ch = none) (hn : e.nread ≤ httpMaxHeaderSize) :
    (httpParserLoop len 0 e (seg ++ ch :: rest)).Refused := by
  have hpasses : Passes len e seg (ch :: rest) (e'.nread ≤ httpMaxHeaderSize) (· = e') :=
    passes_advance h hn
  rcases hpasses with ⟨hle, e₁, rfl, hrun⟩ | ⟨-, hrefused⟩
  · rw [hrun]
    rcases step_of_plain hplain with ⟨e₂, hstep₂, -⟩ | ⟨-, e₂, herr, hswitch⟩
    · rw [hstep] at hstep₂
      cases hstep₂
    · exact refused_byte (parsingHeader_of_plain hplain) hle (hswitch _ _) herr
  · exact hrefused

end Plain

end HttpExec

end Kimserver
