import Kimserver.Codec.HttpRoundTrip
import Kimserver.Util.Printf

/-!
# Encoding when memory runs out

`CodecHttp::encode` once more, with uses of `ensure_writeable` that fail. Each `_printf` and
`_write` is checked for a negative result, and the results are added up in `writed_len`, an `int`;
on an error that many bytes are taken back.

The result of `_printf` is not the number of bytes that it appended: it is zero where the first
use of `ensure_writeable` fails, so that a line is missing and nobody notices; and a text that did
not fit at once is counted again.

## Main definitions

* `Writing`: the buffer, `writed_len`, and how often `ensure_writeable` was used
* `CodecHttp.encodeWithin`: `CodecHttp::encode`, where `alloc` says which uses get memory
* `AllOrNothing`: the message is appended as a whole, or nothing is
* `EachText`: what holds of each text when it is printed
* `CodecHttp.KeepsCount`: the calls that are all or nothing

## Main results

* `printAll_spec`: what is printed and what is counted
* `takeBack_iff`: when taking back restores the buffer
* `CodecHttp.allOrNothing_iff`: the calls that are all or nothing
-/

namespace Kimserver

open SocketBuffer

/-! ## Writing with failures -/

/-- The buffer, `writed_len`, and how often `ensure_writeable` was used. -/
structure Writing where
  sbuf : SocketBuffer
  writed : ℤ := 0
  uses : ℕ := 0
  deriving DecidableEq

/-- What follows a write: the next one, or the label `error`. There is no value where `_vprintf`
has none. -/
abbrev WriteResult := Option (Except Writing Writing)

namespace Writing

/-- `CHECK_WRITE(size = …); writed_len += size;`. The sum wraps around. -/
def check (w : Writing) (sbuf : SocketBuffer) (size : ℤ) (uses : ℕ) : Except Writing Writing :=
  if size < 0 then .error ⟨sbuf, w.writed, uses⟩
  else .ok ⟨sbuf, CInt.toInt (w.writed + size), uses⟩

variable (alloc : ℕ → Bool)

/-- `_printf` of a text. -/
def print (w : Writing) (text : Bytes) : WriteResult :=
  (w.sbuf.vprintfRun alloc w.uses text).map fun out => w.check out.sbuf out.result out.uses

/-- `_write` of some data: -1, or their size as an `int`. -/
def write (w : Writing) (data : Bytes) : WriteResult :=
  match w.sbuf.write (alloc w.uses) data with
  | (b, false) => some (w.check b (-1) (w.uses + 1))
  | (b, true) => some (w.check b (CInt.toInt data.length) (w.uses + 1))

/-- The next write, where the one before it succeeded. -/
def andThen : WriteResult → (Writing → WriteResult) → WriteResult
  | some (.ok w), next => next w
  | res, _ => res

/-- One `_printf` after the other. -/
def printAll : List Bytes → Writing → WriteResult
  | [], w => some (.ok w)
  | text :: texts, w => andThen (w.print alloc text) (printAll texts)

/-- Taking back what was counted. -/
def rollBack (w : Writing) : SocketBuffer := takeBack (w.sbuf, w.writed)

/-- The length and the body, as in `printBody`. -/
def printBody (lib : HttpEncodeLib) (isGzip isChunked : Bool) (msg : HttpOut) (w : Writing) :
    WriteResult :=
  if 0 < msg.body.length then
    if isGzip && (lib.gzip msg.body).isSome then some (.error w)
    else if isChunked then
      andThen (andThen (andThen
        (if msg.encoding = 0 then w.print alloc crlf
          else some (.ok { w with sbuf := w.rollBack, writed := 0 }))
        fun w => w.print alloc (hexText (msg.body.length % 4294967296) ++ crlf))
        fun w => w.write alloc msg.body)
        fun w => w.print alloc (crlf ++ text "0" ++ crlf ++ crlf)
    else
      andThen (w.print alloc (lengthLine msg.body)) fun w => w.write alloc msg.body
  else if isChunked then
    andThen
      (if msg.encoding = 0 then w.print alloc crlf else some (.ok { w with sbuf := w.rollBack }))
      fun w => w.print alloc (text "0" ++ crlf ++ crlf)
  else w.print alloc (text "Content-Length: 0" ++ crlf ++ crlf)

end Writing

/-- What `encode` leaves: the status, the counters, `m_http_headers`, and the buffer. -/
structure Encoded where
  status : CodecStatus
  writer : HttpWriter
  headers : FiniteMap Bytes Bytes
  sbuf : SocketBuffer

/-- The end of `encode`: a NUL behind the text, which is taken back through an `int`, or the label
`error`. Both clear the table. -/
def Writing.finish (alloc : ℕ → Bool) (writer : HttpWriter) : WriteResult → Option Encoded
  | none => none
  | some (.error w) => some ⟨.err, writer, ∅, w.rollBack⟩
  | some (.ok w) =>
    match w.sbuf.write (alloc w.uses) [0] with
    | (b, false) => some ⟨.err, writer, ∅, takeBack (b, w.writed)⟩
    | (b, true) => some ⟨.ok, writer, ∅, b.dropNul⟩

/-- `CodecHttp::encode`, where `alloc` says which uses of `ensure_writeable` get memory. -/
def CodecHttp.encodeWithin (lib : HttpEncodeLib) (stray : ℕ) (alloc : ℕ → Bool)
    (codec : CodecHttp) (writer : HttpWriter) (msg : HttpOut) (sbuf : SocketBuffer) :
    Option Encoded :=
  let writer := writer.count codec
  if msg.httpMajor = 0 then some ⟨.err, writer, ∅, sbuf⟩
  else
    match startLines lib stray codec msg.toHttpMsg with
    | none => some ⟨.err, writer, ∅, takeBack (sbuf, 0)⟩
    | some lines =>
      let entries := lib.visit (printedHeaders lib codec writer msg.toHttpMsg)
      let isGzip := entries.contains (text "Content-Encoding", text "gzip")
      let isChunked := entries.contains (text "Transfer-Encoding", text "chunked")
      Writing.finish alloc writer (Writing.andThen
        (Writing.printAll alloc (lines ++ entries.map headerLine) { sbuf := sbuf })
        (Writing.printBody alloc lib isGzip isChunked msg))

/-- `encode` returns, with the complete message behind the readable bytes, or with an error, the
readable bytes as they were, and an empty table. -/
def CodecHttp.AllOrNothing (lib : HttpEncodeLib) (stray : ℕ) (alloc : ℕ → Bool)
    (codec : CodecHttp) (writer : HttpWriter) (msg : HttpOut) (sbuf : SocketBuffer) : Prop :=
  ∃ out, codec.encodeWithin lib stray alloc writer msg sbuf = some out ∧ out.sbuf.Wf ∧
    ((out.status = .ok ∧ ∃ lines, startLines lib stray codec msg.toHttpMsg = some lines ∧
        out.sbuf.contents =
          sbuf.contents ++ encodedText lib codec (writer.count codec) lines msg.toHttpMsg) ∨
      (out.status = .err ∧ out.sbuf.contents = sbuf.contents ∧ out.headers = ∅))

/-! ## What holds of each text -/

section Texts

variable (alloc : ℕ → Bool)

/-- What holds of each text when it is printed. -/
def EachText (P : ℕ → SocketBuffer → Bytes → Prop) : ℕ → SocketBuffer → List Bytes → Prop
  | _, _, [] => True
  | uses, b, text :: texts =>
    P uses b text ∧ ∀ out ∈ b.vprintfRun alloc uses text, EachText P out.uses out.sbuf texts

/-- The text is printed. -/
def IsPrinted (uses : ℕ) (b : SocketBuffer) (text : Bytes) : Prop :=
  FitsAtOnce alloc uses b text ∨ FitsLater alloc uses b text

/-- There is no attempt that does not fit. -/
def IsCountedOnce (uses : ℕ) (b : SocketBuffer) (text : Bytes) : Prop :=
  GivesUp alloc uses b text ∨ FitsAtOnce alloc uses b text

instance (uses : ℕ) (b : SocketBuffer) (text : Bytes) : Decidable (IsPrinted alloc uses b text) :=
  inferInstanceAs (Decidable (_ ∨ _))

instance (uses : ℕ) (b : SocketBuffer) (text : Bytes) :
    Decidable (IsCountedOnce alloc uses b text) := inferInstanceAs (Decidable (_ ∨ _))

instance decidableEachText (P : ℕ → SocketBuffer → Bytes → Prop)
    [∀ uses b text, Decidable (P uses b text)] :
    ∀ uses b texts, Decidable (EachText alloc P uses b texts)
  | _, _, [] => isTrue trivial
  | uses, b, text :: texts =>
    have : ∀ out : Vprintf, Decidable (EachText alloc P out.uses out.sbuf texts) :=
      fun out => decidableEachText P out.uses out.sbuf texts
    inferInstanceAs (Decidable (P uses b text ∧ ∀ out ∈ b.vprintfRun alloc uses text, _))

/-- What stays of some texts in the buffer. -/
def keptAll : ℕ → SocketBuffer → List Bytes → Bytes
  | _, _, [] => []
  | uses, b, text :: texts =>
    kept alloc uses b text ++
      match b.vprintfRun alloc uses text with
      | none => []
      | some out => keptAll out.uses out.sbuf texts

/-- How much the attempts that did not fit add to the sum of the results. -/
def surplusAll : ℕ → SocketBuffer → List Bytes → ℕ
  | _, _, [] => 0
  | uses, b, text :: texts =>
    surplus alloc uses b text +
      match b.vprintfRun alloc uses text with
      | none => 0
      | some out => surplusAll out.uses out.sbuf texts

end Texts

section Counts

variable {alloc : ℕ → Bool} {w : Writing} {texts : List Bytes} {uses : ℕ} {b : SocketBuffer}

/-- A sum that wraps around. -/
theorem exists_toInt_eq (n : ℤ) : ∃ k : ℤ, CInt.toInt n = n + 4294967296 * k := by
  have hmod : CInt.toInt n % 4294967296 = n % 4294967296 := by
    unfold CInt.toInt
    rw [show (4294967296 : ℤ) = ((4294967296 : ℕ) : ℤ) from rfl, Int.bmod_emod]
  exact ⟨(CInt.toInt n - n) / 4294967296, by omega⟩

/-- One `_printf` never leads to an error. -/
theorem print_spec (h : w.sbuf.Wf) {text : Bytes} {res : Except Writing Writing}
    (hprint : w.print alloc text = some res) :
    ∃ out, w.sbuf.vprintfRun alloc w.uses text = some out ∧
      res = .ok ⟨out.sbuf, CInt.toInt (w.writed + out.result), out.uses⟩ := by
  unfold Writing.print at hprint
  obtain ⟨out, hrun, hres⟩ := Option.map_eq_some_iff.mp hprint
  obtain ⟨-, -, hresult⟩ := vprintfRun_spec h hrun
  refine ⟨out, hrun, hres.symm.trans (if_neg ?_)⟩
  omega

/-- The sum of the results differs from the number of the bytes that are kept by what was counted
beside them, and by the turns of the sum. -/
structure Counted (w w' : Writing) (data : Bytes) (extra : ℕ) : Prop where
  wf : w'.sbuf.Wf
  contents : w'.sbuf.contents = w.sbuf.contents ++ data
  inRange : CInt.InRange w'.writed
  writed : ∃ k : ℤ, w'.writed = w.writed + data.length + extra + 4294967296 * k

/-- The first of some texts, and the others behind it. -/
theorem printAll_cons (h : w.sbuf.Wf) {text : Bytes} {res : Except Writing Writing}
    (hprint : Writing.printAll alloc (text :: texts) w = some res) :
    ∃ out, w.sbuf.vprintfRun alloc w.uses text = some out ∧ out.sbuf.Wf ∧
      Writing.printAll alloc texts ⟨out.sbuf, CInt.toInt (w.writed + out.result), out.uses⟩ =
        some res := by
  unfold Writing.printAll at hprint
  cases hone : w.print alloc text with
  | none =>
    rw [hone] at hprint
    cases hprint
  | some res' =>
    obtain ⟨out, hrun, rfl⟩ := print_spec h hone
    rw [hone] at hprint
    exact ⟨out, hrun, (vprintfRun_spec h hrun).1, hprint⟩

/-- **What is printed and what is counted.** -/
theorem printAll_spec (h : w.sbuf.Wf) (hwrited : CInt.InRange w.writed)
    {res : Except Writing Writing} (hprint : Writing.printAll alloc texts w = some res) :
    ∃ w', res = .ok w' ∧
      Counted w w' (keptAll alloc w.uses w.sbuf texts) (surplusAll alloc w.uses w.sbuf texts) := by
  induction texts generalizing w with
  | nil =>
    obtain rfl := Option.some.inj hprint
    refine ⟨w, rfl, h, (List.append_nil _).symm, hwrited, 0, ?_⟩
    simp [keptAll, surplusAll]
  | cons text texts ih =>
    obtain ⟨out, hrun, hwf, hrest⟩ := printAll_cons h hprint
    obtain ⟨-, hcontents, hresult⟩ := vprintfRun_spec h hrun
    obtain ⟨w', rfl, hcounted⟩ := ih hwf (CInt.inRange_toInt _) hrest
    -- each sum may wrap around once more
    obtain ⟨k, hk⟩ := hcounted.writed
    obtain ⟨k', hk'⟩ := exists_toInt_eq (w.writed + out.result)
    refine ⟨w', rfl, hcounted.wf, ?_, hcounted.inRange, k + k', ?_⟩
    · rw [hcounted.contents, hcontents, List.append_assoc, keptAll, hrun]
    · rw [hk, keptAll, surplusAll, hrun, List.length_append]
      dsimp only
      rw [hk', hresult]
      push_cast
      ring

theorem length_keptAll_le (alloc : ℕ → Bool) (uses : ℕ) (b : SocketBuffer) (texts : List Bytes) :
    (keptAll alloc uses b texts).length ≤ texts.flatten.length := by
  induction texts generalizing uses b with
  | nil => exact Nat.le_refl 0
  | cons text texts ih =>
    have hone : (kept alloc uses b text).length ≤ text.length := by
      unfold kept
      split_ifs
      · exact Nat.le_refl _
      · exact Nat.zero_le _
    rw [keptAll, List.flatten_cons, List.length_append, List.length_append]
    cases b.vprintfRun alloc uses text with
    | none => exact Nat.add_le_add hone (Nat.zero_le _)
    | some out => exact Nat.add_le_add hone (ih out.uses out.sbuf)

/-- **All texts are kept** when each of them is printed. -/
theorem keptAll_eq_flatten_iff (h : w.sbuf.Wf) (hne : ∀ text ∈ texts, text ≠ [])
    {res : Except Writing Writing} (hprint : Writing.printAll alloc texts w = some res) :
    keptAll alloc w.uses w.sbuf texts = texts.flatten ↔
      EachText alloc (IsPrinted alloc) w.uses w.sbuf texts := by
  induction texts generalizing w with
  | nil => exact ⟨fun _ => trivial, fun _ => rfl⟩
  | cons text texts ih =>
    obtain ⟨out, hrun, hwf, hrest⟩ := printAll_cons h hprint
    have hih := ih hwf (fun t ht => hne t (List.mem_cons_of_mem text ht)) hrest
    have hpos := List.length_pos_iff.mpr (hne text List.mem_cons_self)
    rw [keptAll, hrun, List.flatten_cons]
    dsimp only
    by_cases hfits : IsPrinted alloc w.uses w.sbuf text
    · have hkept : kept alloc w.uses w.sbuf text = text := if_pos hfits
      rw [hkept, List.append_cancel_left_eq]
      constructor
      · intro hall
        refine ⟨hfits, fun out' hout => ?_⟩
        obtain rfl := Option.some.inj (hrun.symm.trans hout)
        exact hih.mp hall
      · intro heach
        exact hih.mpr (heach.2 out hrun)
    · -- a text that is missing is not made up for
      have hkept : kept alloc w.uses w.sbuf text = [] := if_neg hfits
      have hlen := length_keptAll_le alloc out.uses out.sbuf texts
      rw [hkept, List.nil_append]
      constructor
      · intro hall
        rw [hall, List.length_append] at hlen
        omega
      · intro heach
        exact absurd heach.1 hfits

/-- **Nothing is counted beside the texts** when no attempt fails for want of room. -/
theorem surplusAll_eq_zero_iff (h : w.sbuf.Wf) (hne : ∀ text ∈ texts, text ≠ [])
    {res : Except Writing Writing} (hprint : Writing.printAll alloc texts w = some res) :
    surplusAll alloc w.uses w.sbuf texts = 0 ↔
      EachText alloc (IsCountedOnce alloc) w.uses w.sbuf texts := by
  induction texts generalizing w with
  | nil => exact ⟨fun _ => trivial, fun _ => rfl⟩
  | cons text texts ih =>
    obtain ⟨out, hrun, hwf, hrest⟩ := printAll_cons h hprint
    have hih := ih hwf (fun t ht => hne t (List.mem_cons_of_mem text ht)) hrest
    have hpos := List.length_pos_iff.mpr (hne text List.mem_cons_self)
    -- a text that is not empty adds something when it is counted again
    have hone : surplus alloc w.uses w.sbuf text = 0 ↔ IsCountedOnce alloc w.uses w.sbuf text := by
      unfold surplus IsCountedOnce
      split_ifs with honce
      · exact ⟨fun _ => honce, fun _ => rfl⟩
      · exact ⟨fun hzero => absurd hzero (Nat.ne_of_gt hpos), fun hcase => absurd hcase honce⟩
    rw [surplusAll, hrun, Nat.add_eq_zero_iff, hone]
    dsimp only
    rw [hih]
    refine and_congr_right fun _ => ⟨fun heach out' hout => ?_, fun heach => heach out hrun⟩
    obtain rfl := Option.some.inj (hrun.symm.trans hout)
    exact heach

/-- A text that is counted twice is shorter than `2 ^ 30` bytes. -/
theorem surplus_lt (h : b.Wf) {text : Bytes} {out : Vprintf}
    (hrun : b.vprintfRun alloc uses text = some out) :
    surplus alloc uses b text < 1073741824 := by
  unfold surplus
  split_ifs with honce
  · exact Nat.succ_pos _
  · rw [not_or] at honce
    have hsome := (vprintfRun_isSome h).mp (Option.isSome_iff_exists.mpr ⟨out, hrun⟩)
    have hshift := (hsome.resolve_left honce.1).resolve_left honce.2
    have hlt := hshift.2
    omega

/-- A text that has room in 64 bytes is counted once. -/
theorem surplus_of_short (h : b.Wf) {text : Bytes} (hshort : text.length < 64) :
    surplus alloc uses b text = 0 := by
  refine if_pos ?_
  by_cases hgives : GivesUp alloc uses b text
  · exact Or.inl hgives
  · have hroom : (b.ensureWriteable (alloc uses) 64).2 = true := by
      unfold GivesUp at hgives
      rw [not_or, Bool.not_eq_false] at hgives
      exact hgives.1
    have hmin := (ensureWriteable_any h (alloc uses) 64).2.2 hroom
    exact Or.inr ⟨hgives, by omega⟩

/-- Some texts, and a short one behind them. -/
theorem surplusAll_le (h : w.sbuf.Wf) {last : Bytes} (hshort : last.length < 64)
    {res : Except Writing Writing}
    (hprint : Writing.printAll alloc (texts ++ [last]) w = some res) :
    surplusAll alloc w.uses w.sbuf (texts ++ [last]) ≤ texts.length * 1073741823 := by
  induction texts generalizing w with
  | nil =>
    obtain ⟨out, hrun, -, -⟩ := printAll_cons h hprint
    rw [List.nil_append, surplusAll, hrun, surplus_of_short h hshort]
    exact Nat.le_refl 0
  | cons text texts ih =>
    obtain ⟨out, hrun, hwf, hrest⟩ := printAll_cons h hprint
    have hone := surplus_lt h hrun
    have hih : surplusAll alloc out.uses out.sbuf (texts ++ [last]) ≤ texts.length * 1073741823 :=
      ih hwf hrest
    rw [List.cons_append, surplusAll, hrun, List.length_cons, Nat.succ_mul]
    dsimp only
    omega

end Counts

/-! ## Taking back -/

/-- **Taking back restores the buffer** when as many bytes are taken back as were appended. -/
theorem takeBack_iff {e b : SocketBuffer} {data : Bytes} {v : ℤ} (h : e.Wf)
    (hcontents : e.contents = b.contents ++ data) (hv : CInt.InRange v) :
    (takeBack (e, v)).Wf ∧ (takeBack (e, v)).contents = b.contents ↔ v = data.length := by
  have hread := h.read_le
  have hlen := length_contents h
  rw [hcontents, List.length_append] at hlen
  unfold readableLen at hlen
  constructor
  · rintro ⟨hwf, hsame⟩
    -- the write index is where it was
    have hidx := length_contents hwf
    have hread' := hwf.read_le
    rw [hsame] at hidx
    unfold readableLen takeBack setWriteIndex at hidx
    unfold takeBack setWriteIndex at hread'
    dsimp only at hidx hread'
    have hlow := hv.1
    have hhigh := hv.2
    split_ifs at hidx hread' <;> omega
  · rintro rfl
    have hle : data.length ≤ e.readableLen := by
      unfold readableLen
      omega
    obtain ⟨hwf, htaken⟩ := rollBack_spec h hle
    have hback : takeBack (e, (data.length : ℤ)) = e.setWriteIndex (e.writeIdx - data.length) := by
      unfold takeBack
      dsimp only
      congr 1
      rw [if_pos (by omega)]
      omega
    rw [hback]
    refine ⟨hwf, htaken.trans ?_⟩
    rw [hcontents, List.length_append, Nat.add_sub_cancel, List.take_left' rfl]

/-- **Taking back what was counted** restores the buffer when nothing was counted beside what was
appended, and that has a size in `int`. -/
theorem Counted.takeBack_iff {w w' : Writing} {data : Bytes} {extra : ℕ}
    (h : Counted w w' data extra) (hzero : w.writed = 0) (hextra : extra < 4294967296) :
    (takeBack (w'.sbuf, w'.writed)).Wf ∧
      (takeBack (w'.sbuf, w'.writed)).contents = w.sbuf.contents ↔
        extra = 0 ∧ data.length < 2147483648 := by
  obtain ⟨k, hk⟩ := h.writed
  have hlow := h.inRange.1
  have hhigh := h.inRange.2
  rw [Kimserver.takeBack_iff h.wf h.contents h.inRange]
  constructor
  · intro heq
    omega
  · rintro ⟨rfl, hlt⟩
    omega

/-! ## The body and the end -/

namespace Writing

/-- The body, where there is one. -/
def writeBody (alloc : ℕ → Bool) (body : Bytes) (w : Writing) : WriteResult :=
  if 0 < body.length then w.write alloc body else some (.ok w)

/-- The buffer behind the body, and how often `ensure_writeable` was used. -/
def behindBody (alloc : ℕ → Bool) (body : Bytes) (w : Writing) : SocketBuffer × ℕ :=
  if 0 < body.length then ((w.sbuf.write (alloc w.uses) body).1, w.uses + 1) else (w.sbuf, w.uses)

/-- The buffer behind the NUL. -/
def behindNul (alloc : ℕ → Bool) (body : Bytes) (w : Writing) : SocketBuffer :=
  ((behindBody alloc body w).1.write (alloc (behindBody alloc body w).2) [0]).1

/-- The body has room, and a size that is not negative as an `int`; and the NUL has room. -/
def Finishes (alloc : ℕ → Bool) (body : Bytes) (w : Writing) : Prop :=
  (0 < body.length → (w.sbuf.ensureWriteable (alloc w.uses) body.length).2 = true ∧
    0 ≤ CInt.toInt body.length) ∧
  ((behindBody alloc body w).1.ensureWriteable (alloc (behindBody alloc body w).2) 1).2 = true

instance (alloc : ℕ → Bool) (body : Bytes) (w : Writing) : Decidable (Finishes alloc body w) :=
  inferInstanceAs (Decidable ((_ → _ ∧ _) ∧ _))

end Writing

section Finish

variable {alloc : ℕ → Bool} {writer : HttpWriter} {w₀ w : Writing} {data body : Bytes} {extra : ℕ}
  {nul : SocketBuffer}

/-- `_write`, with memory or without. -/
theorem write_any {b : SocketBuffer} (h : b.Wf) (a : Bool) (data : Bytes) :
    (b.write a data).2 = (b.ensureWriteable a data.length).2 ∧ (b.write a data).1.Wf ∧
      (b.write a data).1.contents =
        b.contents ++ if (b.ensureWriteable a data.length).2 = true then data else [] := by
  obtain ⟨hwf, hcontents, -⟩ := ensureWriteable_any h a data.length
  unfold SocketBuffer.write
  cases hgrown : b.ensureWriteable a data.length with
  | mk grown ok =>
    rw [hgrown] at hwf hcontents
    cases ok with
    | false =>
      rw [if_neg Bool.false_ne_true, List.append_nil]
      exact ⟨rfl, hwf, hcontents⟩
    | true =>
      obtain ⟨hwf', hcontents'⟩ := put_spec hwf data
      rw [if_pos rfl, ← hcontents]
      exact ⟨rfl, hwf', hcontents'⟩

/-- How an end of `encode` compares with the buffer before it: the data and a NUL behind the
readable bytes, which is taken back, or an error that restores the buffer under some condition. -/
structure EndsWith (w₀ : Writing) (ok : Prop) (data : Bytes) (nul : SocketBuffer) (restored : Prop)
    (out : Encoded) : Prop where
  done : ok → out.status = .ok ∧ out.sbuf = nul.dropNul ∧ nul.Wf ∧
    nul.contents = w₀.sbuf.contents ++ data ++ [0]
  failed : ¬ ok → out.status = .err ∧ out.headers = ∅ ∧
    (out.sbuf.Wf ∧ out.sbuf.contents = w₀.sbuf.contents ↔ restored)

theorem EndsWith.congr {ok ok' restored restored' : Prop} {out : Encoded}
    (h : EndsWith w₀ ok data nul restored out) (hok : ok ↔ ok')
    (hrestored : restored ↔ restored') : EndsWith w₀ ok' data nul restored' out := by
  rw [← propext hok, ← propext hrestored]
  exact h

/-- A number of readable bytes behind those of another buffer. -/
theorem readableLen_lt_iff {b b₀ : SocketBuffer} (h : b.Wf) (h₀ : b₀.Wf) {data : Bytes}
    (hcontents : b.contents = b₀.contents ++ data) :
    b.readableLen < b₀.readableLen + 2147483648 ↔ data.length < 2147483648 := by
  rw [← length_contents h, ← length_contents h₀, hcontents, List.length_append]
  omega

/-- An error takes back what was counted. -/
theorem Counted.endsWith_err (h : Counted w₀ w data extra) (hzero : w₀.writed = 0)
    (hextra : extra < 4294967296) {ok : Prop} (hnot : ¬ ok) (data' : Bytes) (nul : SocketBuffer)
    (writer : HttpWriter) : EndsWith w₀ ok data' nul (extra = 0 ∧ data.length < 2147483648)
      ⟨.err, writer, ∅, takeBack (w.sbuf, w.writed)⟩ where
  done hok := absurd hok hnot
  failed _ := ⟨rfl, rfl, h.takeBack_iff hzero hextra⟩

/-- A use of `ensure_writeable` that got no memory leaves what was counted. -/
theorem Counted.refused (h : Counted w₀ w data extra) {b : SocketBuffer} (hwf : b.Wf)
    (hcontents : b.contents = w.sbuf.contents) (uses : ℕ) :
    Counted w₀ ⟨b, w.writed, uses⟩ data extra :=
  ⟨hwf, hcontents.trans h.contents, h.inRange, h.writed⟩

/-- A body that is written is counted. -/
theorem Counted.append (h : Counted w₀ w data extra) {b : SocketBuffer} (hwf : b.Wf)
    (hcontents : b.contents = w₀.sbuf.contents ++ (data ++ body)) (uses : ℕ) :
    Counted w₀ ⟨b, CInt.toInt (w.writed + CInt.toInt body.length), uses⟩ (data ++ body) extra := by
  obtain ⟨k, hk⟩ := h.writed
  obtain ⟨k', hk'⟩ := exists_toInt_eq body.length
  obtain ⟨k'', hk''⟩ := exists_toInt_eq (w.writed + CInt.toInt body.length)
  refine ⟨hwf, hcontents, CInt.inRange_toInt _, k + k' + k'', ?_⟩
  dsimp only
  rw [hk'', hk', hk, List.length_append]
  push_cast
  ring

/-- The NUL behind everything that was written. -/
theorem finish_ok (alloc : ℕ → Bool) (writer : HttpWriter) (h : Counted w₀ w data extra)
    (hzero : w₀.writed = 0) (hextra : extra < 4294967296) :
    ∃ out, Writing.finish alloc writer (some (.ok w)) = some out ∧
      EndsWith w₀ ((w.sbuf.ensureWriteable (alloc w.uses) 1).2 = true) data
        (w.sbuf.write (alloc w.uses) [0]).1 (extra = 0 ∧ data.length < 2147483648) out := by
  obtain ⟨hok, hwf, hcontents⟩ := write_any h.wf (alloc w.uses) [0]
  rw [List.length_singleton] at hok hcontents
  unfold Writing.finish
  dsimp only
  cases hnul : w.sbuf.write (alloc w.uses) [0] with
  | mk b ok =>
    rw [hnul] at hok hwf hcontents
    dsimp only at hok
    cases ok with
    | false =>
      rw [← hok, if_neg Bool.false_ne_true, List.append_nil] at hcontents
      rw [← hok]
      exact ⟨_, rfl, (h.refused hwf hcontents w.uses).endsWith_err hzero hextra
        Bool.false_ne_true data b writer⟩
    | true =>
      -- the NUL is taken back
      rw [← hok, if_pos rfl] at hcontents
      refine ⟨⟨.ok, writer, ∅, b.dropNul⟩, rfl, fun _ => ⟨rfl, rfl, hwf, ?_⟩,
        fun hnot => absurd hok.symm hnot⟩
      rw [← h.contents]
      exact hcontents

/-- A size that is negative as an `int`. -/
theorem le_of_toInt_neg {n : ℕ} (h : CInt.toInt n < 0) : 2147483648 ≤ n := by
  by_contra hlt
  rw [CInt.toInt_of_inRange (CInt.inRange_natCast (not_le.mp hlt))] at h
  omega

/-- A body whose size is negative as an `int` is written and not counted: it stays. -/
theorem Counted.endsWith_negative (h : Counted w₀ w data extra) (h₀ : w₀.sbuf.Wf)
    (hneg : CInt.toInt body.length < 0) {b : SocketBuffer} (hwf : b.Wf)
    (hcontents : b.contents = w₀.sbuf.contents ++ (data ++ body)) {ok : Prop} (hnot : ¬ ok)
    (nul : SocketBuffer) (writer : HttpWriter) : EndsWith w₀ ok (data ++ body) nul
      (extra = 0 ∧ b.readableLen < w₀.sbuf.readableLen + 2147483648)
      ⟨.err, writer, ∅, takeBack (b, w.writed)⟩ := by
  refine ⟨fun hok => absurd hok hnot, fun _ => ⟨rfl, rfl, ?_⟩⟩
  have hlarge := le_of_toInt_neg hneg
  have hhigh := h.inRange.2
  refine (Kimserver.takeBack_iff hwf hcontents h.inRange).trans ?_
  rw [readableLen_lt_iff hwf h₀ hcontents, List.length_append]
  -- both sides are false: no `int` is as large as the body
  constructor
  · intro heq
    omega
  · intro hlt
    omega

/-- **The body and the end.** -/
theorem finish_writeBody (alloc : ℕ → Bool) (writer : HttpWriter) (body : Bytes)
    (h₀ : w₀.sbuf.Wf) (h : Counted w₀ w data extra) (hzero : w₀.writed = 0)
    (hextra : extra < 4294967296) :
    ∃ out, Writing.finish alloc writer (w.writeBody alloc body) = some out ∧
      EndsWith w₀ (w.Finishes alloc body) (data ++ body) (w.behindNul alloc body)
        (extra = 0 ∧
          (w.behindBody alloc body).1.readableLen < w₀.sbuf.readableLen + 2147483648) out := by
  by_cases hbody : 0 < body.length
  · have hbehind : w.behindBody alloc body = ((w.sbuf.write (alloc w.uses) body).1, w.uses + 1) :=
      if_pos hbody
    have hwrite : w.writeBody alloc body = w.write alloc body := if_pos hbody
    obtain ⟨hok, hwf, hcontents⟩ := write_any h.wf (alloc w.uses) body
    unfold Writing.Finishes Writing.behindNul
    rw [hbehind, hwrite]
    unfold Writing.write
    cases hres : w.sbuf.write (alloc w.uses) body with
    | mk b ok =>
      rw [hres] at hok hwf hcontents
      dsimp only at hok hwf hcontents ⊢
      cases ok with
      | false =>
        -- `_write` returns -1: the lines are taken back
        rw [← hok, if_neg Bool.false_ne_true, List.append_nil] at hcontents
        have hback := h.refused hwf hcontents (w.uses + 1)
        refine ⟨⟨.err, writer, ∅, takeBack (b, w.writed)⟩, rfl,
          (hback.endsWith_err hzero hextra (fun hfin => ?_) (data ++ body) _ writer).congr
            Iff.rfl ?_⟩
        · exact absurd (hok.trans (hfin.1 hbody).1) Bool.false_ne_true
        · rw [readableLen_lt_iff hwf h₀ hback.contents]
      | true =>
        rw [← hok, if_pos rfl, h.contents, List.append_assoc] at hcontents
        dsimp only
        rcases lt_or_ge (CInt.toInt body.length) 0 with hneg | hnonneg
        · -- the body is written, and its size counts as an error
          have hcheck : w.check b (CInt.toInt body.length) (w.uses + 1) =
              .error ⟨b, w.writed, w.uses + 1⟩ := if_pos hneg
          rw [hcheck]
          exact ⟨_, rfl, h.endsWith_negative h₀ hneg hwf hcontents
            (fun hfin => absurd (hfin.1 hbody).2 (not_le.mpr hneg)) _ writer⟩
        · have hcheck : w.check b (CInt.toInt body.length) (w.uses + 1) =
              .ok ⟨b, CInt.toInt (w.writed + CInt.toInt body.length), w.uses + 1⟩ :=
            if_neg (not_lt.mpr hnonneg)
          obtain ⟨out, hout, hends⟩ :=
            finish_ok alloc writer (h.append hwf hcontents (w.uses + 1)) hzero hextra
          rw [hcheck]
          refine ⟨out, hout, hends.congr ?_ ?_⟩
          · exact ⟨fun hnul => ⟨fun _ => ⟨hok.symm, hnonneg⟩, hnul⟩, fun hfin => hfin.2⟩
          · rw [readableLen_lt_iff hwf h₀ hcontents]
  · -- no body: the lines are all there is
    have hnil : body = [] := List.eq_nil_of_length_eq_zero (Nat.eq_zero_of_not_pos hbody)
    have hbehind : w.behindBody alloc body = (w.sbuf, w.uses) := if_neg hbody
    have hwrite : w.writeBody alloc body = some (.ok w) := if_neg hbody
    obtain ⟨out, hout, hends⟩ := finish_ok alloc writer h hzero hextra
    unfold Writing.Finishes Writing.behindNul
    rw [hbehind, hwrite, hnil, List.append_nil]
    refine ⟨out, hout, hends.congr ?_ ?_⟩
    · exact ⟨fun hnul => ⟨fun hpos => absurd hpos (Nat.lt_irrefl 0), hnul⟩, fun hfin => hfin.2⟩
    · rw [readableLen_lt_iff h.wf h₀ h.contents]

end Finish

/-! ## The texts of a message -/

section PrintedTexts

variable {lib : HttpEncodeLib} {stray : ℕ} {codec : CodecHttp} {writer : HttpWriter}
  {msg : HttpMsg} {lines : List Bytes}

theorem length_natToDecimal_le {n : ℕ} (h : n < 4294967296) : (natToDecimal n).length ≤ 10 := by
  unfold natToDecimal
  split_ifs with hzero
  · exact Nat.succ_le_succ (Nat.zero_le 9)
  · rw [List.length_map, List.length_reverse, Nat.digits_length_le_iff (by norm_num)]
    exact h.trans (by norm_num)

/-- The line with the length is short. -/
theorem length_lengthLine_lt (body : Bytes) : (lengthLine body).length < 64 := by
  have hsize : (sizeText body.length).length ≤ 10 :=
    length_natToDecimal_le (Nat.mod_lt _ (by norm_num))
  have hname : (text "Content-Length: ").length = 16 := by decide
  have hend : crlf.length = 2 := rfl
  unfold lengthLine
  rw [List.length_append, List.length_append, List.length_append, hname, hend]
  omega

/-- A line with its end. -/
theorem append_crlf_ne_nil (line : Bytes) : line ++ crlf ≠ [] := by
  intro h
  exact absurd (List.append_eq_nil_iff.mp h).2 (by decide)

/-- The start of a message has at most two lines, that of a response one. -/
theorem startLines_length (h : startLines lib stray codec msg = some lines) :
    lines.length ≤ 2 ∧ (msg.type = httpResponse → lines.length ≤ 1) ∧
      ∀ line ∈ lines, line ≠ [] := by
  unfold startLines at h
  split_ifs at h with hrequest hresponse
  · -- a request has its line and the line with the host
    have hother : msg.type ≠ httpResponse := by
      rw [hrequest]
      decide
    unfold requestStart at h
    split_ifs at h
    cases hfields : lib.urlFields msg.url with
    | none =>
      rw [hfields] at h
      cases h
    | some f =>
      rw [hfields] at h
      dsimp only at h
      split_ifs at h
      obtain rfl := Option.some.inj h
      refine ⟨Nat.le_refl 2, fun htype => absurd htype hother, fun line hline => ?_⟩
      rw [List.mem_cons, List.mem_singleton] at hline
      rcases hline with rfl | rfl
      · exact append_crlf_ne_nil _
      · exact append_crlf_ne_nil _
  · -- a response has its line
    unfold responseStart at h
    split_ifs at h
    obtain rfl := Option.some.inj h
    refine ⟨Nat.le_succ 1, fun _ => Nat.le_refl 1, fun line hline => ?_⟩
    rw [List.mem_singleton.mp hline]
    exact append_crlf_ne_nil _
  · obtain rfl := Option.some.inj h
    exact ⟨Nat.zero_le 2, fun _ => Nat.zero_le 1, fun line hline => absurd hline List.not_mem_nil⟩

/-- Only a response has lines of the table, at most three. -/
theorem length_visit_le (lib : HttpEncodeLib) (codec : CodecHttp) (writer : HttpWriter)
    (msg : HttpMsg) : (lib.visit (printedHeaders lib codec writer msg)).length ≤ 3 ∧
    (msg.type ≠ httpResponse → lib.visit (printedHeaders lib codec writer msg) = []) := by
  -- what is in the table was put there for a response
  have hown : ∀ e ∈ lib.visit (printedHeaders lib codec writer msg),
      msg.type = httpResponse ∧ e.1 ∈ ownNames writer := by
    intro e he
    obtain ⟨own, hlookup, -⟩ := mem_printedHeaders.mp (show (e.1, e.2) ∈ _ from he)
    have hsome : ((ownHeaders codec writer msg).lookup e.1).isSome = true := by
      rw [hlookup]
      rfl
    exact (lookup_ownHeaders_isSome e.1).mp hsome
  constructor
  · -- no name is there twice
    have hsubset : (lib.visit (printedHeaders lib codec writer msg)).map Prod.fst ⊆
        [text "Allow", text "Server", text "Connection"] := by
      intro name hname
      obtain ⟨e, he, rfl⟩ := List.mem_map.mp hname
      exact mem_of_mem_ownNames (hown e he).2
    rw [← List.length_map (f := Prod.fst)]
    exact ((lib.enumerates _).1.subperm hsubset).length_le
  · intro htype
    exact List.eq_nil_iff_forall_not_mem.mpr fun e he => htype (hown e he).1

/-- In front of the line with the length there are at most four. -/
theorem length_front_le (h : startLines lib stray codec msg = some lines) :
    (lines ++ (lib.visit (printedHeaders lib codec writer msg)).map headerLine).length ≤ 4 := by
  obtain ⟨htwo, hone, -⟩ := startLines_length h
  obtain ⟨hthree, hnone⟩ := length_visit_le lib codec writer msg
  rw [List.length_append, List.length_map]
  by_cases htype : msg.type = httpResponse
  · have := hone htype
    omega
  · rw [hnone htype, List.length_nil]
    omega

theorem printedTexts_ne_nil (h : startLines lib stray codec msg = some lines) :
    ∀ text ∈ printedTexts lib codec writer lines msg, text ≠ [] := by
  intro text htext
  unfold printedTexts at htext
  rw [List.mem_append, List.mem_append] at htext
  rcases htext with (hline | hheader) | hlength
  · exact (startLines_length h).2.2 text hline
  · obtain ⟨e, -, rfl⟩ := List.mem_map.mp hheader
    exact append_crlf_ne_nil _
  · rw [List.mem_singleton.mp hlength]
    exact append_crlf_ne_nil _

end PrintedTexts

/-! ## The calls -/

section Call

variable {lib : HttpEncodeLib} {stray : ℕ} {alloc : ℕ → Bool} {codec : CodecHttp}
  {writer : HttpWriter} {msg : HttpOut} {sbuf : SocketBuffer} {lines : List Bytes}

theorem andThen_assoc (res : WriteResult) (f g : Writing → WriteResult) :
    Writing.andThen (Writing.andThen res f) g =
      Writing.andThen res fun w => Writing.andThen (f w) g := by
  cases res with
  | none => rfl
  | some res => cases res <;> rfl

theorem andThen_ok (res : WriteResult) : Writing.andThen res (fun w => some (.ok w)) = res := by
  cases res with
  | none => rfl
  | some res => cases res <;> rfl

theorem printAll_append (texts texts' : List Bytes) (w : Writing) :
    Writing.printAll alloc (texts ++ texts') w =
      Writing.andThen (Writing.printAll alloc texts w) (Writing.printAll alloc texts') := by
  induction texts generalizing w with
  | nil => rfl
  | cons text texts ih =>
    rw [List.cons_append, Writing.printAll, Writing.printAll, andThen_assoc]
    congr 1
    exact funext ih

/-- Without the encodings that are never asked for, the length is printed, and the body written. -/
theorem printBody_eq (w : Writing) :
    w.printBody alloc lib false false msg =
      Writing.andThen (Writing.printAll alloc [lengthLine msg.body] w)
        (Writing.writeBody alloc msg.body) := by
  have hone : Writing.printAll alloc [lengthLine msg.body] w =
      w.print alloc (lengthLine msg.body) := andThen_ok _
  rw [hone]
  unfold Writing.printBody Writing.writeBody
  by_cases hbody : 0 < msg.body.length
  · rw [if_pos hbody, Bool.false_and, if_neg Bool.false_ne_true, if_neg Bool.false_ne_true]
    simp only [if_pos hbody]
  · have hnil : msg.body = [] := List.length_eq_zero_iff.mp (Nat.eq_zero_of_not_pos hbody)
    have hline : text "Content-Length: 0" ++ crlf ++ crlf = lengthLine [] := by decide
    rw [if_neg hbody, if_neg Bool.false_ne_true, hline, hnil]
    exact (andThen_ok _).symm

/-- **What `encode` does** with a message whose first lines can be made. -/
theorem CodecHttp.encodeWithin_eq (hmajor : msg.httpMajor ≠ 0)
    (hstart : startLines lib stray codec msg.toHttpMsg = some lines) :
    codec.encodeWithin lib stray alloc writer msg sbuf =
      Writing.finish alloc (writer.count codec)
        (Writing.andThen
          (Writing.printAll alloc
            (printedTexts lib codec (writer.count codec) lines msg.toHttpMsg) { sbuf := sbuf })
          (Writing.writeBody alloc msg.body)) := by
  obtain ⟨hgzip, hchunked⟩ := not_mem_ownNames (writer.count codec)
  unfold CodecHttp.encodeWithin printedTexts
  simp only [if_neg hmajor, hstart, List.contains_eq_mem, not_mem_printedHeaders hgzip,
    not_mem_printedHeaders hchunked, decide_false]
  rw [printAll_append _ [lengthLine msg.body], andThen_assoc]
  congr 2
  exact funext fun w => printBody_eq w

/-- The calls that are all or nothing: nothing is printed; or the body and the NUL have room, every
text is printed, and the write index behind them is below `2 ^ 31`; or they have none, no text needs
a second attempt, and what is taken back is shorter than `2 ^ 31` bytes. -/
def CodecHttp.KeepsCount (lib : HttpEncodeLib) (stray : ℕ) (alloc : ℕ → Bool)
    (codec : CodecHttp) (writer : HttpWriter) (msg : HttpOut) (sbuf : SocketBuffer) : Prop :=
  msg.httpMajor = 0 ∨ startLines lib stray codec msg.toHttpMsg = none ∨
    ∃ lines w, startLines lib stray codec msg.toHttpMsg = some lines ∧
      Writing.printAll alloc
        (printedTexts lib codec (writer.count codec) lines msg.toHttpMsg) { sbuf := sbuf } =
          some (.ok w) ∧
      ((w.Finishes alloc msg.body ∧
          EachText alloc (IsPrinted alloc) 0 sbuf
            (printedTexts lib codec (writer.count codec) lines msg.toHttpMsg) ∧
          codec.nulIndex lib stray writer msg sbuf < 2147483648) ∨
        (¬ w.Finishes alloc msg.body ∧
          EachText alloc (IsCountedOnce alloc) 0 sbuf
            (printedTexts lib codec (writer.count codec) lines msg.toHttpMsg) ∧
          (w.behindBody alloc msg.body).1.readableLen < sbuf.readableLen + 2147483648))

/-- Texts that are all printed are printed as without failures. -/
theorem printAll_printed {texts : List Bytes} {w w' : Writing} (h : w.sbuf.Wf)
    (hprint : Writing.printAll alloc texts w = some (.ok w'))
    (heach : EachText alloc (IsPrinted alloc) w.uses w.sbuf texts) :
    w'.sbuf = w.sbuf.printLines texts := by
  induction texts generalizing w with
  | nil =>
    obtain rfl := Except.ok.inj (Option.some.inj hprint)
    rfl
  | cons text texts ih =>
    obtain ⟨out, hrun, hwf, hrest⟩ := printAll_cons h hprint
    have hsame := vprintfRun_of_printed h heach.1 hrun
    rw [ih hwf hrest (heach.2 out hrun)]
    dsimp only
    rw [hsame]
    rfl

/-- A write that gets its room is one with memory. -/
theorem write_of_ok {b : SocketBuffer} {a : Bool} {data : Bytes}
    (hok : (b.ensureWriteable a data.length).2 = true) : b.write a data = b.write true data := by
  unfold SocketBuffer.write
  rw [ensureWriteable_of_ok hok]

/-- So are the body and the NUL. -/
theorem Writing.Finishes.behindNul_eq {w : Writing} {body : Bytes} (h : w.Finishes alloc body) :
    w.behindNul alloc body = w.sbuf.writeNul body := by
  have hbody : (w.behindBody alloc body).1 = (w.sbuf.write true body).1 := by
    unfold behindBody
    by_cases hpos : 0 < body.length
    · rw [if_pos hpos, write_of_ok (h.1 hpos).1]
    · rw [if_neg hpos, List.length_eq_zero_iff.mp (Nat.eq_zero_of_not_pos hpos), write_nil]
  unfold behindNul SocketBuffer.writeNul
  rw [write_of_ok h.2, hbody]

/-- **The write index behind the NUL**, where everything is printed. -/
theorem behindNul_writeIdx {w : Writing} (h : sbuf.Wf)
    (hstart : startLines lib stray codec msg.toHttpMsg = some lines)
    (hprint : Writing.printAll alloc
      (printedTexts lib codec (writer.count codec) lines msg.toHttpMsg) { sbuf := sbuf } =
        some (.ok w)) (hfin : w.Finishes alloc msg.body)
    (hprinted : EachText alloc (IsPrinted alloc) 0 sbuf
      (printedTexts lib codec (writer.count codec) lines msg.toHttpMsg)) :
    (w.behindNul alloc msg.body).writeIdx = codec.nulIndex lib stray writer msg sbuf := by
  have hsbuf := printAll_printed (w := { sbuf := sbuf }) h hprint hprinted
  rw [hfin.behindNul_eq, hsbuf, CodecHttp.nulIndex_eq hstart]
  exact (writeNul_spec h _ msg.body).2.2

/-- What was counted beside the texts of a message is less than a turn of the sum. -/
theorem surplusAll_printedTexts_lt (h : sbuf.Wf)
    (hstart : startLines lib stray codec msg.toHttpMsg = some lines) {res : Except Writing Writing}
    (hprint : Writing.printAll alloc (printedTexts lib codec writer lines msg.toHttpMsg)
      { sbuf := sbuf } = some res) :
    surplusAll alloc 0 sbuf (printedTexts lib codec writer lines msg.toHttpMsg) < 4294967296 := by
  have hfront : (lines ++ (lib.visit (printedHeaders lib codec writer msg.toHttpMsg)).map
      headerLine).length ≤ 4 := length_front_le hstart
  have hle := surplusAll_le (w := { sbuf := sbuf }) h (length_lengthLine_lt msg.body) hprint
  have hfour := Nat.mul_le_mul_right 1073741823 hfront
  exact lt_of_le_of_lt (hle.trans hfour) (by norm_num)

/-- Where nothing is printed, the buffer is as it was. -/
theorem CodecHttp.allOrNothing_of_nothing (h : sbuf.Wf) (hnothing : msg.httpMajor = 0 ∨
    startLines lib stray codec msg.toHttpMsg = none) :
    codec.AllOrNothing lib stray alloc writer msg sbuf := by
  by_cases hmajor : msg.httpMajor = 0
  · refine ⟨⟨.err, writer.count codec, ∅, sbuf⟩, if_pos hmajor, h, Or.inr ⟨rfl, rfl, rfl⟩⟩
  · have hstart := hnothing.resolve_left hmajor
    have hsame : takeBack (sbuf, 0) = sbuf := by
      unfold takeBack setWriteIndex
      simp
    refine ⟨⟨.err, writer.count codec, ∅, sbuf⟩, ?_, h, Or.inr ⟨rfl, rfl, rfl⟩⟩
    unfold CodecHttp.encodeWithin
    simp only [if_neg hmajor, hstart, hsame]

/-- How a call ends that prints something. -/
theorem CodecHttp.encodeWithin_ends (h : sbuf.Wf) (hmajor : msg.httpMajor ≠ 0)
    (hstart : startLines lib stray codec msg.toHttpMsg = some lines) {res : Except Writing Writing}
    (hprint : Writing.printAll alloc
      (printedTexts lib codec (writer.count codec) lines msg.toHttpMsg) { sbuf := sbuf } =
        some res) :
    ∃ w out, res = .ok w ∧ codec.encodeWithin lib stray alloc writer msg sbuf = some out ∧
      EndsWith { sbuf := sbuf } (w.Finishes alloc msg.body)
        (keptAll alloc 0 sbuf (printedTexts lib codec (writer.count codec) lines msg.toHttpMsg) ++
          msg.body) (w.behindNul alloc msg.body)
        (surplusAll alloc 0 sbuf
            (printedTexts lib codec (writer.count codec) lines msg.toHttpMsg) = 0 ∧
          (w.behindBody alloc msg.body).1.readableLen < sbuf.readableLen + 2147483648) out := by
  -- four lines add less than a turn of the sum
  have hextra := surplusAll_printedTexts_lt h hstart hprint
  obtain ⟨w, rfl, hcounted⟩ := printAll_spec (w := { sbuf := sbuf }) h
    CInt.inRange_zero hprint
  obtain ⟨out, hout, hends⟩ :=
    finish_writeBody alloc (writer.count codec) msg.body h hcounted rfl hextra
  refine ⟨w, out, rfl, ?_, hends⟩
  rw [encodeWithin_eq hmajor hstart, hprint]
  exact hout

/-- **A call that reaches its end** leaves the message where every text is printed, and the write
index behind them is an `int`. -/
theorem EndsWith.message_iff {w : Writing} {out : Encoded} {restored : Prop} (h : sbuf.Wf)
    (hstart : startLines lib stray codec msg.toHttpMsg = some lines)
    (hprint : Writing.printAll alloc
      (printedTexts lib codec (writer.count codec) lines msg.toHttpMsg) { sbuf := sbuf } =
        some (.ok w))
    (hends : EndsWith { sbuf := sbuf } (w.Finishes alloc msg.body)
      (keptAll alloc 0 sbuf (printedTexts lib codec (writer.count codec) lines msg.toHttpMsg) ++
        msg.body) (w.behindNul alloc msg.body) restored out)
    (hfin : w.Finishes alloc msg.body) (hmem : out.sbuf.InMemory) :
    out.sbuf.Wf ∧ out.sbuf.contents = sbuf.contents ++
        encodedText lib codec (writer.count codec) lines msg.toHttpMsg ↔
      EachText alloc (IsPrinted alloc) 0 sbuf
          (printedTexts lib codec (writer.count codec) lines msg.toHttpMsg) ∧
        codec.nulIndex lib stray writer msg sbuf < 2147483648 := by
  obtain ⟨-, hout, hwf, hcontents⟩ := hends.done hfin
  have hkept := length_keptAll_le alloc 0 sbuf
    (printedTexts lib codec (writer.count codec) lines msg.toHttpMsg)
  have heach := keptAll_eq_flatten_iff (w := { sbuf := sbuf }) h (printedTexts_ne_nil hstart) hprint
  rw [hout, inMemory_dropNul] at hmem
  rw [hout, dropNul_iff hwf hcontents hmem, encodedText_eq, List.append_cancel_left_eq,
    List.append_cancel_right_eq, heach]
  · exact and_congr_right fun hprinted => by
      rw [behindNul_writeIdx h hstart hprint hfin hprinted]
  · rw [encodedText_eq]
    simp only [List.length_append]
    exact Nat.add_le_add_left (Nat.add_le_add_right hkept _) _

/-- **Encoding is all or nothing** in exactly these calls. -/
theorem CodecHttp.allOrNothing_iff (lib : HttpEncodeLib) (stray : ℕ) (alloc : ℕ → Bool)
    (codec : CodecHttp) (writer : HttpWriter) (msg : HttpOut) (h : sbuf.Wf)
    (hmem : ∀ out, codec.encodeWithin lib stray alloc writer msg sbuf = some out →
      out.sbuf.InMemory) :
    codec.AllOrNothing lib stray alloc writer msg sbuf ↔
      codec.KeepsCount lib stray alloc writer msg sbuf := by
  by_cases hnothing : msg.httpMajor = 0 ∨ startLines lib stray codec msg.toHttpMsg = none
  · exact ⟨fun _ => hnothing.imp_right Or.inl, fun _ => allOrNothing_of_nothing h hnothing⟩
  · rw [not_or] at hnothing
    obtain ⟨lines, hstart⟩ := Option.ne_none_iff_exists'.mp hnothing.2
    have hne : ∀ text ∈ printedTexts lib codec (writer.count codec) lines msg.toHttpMsg,
        text ≠ [] := printedTexts_ne_nil hstart
    constructor
    · rintro ⟨out, hout, hwf, hwhole⟩
      refine Or.inr (Or.inr ?_)
      -- a call that returns has printed all of its texts, kept or not
      cases hprint : Writing.printAll alloc
          (printedTexts lib codec (writer.count codec) lines msg.toHttpMsg) { sbuf := sbuf } with
      | none =>
        rw [encodeWithin_eq hnothing.1 hstart, hprint] at hout
        cases hout
      | some res =>
        obtain ⟨w, out', rfl, hout', hends⟩ := encodeWithin_ends h hnothing.1 hstart hprint
        obtain rfl := Option.some.inj (hout.symm.trans hout')
        refine ⟨lines, w, hstart, hprint, ?_⟩
        by_cases hfin : w.Finishes alloc msg.body
        · -- the end is reached: nothing of the message may be missing
          refine Or.inl ⟨hfin, ?_⟩
          rcases hwhole with ⟨-, lines', hstart', htext⟩ | ⟨herr, -, -⟩
          · obtain rfl := Option.some.inj (hstart.symm.trans hstart')
            exact (hends.message_iff h hstart hprint hfin (hmem out hout)).mp ⟨hwf, htext⟩
          · rw [(hends.done hfin).1] at herr
            cases herr
        · -- the end is not reached: as much must be taken back as was kept
          obtain ⟨herr, -, hrestored⟩ := hends.failed hfin
          rcases hwhole with ⟨hok, -⟩ | ⟨-, hsame, -⟩
          · rw [herr] at hok
            cases hok
          · obtain ⟨hzero, hlt⟩ := hrestored.mp ⟨hwf, hsame⟩
            exact Or.inr ⟨hfin,
              (surplusAll_eq_zero_iff (w := { sbuf := sbuf }) h hne hprint).mp hzero, hlt⟩
    · rintro (hmajor | hnone | ⟨lines', w, hstart', hprint, hcase⟩)
      · exact absurd hmajor hnothing.1
      · exact absurd hnone hnothing.2
      · obtain rfl := Option.some.inj (hstart.symm.trans hstart')
        obtain ⟨w', out, hw, hout, hends⟩ := encodeWithin_ends h hnothing.1 hstart hprint
        obtain rfl := Except.ok.inj hw
        refine ⟨out, hout, ?_⟩
        rcases hcase with ⟨hfin, hall⟩ | ⟨hfin, honce, hlt⟩
        · -- every text was printed, so all of them are in front of the body
          obtain ⟨hwf, htext⟩ :=
            (hends.message_iff h hstart hprint hfin (hmem out hout)).mpr hall
          exact ⟨hwf, Or.inl ⟨(hends.done hfin).1, lines, hstart, htext⟩⟩
        · -- no text was counted twice, so the count is what was kept
          obtain ⟨herr, hheaders, hrestored⟩ := hends.failed hfin
          have hzero := (surplusAll_eq_zero_iff (w := { sbuf := sbuf }) h hne hprint).mpr honce
          obtain ⟨hwf, hsame⟩ := hrestored.mpr ⟨hzero, hlt⟩
          exact ⟨hwf, Or.inr ⟨herr, hsame, hheaders⟩⟩

end Call

/-! ## A request without memory -/

/-- Code that takes paths for urls. -/
def pathLib : HttpEncodeLib := oneTextLib getText

/-- `GET` of HTTP/1.1. -/
def getRequest (url body : Bytes) : HttpOut where
  type := httpRequest
  httpMajor := 1
  httpMinor := 1
  method := 1
  url := url
  body := body

/-- The first lines of a request. -/
def getLines (url : Bytes) : List Bytes :=
  [text "GET " ++ url ++ text " HTTP/1.1" ++ crlf, text "Host: " ++ url ++ text ":80" ++ crlf]

/-- A path of 300 bytes. -/
def longPath : Bytes := 47 :: List.replicate 299 98

/-- 40 bytes that wait to be sent, in a buffer of 64. -/
def waitingBytes : SocketBuffer := ⟨List.replicate 64 97, 0, 40⟩

theorem waitingBytes_wf : waitingBytes.Wf := ⟨Nat.zero_le _, by decide⟩

section GetRequest

variable {alloc : ℕ → Bool} {url body : Bytes} {sbuf : SocketBuffer}

theorem major_getRequest : (getRequest url body).httpMajor ≠ 0 := by
  change (1 : ℤ) ≠ 0
  decide

/-- A request has no lines of the table. -/
theorem printedTexts_getRequest (writer : HttpWriter) :
    printedTexts pathLib {} writer (getLines url) (getRequest url body).toHttpMsg =
      getLines url ++ [lengthLine body] := by
  have htype : (getRequest url body).toHttpMsg.type ≠ httpResponse := by
    change httpRequest ≠ httpResponse
    decide
  rw [printedTexts, (length_visit_le _ _ _ _).2 htype, List.map_nil, List.append_nil]
  rfl

/-- What `encode` does with a request. -/
theorem encodeWithin_getRequest
    (hstart : startLines pathLib 0 {} (getRequest url body).toHttpMsg = some (getLines url)) :
    CodecHttp.encodeWithin pathLib 0 alloc {} {} (getRequest url body) sbuf =
      Writing.finish alloc ⟨1, true⟩
        (Writing.andThen (Writing.printAll alloc (getLines url ++ [lengthLine body])
          { sbuf := sbuf }) (Writing.writeBody alloc body)) := by
  rw [CodecHttp.encodeWithin_eq major_getRequest hstart, printedTexts_getRequest]
  rfl

/-- The write index behind a request. -/
theorem nulIndex_getRequest
    (hstart : startLines pathLib 0 {} (getRequest url body).toHttpMsg = some (getLines url)) :
    CodecHttp.nulIndex pathLib 0 {} {} (getRequest url body) sbuf =
      sbuf.nulIndex (getLines url ++ [lengthLine body]) body := by
  rw [CodecHttp.nulIndex_eq hstart, printedTexts_getRequest]
  rfl

end GetRequest

/-- With memory a request with a body is appended. Without memory for a long body its three lines
are taken back. -/
theorem allOrNothing_getRequest :
    CodecHttp.AllOrNothing pathLib 0 (fun _ => true) {} {} (getRequest (text "/a") [120, 10, 121])
        waitingBytes ∧
      CodecHttp.AllOrNothing pathLib 0 (fun use => use != 3) {} {}
        (getRequest (text "/a") (List.replicate 200 99)) waitingBytes := by
  have hstart : ∀ body ∈ [[120, 10, 121], List.replicate 200 99],
      startLines pathLib 0 {} (getRequest (text "/a") body).toHttpMsg =
        some (getLines (text "/a")) := by decide +kernel
  constructor
  · have hfirst := hstart [120, 10, 121] (by decide)
    refine (CodecHttp.allOrNothing_iff pathLib 0 (fun _ => true) {} {} _ waitingBytes_wf ?_).mpr
      (Or.inr (Or.inr ⟨getLines (text "/a"), ⟨waitingBytes.printLines (getLines (text "/a") ++
        [lengthLine [120, 10, 121]]), 51, 3⟩, hfirst, ?_, Or.inl ⟨?_, ?_, ?_⟩⟩))
    · rw [encodeWithin_getRequest hfirst]
      decide +kernel
    · rw [printedTexts_getRequest]
      decide +kernel
    · decide +kernel
    · rw [printedTexts_getRequest]
      decide +kernel
    · rw [nulIndex_getRequest hfirst]
      decide +kernel
  · have hsecond := hstart (List.replicate 200 99) (by decide)
    refine (CodecHttp.allOrNothing_iff pathLib 0 (fun use => use != 3) {} {} _
      waitingBytes_wf ?_).mpr (Or.inr (Or.inr ⟨getLines (text "/a"),
        ⟨waitingBytes.printLines (getLines (text "/a") ++ [lengthLine (List.replicate 200 99)]),
          53, 3⟩, hsecond, ?_, Or.inr ⟨?_, ?_, ?_⟩⟩))
    · rw [encodeWithin_getRequest hsecond]
      decide +kernel
    · rw [printedTexts_getRequest]
      decide +kernel
    · decide +kernel
    · rw [printedTexts_getRequest]
      decide +kernel
    · decide +kernel

/-- **Encoding is not all or nothing.** Where there is no memory, nothing is printed of a request,
and that is no error. Where there is none for the body alone, a line that needed a second attempt
was counted twice, and more is taken back than was ever in the buffer. -/
theorem not_allOrNothing_noMemory :
    ¬ CodecHttp.AllOrNothing pathLib 0 (fun _ => false) {} {} (getRequest (text "/a") [])
        waitingBytes ∧
      ¬ CodecHttp.AllOrNothing pathLib 0 (fun use => use != 4) {} {}
        (getRequest longPath (List.replicate 1000 99)) waitingBytes := by
  constructor
  · rintro ⟨out, hout, -, hwhole⟩
    have hstart : startLines pathLib 0 {} (getRequest (text "/a") []).toHttpMsg =
        some (getLines (text "/a")) := by decide +kernel
    have hrun : (Writing.finish (fun _ => false) ⟨1, true⟩
        (Writing.andThen (Writing.printAll (fun _ => false)
          (getLines (text "/a") ++ [lengthLine []]) { sbuf := waitingBytes })
          (Writing.writeBody (fun _ => false) []))).map
            (fun out => (out.status, out.sbuf.contents)) =
          some (.ok, waitingBytes.contents) := by decide +kernel
    rw [← encodeWithin_getRequest hstart, hout] at hrun
    obtain ⟨hok, hsame⟩ := Prod.mk.inj (Option.some.inj hrun)
    rcases hwhole with ⟨-, lines, -, hcontents⟩ | ⟨herr, -, -⟩
    · -- the line with the length is missing
      rw [hsame, List.self_eq_append_right, encodedText_eq, List.append_eq_nil_iff,
        List.flatten_eq_nil_iff] at hcontents
      exact append_crlf_ne_nil _ (hcontents.1 (lengthLine [])
        (List.mem_append_right _ (List.mem_singleton_self _)))
    · rw [hok] at herr
      cases herr
  · rintro ⟨out, hout, hwf, -⟩
    have hstart : startLines pathLib 0 {}
        (getRequest longPath (List.replicate 1000 99)).toHttpMsg = some (getLines longPath) := by
      decide +kernel
    have hrun : (Writing.finish (fun use => use != 4) ⟨1, true⟩
        (Writing.andThen (Writing.printAll (fun use => use != 4)
          (getLines longPath ++ [lengthLine (List.replicate 1000 99)]) { sbuf := waitingBytes })
          (Writing.writeBody (fun use => use != 4) (List.replicate 1000 99)))).map
            (fun out => decide (out.sbuf.writeIdx ≤ out.sbuf.buffer.length)) = some false := by
      decide +kernel
    rw [← encodeWithin_getRequest hstart, hout] at hrun
    exact of_decide_eq_false (Option.some.inj hrun) hwf.write_le

end Kimserver
