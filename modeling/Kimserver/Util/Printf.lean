import Kimserver.Util.ByteQueue

/-!
# Printing, attempt by attempt

The loop of `_vprintf` as the code runs it: its result is an `int`, each use of `ensure_writeable`
may fail, and the size that it asks for after an attempt that did not fit is `sz << 1`, which is
no `int` for a text of `2 ^ 30` bytes or more. What such a shift does is not defined.

The result is the sum of what `vsnprintf` returned in all attempts, the ones that did not fit
included.

## Main definitions

* `SocketBuffer.vprintfAttempts`, `SocketBuffer.vprintfRun`: the loop, and `_vprintf`
* `SocketBuffer.GivesUp`, `SocketBuffer.FitsAtOnce`, `SocketBuffer.FitsLater`: what becomes of a
  text
* `SocketBuffer.PrintsExactly`: a text is printed and counted once

## Main results

* `SocketBuffer.vprintfAttempts_two`: there is no third attempt
* `SocketBuffer.vprintfRun_true`, `SocketBuffer.vprintfRun_of_printed`: without failures, and
  where the text is printed, it is appended as by `vprintf`
* `SocketBuffer.printsExactly_iff`: the texts that are counted once
-/

namespace Kimserver

namespace SocketBuffer

/-- What `_vprintf` leaves: the buffer, the result, and how often `ensure_writeable` was used. -/
structure Vprintf where
  sbuf : SocketBuffer
  result : ℤ
  uses : ℕ
  deriving DecidableEq

/-- The loop of `_vprintf` in at most `fuel` attempts. `alloc` says which uses of
`ensure_writeable` get memory. A text that has no length in `int` makes `vsnprintf` fail. There is
no value where more attempts are needed, and where `sz << 1` has none. -/
def vprintfAttempts (alloc : ℕ → Bool) (text : Bytes) :
    ℕ → ℕ → SocketBuffer → ℤ → Option Vprintf
  | 0, _, _, _ => none
  | fuel + 1, uses, b, result =>
    let b := b.vsnprintf text
    if ¬ CInt.InRange text.length then some ⟨b, result, uses⟩
    else
      let result := result + text.length
      if text.length < b.writeableLen then
        some ⟨{ b with writeIdx := b.writeIdx + text.length }, result, uses⟩
      else if ¬ CInt.InRange (text.length * 2) then none
      else
        match b.ensureWriteable (alloc uses) (text.length * 2) with
        | (b, false) => some ⟨b, result, uses + 1⟩
        | (b, true) => vprintfAttempts alloc text fuel (uses + 1) b result

/-- `_vprintf` and `_printf` of a text, when `ensure_writeable` was used `uses` times before. -/
def vprintfRun (alloc : ℕ → Bool) (uses : ℕ) (b : SocketBuffer) (text : Bytes) : Option Vprintf :=
  match b.ensureWriteable (alloc uses) 64 with
  | (b, false) => some ⟨b, 0, uses + 1⟩
  | (b, true) => vprintfAttempts alloc text 2 (uses + 1) b 0

/-! ## Growth that may fail -/

variable {alloc : ℕ → Bool} {b : SocketBuffer} {text : Bytes} {uses : ℕ}

/-- A use of `ensure_writeable`, with memory or without. -/
theorem ensureWriteable_any (h : b.Wf) (a : Bool) (min : ℕ) :
    (b.ensureWriteable a min).1.Wf ∧ (b.ensureWriteable a min).1.contents = b.contents ∧
      ((b.ensureWriteable a min).2 = true → min ≤ (b.ensureWriteable a min).1.writeableLen) := by
  cases a with
  | true =>
    obtain ⟨-, hwf, hcontents, hmin⟩ := ensureWriteable_spec h min
    exact ⟨hwf, hcontents, fun _ => hmin⟩
  | false =>
    unfold ensureWriteable
    by_cases hroom : min ≤ b.writeableLen
    · rw [if_pos hroom]
      exact ⟨h, rfl, fun _ => hroom⟩
    · rw [if_neg hroom]
      dsimp only
      rw [compact_of_lt (not_le.mp hroom), ite_self, if_neg Bool.false_ne_true]
      exact ⟨h, rfl, fun hok => absurd hok Bool.false_ne_true⟩

/-- A use of `ensure_writeable` that gets its room is one with memory. -/
theorem ensureWriteable_of_ok {a : Bool} {min : ℕ} (hok : (b.ensureWriteable a min).2 = true) :
    b.ensureWriteable a min = b.ensureWriteable true min := by
  cases a with
  | true => rfl
  | false =>
    unfold ensureWriteable at hok ⊢
    by_cases hroom : min ≤ b.writeableLen
    · rw [if_pos hroom, if_pos hroom]
    · rw [if_neg hroom] at hok
      dsimp only at hok
      rw [compact_of_lt (not_le.mp hroom), ite_self, if_neg Bool.false_ne_true] at hok
      cases hok

/-! ## What becomes of a text -/

/-- There is no room for 64 bytes, or `vsnprintf` fails. -/
def GivesUp (alloc : ℕ → Bool) (uses : ℕ) (b : SocketBuffer) (text : Bytes) : Prop :=
  (b.ensureWriteable (alloc uses) 64).2 = false ∨ ¬ CInt.InRange text.length

/-- The text and a NUL have room behind the write index when 64 bytes were asked for. -/
def FitsAtOnce (alloc : ℕ → Bool) (uses : ℕ) (b : SocketBuffer) (text : Bytes) : Prop :=
  ¬ GivesUp alloc uses b text ∧
    text.length < (b.ensureWriteable (alloc uses) 64).1.writeableLen

/-- The text has no room, and it gets the room that is asked for then. -/
def FitsLater (alloc : ℕ → Bool) (uses : ℕ) (b : SocketBuffer) (text : Bytes) : Prop :=
  ¬ GivesUp alloc uses b text ∧ ¬ FitsAtOnce alloc uses b text ∧
    CInt.InRange (text.length * 2) ∧
      (((b.ensureWriteable (alloc uses) 64).1.vsnprintf text).ensureWriteable (alloc (uses + 1))
        (text.length * 2)).2 = true

instance : Decidable (GivesUp alloc uses b text) := inferInstanceAs (Decidable (_ ∨ _))

instance : Decidable (FitsAtOnce alloc uses b text) := inferInstanceAs (Decidable (_ ∧ _))

instance : Decidable (FitsLater alloc uses b text) := inferInstanceAs (Decidable (_ ∧ _))

/-- The part of the text that stays in the buffer. -/
def kept (alloc : ℕ → Bool) (uses : ℕ) (b : SocketBuffer) (text : Bytes) : Bytes :=
  if FitsAtOnce alloc uses b text ∨ FitsLater alloc uses b text then text else []

/-- How much an attempt that did not fit adds to the result. -/
def surplus (alloc : ℕ → Bool) (uses : ℕ) (b : SocketBuffer) (text : Bytes) : ℕ :=
  if GivesUp alloc uses b text ∨ FitsAtOnce alloc uses b text then 0 else text.length

/-- The buffer after an attempt that fits. -/
def printInto (b : SocketBuffer) (text : Bytes) : SocketBuffer :=
  { b.vsnprintf text with writeIdx := b.writeIdx + text.length }

/-! ## The attempts -/

/-- An attempt that fits is the last one. -/
theorem vprintfAttempts_of_lt (h : b.Wf) (hrange : CInt.InRange text.length)
    (hlt : text.length < b.writeableLen) (fuel uses : ℕ) (result : ℤ) :
    vprintfAttempts alloc text (fuel + 1) uses b result =
      some ⟨b.printInto text, result + text.length, uses⟩ := by
  obtain ⟨-, -, hroom, -⟩ := vsnprintf_spec h text
  have hidx : (b.vsnprintf text).writeIdx = b.writeIdx := by
    unfold vsnprintf
    split_ifs <;> rfl
  unfold vprintfAttempts printInto
  simp only [hroom, if_pos hlt, if_neg (not_not.mpr hrange), hidx]

/-- **An attempt that does not fit.** The one after it does, where there is one. -/
theorem vprintfAttempts_of_le (h : b.Wf) (hspace : 0 < b.writeableLen)
    (hrange : CInt.InRange text.length) (hle : b.writeableLen ≤ text.length) (fuel uses : ℕ)
    (result : ℤ) :
    vprintfAttempts alloc text (fuel + 2) uses b result =
      if CInt.InRange (text.length * 2) then
        let grown := (b.vsnprintf text).ensureWriteable (alloc uses) (text.length * 2)
        if grown.2 = true then
          some ⟨grown.1.printInto text, result + text.length + text.length, uses + 1⟩
        else some ⟨grown.1, result + text.length, uses + 1⟩
      else none := by
  obtain ⟨hwf, -, hroom, -⟩ := vsnprintf_spec h text
  obtain ⟨hwf', -, hmin⟩ := ensureWriteable_any hwf (alloc uses) (text.length * 2)
  unfold vprintfAttempts
  simp only [hroom, if_neg (not_lt.mpr hle), if_neg (not_not.mpr hrange), ite_not]
  refine if_congr Iff.rfl ?_ rfl
  cases hgrown : (b.vsnprintf text).ensureWriteable (alloc uses) (text.length * 2) with
  | mk grown ok =>
    rw [hgrown] at hwf' hmin
    cases ok with
    | false => rfl
    | true =>
      -- There is room for twice the text now, and the text is not empty.
      have htwice : text.length * 2 ≤ grown.writeableLen := hmin rfl
      have hfits : text.length < grown.writeableLen := by omega
      exact vprintfAttempts_of_lt hwf' hrange hfits fuel (uses + 1) _

/-- **The loop ends in its second attempt at the latest**: with more fuel it does the same. -/
theorem vprintfAttempts_two (h : b.Wf) (hspace : 0 < b.writeableLen) (fuel uses : ℕ)
    (result : ℤ) :
    vprintfAttempts alloc text (fuel + 2) uses b result =
      vprintfAttempts alloc text 2 uses b result := by
  by_cases hrange : CInt.InRange text.length
  · rcases lt_or_ge text.length b.writeableLen with hlt | hle
    · rw [vprintfAttempts_of_lt h hrange hlt, vprintfAttempts_of_lt h hrange hlt]
    · rw [vprintfAttempts_of_le h hspace hrange hle, vprintfAttempts_of_le h hspace hrange hle]
  · unfold vprintfAttempts
    simp only [if_pos hrange]

/-! ## What is printed, and what is counted -/

theorem printInto_spec (text : Bytes) (h : b.Wf) (hlt : text.length < b.writeableLen) :
    (b.printInto text).Wf ∧ (b.printInto text).contents = b.contents ++ text :=
  (vsnprintf_spec h text).2.2.2 hlt

theorem vprintfRun_of_givesUp (h : b.Wf) (hgives : GivesUp alloc uses b text) :
    ∃ out, vprintfRun alloc uses b text = some out ∧ out.sbuf.Wf ∧
      out.sbuf.contents = b.contents ∧ out.result = 0 := by
  obtain ⟨hwf, hcontents, -⟩ := ensureWriteable_any h (alloc uses) 64
  unfold vprintfRun
  unfold GivesUp at hgives
  cases hgrown : b.ensureWriteable (alloc uses) 64 with
  | mk grown ok =>
    rw [hgrown] at hwf hcontents hgives
    cases ok with
    | false => exact ⟨_, rfl, hwf, hcontents, rfl⟩
    | true =>
      have hrange : ¬ CInt.InRange text.length := hgives.resolve_left (by simp)
      obtain ⟨hwf', hcontents', -⟩ := vsnprintf_spec hwf text
      refine ⟨⟨grown.vsnprintf text, 0, uses + 1⟩, ?_, hwf', hcontents'.trans hcontents, rfl⟩
      simp only [vprintfAttempts, if_pos hrange]

/-- Where `_vprintf` does not give up, the loop is entered with some room. -/
theorem vprintfRun_of_not_givesUp (h : b.Wf) (hgives : ¬ GivesUp alloc uses b text) :
    CInt.InRange text.length ∧ 0 < (b.ensureWriteable (alloc uses) 64).1.writeableLen ∧
      vprintfRun alloc uses b text =
        vprintfAttempts alloc text 2 (uses + 1) (b.ensureWriteable (alloc uses) 64).1 0 := by
  obtain ⟨-, -, hmin⟩ := ensureWriteable_any h (alloc uses) 64
  unfold GivesUp at hgives
  rw [not_or, not_not, Bool.not_eq_false] at hgives
  have hroom := hmin hgives.1
  refine ⟨hgives.2, by omega, ?_⟩
  unfold vprintfRun
  cases hgrown : b.ensureWriteable (alloc uses) 64 with
  | mk grown ok =>
    rw [hgrown] at hgives
    obtain rfl : ok = true := hgives.1
    rfl

/-- **What `_vprintf` leaves**, where it has a value: the readable bytes grow by what is kept, and
the result is its length, and what the attempt before it adds. -/
theorem vprintfRun_spec (h : b.Wf) {out : Vprintf}
    (hrun : vprintfRun alloc uses b text = some out) :
    out.sbuf.Wf ∧ out.sbuf.contents = b.contents ++ kept alloc uses b text ∧
      out.result = (kept alloc uses b text).length + surplus alloc uses b text := by
  by_cases hgives : GivesUp alloc uses b text
  · -- nothing is printed, and the result is zero
    obtain ⟨out', hout, hwf, hcontents, hresult⟩ := vprintfRun_of_givesUp h hgives
    obtain rfl : out' = out := Option.some.inj (hout.symm.trans hrun)
    have hnot : ¬ (FitsAtOnce alloc uses b text ∨ FitsLater alloc uses b text) := by
      rintro (hfits | hfits)
      · exact hfits.1 hgives
      · exact hfits.1 hgives
    unfold kept surplus
    rw [if_neg hnot, if_pos (Or.inl hgives), List.append_nil]
    exact ⟨hwf, hcontents, hresult⟩
  · obtain ⟨hrange, hspace, hloop⟩ := vprintfRun_of_not_givesUp h hgives
    obtain ⟨hwf, hcontents, -⟩ := ensureWriteable_any h (alloc uses) 64
    rw [hloop] at hrun
    rcases lt_or_ge text.length (b.ensureWriteable (alloc uses) 64).1.writeableLen with hlt | hle
    · -- the first attempt fits
      have hfits : FitsAtOnce alloc uses b text := ⟨hgives, hlt⟩
      rw [vprintfAttempts_of_lt hwf hrange hlt] at hrun
      obtain rfl := Option.some.inj hrun
      obtain ⟨hwf', hcontents'⟩ := printInto_spec text hwf hlt
      unfold kept surplus
      rw [if_pos (Or.inl hfits), if_pos (Or.inr hfits), ← hcontents]
      refine ⟨hwf', hcontents', ?_⟩
      dsimp only
      omega
    · -- the first attempt is counted, and there is a second one
      have honce : ¬ FitsAtOnce alloc uses b text := fun hfits => not_lt.mpr hle hfits.2
      have hnot : ¬ (GivesUp alloc uses b text ∨ FitsAtOnce alloc uses b text) :=
        not_or.mpr ⟨hgives, honce⟩
      obtain ⟨hwfp, hcontentsp, -⟩ := vsnprintf_spec hwf text
      obtain ⟨hwfg, hcontentsg, hmin⟩ :=
        ensureWriteable_any hwfp (alloc (uses + 1)) (text.length * 2)
      rw [vprintfAttempts_of_le hwf hspace hrange hle] at hrun
      dsimp only at hrun
      unfold kept surplus
      rw [if_neg hnot]
      split_ifs at hrun with hshift hgrown
      · -- the second attempt fits, since it has twice the room
        have hlater : FitsLater alloc uses b text := ⟨hgives, honce, hshift, hgrown⟩
        obtain rfl := Option.some.inj hrun
        have htwice := hmin hgrown
        obtain ⟨hwf', hcontents'⟩ := printInto_spec text hwfg (by omega)
        rw [if_pos (Or.inr hlater)]
        refine ⟨hwf', ?_, ?_⟩
        · rw [hcontents', hcontentsg, hcontentsp, hcontents]
        · dsimp only
          omega
      · -- there is no second attempt, and the first stays counted
        have hnone : ¬ (FitsAtOnce alloc uses b text ∨ FitsLater alloc uses b text) := by
          rintro (hfits | hfits)
          · exact honce hfits
          · exact hgrown hfits.2.2.2
        obtain rfl := Option.some.inj hrun
        rw [if_neg hnone, List.append_nil, ← hcontents, ← hcontentsp]
        refine ⟨hwfg, hcontentsg, ?_⟩
        dsimp only [List.length_nil]
        omega

/-- **Where `_vprintf` has a value.** -/
theorem vprintfRun_isSome (h : b.Wf) :
    (vprintfRun alloc uses b text).isSome = true ↔
      GivesUp alloc uses b text ∨ FitsAtOnce alloc uses b text ∨
        CInt.InRange (text.length * 2) := by
  by_cases hgives : GivesUp alloc uses b text
  · obtain ⟨out, hout, -⟩ := vprintfRun_of_givesUp h hgives
    rw [hout]
    exact ⟨fun _ => Or.inl hgives, fun _ => rfl⟩
  · obtain ⟨hrange, hspace, hloop⟩ := vprintfRun_of_not_givesUp h hgives
    obtain ⟨hwf, -, -⟩ := ensureWriteable_any h (alloc uses) 64
    rw [hloop]
    rcases lt_or_ge text.length (b.ensureWriteable (alloc uses) 64).1.writeableLen with hlt | hle
    · rw [vprintfAttempts_of_lt hwf hrange hlt]
      exact ⟨fun _ => Or.inr (Or.inl ⟨hgives, hlt⟩), fun _ => rfl⟩
    · rw [vprintfAttempts_of_le hwf hspace hrange hle]
      have honce : ¬ FitsAtOnce alloc uses b text := fun hfits => not_lt.mpr hle hfits.2
      by_cases hshift : CInt.InRange (text.length * 2)
      · rw [if_pos hshift]
        refine ⟨fun _ => Or.inr (Or.inr hshift), fun _ => ?_⟩
        dsimp only
        split_ifs <;> rfl
      · rw [if_neg hshift]
        refine ⟨fun hsome => absurd hsome Bool.false_ne_true, ?_⟩
        rintro (hcase | hcase | hcase)
        · exact absurd hcase hgives
        · exact absurd hcase honce
        · exact absurd hcase hshift

/-! ## Without failures -/

/-- The loop with an `int` result is the one of `vprintf`. -/
theorem vprintfAttempts_true (hrange : CInt.InRange text.length) (result : ℕ) {fuel : ℕ}
    {out : Vprintf}
    (hrun : vprintfAttempts (fun _ => true) text fuel uses b result = some out) :
    out.sbuf = (vprintfLoop true text fuel b result).1 ∧
      out.result = (vprintfLoop true text fuel b result).2 := by
  induction fuel generalizing uses b result with
  | zero => cases hrun
  | succ fuel ih =>
    unfold vprintfAttempts at hrun
    unfold vprintfLoop
    simp only [if_neg (not_not.mpr hrange)] at hrun ⊢
    split_ifs at hrun ⊢ with hlt hshift
    · obtain rfl := Option.some.inj hrun
      exact ⟨rfl, (Nat.cast_add _ _).symm⟩
    · cases hgrown : (b.vsnprintf text).ensureWriteable true (text.length * 2) with
      | mk grown ok =>
        simp only [hgrown] at hrun
        cases ok with
        | false =>
          obtain rfl := Option.some.inj hrun
          exact ⟨rfl, (Nat.cast_add _ _).symm⟩
        | true =>
          rw [← Nat.cast_add] at hrun
          exact ih (result + text.length) hrun

/-- **Without failures** `_vprintf` leaves the buffer that `vprintf` leaves. -/
theorem vprintfRun_true (hrange : CInt.InRange text.length) {out : Vprintf}
    (hrun : vprintfRun (fun _ => true) uses b text = some out) :
    out.sbuf = (b.vprintf true (some text)).1 ∧ out.result = (b.vprintf true (some text)).2 := by
  unfold vprintfRun at hrun
  unfold vprintf
  cases hgrown : b.ensureWriteable true 64 with
  | mk grown ok =>
    simp only [hgrown] at hrun
    cases ok with
    | false =>
      obtain rfl := Option.some.inj hrun
      exact ⟨rfl, rfl⟩
    | true => exact vprintfAttempts_true hrange 0 hrun

/-- **A text that is printed** is printed as without failures. -/
theorem vprintfRun_of_printed (h : b.Wf)
    (hprinted : FitsAtOnce alloc uses b text ∨ FitsLater alloc uses b text) {out : Vprintf}
    (hrun : vprintfRun alloc uses b text = some out) :
    out.sbuf = (b.vprintf true (some text)).1 := by
  have hgives : ¬ GivesUp alloc uses b text := hprinted.elim And.left And.left
  have hnot := hgives
  unfold GivesUp at hnot
  rw [not_or, Bool.not_eq_false, not_not] at hnot
  have hgrown := ensureWriteable_of_ok hnot.1
  have hgives' : ¬ GivesUp (fun _ => true) uses b text := by
    unfold GivesUp
    rw [← hgrown, hnot.1, not_or, not_not]
    exact ⟨by decide, hnot.2⟩
  obtain ⟨hrange, hspace, hloop⟩ := vprintfRun_of_not_givesUp h hgives
  obtain ⟨-, -, hloop'⟩ := vprintfRun_of_not_givesUp h hgives'
  obtain ⟨hwf, -, -⟩ := ensureWriteable_any h (alloc uses) 64
  have hsame : vprintfRun (fun _ => true) uses b text = some out := by
    rw [← hrun, hloop, hloop', ← hgrown]
    rcases lt_or_ge text.length (b.ensureWriteable (alloc uses) 64).1.writeableLen with hlt | hle
    · rw [vprintfAttempts_of_lt hwf hrange hlt, vprintfAttempts_of_lt hwf hrange hlt]
    · have hlater := hprinted.resolve_left fun hfits => not_lt.mpr hle hfits.2
      rw [vprintfAttempts_of_le hwf hspace hrange hle, vprintfAttempts_of_le hwf hspace hrange hle,
        ensureWriteable_of_ok hlater.2.2.2]
  exact (vprintfRun_true hrange hsame).1

/-! ## A text that is counted once -/

/-- `_vprintf` ends, appends the text, and returns its length, when every use of
`ensure_writeable` gets memory. -/
def PrintsExactly (b : SocketBuffer) (text : Bytes) : Prop :=
  ∃ out, vprintfRun (fun _ => true) 0 b text = some out ∧ out.sbuf.Wf ∧
    out.sbuf.contents = b.contents ++ text ∧ out.result = text.length

/-- **A text whose length is an `int` is counted once** where it has room behind the write index,
when 64 bytes were asked for. -/
theorem printsExactly_iff (h : b.Wf) (hlen : text.length < 2147483648) :
    b.PrintsExactly text ↔ text.length < (b.ensureWriteable true 64).1.writeableLen := by
  have hgives : ¬ GivesUp (fun _ => true) 0 b text := by
    rintro (hfull | hrange)
    · rw [(ensureWriteable_spec h 64).1] at hfull
      exact absurd hfull (by decide)
    · exact hrange (CInt.inRange_natCast hlen)
  constructor
  · rintro ⟨out, hrun, -, hcontents, hresult⟩
    obtain ⟨-, hcontents', hresult'⟩ := vprintfRun_spec h hrun
    by_contra hroom
    have honce : ¬ FitsAtOnce (fun _ => true) 0 b text := fun hfits => hroom hfits.2
    -- All of the text is in the buffer, and it is counted a second time.
    have hkept : text = kept (fun _ => true) 0 b text :=
      List.append_cancel_left (hcontents.symm.trans hcontents')
    have hsurplus : surplus (fun _ => true) 0 b text = text.length :=
      if_neg (not_or.mpr ⟨hgives, honce⟩)
    have hmin := (ensureWriteable_spec h 64).2.2.2
    rw [hresult, ← hkept, hsurplus] at hresult'
    omega
  · intro hroom
    have honce : FitsAtOnce (fun _ => true) 0 b text := ⟨hgives, hroom⟩
    obtain ⟨out, hrun⟩ := Option.isSome_iff_exists.mp
      ((vprintfRun_isSome h).mpr (Or.inr (Or.inl honce)))
    obtain ⟨hwf, hcontents, hresult⟩ := vprintfRun_spec h hrun
    have hkept : kept (fun _ => true) 0 b text = text := if_pos (Or.inl honce)
    have hsurplus : surplus (fun _ => true) 0 b text = 0 := if_pos (Or.inr honce)
    refine ⟨out, hrun, hwf, ?_, ?_⟩
    · rw [hcontents, hkept]
    · rw [hresult, hkept, hsurplus, Int.natCast_zero, Int.add_zero]

/-- A short text in a new buffer. -/
theorem printsExactly_short :
    ({} : SocketBuffer).PrintsExactly [71, 69, 84] ↔
      [71, 69, 84].length < (({} : SocketBuffer).ensureWriteable true 64).1.writeableLen :=
  printsExactly_iff wf_empty (by decide)

/-- A text of 64 bytes in a new buffer is counted twice. -/
theorem not_printsExactly_sixtyFour :
    ¬ ({} : SocketBuffer).PrintsExactly (List.replicate 64 97) := by
  rintro ⟨out, hrun, -, -, hresult⟩
  obtain ⟨-, htwice⟩ := vprintfRun_true (by decide) hrun
  have hcount : (({} : SocketBuffer).vprintf true (some (List.replicate 64 97))).2 = 128 := by
    decide +kernel
  rw [hcount] at htwice
  rw [htwice] at hresult
  exact absurd hresult (by decide)

end SocketBuffer

end Kimserver
