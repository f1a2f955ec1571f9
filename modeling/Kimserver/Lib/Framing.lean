import Mathlib.Data.List.Infix

/-!
# Frames in a byte stream

A framing gives each message a non-empty text such that a reader finds the first frame of a
buffer whatever follows it, and finds none in a proper beginning of a frame. A reader that
takes frames from a growing buffer then sees the messages of the stream, in order, however the
stream is cut.

## Main definitions

* `Framing`: messages, their texts, and the reader of one frame
* `Framing.encodeAll`, `Framing.drain`: the text of a list of messages, and the reader that
  takes frames as long as there are any
* `Framing.Partial`: what is left of a stream when all complete frames are taken

## Main results

* `Framing.exists_split`: a beginning of a stream is a number of frames and a partial one
* `Framing.drain_encodeAll`: the reader takes exactly these frames
-/

/-- Messages with texts from which they can be read back. -/
structure Framing (M : Type*) where
  /-- the messages with a frame -/
  Wf : M → Prop
  encode : M → List UInt8
  /-- the first frame of a buffer and what follows it -/
  next : List UInt8 → Option (M × List UInt8)
  encode_ne_nil : ∀ {m}, Wf m → encode m ≠ []
  next_encode : ∀ {m}, Wf m → ∀ rest, next (encode m ++ rest) = some (m, rest)
  next_partial : ∀ {m p}, Wf m → p <+: encode m → p ≠ encode m → next p = none
  next_lt : ∀ {b m rest}, next b = some (m, rest) → rest.length < b.length

namespace Framing

variable {M : Type*} (F : Framing M)

/-- The text of a list of messages. -/
def encodeAll (ms : List M) : List UInt8 := ms.flatMap F.encode

@[simp] theorem encodeAll_nil : F.encodeAll [] = [] := rfl

@[simp] theorem encodeAll_cons (m : M) (ms : List M) :
    F.encodeAll (m :: ms) = F.encode m ++ F.encodeAll ms := rfl

theorem encodeAll_append (ms ms' : List M) :
    F.encodeAll (ms ++ ms') = F.encodeAll ms ++ F.encodeAll ms' := List.flatMap_append

/-- Take frames as long as there are any. -/
def drain (b : List UInt8) : List M × List UInt8 :=
  match h : F.next b with
  | none => ([], b)
  | some (m, rest) =>
    have : rest.length < b.length := F.next_lt h
    let (ms, left) := drain rest
    (m :: ms, left)
  termination_by b.length

theorem drain_none {b : List UInt8} (h : F.next b = none) : F.drain b = ([], b) := by
  rw [drain]
  split
  · rfl
  · next heq =>
    rw [h] at heq
    exact absurd heq (by simp)

theorem drain_some {b rest : List UInt8} {m : M} (h : F.next b = some (m, rest)) :
    F.drain b = (m :: (F.drain rest).1, (F.drain rest).2) := by
  rw [drain]
  split
  · next heq =>
    rw [h] at heq
    exact absurd heq (by simp)
  · next heq =>
    rw [h] at heq
    obtain ⟨rfl, rfl⟩ := Prod.mk.inj (Option.some.inj heq)
    rfl

/-- `rest` is a proper beginning of the first frame of `todo`, and empty if there is none. -/
def Partial (rest : List UInt8) : List M → Prop
  | [] => rest = []
  | m :: _ => rest <+: F.encode m ∧ rest ≠ F.encode m

variable {F}

theorem Partial.nil {todo : List M} (h : ∀ m ∈ todo, F.Wf m) : F.Partial [] todo := by
  cases todo with
  | nil => rfl
  | cons m todo =>
    exact ⟨List.nil_prefix, fun heq => F.encode_ne_nil (h m List.mem_cons_self) heq.symm⟩

/-- **A beginning of a stream is a number of frames and a partial one.** -/
theorem exists_split {ms : List M} {buf future : List UInt8} (hms : ∀ m ∈ ms, F.Wf m)
    (h : buf ++ future = F.encodeAll ms) :
    ∃ done todo rest, ms = done ++ todo ∧ buf = F.encodeAll done ++ rest ∧
      rest ++ future = F.encodeAll todo ∧ F.Partial rest todo := by
  induction ms generalizing buf with
  | nil =>
    obtain ⟨rfl, rfl⟩ := List.append_eq_nil_iff.mp h
    exact ⟨[], [], [], rfl, rfl, rfl, rfl⟩
  | cons m ms ih =>
    rw [encodeAll_cons] at h
    rcases List.append_eq_append_iff.mp h with ⟨tail, hm, hfuture⟩ | ⟨tail, hbuf, htail⟩
    · -- the buffer ends within the first frame
      by_cases hfull : tail = []
      · rw [hfull, List.append_nil] at hm
        rw [hfull, List.nil_append] at hfuture
        refine ⟨[m], ms, [], rfl, by simp [hm], by simpa using hfuture, ?_⟩
        exact Partial.nil fun x hx => hms x (List.mem_cons_of_mem _ hx)
      · refine ⟨[], m :: ms, buf, rfl, rfl, h, ⟨tail, hm.symm⟩, fun heq => hfull ?_⟩
        rw [heq] at hm
        simpa using hm.symm
    · obtain ⟨done, todo, rest, hsplit, htext, hrest, hpart⟩ :=
        ih (fun x hx => hms x (List.mem_cons_of_mem _ hx)) htail.symm
      exact ⟨m :: done, todo, rest, by rw [hsplit, List.cons_append],
        by rw [hbuf, htext, encodeAll_cons, List.append_assoc], hrest, hpart⟩

theorem next_eq_none_of {rest : List UInt8} {todo : List M} (htodo : ∀ m ∈ todo, F.Wf m)
    (hnil : F.next [] = none) (h : F.Partial rest todo) : F.next rest = none := by
  cases todo with
  | nil => exact (show rest = [] from h) ▸ hnil
  | cons m todo => exact F.next_partial (htodo m List.mem_cons_self) h.1 h.2

theorem next_nil (F : Framing M) : F.next [] = none := by
  cases h : F.next [] with
  | none => rfl
  | some p => exact absurd (F.next_lt h) (Nat.not_lt_zero _)

/-- **The reader takes exactly the complete frames.** -/
theorem drain_encodeAll {done todo : List M} {rest : List UInt8} (hdone : ∀ m ∈ done, F.Wf m)
    (htodo : ∀ m ∈ todo, F.Wf m) (h : F.Partial rest todo) :
    F.drain (F.encodeAll done ++ rest) = (done, rest) := by
  induction done with
  | nil => exact drain_none F (next_eq_none_of htodo F.next_nil h)
  | cons m done ih =>
    rw [encodeAll_cons, List.append_assoc,
      drain_some F (F.next_encode (hdone m List.mem_cons_self) _),
      ih fun x hx => hdone x (List.mem_cons_of_mem _ hx)]

end Framing
