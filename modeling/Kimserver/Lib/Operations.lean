import Mathlib.Data.List.Infix

/-!
# Operations of a non-blocking interface

An operation of a non-blocking interface is started by one call and continued by others. A
call returns the events the operation waits for, and none when the operation is done. A
handle carries one operation at a time, and only the history of its calls says which.

## Main definitions

* `OpCall`: a call, with the events it returned
* `unfinished`, `lastStarted`: the operations a history leaves in progress, and the last one
  it started
* `OneInFlight`: nothing is started while an operation is in progress, and what is continued
  is the operation started last

## Main results

* `oneInFlight_snoc`: the rule for one more call
-/

/-- A call that starts or continues an operation, and the events it returned. -/
inductive OpCall (O : Type*)
  | start (op : O) (status : ℕ)
  | cont (op : O) (status : ℕ)
  deriving DecidableEq, Repr

namespace OpCall

variable {O : Type*} [DecidableEq O]

/-- What a call makes of the operations in progress. -/
def note (ops : List O) : OpCall O → List O
  | start op status => if status = 0 then ops else op :: ops
  | cont op status => if status = 0 then ops.erase op else ops

/-- The operations that were started and are not done. -/
def unfinished (calls : List (OpCall O)) : List O := calls.foldl note []

/-- The operation started last. -/
def lastStarted (calls : List (OpCall O)) : Option O :=
  calls.foldl (fun last call => match call with | start op _ => some op | cont _ _ => last) none

/-- A call that the interface allows after these calls. -/
def Allowed (calls : List (OpCall O)) : OpCall O → Prop
  | start _ _ => unfinished calls = []
  | cont op _ => lastStarted calls = some op

instance (calls : List (OpCall O)) : DecidablePred (Allowed calls)
  | start _ _ => inferInstanceAs (Decidable (_ = _))
  | cont _ _ => inferInstanceAs (Decidable (_ = _))

/-- Every call of a history was allowed when it was made. -/
def OneInFlight (calls : List (OpCall O)) : Prop :=
  ∀ earlier call, earlier ++ [call] <+: calls → Allowed earlier call

variable {calls : List (OpCall O)}

@[simp] theorem unfinished_nil : unfinished ([] : List (OpCall O)) = [] := rfl

@[simp] theorem unfinished_snoc (call : OpCall O) :
    unfinished (calls ++ [call]) = note (unfinished calls) call := by
  simp only [unfinished, List.foldl_append, List.foldl_cons, List.foldl_nil]

omit [DecidableEq O] in
@[simp] theorem lastStarted_start (op : O) (status : ℕ) :
    lastStarted (calls ++ [start op status]) = some op := by
  simp only [lastStarted, List.foldl_append, List.foldl_cons, List.foldl_nil]

omit [DecidableEq O] in
@[simp] theorem lastStarted_cont (op : O) (status : ℕ) :
    lastStarted (calls ++ [cont op status]) = lastStarted calls := by
  simp only [lastStarted, List.foldl_append, List.foldl_cons, List.foldl_nil]

theorem oneInFlight_nil : OneInFlight ([] : List (OpCall O)) := by
  intro earlier call h
  exact absurd (List.prefix_nil.mp h) (List.append_ne_nil_of_right_ne_nil _ (List.cons_ne_nil _ _))

/-- One more call keeps a history legal exactly when it is allowed. -/
theorem oneInFlight_snoc (call : OpCall O) :
    OneInFlight (calls ++ [call]) ↔ OneInFlight calls ∧ Allowed calls call := by
  constructor
  · intro h
    exact ⟨fun earlier call' hp => h earlier call' (hp.trans (List.prefix_append _ _)),
      h calls call (List.prefix_refl _)⟩
  · rintro ⟨h, hcall⟩ earlier call' hp
    rcases List.prefix_concat_iff.mp hp with heq | hp
    · obtain ⟨rfl, heq⟩ := List.append_inj' heq rfl
      obtain rfl : call' = call := by simpa using heq
      exact hcall
    · exact h earlier call' hp

theorem OneInFlight.of_prefix {calls' : List (OpCall O)} (h : OneInFlight calls')
    (hp : calls <+: calls') : OneInFlight calls :=
  fun earlier call hc => h earlier call (hc.trans hp)

end OpCall
