import Kimserver.Lib.Machine

/-!
# Replication of a state through a queue of operations

A leader handles events and puts operations into a first-in first-out queue; a follower
applies them one by one. If the operations a leader emits for an event, applied to the state
before it, give the state after it, then the queue applied to the follower always gives the
leader.

## Main definitions

* `Replication`: the leader's handler and the application of an operation
* `Replication.machine`: leader, queue and follower
* `Replication.Replays`: the leader's handler is replayed by what it emits

## Main results

* `Replication.Replays.run`: the queue applied to the follower gives the leader
* `Replication.Replays.caught_up`: an empty queue means equal states
-/

/-- A leader's handler with the operations it emits, and what an operation does. -/
structure Replication (S E O : Type*) where
  lead : S → E → S × List O
  apply : S → O → S

namespace Replication

variable {S E O : Type*}

/-- The leader, the operations in flight and the follower. -/
structure State (S O : Type*) where
  leader : S
  queue : List O
  follower : S

/-- An event reaches the leader, or the follower takes the next operation. -/
inductive Event (E : Type*)
  | lead (e : E)
  | deliver

variable (R : Replication S E O)

/-- Apply operations in order. -/
def applyAll (s : S) (ops : List O) : S := ops.foldl R.apply s

theorem applyAll_append (s : S) (ops ops' : List O) :
    R.applyAll s (ops ++ ops') = R.applyAll (R.applyAll s ops) ops' :=
  List.foldl_append ..

/-- One step of the pair; a delivery from an empty queue does nothing. -/
def step (st : State S O) : Event E → State S O
  | .lead e =>
    { st with leader := (R.lead st.leader e).1, queue := st.queue ++ (R.lead st.leader e).2 }
  | .deliver =>
    match st.queue with
    | [] => st
    | op :: ops => { st with queue := ops, follower := R.apply st.follower op }

/-- Leader, queue and follower as a machine. -/
def machine : Machine (State S O) (Event E) where
  step := R.step

/-- In every state of `I`, which the leader keeps, the emitted operations replay the event. -/
structure Replays (I : S → Prop) : Prop where
  keeps : ∀ {s} e, I s → I (R.lead s e).1
  replays : ∀ {s} e, I s → R.applyAll s (R.lead s e).2 = (R.lead s e).1

variable {R}

/-- **The queue applied to the follower gives the leader**, in every state of every run. -/
theorem Replays.run {I : S → Prop} (h : R.Replays I) {st : State S O} (hI : I st.leader)
    (hst : R.applyAll st.follower st.queue = st.leader) (es : List (Event E)) :
    R.applyAll (R.machine.run st es).follower (R.machine.run st es).queue =
      (R.machine.run st es).leader := by
  refine (R.machine.run_invariant
    (P := fun st => I st.leader ∧ R.applyAll st.follower st.queue = st.leader)
    (fun st e hst => ?_) ⟨hI, hst⟩ es).2
  obtain ⟨hI, hst⟩ := hst
  cases e with
  | lead e =>
    refine ⟨h.keeps e hI, ?_⟩
    change R.applyAll st.follower (st.queue ++ _) = _
    rw [applyAll_append, hst]
    exact h.replays e hI
  | deliver =>
    simp only [machine, step]
    split
    · exact ⟨hI, hst⟩
    · next op ops hq =>
      rw [hq] at hst
      exact ⟨hI, hst⟩

/-- **A follower that has applied everything equals the leader.** -/
theorem Replays.caught_up {I : S → Prop} (h : R.Replays I) {s : S} (hI : I s)
    (es : List (Event E)) (hq : (R.machine.run ⟨s, [], s⟩ es).queue = []) :
    (R.machine.run ⟨s, [], s⟩ es).follower = (R.machine.run ⟨s, [], s⟩ es).leader := by
  have hrun := @Replays.run _ _ _ _ _ h ⟨s, [], s⟩ hI rfl es
  rwa [hq] at hrun

end Replication
