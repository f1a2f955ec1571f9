import Mathlib.Data.List.Basic

/-!
# Queues by their history

A queue as the list of everything that was appended to it and the number of elements that were
taken out. What was appended last can be retracted as long as it is still in the queue. No more
can be taken or retracted than the queue holds, so the count never passes the end of the list.

## Main definitions

* `Queue`, `Queue.pending`: a history, and the elements that are in the queue
* `Queue.push`, `Queue.retract`, `Queue.consume`: the operations

## Main results

* `Queue.pending_push`, `Queue.pending_retract`, `Queue.pending_consume`: what they do to the
  elements in the queue
-/

/-- A history: what was appended, and how much of it was taken out. -/
structure Queue (α : Type*) where
  appended : List α := []
  consumed : ℕ := 0
  consumed_le : consumed ≤ appended.length := by exact Nat.zero_le _

namespace Queue

variable {α : Type*} (q : Queue α)

/-- The elements in the queue: what was appended, less the prefix that was taken out. -/
def pending : List α := q.appended.drop q.consumed

theorem length_pending : q.pending.length = q.appended.length - q.consumed := List.length_drop

/-- Append at the end. -/
def push (xs : List α) : Queue α where
  appended := q.appended ++ xs
  consumed := q.consumed
  consumed_le := by
    rw [List.length_append]
    exact Nat.le_add_right_of_le q.consumed_le

/-- Take back the last `n` elements that were appended. -/
def retract (n : ℕ) : Queue α where
  appended := q.appended.take (q.appended.length - min n q.pending.length)
  consumed := q.consumed
  consumed_le := by
    have hle := q.consumed_le
    rw [List.length_take, length_pending]
    omega

/-- Take out the first `n` elements. -/
def consume (n : ℕ) : Queue α where
  appended := q.appended
  consumed := q.consumed + min n q.pending.length
  consumed_le := by
    have hle := q.consumed_le
    rw [length_pending]
    omega

@[simp] theorem pending_empty : ({} : Queue α).pending = [] := rfl

@[simp] theorem pending_push (xs : List α) : (q.push xs).pending = q.pending ++ xs :=
  List.drop_append_of_le_length q.consumed_le

theorem pending_retract {n : ℕ} (hn : n ≤ q.pending.length) :
    (q.retract n).pending = q.pending.take (q.pending.length - n) := by
  have hle := q.consumed_le
  have hlen := q.length_pending
  change (q.appended.take (q.appended.length - min n q.pending.length)).drop q.consumed =
    (q.appended.drop q.consumed).take (q.pending.length - n)
  rw [Nat.min_eq_left hn, List.drop_take]
  congr 1
  omega

theorem pending_consume (n : ℕ) : (q.consume n).pending = q.pending.drop n := by
  unfold pending consume
  dsimp only
  rw [← List.drop_drop]
  rcases Nat.le_total n (q.appended.drop q.consumed).length with hn | hn
  · rw [pending, Nat.min_eq_left hn]
  · rw [pending, Nat.min_eq_right hn, List.drop_length, List.drop_eq_nil_of_le hn]

end Queue
