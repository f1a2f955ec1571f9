import Mathlib.Data.List.Rotate

/-!
# Turns around a list

A place in a list moves on by one and starts again at the end. Each turn visits the element at
the new place.

## Main definitions

* `RoundRobin.next`: the place after a turn
* `RoundRobin.turns`: the elements that some turns visit

## Main results

* `RoundRobin.turns_length`: as many turns as the list is long visit it once, from the place on
* `RoundRobin.perm_turns`: they visit every element once
-/

namespace RoundRobin

variable {α : Type*}

/-- The place after `i` in a list of length `n`. -/
def next (n i : ℕ) : ℕ := if i + 1 = n then 0 else i + 1

/-- The place after some turns. -/
def place (n i : ℕ) : ℕ → ℕ
  | 0 => i
  | m + 1 => place n (next n i) m

/-- The elements that `m` turns visit from the place `i` on. -/
def turns (l : List α) (i : ℕ) : ℕ → List α
  | 0 => []
  | m + 1 => l[next l.length i]?.toList ++ turns l (next l.length i) m

theorem next_lt {n i : ℕ} (hi : i < n) : next n i < n := by
  unfold next
  split_ifs with h
  · exact Nat.zero_lt_of_lt hi
  · omega

theorem next_eq_mod {n i : ℕ} (hi : i < n) : next n i = (i + 1) % n := by
  unfold next
  split_ifs with h
  · rw [h, Nat.mod_self]
  · rw [Nat.mod_eq_of_lt]
    omega

theorem place_lt {n i : ℕ} (hi : i < n) (m : ℕ) : place n i m < n := by
  induction m generalizing i with
  | zero => exact hi
  | succ m ih => exact ih (next_lt hi)

theorem place_eq_mod {n i : ℕ} (hi : i < n) (m : ℕ) : place n i m = (i + m) % n := by
  induction m generalizing i with
  | zero => exact (Nat.mod_eq_of_lt hi).symm
  | succ m ih =>
    rw [place, ih (next_lt hi), next_eq_mod hi, Nat.mod_add_mod]
    congr 1
    omega

/-- No more turns than the list is long: they visit the list from the place on. -/
theorem turns_eq_take {l : List α} {i m : ℕ} (hi : i < l.length) (hm : m ≤ l.length) :
    turns l i m = (l.rotate (i + 1)).take m := by
  induction m generalizing i with
  | zero => rfl
  | succ m ih =>
    have hnext := next_lt hi
    rw [turns, ih hnext (by omega), List.getElem?_eq_getElem hnext]
    -- the first element of the rotated list, and what follows it
    obtain ⟨x, xs, hrotate⟩ : ∃ x xs, l.rotate (i + 1) = x :: xs := by
      refine List.exists_cons_of_ne_nil fun h => ?_
      rw [← List.length_rotate l (i + 1), h] at hi
      exact absurd hi (Nat.not_lt_zero i)
    have hlen : xs.length + 1 = l.length := by
      rw [← List.length_rotate l (i + 1), hrotate, List.length_cons]
    have hhead : l[next l.length i] = x := by
      have hget := List.getElem_rotate l (i + 1) 0 (by rw [hrotate]; exact Nat.zero_lt_succ _)
      simp only [hrotate, List.getElem_cons_zero, Nat.zero_add] at hget
      rw [hget]
      congr 1
      exact next_eq_mod hi
    have hrest : l.rotate (next l.length i + 1) = xs ++ [x] := by
      rw [next_eq_mod hi, ← List.rotate_rotate, List.rotate_mod, hrotate, List.rotate_cons_succ,
        List.rotate_zero]
    rw [hhead, hrest, hrotate, List.take_append_of_le_length (by omega)]
    rfl

/-- **One round** visits the list from the place on, and ends at the place. -/
theorem turns_length {l : List α} {i : ℕ} (hi : i < l.length) :
    turns l i l.length = l.rotate (i + 1) ∧ place l.length i l.length = i := by
  constructor
  · rw [turns_eq_take hi le_rfl, List.take_of_length_le (List.length_rotate l _).le]
  · rw [place_eq_mod hi, Nat.add_mod_right, Nat.mod_eq_of_lt hi]

/-- One round visits every element once. -/
theorem perm_turns {l : List α} {i : ℕ} (hi : i < l.length) : (turns l i l.length).Perm l := by
  rw [(turns_length hi).1]
  exact List.rotate_perm l _

end RoundRobin
