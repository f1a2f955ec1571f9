import Mathlib.Data.List.Flatten
import Mathlib.Data.List.Perm.Basic

/-!
# Numbered objects

Objects that are made and never renumbered are the entries of a list, and the number of an object
is its place. A new object is added at the end, and the members of an object are written with
`List.modify`. What the objects hold together, one list for each, is a `List.flatMap`, and where
only the members count that are held, and not their order, it is taken up to permutation.

## Main results

* `Heap.getElem?_snoc_cases`: an object after one was added is an old one, or the new one
* `Heap.flatMap_modify_add`, `Heap.flatMap_modify_remove`: what the objects hold together when
  one of them takes or gives something
-/

namespace Heap

variable {α β : Type*} {l : List α} {i : ℕ} {a b : α}

/-- The objects keep their numbers when one is added. -/
theorem getElem?_snoc_of_some (h : l[i]? = some b) (a : α) : (l ++ [a])[i]? = some b := by
  rw [List.getElem?_append_left (List.getElem?_eq_some_iff.mp h).1]
  exact h

theorem getElem?_snoc_cases (h : (l ++ [a])[i]? = some b) :
    l[i]? = some b ∨ i = l.length ∧ b = a := by
  rcases Nat.lt_trichotomy i l.length with hlt | rfl | hgt
  · rw [List.getElem?_append_left hlt] at h
    exact Or.inl h
  · rw [List.getElem?_concat_length] at h
    exact Or.inr ⟨rfl, (Option.some.inj h).symm⟩
  · rw [List.getElem?_eq_none (by rw [List.length_append, List.length_singleton]; omega)] at h
    cases h

/-- An object after a write is an old one, or the one that was written. -/
theorem getElem?_modify_cases {f : α → α} {j : ℕ} (h : (l.modify i f)[j]? = some b) :
    i = j ∧ (∃ a, l[i]? = some a ∧ b = f a) ∨ i ≠ j ∧ l[j]? = some b := by
  rw [List.getElem?_modify, Option.map_eq_map, Option.map_eq_some_iff] at h
  obtain ⟨a, ha, rfl⟩ := h
  by_cases hij : i = j
  · obtain rfl := hij
    exact Or.inl ⟨rfl, a, ha, if_pos rfl⟩
  · exact Or.inr ⟨hij, by rw [if_neg hij]; exact ha⟩

/-! ## What the objects hold -/

/-- The objects hold together what the written one held, and the others. -/
theorem perm_flatMap_modify (h : l[i]? = some a) (f : α → α) (g : α → List β) :
    ((l.modify i f).flatMap g ++ g a).Perm (l.flatMap g ++ g (f a)) := by
  obtain ⟨hlt, ha⟩ := List.getElem?_eq_some_iff.mp h
  have hl : l = l.take i ++ a :: l.drop (i + 1) := by
    rw [← ha, List.getElem_cons_drop, List.take_append_drop]
  have hm : l.modify i f = l.take i ++ f a :: l.drop (i + 1) := by
    rw [List.modify_eq_take_cons_drop hlt, ha]
  rw [hm]
  conv_rhs => rw [hl]
  simp only [List.flatMap_append, List.flatMap_cons, List.append_assoc]
  refine List.Perm.append_left _ ?_
  -- Both sides are the parts of the two objects around the rest.
  calc (g (f a) ++ ((l.drop (i + 1)).flatMap g ++ g a)).Perm
        (((l.drop (i + 1)).flatMap g ++ g a) ++ g (f a)) := List.perm_append_comm
    List.Perm _ ((g a ++ (l.drop (i + 1)).flatMap g) ++ g (f a)) :=
      List.Perm.append_right _ List.perm_append_comm
    _ = g a ++ ((l.drop (i + 1)).flatMap g ++ g (f a)) := List.append_assoc ..

/-- A write that keeps what the object holds. -/
theorem flatMap_modify_same {f : α → α} {g : α → List β} (h : ∀ a, l[i]? = some a → g (f a) = g a) :
    ((l.modify i f).flatMap g).Perm (l.flatMap g) := by
  cases ha : l[i]? with
  | none => rw [List.modify_eq_self (List.getElem?_eq_none_iff.mp ha)]
  | some a =>
    have hperm := perm_flatMap_modify ha f g
    rw [h a ha] at hperm
    exact (List.perm_append_right_iff _).mp hperm

/-- A write by which the object takes `m`. -/
theorem flatMap_modify_add {f : α → α} {g : α → List β} {m : List β} (ha : l[i]? = some a)
    (h : g (f a) = g a ++ m) : ((l.modify i f).flatMap g).Perm (l.flatMap g ++ m) := by
  refine (List.perm_append_right_iff (g a)).mp ((perm_flatMap_modify ha f g).trans ?_)
  rw [h, List.append_assoc]
  exact List.Perm.append_left _ List.perm_append_comm

/-- A write by which the object gives `m` away. -/
theorem flatMap_modify_remove {f : α → α} {g : α → List β} {m : List β} (ha : l[i]? = some a)
    (h : g a = m ++ g (f a)) : (m ++ (l.modify i f).flatMap g).Perm (l.flatMap g) := by
  refine (List.perm_append_right_iff (g (f a))).mp
    (List.Perm.trans ?_ (perm_flatMap_modify ha f g))
  rw [h, List.append_assoc]
  calc (m ++ ((l.modify i f).flatMap g ++ g (f a))).Perm
        (((l.modify i f).flatMap g ++ g (f a)) ++ m) := List.perm_append_comm
    _ = (l.modify i f).flatMap g ++ (g (f a) ++ m) := List.append_assoc ..
    List.Perm _ ((l.modify i f).flatMap g ++ (m ++ g (f a))) :=
      List.Perm.append_left _ List.perm_append_comm

end Heap
