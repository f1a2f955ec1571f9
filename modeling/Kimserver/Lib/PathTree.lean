import Mathlib.Data.Finset.Insert
import Mathlib.Data.List.Basic

/-!
# Trees of paths

A tree whose nodes are named by paths, lists of characters with a separator between the
components. The root, whose path is the separator, is always there, and a node is only created
under one that is there: with a path the paths above it are there.

## Main definitions

* `PathTree.Above`, `PathTree.parentPath`: the paths above a path, and the nearest one
* `PathTree`: the paths that are there
* `PathTree.create`: creation of a node

## Main results

* `PathTree.exists_create_iff`: what is there after a creation
* `PathTree.created_iff`: a node is created where it was not there
-/

namespace PathTree

/-- `q` is a path above `p`. -/
def Above {α : Type*} (sep : α) (q p : List α) : Prop := q ≠ [] ∧ ∃ rest, p = q ++ sep :: rest

section Above

variable {α : Type*} {sep : α}

theorem not_above_nil {q : List α} : ¬ Above sep q [] := by
  rintro ⟨-, rest, hpath⟩
  exact absurd hpath (by simp)

/-- Nothing is above the root. -/
theorem not_above_root {q : List α} : ¬ Above sep q [sep] := by
  rintro ⟨hne, rest, hpath⟩
  have hlen := congrArg List.length hpath
  simp only [List.length_append, List.length_cons, List.length_nil] at hlen
  exact absurd (List.eq_nil_of_length_eq_zero (by omega)) hne

end Above

variable {α : Type*} [DecidableEq α]

/-- The part of a path in front of its last separator. -/
def parentPath (sep : α) (p : List α) : List α :=
  (p.reverse.dropWhile (· ≠ sep)).tail.reverse

section Paths

variable {sep : α}

theorem parentPath_append {q last : List α} (h : sep ∉ last) :
    parentPath sep (q ++ sep :: last) = q := by
  have hfront : ∀ c ∈ last.reverse, decide (c ≠ sep) = true := by
    intro c hc
    exact decide_eq_true fun heq => h (heq ▸ List.mem_reverse.mp hc)
  unfold parentPath
  rw [List.reverse_append, List.reverse_cons, List.append_assoc, List.singleton_append,
    List.dropWhile_append_of_pos hfront, List.dropWhile_cons_of_neg (by simp), List.tail_cons,
    List.reverse_reverse]

/-- A path above `p` is the nearest one, or above that. -/
theorem Above.eq_or_above {q p : List α} (h : Above sep q p) :
    q = parentPath sep p ∨ Above sep q (parentPath sep p) := by
  obtain ⟨hne, rest, rfl⟩ := h
  by_cases hmem : sep ∈ rest
  · -- the last separator, which is the first one from behind
    obtain ⟨last, front, hrest, hlast⟩ := List.eq_append_cons_of_mem (List.mem_reverse.mpr hmem)
    obtain rfl : rest = front.reverse ++ sep :: last.reverse := by
      rw [← List.reverse_reverse rest, hrest, List.reverse_append, List.reverse_cons,
        List.append_assoc, List.singleton_append]
    have hsplit : q ++ sep :: (front.reverse ++ sep :: last.reverse) =
        (q ++ sep :: front.reverse) ++ sep :: last.reverse := by
      rw [List.append_assoc, List.cons_append]
    rw [hsplit, parentPath_append fun h => hlast (List.mem_reverse.mp h)]
    exact Or.inr ⟨hne, front.reverse, rfl⟩
  · exact Or.inl (parentPath_append hmem).symm

end Paths

end PathTree

/-- The paths that are there, besides the root. -/
structure PathTree {α : Type*} (sep : α) where
  paths : Finset (List α)
  closed : ∀ p ∈ paths, ∀ q, PathTree.Above sep q p → q = [sep] ∨ q ∈ paths

namespace PathTree

section Exists

variable {α : Type*} {sep : α}

/-- A tree with nothing but the root. -/
def empty (sep : α) : PathTree sep := ⟨∅, fun _ hp => absurd hp (Finset.notMem_empty _)⟩

/-- A path is there. -/
def Exists (t : PathTree sep) (p : List α) : Prop := p = [sep] ∨ p ∈ t.paths

/-- **With a path the paths above it are there.** -/
theorem Exists.above {t : PathTree sep} {p q : List α} (h : t.Exists p) (hq : Above sep q p) :
    t.Exists q := by
  rcases h with rfl | hmem
  · exact absurd hq not_above_root
  · exact t.closed p hmem q hq

end Exists

variable {α : Type*} [DecidableEq α] {sep : α}

instance (t : PathTree sep) : DecidablePred t.Exists :=
  fun _ => inferInstanceAs (Decidable (_ ∨ _))

/-- How a creation ends. -/
inductive Reply
  | created
  | exists
  | noParent
  deriving DecidableEq

/-- A node with a path under the root or under a path that is there. -/
def insert (t : PathTree sep) (p : List α)
    (h : parentPath sep p = [] ∨ t.Exists (parentPath sep p)) : PathTree sep where
  paths := Insert.insert p t.paths
  closed := by
    intro p' hp' q hq
    rw [Finset.mem_insert] at hp' ⊢
    rcases hp' with rfl | hp'
    · rcases hq.eq_or_above with rfl | habove
      · rcases h with hroot | hroot | hmem
        · exact absurd hroot hq.1
        · exact Or.inl hroot
        · exact Or.inr (Or.inr hmem)
      · rcases h with hroot | hroot | hmem
        · exact absurd (hroot ▸ habove) not_above_nil
        · exact absurd (hroot ▸ habove) not_above_root
        · exact (t.closed _ hmem q habove).imp_right Or.inr
    · exact (t.closed p' hp' q hq).imp_right Or.inr

/-- Creation of a node, in one step. -/
def create (t : PathTree sep) (p : List α) : Reply × PathTree sep :=
  if t.Exists p then (.exists, t)
  else if h : parentPath sep p = [] ∨ t.Exists (parentPath sep p) then (.created, t.insert p h)
  else (.noParent, t)

variable {t : PathTree sep} {p q : List α}

/-- **A node is created where it was not there**, if the creation does not fail. -/
theorem created_iff (h : (t.create p).1 ≠ .noParent) : (t.create p).1 = .created ↔ ¬ t.Exists p := by
  unfold create at h ⊢
  split_ifs at h ⊢ with hexists hparent
  · exact ⟨fun hreply => absurd hreply (by decide), fun hnot => absurd hexists hnot⟩
  · exact ⟨fun _ => hexists, fun _ => rfl⟩
  · exact absurd rfl h

/-- **What is there after a creation** that does not fail. -/
theorem exists_create_iff (h : (t.create p).1 ≠ .noParent) :
    (t.create p).2.Exists q ↔ q = p ∨ t.Exists q := by
  unfold create at h ⊢
  split_ifs at h ⊢ with hexists hparent
  · refine ⟨Or.inr, ?_⟩
    rintro (rfl | hq)
    · exact hexists
    · exact hq
  · unfold Exists insert
    rw [Finset.mem_insert]
    exact or_left_comm
  · exact absurd rfl h

end PathTree
