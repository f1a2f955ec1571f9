import Mathlib.Data.Finmap
import Mathlib.Order.Lattice.Nat

/-!
# Finite maps read by lookup

Finite maps with values of one type, over Mathlib's `Finmap`: equality is extensional, so
two maps are equal when every lookup agrees, whatever order their entries were inserted in.
Iterating over such a map visits its entries in some order; `Enumerates` says which lists
are possible orders.

## Main definitions

* `FiniteMap`: the type of maps
* `FiniteMap.Enumerates`: the lists of entries an iteration over a map can visit
* `FiniteMap.fresh`: a number that is not a key
* `FiniteMap.addAbsent`: insertion of the keys that are absent, as an `insert` on an ordered
  C++ map does it
* `FiniteMap.assignAll`: assignment of one entry after the other

## Main results

* `FiniteMap.lookup_addAbsent`, `FiniteMap.card_addAbsent_lt`: what such an insertion adds
* `FiniteMap.union_eq_left_iff`: when nothing shows of the map that is written over
-/

/-- Finite maps from `K` to `V`. -/
abbrev FiniteMap (K V : Type*) := Finmap fun _ : K => V

namespace FiniteMap

variable {K V : Type*} [DecidableEq K]

@[simp] theorem lookup_insert (m : FiniteMap K V) (k x : K) (v : V) :
    (m.insert k v).lookup x = if x = k then some v else m.lookup x := by
  split_ifs with h
  · rw [h, Finmap.lookup_insert]
  · exact Finmap.lookup_insert_of_ne _ h

@[simp] theorem lookup_erase (m : FiniteMap K V) (k x : K) :
    (m.erase k).lookup x = if x = k then none else m.lookup x := by
  split_ifs with h
  · rw [h, Finmap.lookup_erase]
  · exact Finmap.lookup_erase_ne h

/-- What is found after an insertion is the new value or was there before. -/
theorem eq_or_of_lookup_insert {m : FiniteMap K V} {k x : K} {v w : V}
    (h : (m.insert k v).lookup x = some w) : w = v ∨ m.lookup x = some w := by
  rw [lookup_insert] at h
  split_ifs at h
  · exact Or.inl (Option.some.inj h).symm
  · exact Or.inr h

/-- A value that is written again. -/
theorem insert_lookup {m : FiniteMap K V} {k : K} {v : V} (h : m.lookup k = some v) :
    m.insert k v = m := by
  refine Finmap.ext_lookup fun x => ?_
  rw [lookup_insert]
  split_ifs with heq
  · rw [heq, h]
  · rfl

/-- A value that is overwritten. -/
theorem insert_insert (m : FiniteMap K V) (k : K) (v w : V) :
    (m.insert k v).insert k w = m.insert k w := by
  refine Finmap.ext_lookup fun x => ?_
  simp only [lookup_insert]
  split_ifs <;> rfl

/-- A value that is erased. -/
theorem erase_insert_self (m : FiniteMap K V) (k : K) (v : V) :
    (m.insert k v).erase k = m.erase k := by
  refine Finmap.ext_lookup fun x => ?_
  simp only [lookup_erase, lookup_insert]
  split_ifs <;> rfl

/-- A map without two keys of one value, when a key gets a value that no other key has. -/
theorem insert_inj {m : FiniteMap K V} {k : K} {v : V}
    (hinj : ∀ x y w, m.lookup x = some w → m.lookup y = some w → x = y)
    (hown : ∀ x, m.lookup x = some v → x = k) (x y : K) (w : V)
    (hx : (m.insert k v).lookup x = some w) (hy : (m.insert k v).lookup y = some w) : x = y := by
  rw [lookup_insert] at hx hy
  by_cases hxk : x = k <;> by_cases hyk : y = k
  · rw [hxk, hyk]
  · rw [if_pos hxk] at hx
    rw [if_neg hyk] at hy
    obtain rfl := Option.some.inj hx
    exact absurd (hown y hy) hyk
  · rw [if_neg hxk] at hx
    rw [if_pos hyk] at hy
    obtain rfl := Option.some.inj hy
    exact absurd (hown x hx) hxk
  · rw [if_neg hxk] at hx
    rw [if_neg hyk] at hy
    exact hinj x y w hx hy

/-- `l` lists the entries of `m`, each once: an order in which an iteration visits them. -/
def Enumerates (m : FiniteMap K V) (l : List (K × V)) : Prop :=
  (l.map Prod.fst).Nodup ∧ ∀ k v, (k, v) ∈ l ↔ m.lookup k = some v

theorem Enumerates.nil : Enumerates (∅ : FiniteMap K V) [] :=
  ⟨List.nodup_nil, by simp⟩

theorem Enumerates.singleton (k : K) (v : V) :
    Enumerates ((∅ : FiniteMap K V).insert k v) [(k, v)] := by
  refine ⟨List.nodup_singleton _, fun x w => ?_⟩
  simp only [List.mem_singleton, Prod.mk.injEq, lookup_insert, Finmap.lookup_empty]
  split_ifs with h
  · simp [h, eq_comm]
  · simp [h]

/-- An enumeration lists entries of the map, and as many as the map has. -/
theorem enumerates_iff {m : FiniteMap K V} {l : List (K × V)} :
    Enumerates m l ↔ (l.map Prod.fst).Nodup ∧ (∀ e ∈ l, m.lookup e.1 = some e.2) ∧
      l.length = m.keys.card := by
  have hkeys : ∀ (_ : ∀ e ∈ l, m.lookup e.1 = some e.2), (l.map Prod.fst).toFinset ⊆ m.keys := by
    intro h x hx
    obtain ⟨e, he, rfl⟩ := List.mem_map.mp (List.mem_toFinset.mp hx)
    rw [Finmap.mem_keys, ← Finmap.lookup_isSome, h e he]
    rfl
  constructor
  · rintro ⟨hnodup, hmem⟩
    have hlookup : ∀ e ∈ l, m.lookup e.1 = some e.2 := fun e he => (hmem e.1 e.2).mp he
    refine ⟨hnodup, hlookup, ?_⟩
    rw [← List.length_map (f := Prod.fst), ← List.toFinset_card_of_nodup hnodup]
    refine congrArg _ (Finset.Subset.antisymm (hkeys hlookup) fun x hx => ?_)
    rw [Finmap.mem_keys, ← Finmap.lookup_isSome] at hx
    obtain ⟨v, hv⟩ := Option.isSome_iff_exists.mp hx
    exact List.mem_toFinset.mpr (List.mem_map.mpr ⟨(x, v), (hmem x v).mpr hv, rfl⟩)
  · rintro ⟨hnodup, hlookup, hlen⟩
    refine ⟨hnodup, fun k v => ⟨fun h => hlookup _ h, fun h => ?_⟩⟩
    have heq : (l.map Prod.fst).toFinset = m.keys := by
      refine Finset.eq_of_subset_of_card_le (hkeys hlookup) ?_
      rw [List.toFinset_card_of_nodup hnodup, List.length_map, hlen]
    have hk : k ∈ (l.map Prod.fst).toFinset := by
      rw [heq, Finmap.mem_keys, ← Finmap.lookup_isSome, h]
      rfl
    obtain ⟨e, he, rfl⟩ := List.mem_map.mp (List.mem_toFinset.mp hk)
    have hv := hlookup e he
    rw [h] at hv
    rwa [Option.some.inj hv]

instance [DecidableEq V] (m : FiniteMap K V) (l : List (K × V)) : Decidable (Enumerates m l) :=
  decidable_of_iff _ enumerates_iff.symm

section AddAbsent

/-- Insert `v` at every key of `ks` that is absent; a key already present keeps its value. -/
def addAbsent (m : FiniteMap K V) (ks : List K) (v : V) : FiniteMap K V :=
  ks.foldl (fun m k => if (m.lookup k).isSome then m else m.insert k v) m

@[simp] theorem addAbsent_nil (m : FiniteMap K V) (v : V) : addAbsent m [] v = m := rfl

theorem lookup_addAbsent (m : FiniteMap K V) (ks : List K) (v : V) (x : K) :
    (addAbsent m ks v).lookup x = (m.lookup x).or (if x ∈ ks then some v else none) := by
  induction ks generalizing m with
  | nil => simp
  | cons k ks ih =>
    rw [addAbsent, List.foldl_cons, ← addAbsent, ih]
    by_cases hk : (m.lookup k).isSome
    · rw [if_pos hk]
      by_cases hx : x = k
      · subst hx
        obtain ⟨w, hw⟩ := Option.isSome_iff_exists.mp hk
        simp [hw]
      · simp [hx]
    · rw [if_neg hk, lookup_insert]
      by_cases hx : x = k
      · subst hx
        rw [Option.not_isSome_iff_eq_none] at hk
        simp [hk]
      · simp [hx]

theorem keys_subset_addAbsent (m : FiniteMap K V) (ks : List K) (v : V) :
    m.keys ⊆ (addAbsent m ks v).keys := by
  intro x hx
  rw [Finmap.mem_keys, ← Finmap.lookup_isSome] at hx ⊢
  rw [lookup_addAbsent, Option.isSome_or, hx, Bool.true_or]

/-- The map grows as soon as one of the keys was absent. -/
theorem card_addAbsent_lt {m : FiniteMap K V} {ks : List K} (v : V) {k : K} (hk : k ∈ ks)
    (habs : m.lookup k = none) : m.keys.card < (addAbsent m ks v).keys.card := by
  refine Finset.card_lt_card ⟨keys_subset_addAbsent m ks v, fun hsub => ?_⟩
  have hmem : k ∈ (addAbsent m ks v).keys := by
    rw [Finmap.mem_keys, ← Finmap.lookup_isSome, lookup_addAbsent, habs]
    simp [hk]
  have := hsub hmem
  rw [Finmap.mem_keys, ← Finmap.lookup_isSome, habs] at this
  simp at this

/-- A map that did not grow did not change. -/
theorem addAbsent_eq_self {m : FiniteMap K V} {ks : List K} {v : V}
    (h : (addAbsent m ks v).keys.card = m.keys.card) : addAbsent m ks v = m := by
  refine Finmap.ext_lookup fun x => ?_
  rw [lookup_addAbsent]
  cases hx : m.lookup x with
  | some w => rfl
  | none =>
    by_cases hmem : x ∈ ks
    · exact absurd h (card_addAbsent_lt v hmem hx).ne'
    · rw [if_neg hmem]
      rfl

end AddAbsent

section Fresh

/-- A number that is not in use: `hint`, or one above those that are. -/
def fresh (used : Finset ℕ) (hint : ℕ) : ℕ := if hint ∈ used then used.sup id + 1 else hint

theorem fresh_not_mem (used : Finset ℕ) (hint : ℕ) : fresh used hint ∉ used := by
  unfold fresh
  split_ifs with h
  · intro hmem
    have hle : used.sup id + 1 ≤ used.sup id := Finset.le_sup (f := id) hmem
    omega
  · exact h

/-- Nothing is stored under a key that is not in use. -/
@[simp] theorem lookup_fresh (m : FiniteMap ℕ V) (hint : ℕ) :
    m.lookup (fresh m.keys hint) = none := by
  rw [Finmap.lookup_eq_none, ← Finmap.mem_keys]
  exact fresh_not_mem m.keys hint

end Fresh

section EraseAll

/-- Erase every key of `ks`. -/
def eraseAll (m : FiniteMap K V) (ks : List K) : FiniteMap K V :=
  ks.foldl (fun m k => m.erase k) m

theorem lookup_eraseAll (m : FiniteMap K V) (ks : List K) (x : K) :
    (eraseAll m ks).lookup x = if x ∈ ks then none else m.lookup x := by
  induction ks generalizing m with
  | nil => simp [eraseAll]
  | cons k ks ih =>
    rw [eraseAll, List.foldl_cons, ← eraseAll, ih, lookup_erase]
    by_cases hx : x = k <;> simp [hx]

end EraseAll

section AssignAll

/-- Assign the entries of `l`, one after the other. -/
def assignAll (m : FiniteMap K V) (l : List (K × V)) : FiniteMap K V :=
  l.foldl (fun m e => m.insert e.1 e.2) m

@[simp] theorem assignAll_nil (m : FiniteMap K V) : assignAll m [] = m := rfl

@[simp] theorem assignAll_cons (m : FiniteMap K V) (e : K × V) (l : List (K × V)) :
    assignAll m (e :: l) = assignAll (m.insert e.1 e.2) l := rfl

theorem assignAll_append (m : FiniteMap K V) (l l' : List (K × V)) :
    assignAll m (l ++ l') = assignAll (assignAll m l) l' := List.foldl_append

theorem lookup_union (s t : FiniteMap K V) (k : K) :
    (s ∪ t).lookup k = (s.lookup k).or (t.lookup k) := by
  by_cases h : k ∈ s
  · obtain ⟨v, hv⟩ := Option.isSome_iff_exists.mp (Finmap.lookup_isSome.mpr h)
    rw [Finmap.lookup_union_left h, hv, Option.some_or]
  · rw [Finmap.lookup_union_right h, Finmap.lookup_eq_none.mpr h, Option.none_or]

/-- What is assigned lies over what was there. -/
theorem assignAll_eq_union (m : FiniteMap K V) (l : List (K × V)) :
    assignAll m l = assignAll ∅ l ∪ m := by
  induction l using List.reverseRecOn with
  | nil => exact Finmap.empty_union.symm
  | append_singleton l e ih =>
    rw [assignAll_append, assignAll_append, ih]
    refine Finmap.ext_lookup fun k => ?_
    simp only [assignAll_cons, assignAll_nil, lookup_insert, lookup_union]
    split_ifs with hk
    · exact (Option.some_or ..).symm
    · rfl

theorem mem_assignAll {m : FiniteMap K V} {l : List (K × V)} {k : K} :
    k ∈ assignAll m l ↔ k ∈ m ∨ k ∈ l.map Prod.fst := by
  induction l generalizing m with
  | nil => simp
  | cons e l ih =>
    rw [assignAll_cons, ih, Finmap.mem_insert, List.map_cons, List.mem_cons]
    tauto

theorem lookup_assignAll_of_notMem {m : FiniteMap K V} {l : List (K × V)} {k : K}
    (h : k ∉ l.map Prod.fst) : (assignAll m l).lookup k = m.lookup k := by
  induction l generalizing m with
  | nil => rfl
  | cons e l ih =>
    rw [List.map_cons, List.mem_cons, not_or] at h
    rw [assignAll_cons, ih h.2, lookup_insert, if_neg h.1]

/-- An entry of a list without two entries for one key is found. -/
theorem lookup_assignAll_of_mem {m : FiniteMap K V} {l : List (K × V)} {k : K} {v : V}
    (hnodup : (l.map Prod.fst).Nodup) (hmem : (k, v) ∈ l) :
    (assignAll m l).lookup k = some v := by
  induction l generalizing m with
  | nil => exact absurd hmem List.not_mem_nil
  | cons e l ih =>
    rw [List.map_cons, List.nodup_cons] at hnodup
    rw [assignAll_cons]
    rcases List.mem_cons.mp hmem with rfl | hrest
    · rw [lookup_assignAll_of_notMem hnodup.1, lookup_insert, if_pos rfl]
    · exact ih hnodup.2 hrest

/-- **Nothing shows of a map that is written over** when every key of it is written. -/
theorem union_eq_left_iff {s t : FiniteMap K V} : s ∪ t = s ↔ ∀ k ∈ t, k ∈ s := by
  constructor
  · intro h k hk
    rw [← h, Finmap.mem_union]
    exact Or.inr hk
  · intro h
    refine Finmap.ext_lookup fun k => ?_
    rw [lookup_union]
    by_cases hk : k ∈ s
    · obtain ⟨v, hv⟩ := Option.isSome_iff_exists.mp (Finmap.lookup_isSome.mpr hk)
      rw [hv, Option.some_or]
    · have ht : t.lookup k = none := Finmap.lookup_eq_none.mpr fun hmem => hk (h k hmem)
      rw [ht, Option.or_none]

end AssignAll

end FiniteMap
