import Kimserver.Lib.FiniteMap
import Mathlib.Data.Finset.Max
import Mathlib.Data.Finset.Sort

/-!
# Ordered finite maps

The searches of an ordered map over finite maps with linearly ordered keys: the least key,
the least key that is not below a bound, and the two together, which read the keys as a ring.

## Main definitions

* `FiniteMap.first`, `FiniteMap.lowerBound`: the keys of `begin()` and of `lower_bound(k)`
* `FiniteMap.IsCeiling`: a key is the next one on the ring
* `FiniteMap.next`: the value at the next key on the ring
* `FiniteMap.sorted`: the entries in the order of their keys

## Main results

* `FiniteMap.ceiling_eq_some`, `FiniteMap.ceiling_eq_none`: the two searches find the next key
  on the ring, unless the map is empty
* `FiniteMap.next_eq_or`: keys that are added with one value attract searches to this value only
-/

/-- The order of 32-bit words, as `std::less` compares them. -/
instance UInt32.instLinearOrder : LinearOrder UInt32 where
  le_refl _ := UInt32.le_refl _
  le_trans _ _ _ := UInt32.le_trans
  le_antisymm _ _ := UInt32.le_antisymm
  le_total := UInt32.le_total
  lt_iff_le_not_ge a b := by
    rw [UInt32.lt_iff_toNat_lt, UInt32.le_iff_toNat_le, UInt32.le_iff_toNat_le]
    omega
  toDecidableLE := inferInstance
  toDecidableEq := inferInstance
  toDecidableLT := inferInstance

/-- The order of bytes. -/
instance UInt8.instLinearOrder : LinearOrder UInt8 where
  le_refl _ := UInt8.le_refl _
  le_trans _ _ _ := UInt8.le_trans
  le_antisymm _ _ := UInt8.le_antisymm
  le_total := UInt8.le_total
  lt_iff_le_not_ge a b := by
    rw [UInt8.lt_iff_toNat_lt, UInt8.le_iff_toNat_le, UInt8.le_iff_toNat_le]
    omega
  toDecidableLE := inferInstance
  toDecidableEq := inferInstance
  toDecidableLT := inferInstance

namespace FiniteMap

section Sorted

variable {K V : Type*} [DecidableEq K] (r : K → K → Prop) [DecidableRel r] [IsTrans K r]
  [Std.Antisymm r] [Std.Total r]

/-- The entries in the order of their keys. -/
def sorted (m : FiniteMap K V) : List (K × V) :=
  (m.keys.sort r).filterMap fun k => (m.lookup k).map fun v => (k, v)

theorem enumerates_sorted (m : FiniteMap K V) : Enumerates m (sorted r m) := by
  have hentry : ∀ {k : K} {e : K × V}, (m.lookup k).map (fun v => (k, v)) = some e → e.1 = k := by
    intro k e he
    obtain ⟨v, -, rfl⟩ := Option.map_eq_some_iff.mp he
    rfl
  have hkeys : ∀ l : List K, ((l.filterMap fun k => (m.lookup k).map fun v => (k, v)).map
      Prod.fst).Sublist l := by
    intro l
    induction l with
    | nil => exact List.Sublist.slnil
    | cons k l ih =>
      rw [List.filterMap_cons]
      cases he : (m.lookup k).map fun v => (k, v) with
      | none => exact ih.cons k
      | some e =>
        rw [List.map_cons, hentry he]
        exact ih.cons_cons k
  refine ⟨(hkeys _).nodup (Finset.sort_nodup _ _), fun k v => ?_⟩
  rw [sorted, List.mem_filterMap]
  constructor
  · rintro ⟨x, -, hx⟩
    obtain ⟨w, hw, heq⟩ := Option.map_eq_some_iff.mp hx
    cases heq
    exact hw
  · intro hv
    refine ⟨k, ?_, by rw [hv]; rfl⟩
    rw [Finset.mem_sort, Finmap.mem_keys, ← Finmap.lookup_isSome, hv]
    rfl

end Sorted

variable {K V : Type*} [LinearOrder K]

/-- The least key. -/
def first (m : FiniteMap K V) : Option K :=
  if h : m.keys.Nonempty then some (m.keys.min' h) else none

/-- The least key that is not below `k`. -/
def lowerBound (m : FiniteMap K V) (k : K) : Option K :=
  if h : (m.keys.filter fun x => k ≤ x).Nonempty then
    some ((m.keys.filter fun x => k ≤ x).min' h)
  else none

/-- `x` is the least key that is not below `k`, or the least key when there is none. -/
def IsCeiling (m : FiniteMap K V) (k x : K) : Prop :=
  x ∈ m.keys ∧ ((k ≤ x ∧ ∀ y ∈ m.keys, k ≤ y → x ≤ y) ∨
    ((∀ y ∈ m.keys, y < k) ∧ ∀ y ∈ m.keys, x ≤ y))

theorem first_eq_some {m : FiniteMap K V} {x : K} :
    m.first = some x ↔ x ∈ m.keys ∧ ∀ y ∈ m.keys, x ≤ y := by
  unfold first
  split_ifs with h
  · rw [Option.some.injEq, eq_comm]
    constructor
    · rintro rfl
      exact ⟨Finset.min'_mem _ h, fun y hy => Finset.min'_le _ y hy⟩
    · rintro ⟨hx, hleast⟩
      exact le_antisymm (hleast _ (Finset.min'_mem _ h)) (Finset.min'_le _ x hx)
  · exact iff_of_false (by simp) fun hx => h ⟨x, hx.1⟩

theorem first_eq_none {m : FiniteMap K V} : m.first = none ↔ m.keys = ∅ := by
  unfold first
  split_ifs with h
  · exact iff_of_false (by simp) h.ne_empty
  · exact iff_of_true rfl (Finset.not_nonempty_iff_eq_empty.mp h)

theorem lowerBound_eq_some {m : FiniteMap K V} {k x : K} :
    m.lowerBound k = some x ↔ x ∈ m.keys ∧ k ≤ x ∧ ∀ y ∈ m.keys, k ≤ y → x ≤ y := by
  unfold lowerBound
  split_ifs with h
  · rw [Option.some.injEq, eq_comm]
    constructor
    · rintro rfl
      obtain ⟨hmem, hle⟩ := Finset.mem_filter.mp (Finset.min'_mem _ h)
      exact ⟨hmem, hle, fun y hy hky => Finset.min'_le _ y (Finset.mem_filter.mpr ⟨hy, hky⟩)⟩
    · rintro ⟨hx, hkx, hleast⟩
      obtain ⟨hmem, hle⟩ := Finset.mem_filter.mp (Finset.min'_mem _ h)
      exact le_antisymm (hleast _ hmem hle)
        (Finset.min'_le _ x (Finset.mem_filter.mpr ⟨hx, hkx⟩))
  · exact iff_of_false (by simp) fun hx => h ⟨x, Finset.mem_filter.mpr ⟨hx.1, hx.2.1⟩⟩

theorem lowerBound_eq_none {m : FiniteMap K V} {k : K} :
    m.lowerBound k = none ↔ ∀ y ∈ m.keys, y < k := by
  unfold lowerBound
  split_ifs with h
  · obtain ⟨x, hx⟩ := h
    obtain ⟨hmem, hle⟩ := Finset.mem_filter.mp hx
    exact iff_of_false (by simp) fun hall => absurd hle (not_le.mpr (hall x hmem))
  · refine iff_of_true rfl fun y hy => not_le.mp fun hle => h ⟨y, ?_⟩
    exact Finset.mem_filter.mpr ⟨hy, hle⟩

/-- **The next key on the ring**: the least key from `k` on, or else the least key. -/
theorem ceiling_eq_some {m : FiniteMap K V} {k x : K} :
    (m.lowerBound k).or m.first = some x ↔ m.IsCeiling k x := by
  cases hlow : m.lowerBound k with
  | some v =>
    obtain ⟨hmem, hle, hleast⟩ := lowerBound_eq_some.mp hlow
    rw [Option.some_or, Option.some.injEq]
    constructor
    · rintro rfl
      exact ⟨hmem, Or.inl ⟨hle, hleast⟩⟩
    · rintro ⟨hx, ⟨hkx, hxleast⟩ | ⟨hall, -⟩⟩
      · exact le_antisymm (hleast x hx hkx) (hxleast v hmem hle)
      · exact absurd hle (not_le.mpr (hall v hmem))
  | none =>
    have hall := lowerBound_eq_none.mp hlow
    rw [Option.none_or, first_eq_some]
    constructor
    · rintro ⟨hx, hleast⟩
      exact ⟨hx, Or.inr ⟨hall, hleast⟩⟩
    · rintro ⟨hx, ⟨hkx, -⟩ | ⟨-, hleast⟩⟩
      · exact absurd hkx (not_le.mpr (hall x hx))
      · exact ⟨hx, hleast⟩

theorem ceiling_eq_none {m : FiniteMap K V} {k : K} :
    (m.lowerBound k).or m.first = none ↔ m.keys = ∅ := by
  rw [Option.or_eq_none_iff, first_eq_none, lowerBound_eq_none]
  exact ⟨fun h => h.2, fun h => ⟨by simp [h], h⟩⟩

/-- The searches read the keys only. -/
theorem ceiling_congr {W : Type*} {m : FiniteMap K V} {m' : FiniteMap K W}
    (h : m.keys = m'.keys) (k : K) :
    (m.lowerBound k).or m.first = (m'.lowerBound k).or m'.first := by
  refine Option.ext fun x => ?_
  rw [ceiling_eq_some, ceiling_eq_some, IsCeiling, IsCeiling, h]

/-! ## The value at the next key -/

/-- A key that is the next one among more keys is the next one among fewer. -/
theorem IsCeiling.of_subset {W : Type*} {m : FiniteMap K V} {m' : FiniteMap K W} {k x : K}
    (h : m'.IsCeiling k x) (hsub : m.keys ⊆ m'.keys) (hx : x ∈ m.keys) : m.IsCeiling k x := by
  refine ⟨hx, ?_⟩
  rcases h.2 with ⟨hle, hleast⟩ | ⟨hall, hleast⟩
  · exact Or.inl ⟨hle, fun y hy => hleast y (hsub hy)⟩
  · exact Or.inr ⟨fun y hy => hall y (hsub hy), fun y hy => hleast y (hsub hy)⟩

/-- The value at the next key on the ring. -/
def next (m : FiniteMap K V) (k : K) : Option V := ((m.lowerBound k).or m.first).bind m.lookup

theorem next_eq_none {m : FiniteMap K V} {k : K} : m.next k = none ↔ m.keys = ∅ := by
  unfold next
  constructor
  · intro h
    cases hceil : (m.lowerBound k).or m.first with
    | none => exact ceiling_eq_none.mp hceil
    | some x =>
      rw [hceil, Option.bind_some] at h
      have hmem := (ceiling_eq_some.mp hceil).1
      exact absurd (Finmap.mem_keys.mp hmem) (Finmap.lookup_eq_none.mp h)
  · intro h
    rw [ceiling_eq_none.mpr h, Option.bind_none]

theorem next_eq_some {m : FiniteMap K V} {k : K} {v : V} :
    m.next k = some v ↔ ∃ x, m.IsCeiling k x ∧ m.lookup x = some v := by
  simp only [next, Option.bind_eq_some_iff, ceiling_eq_some]

/-- **Added keys attract to their own value**: when a map has the entries of another and some
more, all with one value, a search finds what it found in the other map, or this value. -/
theorem next_eq_or {m m' : FiniteMap K V} {w : V}
    (h : ∀ x, m'.lookup x = m.lookup x ∨ m.lookup x = none ∧ m'.lookup x = some w) (k : K) :
    m'.next k = m.next k ∨ m'.next k = some w := by
  have hsub : m.keys ⊆ m'.keys := by
    intro x hx
    rw [Finmap.mem_keys, ← Finmap.lookup_isSome] at hx ⊢
    rcases h x with heq | ⟨hnone, -⟩
    · rw [heq]; exact hx
    · rw [hnone] at hx; exact absurd hx Bool.false_ne_true
  cases hnext : m'.next k with
  | none =>
    left
    rw [eq_comm, next_eq_none, ← Finset.subset_empty, ← next_eq_none.mp hnext]
    exact hsub
  | some v =>
    obtain ⟨x, hceil, hx⟩ := next_eq_some.mp hnext
    rcases h x with heq | ⟨-, hw⟩
    · have hold : m.lookup x = some v := by rw [← heq, hx]
      have hmem : x ∈ m.keys := by
        rw [Finmap.mem_keys, ← Finmap.lookup_isSome, hold, Option.isSome_some]
      exact Or.inl (next_eq_some.mpr ⟨x, hceil.of_subset hsub hmem, hold⟩).symm
    · exact Or.inr (hx.symm.trans hw)

end FiniteMap
