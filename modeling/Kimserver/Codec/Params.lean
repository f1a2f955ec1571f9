import Kimserver.Codec.Http

/-!
# Reading joined parameters

A map of parameters is joined to `k1=v1&k2=v2&...` in some order of its entries, and
`decode_params` reads it again. In its loop every `'='` only says that a value begins, also where
one has begun: the `'='` of a value are left out.

## Main definitions

* `IsParam`, `joinParams`: the entries that can be joined, and their text
* `decodeParamsInto`: `decode_params`, with the map that it is called with

## Main results

* `decodeParamsInto_join`: what is read of a joined text
* `decodeParamsInto_join_iff`: the maps that are read again
-/

namespace Kimserver

/-! ## Joined parameters -/

/-- An entry with a key, where only the value may have a `'='`, and nothing has a `'&'`. -/
structure IsParam (e : Bytes × Bytes) : Prop where
  key_ne : e.1 ≠ []
  key_noAmp : (38 : UInt8) ∉ e.1
  key_noEquals : (61 : UInt8) ∉ e.1
  value_noAmp : (38 : UInt8) ∉ e.2

/-- `k=v`. -/
def paramText (e : Bytes × Bytes) : Bytes := e.1 ++ 61 :: e.2

/-- `k1=v1&k2=v2&...`. -/
def joinParams : List (Bytes × Bytes) → Bytes
  | [] => []
  | [e] => paramText e
  | e :: e' :: entries => paramText e ++ 38 :: joinParams (e' :: entries)

/-- A value without its `'='`. -/
def withoutEquals (value : Bytes) : Bytes := value.filter fun c => c ≠ 61

theorem withoutEquals_eq_self_iff {value : Bytes} :
    withoutEquals value = value ↔ (61 : UInt8) ∉ value := by
  unfold withoutEquals
  rw [List.filter_eq_self]
  simp only [ne_eq, decide_eq_true_eq]
  exact ⟨fun h hmem => h 61 hmem rfl, fun h c hc heq => h (heq ▸ hc)⟩

/-- `std::map::clear`. -/
def clearParams (_params : FiniteMap Bytes Bytes) : FiniteMap Bytes Bytes := ∅

/-- `decode_params`, which begins with `params.clear()`. -/
def decodeParamsInto (s : Bytes) (params : FiniteMap Bytes Bytes) : FiniteMap Bytes Bytes :=
  (s.foldl ParamState.step { params := clearParams params }).store

/-! ## The loop -/

namespace ParamState

variable {s : ParamState}

/-- The characters of a key. -/
theorem foldl_key {key : Bytes} (hkey : s.isValue = false) (hamp : (38 : UInt8) ∉ key)
    (hequals : (61 : UInt8) ∉ key) : key.foldl step s = { s with key := s.key ++ key } := by
  induction key generalizing s with
  | nil => rw [List.foldl_nil, List.append_nil]
  | cons c key ih =>
    rw [List.mem_cons, not_or] at hamp hequals
    have hstep : s.step c = { s with key := s.key ++ [c] } := by
      unfold step
      rw [if_neg (Ne.symm hamp.1), if_neg (Ne.symm hequals.1), hkey, if_neg Bool.false_ne_true]
    have hrest := ih (s := { s with key := s.key ++ [c] }) hkey hamp.2 hequals.2
    rw [List.foldl_cons, hstep, hrest, List.append_assoc, List.singleton_append]

/-- The characters of a value, when it has begun. -/
theorem foldl_value {value : Bytes} (hvalue : s.isValue = true) (hamp : (38 : UInt8) ∉ value) :
    value.foldl step s = { s with value := s.value ++ withoutEquals value } := by
  induction value generalizing s with
  | nil => exact congrArg (fun v => { s with value := v }) (List.append_nil _).symm
  | cons c value ih =>
    rw [List.mem_cons, not_or] at hamp
    rw [List.foldl_cons]
    by_cases hc : c = 61
    · -- a further '=' changes nothing
      have hstep : s.step c = s := by
        unfold step
        rw [if_neg (Ne.symm hamp.1), if_pos hc, ← hvalue]
      have hleft : withoutEquals (c :: value) = withoutEquals value :=
        List.filter_cons_of_neg (by simp [hc])
      rw [hstep, ih hvalue hamp.2, hleft]
    · have hstep : s.step c = { s with value := s.value ++ [c] } := by
        unfold step
        rw [if_neg (Ne.symm hamp.1), if_neg hc, if_pos hvalue]
      have hleft : withoutEquals (c :: value) = c :: withoutEquals value :=
        List.filter_cons_of_pos (by simp [hc])
      have hrest := ih (s := { s with value := s.value ++ [c] }) hvalue hamp.2
      rw [hstep, hrest, hleft, List.append_assoc, List.singleton_append]

/-- **One entry** is stored by the `'&'` behind it, or behind the loop. -/
theorem foldl_paramText {e : Bytes × Bytes} (h : IsParam e) (params : FiniteMap Bytes Bytes) :
    ((paramText e).foldl step { params := params }).store =
      params.insert e.1 (withoutEquals e.2) := by
  have hbegin : step { params := params, key := e.1 } 61 =
      { params := params, key := e.1, isValue := true } := rfl
  have hpos : 0 < e.1.length := List.length_pos_iff.mpr h.key_ne
  unfold paramText
  rw [List.foldl_append, foldl_key rfl h.key_noAmp h.key_noEquals, List.nil_append,
    List.foldl_cons, hbegin, foldl_value rfl h.value_noAmp, List.nil_append]
  exact if_pos hpos

/-- **All entries** are stored one after the other. -/
theorem foldl_joinParams {entries : List (Bytes × Bytes)} (h : ∀ e ∈ entries, IsParam e)
    (params : FiniteMap Bytes Bytes) :
    ((joinParams entries).foldl step { params := params }).store =
      FiniteMap.assignAll params (entries.map fun e => (e.1, withoutEquals e.2)) := by
  induction entries generalizing params with
  | nil => rfl
  | cons e entries ih =>
    have he : IsParam e := h e List.mem_cons_self
    have hrest : ∀ e ∈ entries, IsParam e := fun e' he' => h e' (List.mem_cons_of_mem e he')
    cases entries with
    | nil => exact foldl_paramText he params
    | cons e' entries =>
      have hamp : ∀ s : ParamState, s.step 38 = { params := s.store } := fun s => if_pos rfl
      rw [joinParams, List.foldl_append, List.foldl_cons, hamp, foldl_paramText he, ih hrest]
      rfl

end ParamState

/-! ## The map that is read -/

variable {entries : List (Bytes × Bytes)} {m : FiniteMap Bytes Bytes}

/-- **What is read of a joined text**: the entries, with the values without their `'='`. -/
theorem decodeParamsInto_join (h : ∀ e ∈ entries, IsParam e) (params : FiniteMap Bytes Bytes) :
    decodeParamsInto (joinParams entries) params =
      FiniteMap.assignAll ∅ (entries.map fun e => (e.1, withoutEquals e.2)) :=
  ParamState.foldl_joinParams h (clearParams params)

/-- An entry of a map that is joined in any order is read without the `'='` of its value. -/
theorem lookup_decodeParamsInto_join (henum : FiniteMap.Enumerates m entries)
    (h : ∀ e ∈ entries, IsParam e) (params : FiniteMap Bytes Bytes) (k : Bytes) :
    (decodeParamsInto (joinParams entries) params).lookup k =
      (m.lookup k).map withoutEquals := by
  have hkeys : (entries.map fun e => (e.1, withoutEquals e.2)).map Prod.fst =
      entries.map Prod.fst := List.map_map
  rw [decodeParamsInto_join h]
  cases hfound : m.lookup k with
  | some v =>
    -- the key is in the text once, so its own value is read
    have hmem : (k, v) ∈ entries := (henum.2 k v).mpr hfound
    refine FiniteMap.lookup_assignAll_of_mem ?_ (List.mem_map.mpr ⟨_, hmem, rfl⟩)
    rw [hkeys]
    exact henum.1
  | none =>
    refine FiniteMap.lookup_assignAll_of_notMem ?_
    rw [hkeys]
    intro hmem
    obtain ⟨e, he, rfl⟩ := List.mem_map.mp hmem
    have hsome : m.lookup e.1 = some e.2 := (henum.2 e.1 e.2).mp he
    rw [hsome] at hfound
    cases hfound

/-- **Joined parameters are read again**, in every order and whatever the map held before, when
no value has a `'='`. -/
theorem decodeParamsInto_join_iff (henum : FiniteMap.Enumerates m entries)
    (h : ∀ e ∈ entries, IsParam e) :
    (∀ params, decodeParamsInto (joinParams entries) params = m) ↔
      ∀ e ∈ entries, (61 : UInt8) ∉ e.2 := by
  constructor
  · intro hread e he
    have hsome : m.lookup e.1 = some e.2 := (henum.2 e.1 e.2).mp he
    -- what is read for the key is the value without its separators
    have hlookup := lookup_decodeParamsInto_join henum h ∅ e.1
    rw [hread ∅, hsome] at hlookup
    exact withoutEquals_eq_self_iff.mp (Option.some.inj hlookup).symm
  · intro hvalues params
    refine Finmap.ext_lookup fun k => ?_
    rw [lookup_decodeParamsInto_join henum h]
    cases hfound : m.lookup k with
    | none => rfl
    | some v =>
      have hmem : (k, v) ∈ entries := (henum.2 k v).mpr hfound
      exact congrArg some (withoutEquals_eq_self_iff.mpr (hvalues (k, v) hmem))

/-- `a=1&b=`. -/
theorem decodeParamsInto_join_two :
    (∀ params, decodeParamsInto (joinParams [([97], [49]), ([98], [])]) params =
      FiniteMap.assignAll ∅ [([97], [49]), ([98], [])]) ↔
      ∀ e ∈ [(([97], [49]) : Bytes × Bytes), ([98], [])], (61 : UInt8) ∉ e.2 := by
  refine decodeParamsInto_join_iff (by decide +kernel) fun e he => ?_
  rw [List.mem_cons, List.mem_singleton] at he
  rcases he with rfl | rfl
  · exact ⟨by decide, by decide, by decide, by decide⟩
  · exact ⟨by decide, by decide, by decide, by decide⟩

/-- Of `a=b=c` the value `bc` is read. -/
theorem decodeParamsInto_join_equals :
    ¬ ∀ (m : FiniteMap Bytes Bytes) (entries : List (Bytes × Bytes)),
      FiniteMap.Enumerates m entries → (∀ e ∈ entries, IsParam e) →
        ∀ params, decodeParamsInto (joinParams entries) params = m := by
  intro hall
  have hparam : IsParam (([97], [98, 61, 99]) : Bytes × Bytes) :=
    ⟨by decide, by decide, by decide, by decide⟩
  have hread := hall _ _ (FiniteMap.Enumerates.singleton [97] [98, 61, 99])
    (fun e he => List.mem_singleton.mp he ▸ hparam) ∅
  have hlookup := congrArg (fun m => Finmap.lookup [97] m) hread
  rw [FiniteMap.lookup_insert, if_pos rfl] at hlookup
  exact absurd hlookup (by decide +kernel)

end Kimserver
