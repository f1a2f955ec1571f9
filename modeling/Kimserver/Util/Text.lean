import Mathlib.Data.Nat.Digits.Lemmas
import Kimserver.Lib.CInt

/-!
# Strings and their formatting

A `std::string` is a list of bytes. The formatting helpers of `util.cpp` print into fixed
stack buffers, so their results are cut; a `%s` argument is passed as a C string and ends at
its first NUL.

## Main definitions

* `Bytes`, `cStr`, `toDecimal`: strings, the part of a string `%s` prints, and `%d`
* `formatStr`, `formatHost`, `formatNodesId`: `format_str`, the `"%s:%d"` key built with it,
  and `format_nodes_id`
* `strToInt`: `str_to_int`, with the exceptions of `std::stoi`

## Main results

* `strToInt_toDecimal`: `str_to_int` reads back what `std::to_string` printed
* `formatNodesId_inj`: node ids that were not cut determine host, port and index
-/

namespace Kimserver

/-- The contents of a `std::string`. -/
abbrev Bytes := List UInt8

/-- An ASCII literal. -/
def text (s : String) : Bytes := s.toList.map fun c => UInt8.ofNat c.toNat

/-- What `%s` prints of a string passed as `c_str()`. -/
def cStr (s : Bytes) : Bytes := s.takeWhile (· ≠ 0)

/-- The digit character of `d < 10`. -/
def digitChar (d : ℕ) : UInt8 := UInt8.ofNat (48 + d)

/-- `%u` of a natural number. -/
def natToDecimal (n : ℕ) : Bytes :=
  if n = 0 then [digitChar 0] else (Nat.digits 10 n).reverse.map digitChar

/-- `%d` and `std::to_string` of an `int`. -/
def toDecimal (n : ℤ) : Bytes :=
  if n < 0 then 45 :: natToDecimal n.natAbs else natToDecimal n.natAbs

/-- `format_str`: the formatted text, cut to the 256-byte buffer. -/
def formatStr (s : Bytes) : Bytes := s.take 255

/-- `format_str("%s:%d", host, port)`, the key of `m_host_zk_paths`. -/
def formatHost (host : Bytes) (port : ℤ) : Bytes :=
  formatStr (cStr host ++ [58] ++ toDecimal port)

/-- The text `format_nodes_id` prints, before it is cut. -/
def nodesIdText (host : Bytes) (port index : ℤ) : Bytes :=
  cStr host ++ [58] ++ toDecimal port ++ [46] ++ toDecimal index

/-- `format_nodes_id`: `"%s:%d.%d"`, cut to the 128-byte buffer. -/
def formatNodesId (host : Bytes) (port index : ℤ) : Bytes :=
  (nodesIdText host port index).take 127

/-! ## Decimal text -/

/-- A digit or the minus sign. -/
def IsDecimalChar (c : UInt8) : Prop := c = 45 ∨ 48 ≤ c ∧ c ≤ 57

theorem toNat_digitChar {d : ℕ} (hd : d < 10) : (digitChar d).toNat = 48 + d := by
  unfold digitChar
  exact UInt8.toNat_ofNat_of_lt' (by norm_num; omega)

theorem isDecimalChar_digitChar {d : ℕ} (hd : d < 10) : IsDecimalChar (digitChar d) := by
  have h := toNat_digitChar hd
  refine Or.inr ⟨?_, ?_⟩
  · rw [UInt8.le_iff_toNat_le, h]
    exact Nat.le_add_right _ _
  · rw [UInt8.le_iff_toNat_le, h]
    exact Nat.add_le_add_left (Nat.le_of_lt_succ hd) 48

theorem isDecimalChar_of_mem_natToDecimal {n : ℕ} {c : UInt8} (hc : c ∈ natToDecimal n) :
    IsDecimalChar c := by
  unfold natToDecimal at hc
  split_ifs at hc
  · rw [List.mem_singleton.mp hc]
    exact isDecimalChar_digitChar (by norm_num)
  · obtain ⟨d, hd, rfl⟩ := List.mem_map.mp hc
    exact isDecimalChar_digitChar (Nat.digits_lt_base (by norm_num) (List.mem_reverse.mp hd))

theorem isDecimalChar_of_mem_toDecimal {n : ℤ} {c : UInt8} (hc : c ∈ toDecimal n) :
    IsDecimalChar c := by
  unfold toDecimal at hc
  split_ifs at hc
  · rcases List.mem_cons.mp hc with rfl | hc
    · exact Or.inl rfl
    · exact isDecimalChar_of_mem_natToDecimal hc
  · exact isDecimalChar_of_mem_natToDecimal hc

theorem natToDecimal_ne_nil (n : ℕ) : natToDecimal n ≠ [] := by
  unfold natToDecimal
  split_ifs with h
  · simp
  · simpa [Nat.digits_eq_nil_iff_eq_zero] using h

/-- The value of a list of digit characters, most significant first. -/
def decimalValue (s : Bytes) : ℕ := s.foldl (fun acc c => 10 * acc + (c.toNat - 48)) 0

theorem decimalValue_natToDecimal (n : ℕ) : decimalValue (natToDecimal n) = n := by
  unfold natToDecimal
  split_ifs with h
  · rw [h]; rfl
  · unfold decimalValue
    rw [List.foldl_map, List.foldl_reverse]
    conv_rhs => rw [← Nat.ofDigits_digits 10 n, Nat.ofDigits_eq_foldr]
    have key : ∀ l : List ℕ, (∀ d ∈ l, d < 10) →
        l.foldr (fun d acc => 10 * acc + ((digitChar d).toNat - 48)) 0 =
          l.foldr (fun d acc => ((d : ℕ) : ℕ) + 10 * acc) 0 := by
      intro l
      induction l with
      | nil => intro _; rfl
      | cons d l ih =>
        intro hl
        rw [List.foldr_cons, List.foldr_cons, ih fun x hx => hl x (List.mem_cons_of_mem _ hx),
          toNat_digitChar (hl d List.mem_cons_self)]
        omega
    exact key _ fun d hd => Nat.digits_lt_base (by norm_num) hd

theorem natToDecimal_injective {m n : ℕ} (h : natToDecimal m = natToDecimal n) : m = n := by
  rw [← decimalValue_natToDecimal m, h, decimalValue_natToDecimal]

theorem minus_notMem_natToDecimal (n : ℕ) : (45 : UInt8) ∉ natToDecimal n := by
  intro hc
  unfold natToDecimal at hc
  split_ifs at hc
  · exact absurd (List.mem_singleton.mp hc) (by decide)
  · obtain ⟨d, hd, hdc⟩ := List.mem_map.mp hc
    have h := toNat_digitChar (Nat.digits_lt_base (by norm_num) (List.mem_reverse.mp hd))
    rw [hdc] at h
    simp at h
    omega

theorem toDecimal_injective {m n : ℤ} (h : toDecimal m = toDecimal n) : m = n := by
  unfold toDecimal at h
  split_ifs at h with hm hn hn
  · have := natToDecimal_injective (List.cons.inj h).2
    omega
  · exact absurd (h ▸ List.mem_cons_self) (minus_notMem_natToDecimal _)
  · exact absurd (h ▸ List.mem_cons_self) (minus_notMem_natToDecimal _)
  · have := natToDecimal_injective h
    omega

/-! ## `str_to_int` -/

/-- The exceptions `std::stoi` throws. -/
inductive StoiError
  | invalidArgument
  | outOfRange
  deriving DecidableEq, Repr

/-- `isspace` in the C locale. -/
def isSpace (c : UInt8) : Bool := c == 32 || (9 ≤ c && c ≤ 13)

def isDigit (c : UInt8) : Bool := 48 ≤ c && c ≤ 57

/-- The text after an optional sign, and whether the sign was a minus. -/
def splitSign : Bytes → Bool × Bytes
  | 45 :: s => (true, s)
  | 43 :: s => (false, s)
  | s => (false, s)

/-- `std::stoi`: blanks, an optional sign and a longest run of digits; what follows is
ignored. -/
def stoi (s : Bytes) : Except StoiError ℤ :=
  let (neg, rest) := splitSign ((cStr s).dropWhile isSpace)
  let digits := rest.takeWhile isDigit
  if digits = [] then .error .invalidArgument
  else
    let value : ℤ := if neg then -(decimalValue digits : ℤ) else decimalValue digits
    if CInt.InRange value then .ok value else .error .outOfRange

/-- `str_to_int`. -/
def strToInt (d : Bytes) : Except StoiError ℤ := if d = [] then .ok 0 else stoi d

theorem isDigit_of_mem_natToDecimal {n : ℕ} {c : UInt8} (hc : c ∈ natToDecimal n) :
    isDigit c = true := by
  rcases isDecimalChar_of_mem_natToDecimal hc with rfl | ⟨h₁, h₂⟩
  · exact absurd hc (minus_notMem_natToDecimal n)
  · simp [isDigit, h₁, h₂]

theorem takeWhile_eq_self_of_forall {p : UInt8 → Bool} {s : Bytes} (h : ∀ c ∈ s, p c = true) :
    s.takeWhile p = s := by
  have happ : (s ++ []).takeWhile p = s ++ [].takeWhile p := List.takeWhile_append_of_pos h
  rwa [List.append_nil, List.takeWhile_nil, List.append_nil] at happ

theorem cStr_eq_self {s : Bytes} (h : ∀ c ∈ s, c ≠ 0) : cStr s = s :=
  takeWhile_eq_self_of_forall fun c hc => by simpa using h c hc

theorem ne_zero_of_isDecimalChar {c : UInt8} (h : IsDecimalChar c) : c ≠ 0 := by
  rcases h with rfl | ⟨h, -⟩
  · decide
  · rintro rfl
    exact absurd h (by decide)

theorem not_isSpace_of_isDecimalChar {c : UInt8} (h : IsDecimalChar c) : isSpace c = false := by
  rcases h with rfl | ⟨h, -⟩
  · decide
  · simp only [isSpace, Bool.or_eq_false_iff, beq_eq_false_iff_ne, Bool.and_eq_false_iff,
      decide_eq_false_iff_not]
    refine ⟨?_, Or.inr fun hle => ?_⟩
    · rintro rfl
      exact absurd h (by decide)
    · exact absurd (UInt8.le_trans h hle) (by decide)

theorem dropWhile_isSpace_toDecimal (n : ℤ) :
    (toDecimal n).dropWhile isSpace = toDecimal n := by
  cases h : toDecimal n with
  | nil => rfl
  | cons c s =>
    have hc : IsDecimalChar c := isDecimalChar_of_mem_toDecimal (n := n) (h ▸ List.mem_cons_self)
    rw [List.dropWhile_cons, not_isSpace_of_isDecimalChar hc]
    rfl

theorem splitSign_natToDecimal (n : ℕ) : splitSign (natToDecimal n) = (false, natToDecimal n) := by
  cases h : natToDecimal n with
  | nil => rfl
  | cons c s =>
    have hc : isDigit c = true := isDigit_of_mem_natToDecimal (n := n) (h ▸ List.mem_cons_self)
    unfold splitSign
    split
    · next heq => exact absurd ((List.cons.inj heq).1 ▸ hc) (by decide)
    · next heq => exact absurd ((List.cons.inj heq).1 ▸ hc) (by decide)
    · rfl

/-- **`str_to_int` reads back what `std::to_string` printed.** -/
theorem strToInt_toDecimal {n : ℤ} (h : CInt.InRange n) : strToInt (toDecimal n) = .ok n := by
  have hne : toDecimal n ≠ [] := by
    unfold toDecimal
    split_ifs
    · simp
    · exact natToDecimal_ne_nil _
  have htake : (natToDecimal n.natAbs).takeWhile isDigit = natToDecimal n.natAbs :=
    takeWhile_eq_self_of_forall fun c hc => isDigit_of_mem_natToDecimal hc
  have hstr : cStr (toDecimal n) = toDecimal n :=
    cStr_eq_self fun c hc => ne_zero_of_isDecimalChar (isDecimalChar_of_mem_toDecimal hc)
  rw [strToInt, if_neg hne, stoi, hstr, dropWhile_isSpace_toDecimal]
  by_cases hn : n < 0
  · have hsplit : splitSign (toDecimal n) = (true, natToDecimal n.natAbs) := by
      simp [toDecimal, hn, splitSign]
    have hval : -((n.natAbs : ℕ) : ℤ) = n := by omega
    simp only [hsplit, htake, if_neg (natToDecimal_ne_nil _), decimalValue_natToDecimal, if_true,
      hval, if_pos h]
  · have hsplit : splitSign (toDecimal n) = (false, natToDecimal n.natAbs) := by
      simp [toDecimal, hn, splitSign_natToDecimal]
    have hval : ((n.natAbs : ℕ) : ℤ) = n := by omega
    simp only [hsplit, htake, if_neg (natToDecimal_ne_nil _), decimalValue_natToDecimal, hval,
      if_pos h, Bool.false_eq_true, if_false]

/-! ## Node ids -/

/-- A separator that does not occur after it splits a text at one place. -/
theorem append_sep_inj {a b c d : Bytes} {x : UInt8} (hb : x ∉ b) (hd : x ∉ d)
    (h : a ++ [x] ++ b = c ++ [x] ++ d) : a = c ∧ b = d := by
  have hrev : b.reverse ++ x :: a.reverse = d.reverse ++ x :: c.reverse := by
    simpa using congrArg List.reverse h
  have hpos : ∀ {s : Bytes}, x ∉ s → ∀ y ∈ s.reverse, (decide (y ≠ x)) = true := by
    intro s hs y hy
    exact decide_eq_true fun hyx => hs (hyx ▸ List.mem_reverse.mp hy)
  have hbd : b.reverse = d.reverse := by
    have htake := congrArg (List.takeWhile (· ≠ x)) hrev
    rwa [List.takeWhile_append_of_pos (hpos hb), List.takeWhile_append_of_pos (hpos hd),
      List.takeWhile_cons_of_neg (by simp), List.takeWhile_cons_of_neg (by simp),
      List.append_nil, List.append_nil] at htake
  rw [hbd] at hrev
  exact ⟨List.reverse_injective (List.cons.inj (List.append_cancel_left hrev)).2,
    List.reverse_injective hbd⟩

theorem dot_notMem_toDecimal (n : ℤ) : (46 : UInt8) ∉ toDecimal n := fun h => by
  rcases isDecimalChar_of_mem_toDecimal h with h | ⟨h, -⟩ <;> exact absurd h (by decide)

theorem colon_notMem_toDecimal (n : ℤ) : (58 : UInt8) ∉ toDecimal n := fun h => by
  rcases isDecimalChar_of_mem_toDecimal h with h | ⟨-, h⟩ <;> exact absurd h (by decide)

theorem nodesIdText_inj {host host' : Bytes} {port port' index index' : ℤ}
    (h : nodesIdText host port index = nodesIdText host' port' index') :
    cStr host = cStr host' ∧ port = port' ∧ index = index' := by
  obtain ⟨h, hindex⟩ := append_sep_inj (dot_notMem_toDecimal _) (dot_notMem_toDecimal _) h
  obtain ⟨hhost, hport⟩ := append_sep_inj (colon_notMem_toDecimal _) (colon_notMem_toDecimal _) h
  exact ⟨hhost, toDecimal_injective hport, toDecimal_injective hindex⟩

/-- **Node ids that were not cut determine host, port and index.** -/
theorem formatNodesId_inj {host host' : Bytes} {port port' index index' : ℤ}
    (hlen : (nodesIdText host port index).length < 128)
    (hlen' : (nodesIdText host' port' index').length < 128)
    (h : formatNodesId host port index = formatNodesId host' port' index') :
    cStr host = cStr host' ∧ port = port' ∧ index = index' := by
  unfold formatNodesId at h
  rw [List.take_of_length_le (by omega), List.take_of_length_le (by omega)] at h
  exact nodesIdText_inj h

end Kimserver
