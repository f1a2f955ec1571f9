import Mathlib.Tactic.NormNum

/-!
# Tagged fields on the wire

A message is written as a list of fields. A field is a tag, which holds a number and a wire
type, and a value: a number in groups of seven bits, a text behind its length, or four bytes.

## Main definitions

* `Wire.varint`, `Wire.readVarint`: numbers in groups of seven bits
* `Wire.Value`, `Wire.Field`: the wire types and the fields
* `Wire.encodeFields`, `Wire.readFields`: lists of fields

## Main results

* `Wire.readVarint_varint`, `Wire.readField_encodeField`, `Wire.readFields_encodeFields`: what
  was written is read back
-/

namespace Wire

/-! ## Numbers -/

/-- At most `fuel + 1` groups of seven bits, the lowest first; all but the last have the high
bit. -/
def varintAux : ℕ → ℕ → List UInt8
  | 0, n => [UInt8.ofNat n]
  | fuel + 1, n =>
    if n < 128 then [UInt8.ofNat n]
    else UInt8.ofNat (n % 128 + 128) :: varintAux fuel (n / 128)

/-- A number in groups of seven bits. -/
def varint (n : ℕ) : List UInt8 := varintAux n n

def readVarint : List UInt8 → Option (ℕ × List UInt8)
  | [] => none
  | b :: bs =>
    if b.toNat < 128 then some (b.toNat, bs)
    else (readVarint bs).map fun p => (b.toNat - 128 + 128 * p.1, p.2)

theorem readVarint_varintAux {fuel n : ℕ} (h : n ≤ fuel) (rest : List UInt8) :
    readVarint (varintAux fuel n ++ rest) = some (n, rest) := by
  induction fuel generalizing n with
  | zero =>
    obtain rfl : n = 0 := Nat.le_zero.mp h
    rfl
  | succ fuel ih =>
    unfold varintAux
    split_ifs with hlast
    · have hbyte : (UInt8.ofNat n).toNat = n := UInt8.toNat_ofNat_of_lt' (by norm_num; omega)
      rw [List.singleton_append, readVarint, hbyte, if_pos hlast]
    · have hbyte : (UInt8.ofNat (n % 128 + 128)).toNat = n % 128 + 128 :=
        UInt8.toNat_ofNat_of_lt' (by norm_num; omega)
      rw [List.cons_append, readVarint, hbyte, if_neg (by omega), ih (by omega)]
      simp only [Option.map_some, Option.some.injEq, Prod.mk.injEq, and_true]
      omega

/-- **A number is read back.** -/
theorem readVarint_varint (n : ℕ) (rest : List UInt8) :
    readVarint (varint n ++ rest) = some (n, rest) :=
  readVarint_varintAux le_rfl rest

theorem varint_of_lt {n : ℕ} (h : n < 128) : varint n = [UInt8.ofNat n] := by
  unfold varint
  cases n with
  | zero => rfl
  | succ n => rw [varintAux, if_pos h]

theorem varintAux_ne_nil (fuel n : ℕ) : varintAux fuel n ≠ [] := by
  cases fuel with
  | zero => exact List.cons_ne_nil _ _
  | succ fuel =>
    unfold varintAux
    split_ifs
    · exact List.cons_ne_nil _ _
    · exact List.cons_ne_nil _ _

/-! ## Four bytes -/

/-- Four bytes, least significant first. -/
def le32 (u : UInt32) : List UInt8 :=
  [UInt8.ofNat (u.toNat % 256), UInt8.ofNat (u.toNat / 256 % 256),
    UInt8.ofNat (u.toNat / 65536 % 256), UInt8.ofNat (u.toNat / 16777216)]

/-- The number in four bytes, least significant first. -/
def fromLe32 (a b c d : UInt8) : UInt32 :=
  UInt32.ofNat (a.toNat + 256 * b.toNat + 65536 * c.toNat + 16777216 * d.toNat)

theorem fromLe32_le32 (u : UInt32) :
    fromLe32 (UInt8.ofNat (u.toNat % 256)) (UInt8.ofNat (u.toNat / 256 % 256))
      (UInt8.ofNat (u.toNat / 65536 % 256)) (UInt8.ofNat (u.toNat / 16777216)) = u := by
  have hlt := u.toNat_lt
  unfold fromLe32
  rw [UInt8.toNat_ofNat_of_lt' (by norm_num; omega), UInt8.toNat_ofNat_of_lt' (by norm_num; omega),
    UInt8.toNat_ofNat_of_lt' (by norm_num; omega), UInt8.toNat_ofNat_of_lt' (by norm_num; omega)]
  conv_rhs => rw [← UInt32.ofNat_toNat (x := u)]
  congr 1
  omega

/-! ## Fields -/

/-- The values by wire type: 0, 2 and 5. -/
inductive Value
  | num (n : ℕ)
  | text (bs : List UInt8)
  | fixed (u : UInt32)
  deriving DecidableEq

/-- A field: its number, which is not zero, and its value. -/
structure Field where
  number : ℕ
  value : Value
  pos : 0 < number := by decide
  deriving DecidableEq

def Value.wireType : Value → ℕ
  | .num _ => 0
  | .text _ => 2
  | .fixed _ => 5

def encodeValue : Value → List UInt8
  | .num n => varint n
  | .text bs => varint bs.length ++ bs
  | .fixed u => le32 u

/-- The tag and the value. -/
def encodeField (f : Field) : List UInt8 :=
  varint (8 * f.number + f.value.wireType) ++ encodeValue f.value

def encodeFields (fs : List Field) : List UInt8 := fs.flatMap encodeField

theorem encodeFields_append (fs gs : List Field) :
    encodeFields (fs ++ gs) = encodeFields fs ++ encodeFields gs := List.flatMap_append

/-- A value of a wire type. -/
def readValue (wireType : ℕ) (bs : List UInt8) : Option (Value × List UInt8) :=
  match wireType with
  | 0 => (readVarint bs).map fun p => (.num p.1, p.2)
  | 2 =>
    (readVarint bs).bind fun p =>
      if p.2.length < p.1 then none else some (.text (p.2.take p.1), p.2.drop p.1)
  | 5 =>
    match bs with
    | a :: b :: c :: d :: rest => some (.fixed (fromLe32 a b c d), rest)
    | _ => none
  | _ => none

def readField (bs : List UInt8) : Option (Field × List UInt8) :=
  (readVarint bs).bind fun p =>
    if h : 0 < p.1 / 8 then (readValue (p.1 % 8) p.2).map fun v => (⟨p.1 / 8, v.1, h⟩, v.2)
    else none

/-- The fields of a text, at most `fuel`. -/
def readFieldsAux : ℕ → List UInt8 → Option (List Field)
  | _, [] => some []
  | 0, _ :: _ => none
  | fuel + 1, b :: bs =>
    (readField (b :: bs)).bind fun p => (readFieldsAux fuel p.2).map fun fs => p.1 :: fs

/-- The fields of a text, which cannot be more than its bytes. -/
def readFields (bs : List UInt8) : Option (List Field) := readFieldsAux bs.length bs

theorem readValue_encodeValue (v : Value) (rest : List UInt8) :
    readValue v.wireType (encodeValue v ++ rest) = some (v, rest) := by
  cases v with
  | num n =>
    simp only [Value.wireType, encodeValue, readValue, readVarint_varint, Option.map_some]
  | text bs =>
    have hlen : ¬ (bs ++ rest).length < bs.length := by
      rw [List.length_append]
      omega
    simp only [Value.wireType, encodeValue, readValue, List.append_assoc, readVarint_varint,
      Option.bind_some, if_neg hlen, List.take_left', List.drop_left']
  | fixed u => simp only [Value.wireType, encodeValue, le32, List.cons_append, List.nil_append,
      readValue, fromLe32_le32]

theorem wireType_lt (v : Value) : v.wireType < 8 := by
  cases v <;> simp only [Value.wireType] <;> omega

/-- **A field is read back.** -/
theorem readField_encodeField (f : Field) (rest : List UInt8) :
    readField (encodeField f ++ rest) = some (f, rest) := by
  have hlt := wireType_lt f.value
  have hnumber : (8 * f.number + f.value.wireType) / 8 = f.number := by omega
  have htype : (8 * f.number + f.value.wireType) % 8 = f.value.wireType := by omega
  unfold readField encodeField
  rw [List.append_assoc, readVarint_varint, Option.bind_some]
  dsimp only
  rw [dif_pos (by rw [hnumber]; exact f.pos)]
  simp only [htype, readValue_encodeValue, Option.map_some, hnumber]

theorem encodeField_ne_nil (f : Field) : encodeField f ≠ [] := by
  intro hnil
  exact varintAux_ne_nil _ _ (List.append_eq_nil_iff.mp hnil).1

theorem readFieldsAux_encodeFields {fuel : ℕ} (fs : List Field)
    (h : (encodeFields fs).length ≤ fuel) :
    readFieldsAux fuel (encodeFields fs) = some fs := by
  induction fs generalizing fuel with
  | nil => cases fuel <;> rfl
  | cons f fs ih =>
    have hlen : 0 < (encodeField f).length := List.length_pos_iff.mpr (encodeField_ne_nil f)
    have hsplit : encodeFields (f :: fs) = encodeField f ++ encodeFields fs := rfl
    rw [hsplit, List.length_append] at h
    obtain ⟨b, bs, hcons⟩ := List.exists_cons_of_ne_nil (encodeField_ne_nil f)
    obtain ⟨fuel, rfl⟩ : ∃ k, fuel = k + 1 := ⟨fuel - 1, by omega⟩
    have hread := readField_encodeField f (encodeFields fs)
    rw [hsplit]
    rw [hcons, List.cons_append] at hread ⊢
    rw [readFieldsAux, hread, Option.bind_some]
    dsimp only
    rw [ih (by omega), Option.map_some]

/-- **A list of fields is read back.** -/
theorem readFields_encodeFields (fs : List Field) :
    readFields (encodeFields fs) = some fs :=
  readFieldsAux_encodeFields fs le_rfl

end Wire
