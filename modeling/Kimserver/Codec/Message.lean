import Kimserver.Lib.CInt
import Kimserver.Lib.Wire
import Kimserver.Util.Text

/-!
# Messages

The messages of `msg.proto` and their wire format. A field that has its default value is left
out, so a head has between zero and three fields of five bytes.

The codec takes the protobuf library as a parameter, of which it needs that parsing inverts
serialization; `Protobuf.wire` is the library as far as the wire format goes.

## Main definitions

* `MsgHead`, `MsgBody`: the messages
* `serializeHead`: the wire format of a head
* `Protobuf`: the library
* `Protobuf.wire`: the wire format as such a library

## Main results

* `parseHead_serializeHead`, `parseBody_serializeBody`: what was serialized is parsed back
-/

namespace Kimserver

/-- `MsgHead`. The field `len` is an `sfixed32`. -/
structure MsgHead where
  cmd : UInt32
  seq : UInt32
  len : ℤ
  inRange : CInt.InRange len := by decide
  deriving DecidableEq

/-- The `oneof` of `MsgBody`. -/
inductive MsgType
  | notSet
  | reqTarget (routeId : UInt32) (route : Bytes)
  | rspResult (code : Int32) (msg : Bytes)
  deriving DecidableEq

/-- `MsgBody`. -/
structure MsgBody where
  msgType : MsgType := .notSet
  data : Bytes := []
  addOn : Bytes := []
  traceId : Bytes := []
  deriving DecidableEq

/-- A message as the codec takes it and gives it. -/
abbrev Message := MsgHead × MsgBody

/-! ## Fields -/

section Fields

open Wire (Field encodeFields readFields)

/-- A `fixed32` field, left out when it is zero. -/
def fixed32Field (number : ℕ) (v : UInt32) (h : 0 < number := by decide) : List Field :=
  if v = 0 then [] else [⟨number, .fixed v, h⟩]

/-- A `uint32` or `int32` field. A negative number has 64 bits on the wire. -/
def intField (number : ℕ) (v : ℤ) (h : 0 < number := by decide) : List Field :=
  if v = 0 then [] else [⟨number, .num (v % 18446744073709551616).toNat, h⟩]

/-- A `bytes` or `string` field, left out when it is empty. -/
def bytesField (number : ℕ) (bs : Bytes) (h : 0 < number := by decide) : List Field :=
  if bs = [] then [] else [⟨number, .text bs, h⟩]

def headFields (h : MsgHead) : List Field :=
  fixed32Field 1 h.cmd ++ fixed32Field 2 h.seq ++ fixed32Field 3 (CInt.toUInt32 h.len)

/-- `SerializeAsString` of a head. -/
def serializeHead (h : MsgHead) : Bytes := encodeFields (headFields h)

/-- The member of the `oneof` that is set, itself a message. -/
def msgTypeFields : MsgType → List Field
  | .notSet => []
  | .reqTarget routeId route =>
    [⟨1, .text (encodeFields (intField 1 routeId.toNat ++ bytesField 2 route)), by decide⟩]
  | .rspResult code msg =>
    [⟨2, .text (encodeFields (intField 1 code.toInt ++ bytesField 2 msg)), by decide⟩]

def bodyFields (b : MsgBody) : List Field :=
  msgTypeFields b.msgType ++ bytesField 3 b.data ++ bytesField 4 b.addOn ++ bytesField 5 b.traceId

/-- `SerializeAsString` of a body. -/
def serializeBody (b : MsgBody) : Bytes := encodeFields (bodyFields b)

/-! ## Parsing: a field that comes later wins, an unknown one is skipped -/

def setHeadField (h : MsgHead) (f : Field) : MsgHead :=
  match f.number, f.value with
  | 1, .fixed u => { h with cmd := u }
  | 2, .fixed u => { h with seq := u }
  | 3, .fixed u => { h with len := CInt.toInt u.toNat, inRange := CInt.inRange_toInt _ }
  | _, _ => h

/-- `ParseFromArray` of a head. -/
def parseHead (bs : Bytes) : Option MsgHead :=
  (readFields bs).map fun fs => fs.foldl setHeadField { cmd := 0, seq := 0, len := 0 }

def setRequestField (r : UInt32 × Bytes) (f : Field) : UInt32 × Bytes :=
  match f.number, f.value with
  | 1, .num n => (UInt32.ofNat n, r.2)
  | 2, .text bs => (r.1, bs)
  | _, _ => r

def setResponseField (r : Int32 × Bytes) (f : Field) : Int32 × Bytes :=
  match f.number, f.value with
  | 1, .num n => (Int32.ofNat n, r.2)
  | 2, .text bs => (r.1, bs)
  | _, _ => r

def setBodyField (b : MsgBody) (f : Field) : Option MsgBody :=
  match f.number, f.value with
  | 1, .text bs =>
    (readFields bs).map fun fs =>
      let r := fs.foldl setRequestField (0, [])
      { b with msgType := .reqTarget r.1 r.2 }
  | 2, .text bs =>
    (readFields bs).map fun fs =>
      let r := fs.foldl setResponseField (0, [])
      { b with msgType := .rspResult r.1 r.2 }
  | 3, .text bs => some { b with data := bs }
  | 4, .text bs => some { b with addOn := bs }
  | 5, .text bs => some { b with traceId := bs }
  | _, _ => some b

/-- `ParseFromArray` of a body. -/
def parseBody (bs : Bytes) : Option MsgBody :=
  (readFields bs).bind fun fs => fs.foldlM setBodyField {}

end Fields

/-! ## What was serialized is parsed back -/

section RoundTrip

open Wire (encodeFields readFields)

/-- Setting the fields of a list that was written for `v`, when a field that is left out has
its default. -/
theorem foldl_fixed32Field (h : MsgHead) (v : UInt32) :
    (fixed32Field 1 v).foldl setHeadField { h with cmd := 0 } = { h with cmd := v } ∧
      (fixed32Field 2 v).foldl setHeadField { h with seq := 0 } = { h with seq := v } := by
  unfold fixed32Field
  constructor
  · split_ifs with hv
    · rw [hv]
      rfl
    · rfl
  · split_ifs with hv
    · rw [hv]
      rfl
    · rfl

theorem foldl_lenField (h : MsgHead) (cmd seq : UInt32) :
    (fixed32Field 3 (CInt.toUInt32 h.len)).foldl setHeadField
      { cmd := cmd, seq := seq, len := 0 } = { h with cmd := cmd, seq := seq } := by
  have hback : CInt.toInt (CInt.toUInt32 h.len).toNat = h.len :=
    CInt.toInt_toUInt32 h.inRange
  unfold fixed32Field
  split_ifs with hv
  · have hlen : h.len = 0 := by
      rw [← hback, hv]
      exact CInt.toInt_of_inRange (by decide)
    simp only [List.foldl_nil, hlen]
  · simp only [List.foldl_cons, List.foldl_nil, setHeadField, hback]

/-- **A head is parsed back.** -/
theorem parseHead_serializeHead (h : MsgHead) : parseHead (serializeHead h) = some h := by
  unfold parseHead serializeHead
  rw [Wire.readFields_encodeFields, Option.map_some, headFields, List.foldl_append,
    List.foldl_append, (foldl_fixed32Field { cmd := 0, seq := 0, len := 0 } h.cmd).1,
    (foldl_fixed32Field { cmd := h.cmd, seq := 0, len := 0 } h.seq).2, foldl_lenField]

theorem foldl_request (routeId : UInt32) (route : Bytes) :
    (intField 1 routeId.toNat ++ bytesField 2 route).foldl setRequestField (0, []) =
      (routeId, route) := by
  have hlt := routeId.toNat_lt
  have hid : UInt32.ofNat ((routeId.toNat : ℤ) % 18446744073709551616).toNat = routeId := by
    rw [Int.emod_eq_of_lt (by omega) (by omega), Int.toNat_natCast, UInt32.ofNat_toNat]
  have hint : (intField 1 routeId.toNat).foldl setRequestField (0, []) = (routeId, []) := by
    unfold intField
    split_ifs with hzero
    · rw [show routeId = 0 from UInt32.toNat_inj.mp (by simpa using hzero)]
      rfl
    · simp only [List.foldl_cons, List.foldl_nil, setRequestField, hid]
  rw [List.foldl_append, hint]
  unfold bytesField
  split_ifs with hroute
  · rw [hroute]
    rfl
  · rfl

theorem foldl_response (code : Int32) (msg : Bytes) :
    (intField 1 code.toInt ++ bytesField 2 msg).foldl setResponseField (0, []) = (code, msg) := by
  have hcode : Int32.ofNat (code.toInt % 18446744073709551616).toNat = code := by
    have hnonneg : 0 ≤ code.toInt % 18446744073709551616 := Int.emod_nonneg _ (by norm_num)
    rw [← Int32.toInt_inj, Int32.toInt_ofNat', Int.toNat_of_nonneg hnonneg, Int32.size,
      ← Int.emod_bmod, Int.emod_emod_of_dvd _ (by norm_num), Int.emod_bmod]
    exact Int32.toInt_bmod code
  have hint : (intField 1 code.toInt).foldl setResponseField (0, []) = (code, []) := by
    unfold intField
    split_ifs with hzero
    · rw [show code = 0 from Int32.toInt_inj.mp (by simpa using hzero)]
      rfl
    · simp only [List.foldl_cons, List.foldl_nil, setResponseField, hcode]
  rw [List.foldl_append, hint]
  unfold bytesField
  split_ifs with hmsg
  · rw [hmsg]
    rfl
  · rfl

theorem foldlM_msgTypeFields (t : MsgType) :
    (msgTypeFields t).foldlM setBodyField {} = some { msgType := t } := by
  cases t with
  | notSet => rfl
  | reqTarget routeId route =>
    simp only [msgTypeFields, List.foldlM_cons, List.foldlM_nil, setBodyField,
      Wire.readFields_encodeFields, Option.map_some, foldl_request]
    rfl
  | rspResult code msg =>
    simp only [msgTypeFields, List.foldlM_cons, List.foldlM_nil, setBodyField,
      Wire.readFields_encodeFields, Option.map_some, foldl_response]
    rfl

theorem foldlM_bytesField (b : MsgBody) (bs : Bytes) :
    (bytesField 3 bs).foldlM setBodyField { b with data := [] } = some { b with data := bs } ∧
      (bytesField 4 bs).foldlM setBodyField { b with addOn := [] } = some { b with addOn := bs } ∧
      (bytesField 5 bs).foldlM setBodyField { b with traceId := [] } =
        some { b with traceId := bs } := by
  unfold bytesField
  by_cases hbs : bs = []
  · simp only [hbs]
    exact ⟨rfl, rfl, rfl⟩
  · simp only [if_neg hbs]
    exact ⟨rfl, rfl, rfl⟩

/-- **A body is parsed back.** -/
theorem parseBody_serializeBody (b : MsgBody) : parseBody (serializeBody b) = some b := by
  unfold parseBody serializeBody
  rw [Wire.readFields_encodeFields, Option.bind_some, bodyFields, List.foldlM_append,
    List.foldlM_append, List.foldlM_append, foldlM_msgTypeFields]
  simp only [Option.bind_eq_bind, Option.bind_some]
  rw [(foldlM_bytesField { msgType := b.msgType } b.data).1, Option.bind_some,
    (foldlM_bytesField { msgType := b.msgType, data := b.data } b.addOn).2.1, Option.bind_some,
    (foldlM_bytesField { msgType := b.msgType, data := b.data, addOn := b.addOn } b.traceId).2.2]

end RoundTrip

/-! ## The library -/

/-- The protobuf library: `ParseFromArray` of a head, `SerializeAsString` and
`ParseFromArray` of a body. Parsing inverts serialization. -/
structure Protobuf where
  parseHead : Bytes → Option MsgHead
  serializeBody : MsgBody → Bytes
  parseBody : Bytes → Option MsgBody
  parseHead_serialize : ∀ h, parseHead (serializeHead h) = some h
  parseBody_serialize : ∀ b, parseBody (serializeBody b) = some b

/-- The wire format as a library. -/
def Protobuf.wire : Protobuf where
  parseHead := Kimserver.parseHead
  serializeBody := Kimserver.serializeBody
  parseBody := Kimserver.parseBody
  parseHead_serialize := parseHead_serializeHead
  parseBody_serialize := parseBody_serializeBody

example : serializeBody { data := [49], traceId := [120] } = [26, 1, 49, 42, 1, 120] := by decide

end Kimserver
