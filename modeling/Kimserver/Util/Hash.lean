import Kimserver.Util.Text

/-!
# Hashing of strings

The three hash functions of `hash.cpp`. A `char` is signed, so a byte from 128 on is extended
with ones when it is widened.

## Main definitions

* `hashFnv1_64`, `hashFnv1a_64`, `murmur3_32`: the functions, each with a 32-bit result
-/

namespace Kimserver

/-- `FNV_64_INIT`, which has the value of the usual prime. -/
def fnv64Init : UInt64 := 0x100000001b3

/-- `FNV_64_PRIME`, which has the value of the usual offset basis. -/
def fnv64Prime : UInt64 := 0xcbf29ce484222325

/-- `hash_fnv1_64`. -/
def hashFnv1_64 (key : Bytes) : UInt32 :=
  (key.foldl (fun hash x => (hash * fnv64Prime) ^^^ x.toInt8.toInt64.toUInt64)
    fnv64Init).toUInt32

/-- `hash_fnv1a_64`: the constants are cut to 32 bits first. -/
def hashFnv1a_64 (key : Bytes) : UInt32 :=
  key.foldl (fun hash x => (hash ^^^ x.toInt8.toInt32.toUInt32) * fnv64Prime.toUInt32)
    fnv64Init.toUInt32

/-- `ROT32`. -/
def rot32 (x y : UInt32) : UInt32 := (x <<< y) ||| (x >>> (32 - y))

/-- A word of `murmur3_32` before it is mixed into the hash. -/
def murmurScramble (k : UInt32) : UInt32 := rot32 (k * 0xcc9e2d51) 15 * 0x1b873593

/-- The loop over the blocks of four bytes, with the bytes that are left. -/
def murmurBlocks : UInt32 → Bytes → UInt32 × Bytes
  | hash, a :: b :: c :: d :: rest =>
    let k := a.toUInt32 ||| (b.toUInt32 <<< 8) ||| (c.toUInt32 <<< 16) ||| (d.toUInt32 <<< 24)
    murmurBlocks (rot32 (hash ^^^ murmurScramble k) 13 * 5 + 0xe6546b64) rest
  | hash, tail => (hash, tail)

/-- The cases of the last bytes, each falling through to the next. -/
def murmurTail (hash : UInt32) : Bytes → UInt32
  | [a] => hash ^^^ murmurScramble a.toUInt32
  | [a, b] => hash ^^^ murmurScramble ((b.toUInt32 <<< 8) ^^^ a.toUInt32)
  | [a, b, c] =>
    hash ^^^ murmurScramble ((c.toUInt32 <<< 16) ^^^ (b.toUInt32 <<< 8) ^^^ a.toUInt32)
  | _ => hash

/-- The final mix. -/
def murmurFinish (hash : UInt32) : UInt32 :=
  let hash := (hash ^^^ (hash >>> 16)) * 0x85ebca6b
  let hash := (hash ^^^ (hash >>> 13)) * 0xc2b2ae35
  hash ^^^ (hash >>> 16)

/-- `murmur3_32`; the length is a `uint32_t`. -/
def murmur3_32 (key : Bytes) (seed : UInt32) : UInt32 :=
  let len := UInt32.ofNat key.length
  let blocks := murmurBlocks seed (key.take len.toNat)
  murmurFinish (murmurTail blocks.1 blocks.2 ^^^ len)

/-- The published test value of the algorithm for this text and seed. -/
example : murmur3_32 (text "test") 0x9747b28c = 0x704b81dc := by decide

end Kimserver
