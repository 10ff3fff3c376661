/-
# Checksums

The two checksums of `hashing.c`, CRC-32 and 32-bit FNV-1a, over byte strings.  The C code
fills `crc32_table` once and then only reads it; here the table is the function that gives the
entry `crc32_init_table` stores.
-/
import Mathlib.Tactic

namespace Vm32

/-- `hash_algorithm_t`. -/
inductive HashAlgorithm
  | simpleFnv1a
  | crc32
deriving DecidableEq, Repr

/-! ### CRC-32 -/

/-- The reflected polynomial of `crc32_init_table`. -/
def crc32Polynomial : UInt32 := 0xEDB88320

/-- One round of the inner loop of `crc32_init_table`. -/
def crc32Round (crc : UInt32) : UInt32 :=
  if crc &&& 1 ≠ 0 then (crc >>> 1) ^^^ crc32Polynomial else crc >>> 1

/-- Entry `i` of `crc32_table`: eight rounds from `i`. -/
def crc32Table (i : UInt8) : UInt32 := Nat.iterate crc32Round 8 i.toUInt32

/-- The body of the byte loops of `crc32` and `crc32_update`. -/
def crc32Byte (crc : UInt32) (byte : UInt8) : UInt32 :=
  (crc >>> 8) ^^^ crc32Table ((crc ^^^ byte.toUInt32) &&& 0xFF).toUInt8

/-- `crc32_begin`. -/
def crc32Begin : UInt32 := 0xFFFFFFFF

/-- `crc32_update`. -/
def crc32Update (crc : UInt32) (data : List UInt8) : UInt32 := data.foldl crc32Byte crc

/-- `crc32_finalize`. -/
def crc32Finalize (crc : UInt32) : UInt32 := crc ^^^ 0xFFFFFFFF

/-- `crc32`: the one-shot version has a loop of its own. -/
def crc32 (data : List UInt8) : UInt32 := data.foldl crc32Byte 0xFFFFFFFF ^^^ 0xFFFFFFFF

/-- The checksum of no bytes at all. -/
lemma crc32Finalize_begin : crc32Finalize crc32Begin = 0 := by decide

/-! ### FNV-1a -/

/-- `fnv1a32_begin`. -/
def fnv1a32Begin : UInt32 := 2166136261

/-- The body of the byte loop of `fnv1a32_update`. -/
def fnv1a32Byte (hash : UInt32) (byte : UInt8) : UInt32 := (hash ^^^ byte.toUInt32) * 16777619

/-- `fnv1a32_update`. -/
def fnv1a32Update (hash : UInt32) (data : List UInt8) : UInt32 := data.foldl fnv1a32Byte hash

/-- `fnv1a32_finalize`. -/
def fnv1a32Finalize (hash : UInt32) : UInt32 := hash

/-- `fnv1a32`. -/
def fnv1a32 (data : List UInt8) : UInt32 := fnv1a32Finalize (fnv1a32Update fnv1a32Begin data)

/-! ### The common entry points -/

/-- `hash_buffer`. -/
def hashBuffer (data : List UInt8) : HashAlgorithm → UInt32
  | .crc32 => crc32 data
  | .simpleFnv1a => fnv1a32 data

/-- The four bytes of a `uint32_t` in memory, least significant first. -/
def uint32Bytes (n : UInt32) : List UInt8 :=
  [n.toUInt8, (n >>> 8).toUInt8, (n >>> 16).toUInt8, (n >>> 24).toUInt8]

end Vm32
