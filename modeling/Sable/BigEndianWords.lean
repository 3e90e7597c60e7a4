import Mathlib.Algebra.Group.Nat.Defs
import Mathlib.Data.List.Basic
import Mathlib.Tactic.Common

/-!
# Big-endian words and fixed-length byte blocks

Network byte order for 16-bit and 32-bit machine words, with the round trips
between words and byte lists, and byte blocks that carry their length.
-/

namespace BigEndian

/-- The two bytes of a 16-bit word, most significant first. -/
def be16 (word : UInt16) : List UInt8 :=
  [UInt8.ofNat (word.toNat / 256), UInt8.ofNat word.toNat]

/-- The four bytes of a 32-bit word, most significant first. -/
def be32 (word : UInt32) : List UInt8 :=
  [UInt8.ofNat (word.toNat / 16777216), UInt8.ofNat (word.toNat / 65536),
    UInt8.ofNat (word.toNat / 256), UInt8.ofNat word.toNat]

/-- The number whose base-256 digits are the given bytes, most significant
first. -/
def ofBytes (bytes : List UInt8) : Nat :=
  bytes.foldl (fun value byte => value * 256 + byte.toNat) 0

/-- Read a 16-bit word from its big-endian bytes. -/
def ofBe16 (bytes : List UInt8) : UInt16 :=
  UInt16.ofNat (ofBytes bytes)

/-- Read a 32-bit word from its big-endian bytes. -/
def ofBe32 (bytes : List UInt8) : UInt32 :=
  UInt32.ofNat (ofBytes bytes)

@[simp]
theorem length_be16 (word : UInt16) : (be16 word).length = 2 :=
  rfl

@[simp]
theorem length_be32 (word : UInt32) : (be32 word).length = 4 :=
  rfl

@[simp]
theorem ofBe16_be16 (word : UInt16) : ofBe16 (be16 word) = word := by
  apply UInt16.toNat_inj.mp
  have bounded := word.toNat_lt
  simp only [ofBe16, ofBytes, be16, List.foldl_cons, List.foldl_nil,
    UInt16.toNat_ofNat', UInt8.toNat_ofNat']
  omega

@[simp]
theorem ofBe32_be32 (word : UInt32) : ofBe32 (be32 word) = word := by
  apply UInt32.toNat_inj.mp
  have bounded := word.toNat_lt
  simp only [ofBe32, ofBytes, be32, List.foldl_cons, List.foldl_nil,
    UInt32.toNat_ofNat', UInt8.toNat_ofNat']
  omega

theorem be32_ofBe32_cons (a b c d : UInt8) :
    be32 (ofBe32 [a, b, c, d]) = [a, b, c, d] := by
  have aBound := a.toNat_lt
  have bBound := b.toNat_lt
  have cBound := c.toNat_lt
  have dBound := d.toNat_lt
  simp only [be32, ofBe32, ofBytes, List.foldl_cons, List.foldl_nil,
    UInt32.toNat_ofNat', List.cons.injEq, and_true]
  refine ⟨?_, ?_, ?_, ?_⟩ <;> apply UInt8.toNat_inj.mp <;>
    simp only [UInt8.toNat_ofNat'] <;> omega

/-- Every list of four bytes is the encoding of the word it decodes to. -/
theorem be32_ofBe32 {bytes : List UInt8} (four : bytes.length = 4) :
    be32 (ofBe32 bytes) = bytes := by
  match bytes, four with
  | [a, b, c, d], _ => exact be32_ofBe32_cons a b c d

theorem be16_ofBe16_cons (a b : UInt8) :
    be16 (ofBe16 [a, b]) = [a, b] := by
  have aBound := a.toNat_lt
  have bBound := b.toNat_lt
  simp only [be16, ofBe16, ofBytes, List.foldl_cons, List.foldl_nil,
    UInt16.toNat_ofNat', List.cons.injEq, and_true]
  refine ⟨?_, ?_⟩ <;> apply UInt8.toNat_inj.mp <;>
    simp only [UInt8.toNat_ofNat'] <;> omega

/-- Every list of two bytes is the encoding of the word it decodes to. -/
theorem be16_ofBe16 {bytes : List UInt8} (two : bytes.length = 2) :
    be16 (ofBe16 bytes) = bytes := by
  match bytes, two with
  | [a, b], _ => exact be16_ofBe16_cons a b

/-- Exchange the byte order of a 32-bit word. -/
def byteSwap (word : UInt32) : UInt32 :=
  ofBe32 (be32 word).reverse

theorem byteSwap_ofBe32_reverse {bytes : List UInt8}
    (four : bytes.length = 4) :
    byteSwap (ofBe32 bytes.reverse) = ofBe32 bytes := by
  rw [byteSwap, be32_ofBe32 (by simpa using four), List.reverse_reverse]

/-- A list of exactly `size` bytes. -/
structure Block (size : Nat) where
  bytes : List UInt8
  length_eq : bytes.length = size
  deriving DecidableEq

attribute [simp] Block.length_eq

namespace Block

/-- Cut or zero-pad a list to exactly `size` bytes. -/
def ofList (size : Nat) (bytes : List UInt8) : Block size :=
  ⟨(bytes ++ List.replicate size 0).take size, by simp⟩

/-- The block of zero bytes. -/
def zero (size : Nat) : Block size :=
  ⟨List.replicate size 0, by simp⟩

instance (size : Nat) : Inhabited (Block size) :=
  ⟨zero size⟩

theorem ext_bytes {size : Nat} {first second : Block size}
    (equal : first.bytes = second.bytes) : first = second := by
  cases first
  cases second
  simpa using equal

theorem bytes_ofList {size : Nat} {bytes : List UInt8}
    (exact : bytes.length = size) : (ofList size bytes).bytes = bytes := by
  simp [ofList, ← exact]

@[simp]
theorem ofList_bytes {size : Nat} (block : Block size) :
    ofList size block.bytes = block :=
  ext_bytes (bytes_ofList block.length_eq)

/-- Bytewise exclusive or. -/
def xor {size : Nat} (first second : Block size) : Block size :=
  ⟨List.zipWith (· ^^^ ·) first.bytes second.bytes, by simp⟩

/-- Masking twice with one block restores the other. -/
@[simp]
theorem xor_xor_cancel {size : Nat} (first second : Block size) :
    xor (xor first second) second = first := by
  apply ext_bytes
  apply List.ext_getElem
  · simp
  · intro index _ _
    simp only [xor, List.getElem_zipWith, UInt8.xor_assoc, UInt8.xor_self, UInt8.xor_zero]

end Block

end BigEndian
