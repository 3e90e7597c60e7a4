import Sable.BigEndianWords

/-!
# Byte-addressed memory

A memory is a total function from addresses to bytes.  Reading yields the list
of bytes in an address range and writing replaces the bytes of one range.  The
lemmas below say how reads and writes of overlapping, adjacent and disjoint
ranges compose.
-/

namespace ByteMemory

/-- A memory assigns a byte to every address. -/
abbrev Mem := Nat → UInt8

/-- The `len` bytes that start at `addr`. -/
def read (mem : Mem) (addr len : Nat) : List UInt8 :=
  (List.range len).map fun offset => mem (addr + offset)

/-- Replace the bytes from `addr` on by `bytes`. -/
def write (mem : Mem) (addr : Nat) (bytes : List UInt8) : Mem :=
  fun a => if addr ≤ a ∧ a < addr + bytes.length then
    bytes.getD (a - addr) 0 else mem a

/-- Memory that is zero except for a few bytes. -/
def memoryOf (table : List (Nat × UInt8)) : Mem :=
  fun a => (table.lookup a).getD 0

@[simp]
theorem length_read (mem : Mem) (addr len : Nat) :
    (read mem addr len).length = len := by
  simp [read]

@[simp]
theorem read_zero (mem : Mem) (addr : Nat) : read mem addr 0 = [] :=
  rfl

theorem getElem?_read (mem : Mem) (addr len index : Nat) :
    (read mem addr len)[index]? =
      if index < len then some (mem (addr + index)) else none := by
  by_cases inside : index < len <;> simp [read, inside]

/-- Two memories that agree on a range read alike there. -/
theorem read_congr {first second : Mem} {addr len : Nat}
    (agree : ∀ a, addr ≤ a → a < addr + len → first a = second a) :
    read first addr len = read second addr len := by
  apply List.map_congr_left
  intro offset member
  have inside : offset < len := List.mem_range.mp member
  exact agree (addr + offset) (by omega) (by omega)

theorem read_add (mem : Mem) (addr first second : Nat) :
    read mem addr (first + second) =
      read mem addr first ++ read mem (addr + first) second := by
  simp [read, List.range_add, List.map_map, Function.comp_def, Nat.add_assoc]

theorem read_succ (mem : Mem) (addr len : Nat) :
    read mem addr (len + 1) = mem addr :: read mem (addr + 1) len := by
  rw [Nat.add_comm, read_add]
  simp [read]

theorem take_read (mem : Mem) (addr len count : Nat) (bounded : count ≤ len) :
    (read mem addr len).take count = read mem addr count := by
  obtain ⟨rest, rfl⟩ := Nat.exists_eq_add_of_le bounded
  rw [read_add, List.take_left' (length_read mem addr count)]

theorem drop_read (mem : Mem) (addr len count : Nat) (bounded : count ≤ len) :
    (read mem addr len).drop count = read mem (addr + count) (len - count) := by
  obtain ⟨rest, rfl⟩ := Nat.exists_eq_add_of_le bounded
  rw [read_add, List.drop_left' (length_read mem addr count)]
  simp

/-- Bytes outside the written range keep their value. -/
theorem write_outside (mem : Mem) {addr : Nat} {bytes : List UInt8} {a : Nat}
    (outside : a < addr ∨ addr + bytes.length ≤ a) :
    write mem addr bytes a = mem a := by
  simp only [write]
  rw [if_neg (by omega)]

/-- Bytes inside the written range are the written ones. -/
theorem write_inside (mem : Mem) {addr offset : Nat} {bytes : List UInt8}
    (inside : offset < bytes.length) :
    write mem addr bytes (addr + offset) = bytes[offset] := by
  simp only [write]
  rw [if_pos (by omega)]
  simp [inside]

@[simp]
theorem write_nil (mem : Mem) (addr : Nat) : write mem addr [] = mem := by
  funext a
  exact write_outside mem (by simp; omega)

@[simp]
theorem read_write_self (mem : Mem) (addr : Nat) (bytes : List UInt8) :
    read (write mem addr bytes) addr bytes.length = bytes := by
  apply List.ext_getElem
  · simp
  · intro index _ inside
    simp only [read, List.getElem_map, List.getElem_range]
    exact write_inside mem inside

/-- A write leaves every range alone that it does not touch. -/
theorem read_write_disjoint (mem : Mem) {addr other len : Nat}
    {bytes : List UInt8}
    (disjoint : other + len ≤ addr ∨ addr + bytes.length ≤ other) :
    read (write mem addr bytes) other len = read mem other len := by
  apply read_congr
  intro a lower upper
  exact write_outside mem (by omega)

/-- Two adjacent writes are one write of the concatenation. -/
theorem write_write_append (mem : Mem) (addr : Nat)
    (first second : List UInt8) :
    write (write mem addr first) (addr + first.length) second =
      write mem addr (first ++ second) := by
  funext a
  rcases Nat.lt_or_ge a (addr + first.length) with before | after
  · rw [write_outside _ (by omega)]
    rcases Nat.lt_or_ge a addr with below | above
    · rw [write_outside _ (by omega), write_outside _ (by omega)]
    · obtain ⟨offset, rfl⟩ := Nat.exists_eq_add_of_le above
      have inside : offset < first.length := by omega
      rw [write_inside mem inside,
        write_inside mem (by simp; omega : offset < (first ++ second).length)]
      rw [List.getElem_append_left inside]
  · obtain ⟨offset, rfl⟩ := Nat.exists_eq_add_of_le after
    rcases Nat.lt_or_ge offset second.length with inside | outside
    · rw [write_inside _ inside, Nat.add_assoc,
        write_inside mem (by simp; omega :
          first.length + offset < (first ++ second).length)]
      rw [List.getElem_append_right (by omega)]
      simp
    · rw [write_outside _ (by omega), write_outside _ (by omega),
        write_outside _ (by simp; omega)]

/-- The address behind a byte. -/
theorem toNat_add_one {addr : UInt32} (room : addr.toNat + 1 < 2 ^ 32) :
    (addr + 1).toNat = addr.toNat + 1 := by
  rw [UInt32.toNat_add]
  exact Nat.mod_eq_of_lt room

/-- Load a little-endian 32-bit word. -/
def load32 (mem : Mem) (addr : Nat) : UInt32 :=
  BigEndian.ofBe32 (read mem addr 4).reverse

/-- Load a little-endian 16-bit word. -/
def load16 (mem : Mem) (addr : Nat) : UInt16 :=
  BigEndian.ofBe16 (read mem addr 2).reverse

/-- The bytes of a 32-bit word, least significant first. -/
def le32 (word : UInt32) : List UInt8 :=
  (BigEndian.be32 word).reverse

@[simp]
theorem length_le32 (word : UInt32) : (le32 word).length = 4 :=
  rfl

theorem load32_congr {first second : Mem} {addr : Nat}
    (agree : ∀ a, addr ≤ a → a < addr + 4 → first a = second a) :
    load32 first addr = load32 second addr := by
  rw [load32, load32, read_congr agree]

theorem load16_congr {first second : Mem} {addr : Nat}
    (agree : ∀ a, addr ≤ a → a < addr + 2 → first a = second a) :
    load16 first addr = load16 second addr := by
  rw [load16, load16, read_congr agree]

@[simp]
theorem load32_write_le32 (mem : Mem) (addr : Nat) (word : UInt32) :
    load32 (write mem addr (le32 word)) addr = word := by
  have self := read_write_self mem addr (le32 word)
  rw [length_le32] at self
  rw [load32, self, le32, List.reverse_reverse, BigEndian.ofBe32_be32]

theorem load32_write_disjoint (mem : Mem) {addr other : Nat} {bytes : List UInt8}
    (disjoint : other + 4 ≤ addr ∨ addr + bytes.length ≤ other) :
    load32 (write mem addr bytes) other = load32 mem other := by
  rw [load32, load32, read_write_disjoint mem disjoint]

end ByteMemory
