import Sable.ByteMemory
import Sable.OverlappingMoves

/-!
# Arrays of cells in memory

An array of 16-bit cells is shifted down over itself and filled up behind.  If it held the last
cells of a sequence before, it holds the last cells of the longer sequence afterwards.
-/

namespace ByteMemory

/-- The cells of an array. -/
def cells (mem : Mem) (base count : Nat) : List UInt16 :=
  (List.range count).map fun i => load16 mem (base + 2 * i)

/-- The bytes of a cell, least significant first. -/
def cellBytes (cell : UInt16) : List UInt8 :=
  (BigEndian.be16 cell).reverse

variable {mem : Mem} {base count i : Nat} {cell : UInt16}

@[simp]
theorem length_cells : (cells mem base count).length = count := by
  rw [cells, List.length_map, List.length_range]

@[simp]
theorem length_cellBytes : (cellBytes cell).length = 2 :=
  rfl

theorem getElem_cells (inside : i < (cells mem base count).length) :
    (cells mem base count)[i] = load16 mem (base + 2 * i) := by
  simp only [cells, List.getElem_map, List.getElem_range]

theorem load16_write_cellBytes (mem : Mem) (addr : Nat) (cell : UInt16) :
    load16 (write mem addr (cellBytes cell)) addr = cell := by
  have self := read_write_self mem addr (cellBytes cell)
  rw [length_cellBytes] at self
  rw [load16, self, cellBytes, List.reverse_reverse, BigEndian.ofBe16_be16]

theorem load16_write_apart {addr other : Nat} {bytes : List UInt8}
    (apart : other + 2 ≤ addr ∨ addr + bytes.length ≤ other) :
    load16 (write mem addr bytes) other = load16 mem other := by
  rw [load16, load16, read_write_disjoint mem apart]

/-- One cell is stored. -/
theorem cells_write (mem : Mem) (base count i : Nat) (cell : UInt16) :
    cells (write mem (base + 2 * i) (cellBytes cell)) base count =
      (cells mem base count).set i cell := by
  apply List.ext_getElem (by simp)
  intro j inside bound
  rw [length_cells] at inside
  rw [getElem_cells, List.getElem_set]
  split
  · rename_i same
    rw [same, load16_write_cellBytes]
  · rename_i different
    rw [getElem_cells, load16_write_apart (by rw [length_cellBytes]; omega)]

/-- The array is shifted down by `width` cells. -/
theorem cells_moved {width : Nat} :
    cells (moved mem base (base + 2 * width) 0 (2 * (count - width))) base (count - width) =
      (cells mem base count).drop width := by
  apply List.ext_getElem (by simp)
  intro j inside bound
  rw [length_cells] at inside
  rw [getElem_cells, List.getElem_drop, getElem_cells, load16, load16]
  congr 2
  apply List.map_congr_left
  intro offset member
  have small := List.mem_range.mp member
  rw [Nat.add_assoc, moved_inside (Nat.zero_le _) (by omega)]
  congr 1
  omega

theorem cells_add (mem : Mem) (base first second : Nat) :
    cells mem base (first + second) =
      cells mem base first ++ cells mem (base + 2 * first) second := by
  have shift (i : Nat) : base + 2 * (first + i) = base + 2 * first + 2 * i := by omega
  simp only [cells, List.range_add, List.map_append, List.map_map, Function.comp_def, shift]

theorem cells_write_behind {bytes : List UInt8} :
    cells (write mem (base + 2 * count) bytes) base count = cells mem base count := by
  apply List.map_congr_left
  intro i member
  have small := List.mem_range.mp member
  exact load16_write_apart (by omega)

/-- Zeros are stored into all cells. -/
theorem cells_write_zeros :
    cells (write mem base (List.replicate (2 * count) 0)) base count = List.replicate count 0 := by
  apply List.ext_getElem (by simp)
  intro i inside bound
  rw [length_cells] at inside
  rw [getElem_cells, List.getElem_replicate, load16]
  have zero : read (write mem base (List.replicate (2 * count) 0)) (base + 2 * i) 2 = [0, 0] := by
    have first : write mem base (List.replicate (2 * count) 0) (base + 2 * i) = 0 := by
      rw [write_inside mem (by simp; omega), List.getElem_replicate]
    have second : write mem base (List.replicate (2 * count) 0) (base + 2 * i + 1) = 0 := by
      rw [Nat.add_assoc, write_inside mem (by simp; omega), List.getElem_replicate]
    rw [read_succ, read_succ, read_zero, first, second]
  rw [zero]
  rfl

/-- The array is shifted down, and the last cells are cleared. -/
theorem cells_scroll {width : Nat} (fits : width ≤ count) :
    cells (write (moved mem base (base + 2 * width) 0 (2 * (count - width)))
        (base + 2 * (count - width)) (List.replicate (2 * width) 0)) base count =
      (cells mem base count).drop width ++ List.replicate width 0 := by
  obtain ⟨kept, rfl⟩ := Nat.exists_eq_add_of_le' fits
  rw [Nat.add_sub_cancel] at *
  rw [cells_add, cells_write_behind, cells_write_zeros]
  have shifted := @cells_moved mem base (kept + width) width
  rw [Nat.add_sub_cancel] at shifted
  rw [shifted]

end ByteMemory
