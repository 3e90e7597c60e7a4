import Sable.E820Regions

/-!
# Insertion in front of the first entry

`insert_after_region` takes the position `-1` for a place in front of the first entry.  As the
position is unsigned, no index is above it, and nothing is moved up.
-/

namespace Sable

section Insertion

variable {table : E820Table} {front back : List MemoryMap} {addr size : UInt64} {type : UInt32}

/-- The new entry is found between the entries on both sides of its place. -/
def InsertsBetween (table : E820Table) (front back : List MemoryMap) (addr size : UInt64)
    (type : UInt32) : Prop :=
  (insertAfterRegion table (unsignedPred front.length) addr size type).1 = true ∧
    (insertAfterRegion table (unsignedPred front.length) addr size type).2.entries =
      front ++ ⟨20, addr, size, type⟩ :: back ∧
    (insertAfterRegion table (unsignedPred front.length) addr size type).2.nrMap =
      table.nrMap + 1

/-- In front of the first entry nothing is moved. -/
theorem shiftUp_last (map : Nat → MemoryMap) {i : Nat} (small : i < 2 ^ 32) :
    shiftUp (unsignedPred 0) map i = map := by
  have last : unsignedPred 0 = 2 ^ 32 - 1 := rfl
  cases i with
  | zero => rfl
  | succ i => rw [shiftUp, last, if_neg (by omega)]

theorem insertAfterRegion_first (room : table.nrMap < maxE820Entries) (addr size : UInt64)
    (type : UInt32) :
    insertAfterRegion table (unsignedPred 0) addr size type =
      (true, ⟨Function.update table.map 0 ⟨20, addr, size, type⟩, table.nrMap + 1⟩) := by
  have small : unsignedPred table.nrMap < 2 ^ 32 := Nat.mod_lt _ (by decide)
  rw [insertAfterRegion, if_neg (by omega), shiftUp_last table.map small, unsignedPred_zero_succ]

/-- The entries of a table whose first entry has been overwritten. -/
theorem entries_overwritten (entry : MemoryMap) :
    E820Table.entries ⟨Function.update table.map 0 entry, table.nrMap + 1⟩ =
      entry :: (List.range table.nrMap).map fun i => table.map (i + 1) := by
  rw [E820Table.entries, List.range_succ_eq_map, List.map_cons, List.map_map]
  congr 1

/-- Every insertion works that is made behind an entry or into an empty table.  In front of the
first entry it works only if the area holds the same entry throughout. -/
theorem insertAfterRegion_iff (split : table.entries = front ++ back)
    (room : table.nrMap < maxE820Entries) :
    InsertsBetween table front back addr size type ↔
      front ≠ [] ∨ ∀ i < table.nrMap, table.map (i + 1) = table.map i := by
  cases front with
  | cons first front =>
      refine iff_of_true ?_ (.inl (List.cons_ne_nil _ _))
      obtain ⟨reached, run, entries⟩ := insertAfterRegion_entries split room
        (.inl (List.cons_ne_nil _ _)) addr size type
      rw [InsertsBetween, run]
      refine ⟨rfl, entries, ?_⟩
      rw [E820Table.nrMap_eq entries, E820Table.nrMap_eq split]
      simp only [List.length_cons]
      omega
  | nil =>
      rw [List.nil_append] at split
      rw [InsertsBetween, List.length_nil, insertAfterRegion_first room]
      dsimp only
      rw [entries_overwritten, ← split, List.nil_append, List.cons_inj_right, E820Table.entries,
        List.map_inj_left]
      simp

/-- A table with one entry of RAM. -/
def singleTable : E820Table :=
  ⟨fun i => if i = 0 then ⟨20, 0x100000, 0x100000, e820Ram⟩ else ⟨0, 0, 0, 0⟩, 1⟩

theorem insertAfterRegion_iff_behind :
    InsertsBetween singleTable [⟨20, 0x100000, 0x100000, e820Ram⟩] [] 0x200000 0x1000
        e820Reserved ↔
      [(⟨20, 0x100000, 0x100000, e820Ram⟩ : MemoryMap)] ≠ [] ∨
        ∀ i < singleTable.nrMap, singleTable.map (i + 1) = singleTable.map i :=
  insertAfterRegion_iff rfl (by decide)

/-- The only entry is lost when another one is put in front of it. -/
theorem insertAfterRegion_loses_first :
    singleTable.entries = [] ++ [⟨20, 0x100000, 0x100000, e820Ram⟩] ∧
      singleTable.nrMap < maxE820Entries ∧
      ¬ InsertsBetween singleTable [] [⟨20, 0x100000, 0x100000, e820Ram⟩] 0 0x1000
        e820Reserved := by
  refine ⟨by decide, by decide, fun inserts => ?_⟩
  exact absurd inserts.2.1 (by decide)

end Insertion

end Sable
