import Sable.ByteMemory

/-!
# Arrays of records in memory

An array is the list of its records, which are blocks of one size that lie behind each other.
-/

namespace ByteMemory

/-- The records of `size` bytes from `addr` on. -/
def records (mem : Mem) (size : Nat) : Nat → Nat → List (List UInt8)
  | _, 0 => []
  | addr, count + 1 => read mem addr size :: records mem size (addr + size) count

variable {mem after : Mem} {size addr count : Nat}

@[simp]
theorem length_records (mem : Mem) (size addr count : Nat) :
    (records mem size addr count).length = count := by
  induction count generalizing addr with
  | zero => rfl
  | succ count ih => rw [records, List.length_cons, ih]

theorem getElem_records {k : Nat} (inside : k < (records mem size addr count).length) :
    (records mem size addr count)[k] = read mem (addr + size * k) size := by
  induction count generalizing addr k with
  | zero => exact absurd inside (Nat.not_lt_zero k)
  | succ count ih =>
      cases k with
      | zero => rfl
      | succ k =>
          have later := ih (Nat.lt_of_succ_lt_succ inside)
          simp only [records, List.getElem_cons_succ]
          rw [later, Nat.mul_succ, Nat.add_assoc, Nat.add_comm size]

/-- The records only depend on their bytes. -/
theorem records_congr
    (agree : ∀ a, addr ≤ a → a < addr + size * count → after a = mem a) :
    records after size addr count = records mem size addr count := by
  induction count generalizing addr with
  | zero => rfl
  | succ count ih =>
      rw [Nat.mul_succ] at agree
      rw [records, records, ih fun a lower upper => agree a (by omega) (by omega)]
      congr 1
      exact read_congr fun a lower upper => agree a lower (by omega)

/-- One record has been replaced. -/
theorem records_set {k : Nat} {record : List UInt8} (inside : k < count)
    (stored : read after (addr + size * k) size = record)
    (kept : ∀ a, addr ≤ a → a < addr + size * count →
      a < addr + size * k ∨ addr + size * k + size ≤ a → after a = mem a) :
    records after size addr count = (records mem size addr count).set k record := by
  induction count generalizing addr k with
  | zero => exact absurd inside (Nat.not_lt_zero k)
  | succ count ih =>
      rw [Nat.mul_succ] at kept
      cases k with
      | zero =>
          rw [records, records, List.set_cons_zero]
          rw [Nat.mul_zero, Nat.add_zero] at stored kept
          rw [stored, records_congr fun a lower upper =>
            kept a (by omega) (by omega) (.inr lower)]
      | succ k =>
          rw [Nat.mul_succ] at stored kept
          rw [records, records, List.set_cons_succ]
          have first : read after addr size = read mem addr size :=
            read_congr fun a lower upper => kept a lower (by omega) (.inl (by omega))
          rw [first, ih (Nat.lt_of_succ_lt_succ inside)
            (by rw [Nat.add_assoc, Nat.add_comm size]; exact stored)
            fun a lower upper outside => kept a (by omega) (by omega) (by omega)]

end ByteMemory
