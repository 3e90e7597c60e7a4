import Sable.ByteMemory

/-!
# Moves between overlapping ranges

A range is moved in pieces that are read before they are written.  If the range goes down and
the lowest piece goes first, no byte is overwritten before it is read, however long the pieces
are; the same holds for a range that goes up if the highest piece goes first.
-/

namespace ByteMemory

/-- Memory when the bytes from `lo` up to `hi` of a range have been moved. -/
def moved (mem : Mem) (dst src lo hi : Nat) : Mem :=
  fun a => if dst + lo ≤ a ∧ a < dst + hi then mem (src + (a - dst)) else mem a

variable {mem : Mem} {dst src lo hi : Nat}

theorem moved_inside {i : Nat} (above : lo ≤ i) (below : i < hi) :
    moved mem dst src lo hi (dst + i) = mem (src + i) := by
  rw [moved, if_pos (by omega), Nat.add_sub_cancel_left]

theorem moved_outside {a : Nat} (outside : a < dst + lo ∨ dst + hi ≤ a) :
    moved mem dst src lo hi a = mem a := by
  rw [moved, if_neg (by omega)]

theorem moved_empty (mem : Mem) (dst src lo : Nat) : moved mem dst src lo lo = mem := by
  funext a
  exact moved_outside (by omega)

theorem moved_self (mem : Mem) (src lo hi : Nat) : moved mem src src lo hi = mem := by
  funext a
  by_cases inside : src + lo ≤ a ∧ a < src + hi
  · rw [moved, if_pos inside, Nat.add_sub_cancel' (by omega)]
  · exact moved_outside (by omega)

theorem write_read_eq_moved (mem : Mem) (dst src count : Nat) :
    write mem dst (read mem src count) = moved mem dst src 0 count := by
  funext a
  by_cases inside : dst ≤ a ∧ a < dst + count
  · obtain ⟨offset, rfl⟩ := Nat.exists_eq_add_of_le inside.1
    have small : offset < (read mem src count).length := by
      rw [length_read]
      omega
    rw [moved_inside (Nat.zero_le _) (by omega), write_inside _ small]
    simp only [read, List.getElem_map, List.getElem_range]
  · rw [moved_outside (by omega), write_outside]
    rw [length_read]
    omega

/-- A piece that has not been overwritten is written behind what has been moved. -/
theorem write_moved {start count : Nat} (kept : src + start + count ≤ dst + lo ∨
      dst + hi ≤ src + start) {a : Nat} :
    write (moved mem dst src lo hi) (dst + start)
        (read (moved mem dst src lo hi) (src + start) count) a =
      if dst + start ≤ a ∧ a < dst + start + count then mem (src + (a - dst))
      else moved mem dst src lo hi a := by
  by_cases inside : dst + start ≤ a ∧ a < dst + start + count
  · obtain ⟨offset, rfl⟩ := Nat.exists_eq_add_of_le inside.1
    have small : offset < (read (moved mem dst src lo hi) (src + start) count).length := by
      rw [length_read]
      omega
    rw [if_pos inside, write_inside _ small]
    simp only [read, List.getElem_map, List.getElem_range]
    rw [moved_outside (by omega)]
    exact congrArg mem (by omega)
  · rw [if_neg inside, write_outside]
    rw [length_read]
    omega

/-- The next piece of a range that goes down. -/
theorem write_moved_up (down : dst ≤ src) (count : Nat) :
    write (moved mem dst src 0 hi) (dst + hi)
        (read (moved mem dst src 0 hi) (src + hi) count) =
      moved mem dst src 0 (hi + count) := by
  funext a
  rw [write_moved (.inr (by omega)), moved, moved]
  by_cases first : dst + hi ≤ a ∧ a < dst + hi + count
  · rw [if_pos first, if_pos (by omega)]
  · by_cases before : dst + 0 ≤ a ∧ a < dst + hi
    · rw [if_neg first, if_pos before, if_pos (by omega)]
    · rw [if_neg first, if_neg before, if_neg (by omega)]

/-- The next piece of a range that goes up. -/
theorem write_moved_down (up : src ≤ dst) {start count : Nat} (order : start + count ≤ hi) :
    write (moved mem dst src (start + count) hi) (dst + start)
        (read (moved mem dst src (start + count) hi) (src + start) count) =
      moved mem dst src start hi := by
  funext a
  rw [write_moved (.inl (by omega)), moved, moved]
  by_cases last : dst + start ≤ a ∧ a < dst + start + count
  · rw [if_pos last, if_pos (by omega)]
  · by_cases behind : dst + (start + count) ≤ a ∧ a < dst + hi
    · rw [if_neg last, if_pos behind, if_pos (by omega)]
    · rw [if_neg last, if_neg behind, if_neg (by omega)]

end ByteMemory
