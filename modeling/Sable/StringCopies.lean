import Sable.ByteMemory
import Mathlib.Data.List.Perm.Subperm
import Mathlib.Data.List.Nodup

/-!
# The `strncpy` of `util.c`

The two loops count `num` down before they look at it, so it is one too small or has wrapped
when the second loop starts.  The state keeps a record of the places that are written.
-/

namespace Sable

open ByteMemory

section Model

/-- The pointers of a copy, the memory and the places in it that have been written. -/
structure StringCopy where
  mem : Mem
  writes : List UInt32
  dest : UInt32
  src : UInt32

/-- `*(dest++) = c` -/
def StringCopy.put (s : StringCopy) (c : UInt8) : StringCopy :=
  { s with mem := write s.mem s.dest.toNat [c], writes := s.dest :: s.writes, dest := s.dest + 1 }

/-- The first loop, and what it leaves of `num`. -/
def copyText (s : StringCopy) : Nat → StringCopy × UInt32
  | 0 => (s, 0 - 1)
  | num + 1 =>
      if s.mem s.src.toNat = 0 then (s, UInt32.ofNat num)
      else copyText { s.put (s.mem s.src.toNat) with src := s.src + 1 } num

/-- The second loop. -/
def padText (s : StringCopy) : Nat → StringCopy
  | 0 => s
  | num + 1 => padText (s.put 0) num

/-- The pointer `dest` of the last state is returned. -/
def strncpy (mem : Mem) (dest src num : UInt32) : StringCopy :=
  let copied := copyText ⟨mem, [], dest, src⟩ num.toNat
  padText copied.1 copied.2.toNat

end Model

section Standard

/-- The place of the byte `i` behind a pointer. -/
def behindPointer (p : UInt32) (i : Nat) : UInt32 :=
  p + UInt32.ofNat i

/-- What the C standard says of a copy of `num` bytes from a string. -/
structure StandardCopy (before : Mem) (dest src : UInt32) (num length : Nat)
    (after : StringCopy) : Prop where
  places : ∀ a, a ∈ after.writes ↔ ∃ i < num, a = behindPointer dest i
  rounds : after.writes.length ≤ num
  text : ∀ i < num, i < length →
    after.mem (behindPointer dest i).toNat = before (behindPointer src i).toNat
  zeros : ∀ i < num, length ≤ i → after.mem (behindPointer dest i).toNat = 0

theorem behindPointer_inj {p : UInt32} {i j : Nat} (first : i < 2 ^ 32) (second : j < 2 ^ 32)
    (same : behindPointer p i = behindPointer p j) : i = j := by
  have offsets : UInt32.ofNat i = UInt32.ofNat j := (UInt32.add_right_inj p).mp same
  have values := congrArg UInt32.toNat offsets
  rwa [UInt32.toNat_ofNat_of_lt' first, UInt32.toNat_ofNat_of_lt' second] at values

end Standard

section Rounds

variable {mem : Mem} {dest src : UInt32} {s : StringCopy}

/-- The first loop leaves with `num` wrapped, or one less than what has not been copied. -/
theorem copyText_rounds (num : Nat) (bounded : num < 2 ^ 32) (s : StringCopy) :
    ∃ copied, (copyText s num).1.writes.length = s.writes.length + copied ∧
      (copied = num ∧ (copyText s num).2.toNat = 2 ^ 32 - 1 ∨
        copied + (copyText s num).2.toNat + 1 = num) := by
  induction num generalizing s with
  | zero => exact ⟨0, rfl, .inl ⟨rfl, rfl⟩⟩
  | succ num ih =>
      rw [copyText]
      by_cases ends : s.mem s.src.toNat = 0
      · rw [if_pos ends]
        refine ⟨0, rfl, .inr ?_⟩
        rw [UInt32.toNat_ofNat_of_lt' (Nat.lt_of_succ_lt bounded), Nat.zero_add]
      · rw [if_neg ends]
        obtain ⟨copied, written, left⟩ := ih (Nat.lt_of_succ_lt bounded)
          { s.put (s.mem s.src.toNat) with src := s.src + 1 }
        refine ⟨copied + 1, ?_, ?_⟩
        · rw [written, StringCopy.put, List.length_cons]
          omega
        · rcases left with ⟨whole, wrapped⟩ | rest
          · exact .inl ⟨congrArg Nat.succ whole, wrapped⟩
          · exact .inr (by omega)

theorem padText_rounds (num : Nat) (s : StringCopy) :
    (padText s num).writes.length = s.writes.length + num := by
  induction num generalizing s with
  | zero => rfl
  | succ num ih =>
      rw [padText, ih, StringCopy.put, List.length_cons]
      omega

/-- One byte too few is written, or almost the whole memory. -/
theorem strncpy_rounds (mem : Mem) (dest src num : UInt32) :
    (strncpy mem dest src num).writes.length + 1 = num.toNat ∨
      (strncpy mem dest src num).writes.length = num.toNat + (2 ^ 32 - 1) := by
  obtain ⟨copied, written, left⟩ :=
    copyText_rounds num.toNat num.toNat_lt ⟨mem, [], dest, src⟩
  rw [strncpy, padText_rounds, written, List.length_nil]
  rcases left with ⟨whole, wrapped⟩ | rest
  · exact .inr (by omega)
  · exact .inl (by omega)

/-- As many places as there are bytes to copy need as many writes. -/
theorem le_rounds {num length : Nat} {after : StringCopy} (bounded : num < 2 ^ 32)
    (copies : StandardCopy mem dest src num length after) : num ≤ after.writes.length := by
  have distinct : ((List.range num).map (behindPointer dest)).Nodup := by
    refine List.Nodup.map_on (fun i first j second same => ?_) List.nodup_range
    exact behindPointer_inj (Nat.lt_trans (List.mem_range.mp first) bounded)
      (Nat.lt_trans (List.mem_range.mp second) bounded) same
  have written : ∀ a ∈ (List.range num).map (behindPointer dest), a ∈ after.writes := by
    intro a member
    obtain ⟨i, inside, rfl⟩ := List.mem_map.mp member
    exact (copies.places _).mpr ⟨i, List.mem_range.mp inside, rfl⟩
  have count := (List.subperm_of_subset distinct written).length_le
  rwa [List.length_map, List.length_range] at count

/-- No call of `strncpy` does what the C standard says. -/
theorem strncpy_not_standardCopy (mem : Mem) (dest src num : UInt32) (length : Nat) :
    ¬ StandardCopy mem dest src num.toNat length (strncpy mem dest src num) := by
  intro copies
  have few := le_rounds num.toNat_lt copies
  have many := copies.rounds
  rcases strncpy_rounds mem dest src num with short | wrapped
  · omega
  · omega

/-- Of the four bytes for a string of two characters the last one is not written. -/
theorem strncpy_misses_last :
    ¬ StandardCopy (memoryOf [(16, 0x61), (17, 0x62)]) 32 16 4 2
      (strncpy (memoryOf [(16, 0x61), (17, 0x62)]) 32 16 4) := by
  intro copies
  have last := (copies.places 35).mpr ⟨3, by decide, rfl⟩
  revert last
  decide +kernel

end Rounds

end Sable
