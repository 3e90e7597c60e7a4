import Mathlib.Data.UInt
import Mathlib.Logic.Function.Basic
import Sable.AlignedBlocks

/-!
# The page table of the other processors

`build_ap_pagetable` of `vmcs.c` fills the page directory with which the other processors enter
their guests.  It has pages of four megabytes from the first one up to that of `_end`.  The
addition in the condition of the loop wraps, or the loop does not end, if `_end` lies too high.
-/

namespace Sable

section Model

def pteFlags : UInt32 := 0xe3
def fourMegabytes : UInt32 := 0x400000

/-- The loop of `build_ap_pagetable`, with the index of the entry that `pte` points to. -/
def apPageLoop (last : UInt32) : Nat → UInt32 → Nat → (Nat → UInt32) → Option (Nat → UInt32)
  | 0, _, _, _ => none
  | fuel + 1, ptEntry, pte, table =>
      if ptEntry ≤ last then
        apPageLoop last fuel (ptEntry + fourMegabytes) (pte + 1)
          (Function.update table pte ptEntry)
      else some table

/-- `stop` is the address of `_end`. -/
def buildApPagetable (fuel : Nat) (stop : UInt32) (table : Nat → UInt32) :
    Option (Nat → UInt32) :=
  apPageLoop (stop + pteFlags) fuel pteFlags 0 table

end Model

section Paging

/-- The physical address that a linear one is mapped to by an entry for four megabytes. -/
def walkDirectory (table : Nat → UInt32) (linear : Nat) : Option Nat :=
  let entry := table (linear / 2 ^ 22)
  if entry &&& 0x1 = 0 ∨ entry &&& 0x80 = 0 then none
  else some ((entry &&& 0xFFC00000).toNat + linear % 2 ^ 22)

/-- The entry for the `k`-th page. -/
def apEntry (k : Nat) : UInt32 :=
  pteFlags + UInt32.ofNat k * fourMegabytes

variable {k : Nat} {table entries : Nat → UInt32} {last stop : UInt32} {fuel : Nat}

/-- The entries come back behind the last one. -/
theorem toNat_apEntry (k : Nat) : (apEntry k).toNat = 2 ^ 22 * (k % 1024) + 0xe3 := by
  have flags : pteFlags.toNat = 0xe3 := rfl
  have size : fourMegabytes.toNat = 2 ^ 22 := rfl
  rw [apEntry, UInt32.toNat_add, UInt32.toNat_mul, flags, size, UInt32.toNat_ofNat']
  omega

theorem apEntry_succ (k : Nat) : apEntry k + fourMegabytes = apEntry (k + 1) := by
  have one : UInt32.ofNat 1 * fourMegabytes = fourMegabytes := UInt32.one_mul _
  rw [apEntry, apEntry, UInt32.ofNat_add, UInt32.add_mul, UInt32.add_assoc, one]

theorem apEntry_bit {i : Nat} (set : (2 ^ 22 * (k % 1024) + 0xe3) / 2 ^ i % 2 = 1)
    {bit : UInt32} (place : bit.toNat = 2 ^ i) : ¬ apEntry k &&& bit = 0 := by
  intro none
  have value := congrArg UInt32.toNat none
  rw [UInt32.toNat_and, toNat_apEntry, place, Nat.and_two_pow,
    Nat.testBit_eq_decide_div_mod_eq, decide_eq_true set] at value
  have positive := Nat.two_pow_pos i
  change 1 * 2 ^ i = 0 at value
  omega

/-- The entry of a page maps it to itself. -/
theorem walkDirectory_entry {linear : Nat} (small : linear / 2 ^ 22 < 1024)
    (entry : table (linear / 2 ^ 22) = apEntry (linear / 2 ^ 22)) :
    walkDirectory table linear = some linear := by
  have frame : (apEntry (linear / 2 ^ 22) &&& 0xFFC00000).toNat = linear / 2 ^ 22 * 2 ^ 22 := by
    have mask := AlignedBlock.and_mask (e := 22) (by decide)
      (by omega : 2 ^ 22 * (linear / 2 ^ 22) + 0xe3 < 2 ^ 32)
    rw [UInt32.toNat_and, toNat_apEntry, Nat.mod_eq_of_lt small]
    change (2 ^ 22 * (linear / 2 ^ 22) + 0xe3) &&& (2 ^ 32 - 2 ^ 22) = _
    rw [mask]
    omega
  have present := @apEntry_bit (linear / 2 ^ 22) 0 (by omega) 0x1 rfl
  have large := @apEntry_bit (linear / 2 ^ 22) 7 (by omega) 0x80 rfl
  rw [walkDirectory, entry]
  rw [if_neg (not_or.mpr ⟨present, large⟩), frame]
  congr 1
  omega

/-- The loop fills the entries of the pages that start at or below an address. -/
theorem apPageLoop_run (order : last.toNat = stop.toNat + 0xe3) (top : stop.toNat < 1023 * 2 ^ 22)
    (enough : stop.toNat / 2 ^ 22 + 1 < k + fuel) (sofar : k ≤ stop.toNat / 2 ^ 22 + 1) :
    ∃ reached, apPageLoop last fuel (apEntry k) k table = some reached ∧
      ∀ i, reached i = if k ≤ i ∧ i ≤ stop.toNat / 2 ^ 22 then apEntry i else table i := by
  induction fuel generalizing k table with
  | zero => omega
  | succ fuel ih =>
      have value := toNat_apEntry k
      rw [apPageLoop, apEntry_succ]
      by_cases more : k ≤ stop.toNat / 2 ^ 22
      · have below : apEntry k ≤ last := UInt32.le_iff_toNat_le.mpr (by omega)
        obtain ⟨reached, runs, filled⟩ := @ih (k + 1) (Function.update table k (apEntry k))
          (by omega) (by omega)
        rw [if_pos below]
        refine ⟨reached, runs, fun i => ?_⟩
        rw [filled]
        by_cases here : i = k
        · rw [if_neg (by omega), if_pos (by omega), here, Function.update_self]
        · rw [Function.update_of_ne here]
          by_cases inside : k ≤ i ∧ i ≤ stop.toNat / 2 ^ 22
          · rw [if_pos (by omega), if_pos inside]
          · rw [if_neg (by omega), if_neg inside]
      · have above : ¬ apEntry k ≤ last := by
          rw [UInt32.le_iff_toNat_le]
          omega
        rw [if_neg above]
        refine ⟨table, rfl, fun i => ?_⟩
        rw [if_neg (by omega)]

/-- The loop does not end when even the last entry is not above the bound. -/
theorem apPageLoop_spins (top : 1023 * 2 ^ 22 + 0xe3 ≤ last.toNat) (fuel i : Nat) :
    apPageLoop last fuel (apEntry i) k table = none := by
  induction fuel generalizing i k table with
  | zero => rfl
  | succ fuel ih =>
      have below : apEntry i ≤ last := by
        rw [UInt32.le_iff_toNat_le, toNat_apEntry]
        omega
      rw [apPageLoop, if_pos below, apEntry_succ]
      exact ih (i + 1)

/-- All that the loader occupies is mapped to itself, and nothing behind its last page. -/
def MapsItself (stop : UInt32) (table : Nat → UInt32) : Prop :=
  ∀ linear < 2 ^ 32, walkDirectory table linear =
    if linear / 2 ^ 22 ≤ stop.toNat / 2 ^ 22 then some linear else none

/-- The zeros of `idle_pg_table`, and the words behind it. -/
def blankTable (behind : Nat → UInt32) (i : Nat) : UInt32 :=
  if i < 1024 then 0 else behind i

/-- The table is built, maps the loader to itself and leaves the words behind it alone exactly
if the loader does not reach into the last page. -/
theorem buildApPagetable_iff (stop : UInt32) (behind : Nat → UInt32) :
    (∃ fuel table, buildApPagetable fuel stop (blankTable behind) = some table ∧
        MapsItself stop table ∧ ∀ i, 1024 ≤ i → table i = behind i) ↔
      stop.toNat < 1023 * 2 ^ 22 := by
  have flags : pteFlags.toNat = 0xe3 := rfl
  have bound := stop.toNat_lt
  have start : pteFlags = apEntry 0 := rfl
  constructor
  · rintro ⟨fuel, table, built, maps, -⟩
    apply Nat.lt_of_not_le
    intro high
    rw [buildApPagetable, start] at built
    by_cases wraps : 2 ^ 32 ≤ stop.toNat + 0xe3
    · have below : ¬ apEntry 0 ≤ stop + apEntry 0 := by
        rw [UInt32.le_iff_toNat_le, UInt32.toNat_add, ← start, flags]
        omega
      cases fuel with
      | zero => cases built
      | succ fuel =>
          rw [apPageLoop, if_neg below] at built
          obtain rfl := Option.some.inj built
          have first := maps 0 (by decide)
          have empty : blankTable behind (0 / 2 ^ 22) = 0 := if_pos (by decide)
          rw [if_pos (by omega), walkDirectory, empty, if_pos (.inl rfl)] at first
          cases first
    · have last : (stop + apEntry 0).toNat = stop.toNat + 0xe3 := by
        rw [← start, UInt32.toNat_add, flags, Nat.mod_eq_of_lt (by omega)]
      rw [apPageLoop_spins (by omega) fuel 0] at built
      cases built
  · intro low
    have last : (stop + apEntry 0).toNat = stop.toNat + 0xe3 := by
      rw [← start, UInt32.toNat_add, flags, Nat.mod_eq_of_lt (by omega)]
    obtain ⟨table, runs, filled⟩ := @apPageLoop_run 0 (blankTable behind) _ stop 1025 last low
      (by omega) (Nat.zero_le _)
    refine ⟨1025, table, runs, fun linear inside => ?_, fun i beyond => ?_⟩
    · have entry := filled (linear / 2 ^ 22)
      by_cases mapped : linear / 2 ^ 22 ≤ stop.toNat / 2 ^ 22
      · rw [if_pos ⟨Nat.zero_le _, mapped⟩] at entry
        rw [if_pos mapped]
        exact walkDirectory_entry (by omega) entry
      · have small : linear / 2 ^ 22 < 1024 := by omega
        rw [if_neg (fun both => mapped both.2), blankTable, if_pos small] at entry
        rw [if_neg mapped, walkDirectory, entry]
        exact if_pos (.inl rfl)
    · rw [filled, if_neg (by omega), blankTable, if_neg (Nat.not_lt_of_le beyond)]

end Paging

end Sable
