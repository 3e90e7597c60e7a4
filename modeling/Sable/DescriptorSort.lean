import Sable.Memcpy
import Sable.MemoryDescriptors
import Sable.RecordArrays

/-!
# The sort of the memory descriptors in memory

The loops of `verify_e820_map` go through the array in memory and move whole entries with
`memcpy`, one of them through a local entry.  They do to the array what the selection sort
does to the list of its entries.
-/

namespace Sable

open ByteMemory

section Loops

/-- `sizeof(sinit_mdr_t)` -/
def mdrSize : UInt32 := 24

/-- The entry at an address. -/
def loadMdr (mem : Mem) (entry : UInt32) : SinitMdr :=
  ⟨word64 mem entry 0, word64 mem entry 8, word8 mem entry 16⟩

variable (mdrsBase : UInt32)

/-- `&mdrs_base[i]` -/
def mdrEntry (i : UInt32) : UInt32 :=
  mdrsBase + mdrSize * i

variable (tmpEntry numMdrs : UInt32)

/-- The inner loop, from entry `j` on with some rounds left: `pos` and the memory behind it. -/
def leastEntry : Nat → UInt32 → UInt32 → Mem → UInt32 × Mem
  | 0, _, pos, mem => (pos, mem)
  | rounds + 1, j, pos, mem =>
      if (loadMdr mem (mdrEntry mdrsBase j)).precedes (loadMdr mem tmpEntry) then
        leastEntry rounds (j + 1) j (memcpy mem tmpEntry (mdrEntry mdrsBase j) mdrSize).2
      else leastEntry rounds (j + 1) pos mem

/-- The outer loop, from entry `i` on with some rounds left. -/
def sortEntries : Nat → UInt32 → Mem → Mem
  | 0, _, mem => mem
  | rounds + 1, i, mem =>
      let mem := (memcpy mem tmpEntry (mdrEntry mdrsBase i) mdrSize).2
      let (pos, mem) := leastEntry mdrsBase tmpEntry (numMdrs - (i + 1)).toNat (i + 1) i mem
      if pos > i then
        let mem := (memcpy mem (mdrEntry mdrsBase pos) (mdrEntry mdrsBase i) mdrSize).2
        let mem := (memcpy mem (mdrEntry mdrsBase i) tmpEntry mdrSize).2
        sortEntries rounds (i + 1) mem
      else sortEntries rounds (i + 1) mem

/-- The entries that the sweep of `verify_e820_map` goes through. -/
def loadMdrs (mem : Mem) : List SinitMdr :=
  (List.range numMdrs.toNat).map fun i => loadMdr mem (mdrEntry mdrsBase (UInt32.ofNat i))

/-- `verify_e820_map` on the descriptors in memory. -/
def verifyE820MapAt (mem : Mem) (table : E820Table) : (Bool × E820Table) × Mem :=
  if mdrsBase = 0 ∨ numMdrs = 0 then ((false, table), mem)
  else
    let mem := sortEntries mdrsBase tmpEntry numMdrs numMdrs.toNat 0 mem
    (reserveGaps (loadMdrs mdrsBase numMdrs mem) 0 table, mem)

end Loops

section Entries

/-- The descriptor in the bytes of an entry. -/
def mdrOf (bytes : List UInt8) : SinitMdr :=
  loadMdr (fun a => bytes.getD a 0) 0

/-- The test of the inner loop. -/
def entryPrecedes (entry tmpEntry : List UInt8) : Bool :=
  (mdrOf entry).precedes (mdrOf tmpEntry)

/-- The order of the sort: by base, then by length. -/
def EntryOrdered (first second : List UInt8) : Prop :=
  (mdrOf first).Ordered (mdrOf second)

theorem entryTests : SelectionSort.Tests entryPrecedes EntryOrdered where
  refl _ := SinitMdr.Ordered.refl _
  trans := SinitMdr.Ordered.trans
  of_before := SinitMdr.ordered_of_precedes
  of_not_before := SinitMdr.ordered_of_not_precedes

variable {mem : Mem} {entry : UInt32} (room : entry.toNat + 24 ≤ 2 ^ 32)
include room

theorem flat_eq_getD {i : Nat} (inside : i < 24) :
    flat mem (entry.toNat + i) =
      flat (fun a => (read mem entry.toNat 24).getD a 0) ((0 : UInt32).toNat + i) := by
  have zero : (0 : UInt32).toNat + i = i := Nat.zero_add i
  rw [zero, flat, flat, Nat.mod_eq_of_lt (by omega), Nat.mod_eq_of_lt (by omega),
    List.getD_eq_getElem?_getD, getElem?_read, if_pos inside]
  rfl

theorem word32_eq_getD {offset : Nat} (inside : offset + 4 ≤ 24) :
    word32 mem entry offset =
      word32 (fun a => (read mem entry.toNat 24).getD a 0) 0 offset := by
  rw [word32, word32, load32, load32]
  congr 2
  apply List.map_congr_left
  intro i member
  have small := List.mem_range.mp member
  rw [Nat.add_assoc, Nat.add_assoc]
  exact flat_eq_getD room (by omega)

/-- An entry is in its bytes. -/
theorem loadMdr_eq_mdrOf : loadMdr mem entry = mdrOf (read mem entry.toNat 24) := by
  simp only [loadMdr, mdrOf, word64, Nat.zero_add, Nat.reduceAdd,
    @word32_eq_getD mem entry room 0 (by decide), @word32_eq_getD mem entry room 4 (by decide),
    @word32_eq_getD mem entry room 8 (by decide), @word32_eq_getD mem entry room 12 (by decide)]
  congr 1
  exact flat_eq_getD room (by decide)

end Entries

/-- The array and the local entry are ranges of their own. -/
structure EntriesPlaced (mdrsBase tmpEntry numMdrs : UInt32) : Prop where
  array : mdrsBase.toNat + 24 * numMdrs.toNat ≤ 2 ^ 32
  tmp : tmpEntry.toNat + 24 ≤ 2 ^ 32
  apart : tmpEntry.toNat + 24 ≤ mdrsBase.toNat ∨
    mdrsBase.toNat + 24 * numMdrs.toNat ≤ tmpEntry.toNat

/-- The same memory but for the local entry. -/
def SameOff (tmpEntry : UInt32) (mem after : Mem) : Prop :=
  ∀ a, a < tmpEntry.toNat ∨ tmpEntry.toNat + 24 ≤ a → after a = mem a

section Rounds

open SelectionSort

variable {mem : Mem} {mdrsBase tmpEntry numMdrs i j pos dst src : UInt32} {rounds : Nat}

/-- A `memcpy` of one entry. -/
theorem copyEntry (dstFits : dst.toNat + 24 ≤ 2 ^ 32) (srcFits : src.toNat + 24 ≤ 2 ^ 32) :
    read (memcpy mem dst src mdrSize).2 dst.toNat 24 = read mem src.toNat 24 ∧
      SameOff dst mem (memcpy mem dst src mdrSize).2 :=
  (memcpy_memmove mem dst src mdrSize dstFits srcFits).2

theorem toNat_succ (inside : i.toNat < numMdrs.toNat) : (i + 1).toNat = i.toNat + 1 :=
  toNat_add_one (Nat.lt_of_le_of_lt inside numMdrs.toNat_lt)

variable (placed : EntriesPlaced mdrsBase tmpEntry numMdrs)
include placed

theorem toNat_mdrEntry (inside : i.toNat < numMdrs.toNat) :
    (mdrEntry mdrsBase i).toNat = mdrsBase.toNat + 24 * i.toNat := by
  have array := placed.array
  have size : mdrSize.toNat = 24 := rfl
  rw [mdrEntry, UInt32.toNat_add, UInt32.toNat_mul, size]
  omega

/-- An entry lies in the address space. -/
theorem mdrEntry_fits (inside : i.toNat < numMdrs.toNat) :
    (mdrEntry mdrsBase i).toNat + 24 ≤ 2 ^ 32 := by
  have array := placed.array
  rw [toNat_mdrEntry placed inside]
  omega

/-- The local entry is not in the array. -/
theorem records_sameOff {after : Mem} (same : SameOff tmpEntry mem after)
    (rest : i.toNat + rounds = numMdrs.toNat) :
    records after 24 (mdrsBase.toNat + 24 * i.toNat) rounds =
      records mem 24 (mdrsBase.toNat + 24 * i.toNat) rounds := by
  have apart := placed.apart
  exact records_congr fun a lower upper => same a (by omega)

/-- The inner loop finds the least entry, and has it in the local entry. -/
theorem leastEntry_eq {copy : List UInt8} (rest : j.toNat + rounds = numMdrs.toNat)
    (copied : read mem tmpEntry.toNat 24 = copy) :
    ∃ after,
      leastEntry mdrsBase tmpEntry rounds j pos mem =
        (UInt32.ofNat (least entryPrecedes
          (records mem 24 (mdrsBase.toNat + 24 * j.toNat) rounds) j.toNat copy pos.toNat).2,
          after) ∧
      read after tmpEntry.toNat 24 = (least entryPrecedes
        (records mem 24 (mdrsBase.toNat + 24 * j.toNat) rounds) j.toNat copy pos.toNat).1 ∧
      SameOff tmpEntry mem after := by
  induction rounds generalizing j pos mem copy with
  | zero =>
      refine ⟨mem, ?_, copied, fun _ _ => rfl⟩
      rw [leastEntry, records, least, UInt32.ofNat_toNat]
  | succ rounds ih =>
      have inside : j.toNat < numMdrs.toNat := by omega
      have next := toNat_succ inside
      have left : (j + 1).toNat + rounds = numMdrs.toNat := by omega
      have place : mdrsBase.toNat + 24 * j.toNat + 24 = mdrsBase.toNat + 24 * (j + 1).toNat := by
        omega
      have test : (loadMdr mem (mdrEntry mdrsBase j)).precedes (loadMdr mem tmpEntry) =
          entryPrecedes (read mem (mdrsBase.toNat + 24 * j.toNat) 24) copy := by
        rw [loadMdr_eq_mdrOf (mdrEntry_fits placed inside), loadMdr_eq_mdrOf placed.tmp, copied,
          toNat_mdrEntry placed inside, entryPrecedes]
      rw [leastEntry, records, least, test, place, ← next]
      by_cases less : entryPrecedes (read mem (mdrsBase.toNat + 24 * j.toNat) 24) copy
      · rw [if_pos less, if_pos less]
        obtain ⟨stored, same⟩ := @copyEntry mem _ _ placed.tmp (mdrEntry_fits placed inside)
        rw [toNat_mdrEntry placed inside] at stored
        obtain ⟨after, run, found, kept⟩ := @ih _ (j + 1) j _ left stored
        rw [records_sameOff placed same left] at run found
        exact ⟨after, run, found, fun a outside => (kept a outside).trans (same a outside)⟩
      · rw [if_neg less, if_neg less]
        exact ih left copied

/-- The search of a round: the local entry gets entry `i` and then the least one. -/
theorem searchEntries (rest : i.toNat + (rounds + 1) = numMdrs.toNat) :
    ∃ after,
      leastEntry mdrsBase tmpEntry (numMdrs - (i + 1)).toNat (i + 1) i
          (memcpy mem tmpEntry (mdrEntry mdrsBase i) mdrSize).2 =
        (UInt32.ofNat ((least entryPrecedes
          (records mem 24 (mdrsBase.toNat + 24 * (i + 1).toNat) rounds) 1
          (read mem (mdrsBase.toNat + 24 * i.toNat) 24) 0).2 + i.toNat), after) ∧
      read after tmpEntry.toNat 24 = (least entryPrecedes
        (records mem 24 (mdrsBase.toNat + 24 * (i + 1).toNat) rounds) 1
        (read mem (mdrsBase.toNat + 24 * i.toNat) 24) 0).1 ∧
      SameOff tmpEntry mem after := by
  have inside : i.toNat < numMdrs.toNat := by omega
  have next := toNat_succ inside
  have left : (i + 1).toNat + rounds = numMdrs.toNat := by omega
  have count : (numMdrs - (i + 1)).toNat = rounds := by
    rw [UInt32.toNat_sub_of_le _ _ (UInt32.le_iff_toNat_le.mpr (by omega))]
    omega
  obtain ⟨copied, sameCopied⟩ := @copyEntry mem _ _ placed.tmp (mdrEntry_fits placed inside)
  rw [toNat_mdrEntry placed inside] at copied
  obtain ⟨after, run, found, same⟩ :=
    @leastEntry_eq _ mdrsBase tmpEntry numMdrs (i + 1) i rounds placed _ left copied
  have shift := @least_shift _ entryPrecedes
    (records mem 24 (mdrsBase.toNat + 24 * (i + 1).toNat) rounds) 1
    (read mem (mdrsBase.toNat + 24 * i.toNat) 24) 0 i.toNat
  rw [Nat.zero_add, Nat.add_comm 1, ← next] at shift
  rw [records_sameOff placed sameCopied left, shift] at run found
  rw [count]
  exact ⟨after, run, found, fun a outside => (same a outside).trans (sameCopied a outside)⟩

/-- The exchange of a round: entry `pos` gets entry `i`, which gets the local entry. -/
theorem exchangeEntries {k : Nat} (rest : i.toNat + (rounds + 1) = numMdrs.toNat)
    (inside : k < rounds) (later : pos.toNat = 1 + k + i.toNat) :
    ∃ after, (memcpy (memcpy mem (mdrEntry mdrsBase pos) (mdrEntry mdrsBase i) mdrSize).2
        (mdrEntry mdrsBase i) tmpEntry mdrSize).2 = after ∧
      read after (mdrsBase.toNat + 24 * i.toNat) 24 = read mem tmpEntry.toNat 24 ∧
      records after 24 (mdrsBase.toNat + 24 * (i + 1).toNat) rounds =
        (records mem 24 (mdrsBase.toNat + 24 * (i + 1).toNat) rounds).set k
          (read mem (mdrsBase.toNat + 24 * i.toNat) 24) ∧
      ∀ a, a < mdrsBase.toNat + 24 * i.toNat ∨ mdrsBase.toNat + 24 * numMdrs.toNat ≤ a →
        after a = mem a := by
  have iInside : i.toNat < numMdrs.toNat := by omega
  have posInside : pos.toNat < numMdrs.toNat := by omega
  have next := toNat_succ iInside
  have apart := placed.apart
  obtain ⟨moved, sameMoved⟩ := @copyEntry mem _ _ (mdrEntry_fits placed posInside)
    (mdrEntry_fits placed iInside)
  obtain ⟨stored, sameStored⟩ := @copyEntry
    (memcpy mem (mdrEntry mdrsBase pos) (mdrEntry mdrsBase i) mdrSize).2 _ _
    (mdrEntry_fits placed iInside) placed.tmp
  rw [toNat_mdrEntry placed iInside, toNat_mdrEntry placed posInside] at moved
  rw [toNat_mdrEntry placed iInside] at stored
  rw [SameOff, toNat_mdrEntry placed posInside] at sameMoved
  rw [SameOff, toNat_mdrEntry placed iInside] at sameStored
  refine ⟨_, rfl, ?_, records_set inside ?_ fun a lower upper outside => ?_, fun a outside => ?_⟩
  · rw [stored]
    exact read_congr fun a lower upper => sameMoved a (by omega)
  · have place : mdrsBase.toNat + 24 * (i + 1).toNat + 24 * k =
        mdrsBase.toNat + 24 * pos.toNat := by omega
    rw [place, ← moved]
    exact read_congr fun a lower upper => sameStored a (by omega)
  · exact (sameStored a (by omega)).trans (sameMoved a (by omega))
  · exact (sameStored a (by omega)).trans (sameMoved a (by omega))

/-- The outer loop sorts the entries that are left, and leaves the others alone. -/
theorem sortEntries_eq (rest : i.toNat + rounds = numMdrs.toNat) :
    ∃ after, sortEntries mdrsBase tmpEntry numMdrs rounds i mem = after ∧
      records after 24 (mdrsBase.toNat + 24 * i.toNat) rounds =
        sort entryPrecedes rounds (records mem 24 (mdrsBase.toNat + 24 * i.toNat) rounds) ∧
      ∀ a, a < tmpEntry.toNat ∨ tmpEntry.toNat + 24 ≤ a →
        a < mdrsBase.toNat + 24 * i.toNat ∨ mdrsBase.toNat + 24 * numMdrs.toNat ≤ a →
        after a = mem a := by
  induction rounds generalizing i mem with
  | zero => exact ⟨mem, rfl, rfl, fun _ _ _ => rfl⟩
  | succ rounds ih =>
      have inside : i.toNat < numMdrs.toNat := by omega
      have next := toNat_succ inside
      have left : (i + 1).toNat + rounds = numMdrs.toNat := by omega
      have apart := placed.apart
      have place : mdrsBase.toNat + 24 * i.toNat + 24 = mdrsBase.toNat + 24 * (i + 1).toNat := by
        omega
      obtain ⟨searched, run, found, same⟩ := @searchEntries mem mdrsBase tmpEntry numMdrs i rounds
        placed rest
      have first : read searched (mdrsBase.toNat + 24 * i.toNat) 24 =
          read mem (mdrsBase.toNat + 24 * i.toNat) 24 :=
        read_congr fun a lower upper => same a (by omega)
      simp only [sortEntries, records, place]
      rcases @least_place _ entryPrecedes
          (records mem 24 (mdrsBase.toNat + 24 * (i + 1).toNat) rounds) 1
          (read mem (mdrsBase.toNat + 24 * i.toNat) 24) 0 with kept | ⟨k, small, moved⟩
      · have stay : UInt32.ofNat (0 + i.toNat) = i := by rw [Nat.zero_add, UInt32.ofNat_toNat]
        obtain ⟨after, runs, sorted, frame⟩ := @ih searched (i + 1) left
        rw [kept] at run
        simp only [run, stay, gt_iff_lt, UInt32.lt_irrefl, if_false]
        rw [sort_kept rounds kept]
        refine ⟨after, runs, ?_, fun a outside behind =>
          (frame a outside (by omega)).trans (same a outside)⟩
        rw [sorted, records_sameOff placed same left, ← first]
        congr 1
        exact read_congr fun a lower upper => frame a (by omega) (by omega)
      · have short : k < rounds := by rwa [length_records] at small
        rw [moved] at run found
        have later : (UInt32.ofNat (1 + k + i.toNat)).toNat = 1 + k + i.toNat :=
          UInt32.toNat_ofNat_of_lt' (by have := numMdrs.toNat_lt; simp only [UInt32.size]; omega)
        obtain ⟨exchanged, exchange, least, others, outer⟩ :=
          @exchangeEntries searched mdrsBase tmpEntry numMdrs i _ rounds placed k rest short later
        obtain ⟨after, runs, sorted, frame⟩ := @ih exchanged (i + 1) left
        have exchanges : UInt32.ofNat (1 + k + i.toNat) > i :=
          UInt32.lt_iff_toNat_lt.mpr (by omega)
        simp only [run, exchanges, if_true, exchange]
        rw [sort_exchanged rounds small moved]
        refine ⟨after, runs, ?_, fun a outside behind => (frame a outside (by omega)).trans
          ((outer a (by omega)).trans (same a outside))⟩
        rw [sorted, others, records_sameOff placed same left, first]
        congr 1
        exact (read_congr fun a lower upper => frame a (by omega) (by omega)).trans
          (least.trans found)

/-- After the loops of `verify_e820_map` the array is a permutation of what it was, ordered by
base and then by length, and no other memory has changed but the local entry. -/
theorem sortEntries_sorts (mem : Mem) :
    (records (sortEntries mdrsBase tmpEntry numMdrs numMdrs.toNat 0 mem) 24 mdrsBase.toNat
        numMdrs.toNat).Perm (records mem 24 mdrsBase.toNat numMdrs.toNat) ∧
      (records (sortEntries mdrsBase tmpEntry numMdrs numMdrs.toNat 0 mem) 24 mdrsBase.toNat
        numMdrs.toNat).Pairwise EntryOrdered ∧
      ∀ a, a < tmpEntry.toNat ∨ tmpEntry.toNat + 24 ≤ a →
        a < mdrsBase.toNat ∨ mdrsBase.toNat + 24 * numMdrs.toNat ≤ a →
        sortEntries mdrsBase tmpEntry numMdrs numMdrs.toNat 0 mem a = mem a := by
  obtain ⟨after, run, sorted, frame⟩ :=
    @sortEntries_eq mem mdrsBase tmpEntry numMdrs 0 numMdrs.toNat placed (Nat.zero_add _)
  have start : mdrsBase.toNat + 24 * (0 : UInt32).toNat = mdrsBase.toNat := rfl
  rw [start] at sorted frame
  rw [run, sorted]
  exact ⟨sort_perm entryTests _ _, sort_ordered entryTests (length_records _ _ _ _).le, frame⟩

/-- The entries in memory, one after the other. -/
theorem loadMdrs_eq_map (mem : Mem) :
    loadMdrs mdrsBase numMdrs mem =
      (records mem 24 mdrsBase.toNat numMdrs.toNat).map mdrOf := by
  apply List.ext_getElem
  · simp only [loadMdrs, List.length_map, List.length_range, length_records]
  · intro k inLoaded inRecords
    simp only [loadMdrs, List.length_map, List.length_range] at inLoaded
    have bound := numMdrs.toNat_lt
    have index : (UInt32.ofNat k).toNat = k :=
      UInt32.toNat_ofNat_of_lt' (by simp only [UInt32.size]; omega)
    have inside : (UInt32.ofNat k).toNat < numMdrs.toNat := by omega
    simp only [loadMdrs, List.getElem_map, List.getElem_range, getElem_records]
    rw [loadMdr_eq_mdrOf (mdrEntry_fits placed inside), toNat_mdrEntry placed inside, index]

/-- The sort in memory is the sort of the list of descriptors. -/
theorem loadMdrs_sortEntries (mem : Mem) :
    loadMdrs mdrsBase numMdrs (sortEntries mdrsBase tmpEntry numMdrs numMdrs.toNat 0 mem) =
      sortMdrs numMdrs.toNat (loadMdrs mdrsBase numMdrs mem) := by
  obtain ⟨after, run, sorted, -⟩ :=
    @sortEntries_eq mem mdrsBase tmpEntry numMdrs 0 numMdrs.toNat placed (Nat.zero_add _)
  have start : mdrsBase.toNat + 24 * (0 : UInt32).toNat = mdrsBase.toNat := rfl
  rw [start] at sorted
  rw [loadMdrs_eq_map placed, loadMdrs_eq_map placed, run, sorted, sortMdrs_eq]
  exact @sort_map _ _ SinitMdr.precedes mdrOf entryPrecedes (fun _ _ => rfl) _ _

/-- On descriptors in memory `verify_e820_map` does what it does on their list. -/
theorem verifyE820MapAt_eq (mem : Mem) (table : E820Table) (some : mdrsBase ≠ 0) :
    (verifyE820MapAt mdrsBase tmpEntry numMdrs mem table).1 =
      verifyE820Map table (loadMdrs mdrsBase numMdrs mem) := by
  have length : (loadMdrs mdrsBase numMdrs mem).length = numMdrs.toNat := by
    rw [loadMdrs, List.length_map, List.length_range]
  rw [verifyE820MapAt, verifyE820Map, length]
  by_cases none : numMdrs = 0
  · rw [if_pos (.inr none), none]
    rfl
  · have positive : numMdrs.toNat ≠ 0 := fun zero => none (UInt32.toNat_inj.mp zero)
    rw [if_neg (not_or.mpr ⟨some, none⟩), if_neg positive, ← loadMdrs_sortEntries placed]

end Rounds

/-- Three descriptors that are out of order; the last two have the same base. -/
def unsortedDescriptors : Mem :=
  memoryOf [(0x1003, 3), (0x1008, 1), (0x101a, 2), (0x1020, 9), (0x1032, 2), (0x1038, 4)]

theorem sortEntries_sorts_unsorted :
    (records (sortEntries 0x1000 0x8000 3 3 0 unsortedDescriptors) 24 0x1000 3).Perm
        (records unsortedDescriptors 24 0x1000 3) ∧
      (records (sortEntries 0x1000 0x8000 3 3 0 unsortedDescriptors) 24 0x1000 3).Pairwise
        EntryOrdered ∧
      ∀ a, a < 0x8000 ∨ 0x8000 + 24 ≤ a → a < 0x1000 ∨ 0x1000 + 24 * 3 ≤ a →
        sortEntries 0x1000 0x8000 3 3 0 unsortedDescriptors a = unsortedDescriptors a :=
  @sortEntries_sorts 0x1000 0x8000 3 ⟨by decide, by decide, by decide⟩ unsortedDescriptors

end Sable
