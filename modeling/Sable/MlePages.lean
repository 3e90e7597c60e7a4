import Mathlib.Data.UInt
import Mathlib.Logic.Function.Basic
import Sable.AlignedBlocks
import Sable.HeapInitialisation

/-!
# The page tables of the measured environment

`build_mle_pagetable` of `txt.c` fills three pages: a directory pointer table and a
directory with one entry each, and a table with an entry for each page of the measured
environment.  SINIT walks over the three levels.  It finds the pages of the environment one
after the other, and nothing else.
-/

namespace Sable

open ByteMemory HaltingProgram

section Tables

/-- `MAKE_PDTE`.  The mask is a negative `int`, so its sign is extended to 64 bits. -/
def makePdte (addr : UInt32) : UInt64 :=
  addr.toUInt64 &&& 0xfffffffffffff000 ||| 1

/-- The loop over the entries of the last level, which has 512 of them. -/
def pteLoop (mleStart mleSize : UInt32) : Nat → UInt32 → UInt32 → Prog Halt HeapMachine Unit
  | 0, _, _ => Prog.halt .spin
  | fuel + 1, pte, mleOff => do
      heapStoreQuad pte (makePdte (mleStart + mleOff))
      if mleOff + 4096 < mleSize then pteLoop mleStart mleSize fuel (pte + 8) (mleOff + 4096)
      else pure ()

/-- `g_mle_pt` is the address of the three pages. -/
def buildMlePagetable (gMlePt mleStart mleSize : UInt32) : Prog Halt HeapMachine UInt32 := do
  if mleSize > 512 * 4096 then return 0
  if mleStart &&& 0xfff ≠ 0 then return 0
  heapClear gMlePt (3 * 4096)
  let pgDir := gMlePt + 4096
  let pgTab := pgDir + 4096
  heapStoreQuad gMlePt (makePdte pgDir)
  heapStoreQuad pgDir (makePdte pgTab)
  pteLoop mleStart mleSize 512 pgTab 0
  return gMlePt

end Tables

section Paging

/-- An entry of a table of any level. -/
def pageEntry (mem : Mem) (table : UInt32) (index : Nat) : UInt64 :=
  word64 mem (table + UInt32.ofNat (8 * index)) 0

/-- The lowest bit of an entry. -/
def Present (entry : UInt64) : Prop :=
  entry &&& 1 = 1

instance (entry : UInt64) : Decidable (Present entry) :=
  inferInstanceAs (Decidable (_ = _))

/-- The physical address in bits 12 to 51 of an entry. -/
def pageFrame (entry : UInt64) : UInt64 :=
  entry &&& 0xffffffffff000

/-- The physical address that a linear one is mapped to, if the entries of all three levels
are present and the tables lie below four gigabytes. -/
def walkTables (mem : Mem) (root : UInt32) (linear : Nat) : Option Nat :=
  let pdpte := pageEntry mem root (linear / 2 ^ 30 % 4)
  if ¬ Present pdpte ∨ pageFrame pdpte ≥ 2 ^ 32 then none
  else
    let pde := pageEntry mem (pageFrame pdpte).toUInt32 (linear / 2 ^ 21 % 512)
    if ¬ Present pde ∨ pageFrame pde ≥ 2 ^ 32 then none
    else
      let pte := pageEntry mem (pageFrame pde).toUInt32 (linear / 2 ^ 12 % 512)
      if ¬ Present pte then none
      else some ((pageFrame pte).toNat + linear % 2 ^ 12)

end Paging

section Entries

variable (addr : UInt32)

theorem toNat_makePdte : (makePdte addr).toNat = 4096 * (addr.toNat / 4096) + 1 := by
  have small : addr.toNat < 2 ^ 64 := Nat.lt_trans addr.toNat_lt (by decide)
  have page := AlignedBlock.and_mask (e := 12) (by decide) small
  have bit := Nat.two_pow_add_eq_or_of_lt (i := 12) (by decide : 1 < 2 ^ 12) (addr.toNat / 4096)
  rw [makePdte, UInt64.toNat_or, UInt64.toNat_and, UInt32.toNat_toUInt64]
  change addr.toNat &&& (2 ^ 64 - 2 ^ 12) ||| 1 = _
  rw [page, Nat.mul_comm]
  exact bit.symm

theorem present_makePdte : Present (makePdte addr) := by
  apply UInt64.toNat_inj.mp
  rw [UInt64.toNat_and, toNat_makePdte]
  change (4096 * (addr.toNat / 4096) + 1) &&& 1 = 1
  rw [Nat.and_one_is_mod]
  omega

theorem toNat_pageFrame_makePdte :
    (pageFrame (makePdte addr)).toNat = 4096 * (addr.toNat / 4096) := by
  have bound := addr.toNat_lt
  have frame := AlignedBlock.and_mask (e := 12) (by decide)
    (by omega : 4096 * (addr.toNat / 4096) + 1 < 2 ^ 52)
  rw [pageFrame, UInt64.toNat_and, toNat_makePdte]
  change (4096 * (addr.toNat / 4096) + 1) &&& (2 ^ 52 - 2 ^ 12) = _
  rw [frame]
  omega

/-- A table on a page of its own is found through the entry that points to it. -/
theorem pageFrame_makePdte (aligned : addr.toNat % 4096 = 0) :
    ¬ (¬ Present (makePdte addr) ∨ pageFrame (makePdte addr) ≥ 2 ^ 32) ∧
      (pageFrame (makePdte addr)).toUInt32 = addr := by
  have bound := addr.toNat_lt
  have frame : pageFrame (makePdte addr) = addr.toUInt64 := by
    apply UInt64.toNat_inj.mp
    rw [toNat_pageFrame_makePdte, UInt32.toNat_toUInt64]
    omega
  rw [frame]
  refine ⟨not_or.mpr ⟨not_not.mpr (present_makePdte addr), ?_⟩, UInt32.toUInt32_toUInt64 addr⟩
  rw [ge_iff_le, UInt64.not_le, UInt64.lt_iff_toNat_lt, UInt32.toNat_toUInt64]
  exact bound

theorem not_present_zero : ¬ Present 0 := by
  decide

end Entries

section Slots

variable {base : UInt32} {mem : Mem} {entries : Nat → UInt64}

/-- The entries of the three pages, counted from the first one on. -/
def slotAddr (base : UInt32) (j : Nat) : UInt32 :=
  base + UInt32.ofNat (8 * j)

def TableEntries (base : UInt32) (mem : Mem) (entries : Nat → UInt64) : Prop :=
  ∀ j < 1536, word64 mem (slotAddr base j) 0 = entries j

theorem distance_slot (base : UInt32) {i j : Nat} (first : i < 1536) (second : j < 1536)
    (other : j ≠ i) :
    8 ≤ distance (slotAddr base i) (slotAddr base j) ∧
      distance (slotAddr base i) (slotAddr base j) + 8 ≤ 2 ^ 32 := by
  have bound := base.toNat_lt
  have here {k : Nat} (small : k < 1536) :
      (slotAddr base k).toNat = (base.toNat + 8 * k) % 2 ^ 32 := by
    rw [slotAddr, UInt32.toNat_add, UInt32.toNat_ofNat_of_lt' (by simp only [UInt32.size]; omega)]
  rw [distance, here first, here second]
  omega

/-- The machine after a quadword is stored. -/
def HeapMachine.storing (m : HeapMachine) (addr : UInt32) (quad : UInt64) : HeapMachine :=
  { m with
    mem := storeFrom m.mem addr 8 fun i => (quadBytes quad).getD i 0
    writes := ⟨addr, 8⟩ :: m.writes }

theorem heapStoreQuad_run (addr : UInt32) (quad : UInt64) (m : HeapMachine) :
    heapStoreQuad addr quad m = .ok () (m.storing addr quad) :=
  rfl

theorem TableEntries.store {m : HeapMachine} (tables : TableEntries base m.mem entries) {i : Nat}
    (small : i < 1536) (entry : UInt64) :
    TableEntries base (m.storing (slotAddr base i) entry).mem
      (Function.update entries i entry) := by
  intro j inside
  by_cases same : j = i
  · rw [same, Function.update_self]
    exact word64_storeFrom_self entry
  · obtain ⟨behind, before⟩ := distance_slot base small inside same
    rw [Function.update_of_ne same, ← tables j inside]
    exact word64_storeFrom_outside behind before

theorem TableEntries.clear (below : base.toNat + 3 * 4096 ≤ 2 ^ 32) :
    TableEntries base (storeFrom mem base (3 * 4096) fun _ => 0) fun _ => 0 := by
  intro j inside
  have start : (slotAddr base j).toNat = base.toNat + 8 * j := by
    rw [slotAddr, UInt32.toNat_add, UInt32.toNat_ofNat_of_lt' (by simp only [UInt32.size]; omega),
      Nat.mod_eq_of_lt (by omega)]
  have zero : word64 (fun _ => 0) (slotAddr base j) 0 = 0 := by
    have half (i : Nat) : word32 (fun _ => 0) (slotAddr base j) i = 0 := by
      rw [word32, load32, show read (flat fun _ => 0) ((slotAddr base j).toNat + i) 4 =
        [0, 0, 0, 0] from rfl]
      decide
    rw [word64, half, half]
    decide
  rw [← zero]
  apply word64_congr
  intro i small
  have place : distance base (slotAddr base j) = 8 * j := by
    have bound := base.toNat_lt
    rw [distance, start]
    omega
  rw [flat_storeFrom_inside (by omega) (by omega)]
  rfl

end Slots

section Filling

variable {base mleStart mleSize : UInt32}

/-- The number of pages of the measured environment, but at least one. -/
def mlePages (mleSize : UInt32) : Nat :=
  max 1 ((mleSize.toNat + 4095) / 4096)

/-- One more entry is filled. -/
theorem filled_succ {count k : Nat} (inside : k < count) (entry entries : Nat → UInt64) (j : Nat) :
    (if 1024 + (k + 1) ≤ j ∧ j < 1024 + count then entry (j - 1024)
        else Function.update entries (1024 + k) (entry k) j) =
      if 1024 + k ≤ j ∧ j < 1024 + count then entry (j - 1024) else entries j := by
  by_cases here : j = 1024 + k
  · rw [if_neg (by omega), if_pos (by omega), here, Function.update_self,
      Nat.add_sub_cancel_left]
  · rw [Function.update_of_ne here]
    by_cases later : 1024 + k ≤ j ∧ j < 1024 + count
    · rw [if_pos (by omega), if_pos later]
    · rw [if_neg (by omega), if_neg later]

/-- From the entry `k` on, the loop fills an entry for each page that is left. -/
theorem pteLoop_runs (small : mleSize.toNat ≤ 512 * 4096) {fuel k : Nat} {m : HeapMachine}
    {entries : Nat → UInt64} (room : k + fuel = 512) (left : k < mlePages mleSize)
    (tables : TableEntries base m.mem entries) :
    ∃ reached,
      pteLoop mleStart mleSize fuel (slotAddr base (1024 + k)) (UInt32.ofNat (4096 * k)) m =
        .ok () reached ∧
      TableEntries base reached.mem fun j =>
        if 1024 + k ≤ j ∧ j < 1024 + mlePages mleSize then
          makePdte (mleStart + UInt32.ofNat (4096 * (j - 1024)))
        else entries j := by
  have count : mlePages mleSize ≤ 512 := by
    rw [mlePages]
    omega
  induction fuel generalizing k m entries with
  | zero => omega
  | succ fuel ih =>
      have stored := tables.store (show 1024 + k < 1536 by omega)
        (makePdte (mleStart + UInt32.ofNat (4096 * k)))
      have offset : UInt32.ofNat (4096 * k) + 4096 = UInt32.ofNat (4096 * (k + 1)) := by
        rw [Nat.mul_add_one, UInt32.ofNat_add]
        rfl
      have pte : slotAddr base (1024 + k) + 8 = slotAddr base (1024 + (k + 1)) := by
        rw [slotAddr, slotAddr, ← Nat.add_assoc, Nat.mul_add_one, UInt32.ofNat_add,
          ← UInt32.add_assoc]
        rfl
      have more : UInt32.ofNat (4096 * (k + 1)) < mleSize ↔ k + 1 < mlePages mleSize := by
        rw [UInt32.lt_iff_toNat_lt, UInt32.toNat_ofNat_of_lt' (by simp only [UInt32.size]; omega),
          mlePages]
        omega
      rw [pteLoop, Prog.bind_ok (heapStoreQuad_run _ _ m), offset, pte]
      by_cases next : k + 1 < mlePages mleSize
      · rw [if_pos (more.mpr next)]
        obtain ⟨reached, runs, filled⟩ := ih (m := m.storing _ _) (by omega) next stored
        refine ⟨reached, runs, fun j inside => ?_⟩
        rw [filled j inside]
        exact filled_succ left (fun i => makePdte (mleStart + UInt32.ofNat (4096 * i))) entries j
      · rw [if_neg (mt more.mp next)]
        refine ⟨_, rfl, fun j inside => ?_⟩
        have last := filled_succ left (fun i => makePdte (mleStart + UInt32.ofNat (4096 * i)))
          entries j
        rw [if_neg (by omega)] at last
        rw [stored j inside]
        exact last

end Filling

section Pages

variable {gMlePt mleStart mleSize : UInt32}

/-- The entries that `build_mle_pagetable` leaves in the three pages. -/
def mleEntries (gMlePt mleStart mleSize : UInt32) (j : Nat) : UInt64 :=
  if 1024 ≤ j ∧ j < 1024 + mlePages mleSize then
    makePdte (mleStart + UInt32.ofNat (4096 * (j - 1024)))
  else if j = 512 then makePdte (gMlePt + 8192)
  else if j = 0 then makePdte (gMlePt + 4096) else 0

theorem buildMlePagetable_entries (below : gMlePt.toNat + 3 * 4096 ≤ 2 ^ 32)
    (aligned : mleStart.toNat % 4096 = 0) (small : mleSize.toNat ≤ 512 * 4096)
    (m : HeapMachine) :
    ∃ reached, buildMlePagetable gMlePt mleStart mleSize m = .ok gMlePt reached ∧
      TableEntries gMlePt reached.mem (mleEntries gMlePt mleStart mleSize) := by
  have start : ¬ mleStart &&& 0xfff ≠ 0 := by
    refine not_not.mpr (UInt32.toNat_inj.mp ?_)
    rw [UInt32.toNat_and]
    exact (Nat.and_two_pow_sub_one_eq_mod mleStart.toNat 12).trans aligned
  have size : ¬ mleSize > 512 * 4096 := by
    rw [gt_iff_lt, UInt32.not_lt, UInt32.le_iff_toNat_le]
    exact small
  have root : slotAddr gMlePt 0 = gMlePt := UInt32.add_zero gMlePt
  have second : gMlePt + 4096 + 4096 = gMlePt + 8192 := UInt32.add_assoc gMlePt 4096 4096
  let cleared : HeapMachine :=
    { m with
      mem := storeFrom m.mem gMlePt (3 * 4096) fun _ => 0
      writes := ⟨gMlePt, 3 * 4096⟩ :: m.writes }
  have clears : heapClear gMlePt (3 * 4096) m = .ok () cleared := rfl
  have tables : TableEntries gMlePt cleared.mem fun _ => 0 := .clear below
  have linked := (tables.store (i := 0) (by decide) (makePdte (gMlePt + 4096))).store (i := 512)
    (by decide) (makePdte (gMlePt + 8192))
  rw [root] at linked
  obtain ⟨reached, runs, filled⟩ := @pteLoop_runs gMlePt mleStart mleSize small 512 0 _ _ rfl
    (Nat.lt_of_lt_of_le Nat.zero_lt_one (Nat.le_max_left _ _)) linked
  refine ⟨reached, ?_, fun j inside => ?_⟩
  · rw [buildMlePagetable, if_neg size, if_neg start, Prog.bind_ok clears,
      Prog.bind_ok (heapStoreQuad_run _ _ _), Prog.bind_ok (heapStoreQuad_run _ _ _), second]
    exact Prog.bind_ok runs _
  · rw [filled j inside]
    dsimp only [Nat.add_zero, mleEntries]
    by_cases last : 1024 ≤ j ∧ j < 1024 + mlePages mleSize
    · rw [if_pos last, if_pos last]
    · rw [if_neg last, if_neg last]
      by_cases directory : j = 512
      · rw [if_pos directory, directory, Function.update_self]
      · rw [if_neg directory, Function.update_of_ne directory]
        by_cases first : j = 0
        · rw [if_pos first, first, Function.update_self]
        · rw [if_neg first, Function.update_of_ne first]

/-- The three tables are 512 entries apart. -/
theorem pageEntry_slot (mem : Mem) (base : UInt32) (first i : Nat) :
    pageEntry mem (slotAddr base first) i = word64 mem (slotAddr base (first + i)) 0 := by
  rw [pageEntry, slotAddr, slotAddr, UInt32.add_assoc, ← UInt32.ofNat_add, Nat.mul_add]

/-- SINIT finds every page of the measured environment at its place, and no other page. -/
theorem buildMlePagetable_maps (nonNull : gMlePt ≠ 0) (tables : gMlePt.toNat % 4096 = 0)
    (below : gMlePt.toNat + 3 * 4096 ≤ 2 ^ 32) (aligned : mleStart.toNat % 4096 = 0)
    (small : mleSize.toNat ≤ 512 * 4096) (whole : mleStart.toNat + mleSize.toNat ≤ 2 ^ 32)
    (m : HeapMachine) :
    ∃ ptab reached, buildMlePagetable gMlePt mleStart mleSize m = .ok ptab reached ∧ ptab ≠ 0 ∧
      (∀ off < mleSize.toNat, walkTables reached.mem ptab off = some (mleStart.toNat + off)) ∧
      (∀ i < mlePages mleSize,
        (pageFrame (pageEntry reached.mem (ptab + 8192) i)).toNat = mleStart.toNat + 4096 * i) ∧
      ∀ i < 512, (Present (pageEntry reached.mem ptab i) ↔ i = 0) ∧
        (Present (pageEntry reached.mem (ptab + 4096) i) ↔ i = 0) ∧
        (Present (pageEntry reached.mem (ptab + 8192) i) ↔ i < mlePages mleSize) := by
  obtain ⟨reached, runs, entries⟩ := buildMlePagetable_entries below aligned small m
  have count : mlePages mleSize ≤ 512 := by
    rw [mlePages]
    omega
  have root : slotAddr gMlePt 0 = gMlePt := UInt32.add_zero gMlePt
  have pointers {i : Nat} (inside : i < 512) : pageEntry reached.mem gMlePt i =
      if i = 0 then makePdte (gMlePt + 4096) else 0 := by
    have slot := pageEntry_slot reached.mem gMlePt 0 i
    rw [root, Nat.zero_add, entries i (by omega), mleEntries, if_neg (by omega),
      if_neg (by omega)] at slot
    exact slot
  have directory {i : Nat} (inside : i < 512) : pageEntry reached.mem (gMlePt + 4096) i =
      if i = 0 then makePdte (gMlePt + 8192) else 0 := by
    have slot := pageEntry_slot reached.mem gMlePt 512 i
    rw [entries (512 + i) (by omega), mleEntries, if_neg (by omega)] at slot
    refine slot.trans ?_
    by_cases first : i = 0
    · rw [if_pos (by omega), if_pos first]
    · rw [if_neg (by omega), if_neg (by omega), if_neg first]
  have table {i : Nat} (inside : i < 512) : pageEntry reached.mem (gMlePt + 8192) i =
      if i < mlePages mleSize then makePdte (mleStart + UInt32.ofNat (4096 * i)) else 0 := by
    have slot := pageEntry_slot reached.mem gMlePt 1024 i
    rw [entries (1024 + i) (by omega), mleEntries, Nat.add_sub_cancel_left] at slot
    refine slot.trans ?_
    by_cases filled : i < mlePages mleSize
    · rw [if_pos (by omega), if_pos filled]
    · rw [if_neg (by omega), if_neg (by omega), if_neg (by omega), if_neg filled]
  have address {i : Nat} (inside : i < mlePages mleSize) :
      (mleStart + UInt32.ofNat (4096 * i)).toNat = mleStart.toNat + 4096 * i := by
    have bound := mleStart.toNat_lt
    rw [mlePages] at inside
    rw [UInt32.toNat_add, UInt32.toNat_ofNat_of_lt' (by simp only [UInt32.size]; omega),
      Nat.mod_eq_of_lt (by omega)]
  have frame {i : Nat} (inside : i < mlePages mleSize) :
      (pageFrame (pageEntry reached.mem (gMlePt + 8192) i)).toNat = mleStart.toNat + 4096 * i := by
    rw [table (by omega), if_pos inside, toNat_pageFrame_makePdte, address inside]
    omega
  refine ⟨gMlePt, reached, runs, nonNull, fun off inside => ?_, fun i inside => frame inside,
    fun i inside => ⟨?_, ?_, ?_⟩⟩
  · have first : off / 2 ^ 30 % 4 = 0 := by omega
    have second : off / 2 ^ 21 % 512 = 0 := by omega
    have third : off / 2 ^ 12 % 512 = off / 4096 := by omega
    have page : off / 4096 < mlePages mleSize := by
      rw [mlePages]
      omega
    have present : Present (pageEntry reached.mem (gMlePt + 8192) (off / 4096)) := by
      rw [table (by omega), if_pos page]
      exact present_makePdte _
    obtain ⟨directoryFound, directoryAddr⟩ := pageFrame_makePdte (gMlePt + 4096) (by
      rw [UInt32.toNat_add, show (4096 : UInt32).toNat = 4096 from rfl]
      omega)
    obtain ⟨tableFound, tableAddr⟩ := pageFrame_makePdte (gMlePt + 8192) (by
      rw [UInt32.toNat_add, show (8192 : UInt32).toNat = 8192 from rfl]
      omega)
    rw [walkTables, first, second, third, pointers (by decide), if_pos rfl]
    dsimp only
    rw [if_neg directoryFound, directoryAddr, directory (by decide), if_pos rfl,
      if_neg tableFound, tableAddr, if_neg (not_not.mpr present), frame page]
    congr 1
    omega
  · rw [pointers inside]
    by_cases first : i = 0
    · rw [if_pos first]
      exact iff_of_true (present_makePdte _) first
    · rw [if_neg first]
      exact iff_of_false not_present_zero first
  · rw [directory inside]
    by_cases first : i = 0
    · rw [if_pos first]
      exact iff_of_true (present_makePdte _) first
    · rw [if_neg first]
      exact iff_of_false not_present_zero first
  · rw [table inside]
    by_cases filled : i < mlePages mleSize
    · rw [if_pos filled]
      exact iff_of_true (present_makePdte _) filled
    · rw [if_neg filled]
      exact iff_of_false not_present_zero filled

/-- An environment of three pages and one byte. -/
theorem buildMlePagetable_maps_four :
    ∃ ptab reached, buildMlePagetable 0x102000 0x200000 0x3001 (.start fun _ => 0) =
        .ok ptab reached ∧ ptab ≠ 0 ∧
      (∀ off < (0x3001 : UInt32).toNat, walkTables reached.mem ptab off =
        some ((0x200000 : UInt32).toNat + off)) ∧
      (∀ i < mlePages 0x3001,
        (pageFrame (pageEntry reached.mem (ptab + 8192) i)).toNat =
          (0x200000 : UInt32).toNat + 4096 * i) ∧
      ∀ i < 512, (Present (pageEntry reached.mem ptab i) ↔ i = 0) ∧
        (Present (pageEntry reached.mem (ptab + 4096) i) ↔ i = 0) ∧
        (Present (pageEntry reached.mem (ptab + 8192) i) ↔ i < mlePages 0x3001) :=
  buildMlePagetable_maps (by decide) (by decide) (by decide) (by decide) (by decide) (by decide) _

example : mlePages 0x3001 = 4 := by
  decide

end Pages

end Sable
