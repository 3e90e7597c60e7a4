import Mathlib.Data.List.TakeWhile
import Mathlib.Order.Bounds.Basic
import Sable.KernelPartition

/-!
# The end of the loader context

`get_mbi_mem_end_mb1` takes the latest end of everything that the multiboot information refers
to and rounds it up to a page.  A relocatable kernel is put behind it, so that the kernel spares
what the boot still needs.
-/

namespace Sable

open ByteMemory BigEndian HaltingProgram

namespace Access

/-- The address behind the last byte. -/
def stop (part : Access) : Nat :=
  part.addr.toNat + part.len

/-- The part ends before the last page of the address space. -/
def Fits (part : Access) : Prop :=
  part.stop + 0x1000 ≤ 2 ^ 32

instance decidableFits : DecidablePred Fits :=
  fun _ => inferInstanceAs (Decidable (_ ≤ _))

end Access

section Parts

variable (mem : Mem) (mbi : UInt32)

/-- What is only there with a flag. -/
def presentParts (flag : UInt32) (parts : Set Access) : Set Access :=
  {part | word32 mem mbi 0 &&& flag ≠ 0 ∧ part ∈ parts}

/-- A string with its last byte. -/
def stringParts (ptr : UInt32) : Set Access :=
  {part | ∃ string, cstring mem ptr = some string ∧ part = ⟨ptr, string.length + 1⟩}

/-- The string of the `i`-th module. -/
def moduleString (i : Nat) : UInt32 :=
  word32 mem (word32 mem mbi 24 + UInt32.ofNat (16 * i)) 8

/-- The list of the modules and the strings of the modules. -/
def moduleParts : Set Access :=
  {⟨word32 mem mbi 24, (word32 mem mbi 20).toNat * 16⟩} ∪
    {part | ∃ i ∈ List.range (word32 mem mbi 20).toNat,
      part ∈ stringParts mem (moduleString mem mbi i)}

/-- The multiboot information and everything that it refers to. -/
def contextParts : Set Access :=
  {⟨mbi, 88⟩} ∪
  presentParts mem mbi mbiFlagCmdline (stringParts mem (word32 mem mbi 16)) ∪
  presentParts mem mbi mbiFlagMods (moduleParts mem mbi) ∪
  presentParts mem mbi mbiFlagAout
    {⟨word32 mem mbi 36, (word32 mem mbi 28).toNat + 4 + (word32 mem mbi 32).toNat⟩} ∪
  presentParts mem mbi mbiFlagElf
    {⟨word32 mem mbi 36, (word32 mem mbi 28).toNat * (word32 mem mbi 32).toNat⟩} ∪
  presentParts mem mbi mbiFlagMemmap {⟨word32 mem mbi 48, (word32 mem mbi 44).toNat⟩} ∪
  presentParts mem mbi mbiFlagDrives {⟨word32 mem mbi 56, (word32 mem mbi 52).toNat⟩} ∪
  presentParts mem mbi mbiFlagBtldname (stringParts mem (word32 mem mbi 64)) ∪
  presentParts mem mbi mbiFlagApm {⟨word32 mem mbi 68, 20⟩} ∪
  presentParts mem mbi mbiFlagVbe {⟨word32 mem mbi 72, 512⟩, ⟨word32 mem mbi 76, 256⟩}

end Parts

section Ends

variable {mem : Mem} {mbi flag last next stop : UInt32} {parts more : Set Access}

/-- If the parts fit, the address is the latest of their ends. -/
def LatestEnd (parts : Set Access) (last : UInt32) : Prop :=
  (∀ part ∈ parts, part.Fits) → IsLUB (Access.stop '' parts) last.toNat

theorem toNat_max (first second : UInt32) :
    (max first second).toNat = max first.toNat second.toNat := by
  change (if first ≤ second then second else first).toNat = _
  by_cases order : first ≤ second
  · rw [if_pos order, Nat.max_eq_right (UInt32.le_iff_toNat_le.mp order)]
  · have less := UInt32.lt_iff_toNat_lt.mp (UInt32.not_le.mp order)
    rw [if_neg order, Nat.max_eq_left (Nat.le_of_lt less)]

theorem LatestEnd.union (first : LatestEnd parts last) (second : LatestEnd more next) :
    LatestEnd (parts ∪ more) (max last next) := by
  intro fits
  rw [Set.image_union, toNat_max]
  exact (first fun part inside => fits part (.inl inside)).union
    (second fun part inside => fits part (.inr inside))

theorem latestEnd_single {addr : UInt32} {len : Nat}
    (same : stop.toNat = (addr.toNat + len) % 2 ^ 32) : LatestEnd {⟨addr, len⟩} stop := by
  intro fits
  have room : addr.toNat + len + 0x1000 ≤ 2 ^ 32 := fits _ rfl
  have value : stop.toNat = addr.toNat + len := by omega
  rw [Set.image_singleton, value]
  exact isLUB_singleton

theorem latestEnd_add (addr len : UInt32) : LatestEnd {⟨addr, len.toNat⟩} (addr + len) :=
  latestEnd_single (UInt32.toNat_add addr len)

theorem latestEnd_string {ptr : UInt32} (run : stringEnd mem ptr = some stop) :
    LatestEnd (stringParts mem ptr) stop := by
  obtain ⟨string, found, rfl⟩ := Option.map_eq_some_iff.mp run
  have only : stringParts mem ptr = {⟨ptr, string.length + 1⟩} := by
    ext part
    simp [stringParts, found]
  rw [only]
  apply latestEnd_single
  rw [UInt32.toNat_add, UInt32.toNat_add, UInt32.toNat_ofNat']
  change (_ + 1) % _ = _
  omega

/-- The loop over the strings of the modules. -/
theorem latestEnd_strings {indices : List Nat}
    (run : indices.foldlM (fun last i =>
      (stringEnd mem (moduleString mem mbi i)).map (max last)) last = some next)
    (before : LatestEnd parts last) :
    LatestEnd (parts ∪ {part | ∃ i ∈ indices, part ∈ stringParts mem (moduleString mem mbi i)})
      next := by
  induction indices generalizing last parts with
  | nil =>
      obtain rfl := Option.some.inj run
      simpa using before
  | cons i indices ih =>
      rw [List.foldlM_cons] at run
      obtain ⟨between, found, rest⟩ := Option.bind_eq_some_iff.mp run
      obtain ⟨stop, string, rfl⟩ := Option.map_eq_some_iff.mp found
      have strings := ih rest (before.union (latestEnd_string string))
      rw [Set.union_assoc] at strings
      simpa [Set.ofPred_or, or_and_right, exists_or] using strings

/-- The strings of a list that is not at the address zero and does not reach the end of the
address space are all looked at. -/
theorem latestEnd_modules (listed : word32 mem mbi 24 ≠ 0)
    (run : modulesEnd mem mbi = some stop) : LatestEnd (moduleParts mem mbi) stop := by
  intro fits
  have room : (word32 mem mbi 24).toNat + (word32 mem mbi 20).toNat * 16 + 0x1000 ≤ 2 ^ 32 :=
    fits _ (.inl rfl)
  have all : ((List.range (word32 mem mbi 20).toNat).takeWhile fun i =>
      word32 mem mbi 24 + UInt32.ofNat (16 * i) ≠ 0) = List.range (word32 mem mbi 20).toNat := by
    rw [List.takeWhile_eq_self_iff]
    intro i inside
    have less := List.mem_range.mp inside
    have positive : (word32 mem mbi 24).toNat ≠ 0 := fun zero =>
      listed (UInt32.toNat_inj.mp zero)
    have place : (word32 mem mbi 24 + UInt32.ofNat (16 * i)).toNat =
        (word32 mem mbi 24).toNat + 16 * i := by
      rw [UInt32.toNat_add, UInt32.toNat_ofNat']
      omega
    refine decide_eq_true fun zero => ?_
    rw [zero] at place
    change 0 = _ at place
    omega
  rw [modulesEnd, all] at run
  refine latestEnd_strings run (latestEnd_single ?_) fits
  rw [UInt32.toNat_add, UInt32.toNat_mul, Nat.add_mod_mod]
  rfl

/-- What is present with a flag is taken into account. -/
theorem LatestEnd.later {bound : Option UInt32} (before : LatestEnd parts last)
    (run : laterEnd mem mbi flag bound last = some next)
    (here : word32 mem mbi 0 &&& flag ≠ 0 → ∀ stop, bound = some stop → LatestEnd more stop) :
    LatestEnd (parts ∪ presentParts mem mbi flag more) next := by
  by_cases present : word32 mem mbi 0 &&& flag ≠ 0
  · rw [laterEnd, if_pos present] at run
    obtain ⟨stop, found, rfl⟩ := Option.map_eq_some_iff.mp run
    have all : presentParts mem mbi flag more = more :=
      Set.ext fun part => and_iff_right present
    rw [all]
    exact before.union (here present stop found)
  · rw [laterEnd, if_neg present] at run
    obtain rfl := Option.some.inj run
    have none : presentParts mem mbi flag more = ∅ :=
      Set.eq_empty_of_forall_notMem fun part both => present both.1
    rw [none, Set.union_empty]
    exact before

theorem LatestEnd.laterAt (before : LatestEnd parts last)
    (run : laterEnd mem mbi flag (some stop) last = some next) (here : LatestEnd more stop) :
    LatestEnd (parts ∪ presentParts mem mbi flag more) next :=
  before.later run fun _ _ same => Option.some.inj same ▸ here

theorem latestEnd_aout (addr tabsize strsize : UInt32) :
    LatestEnd {⟨addr, tabsize.toNat + 4 + strsize.toNat⟩} (addr + tabsize + 4 + strsize) := by
  apply latestEnd_single
  simp only [UInt32.toNat_add, UInt32.reduceToNat]
  omega

theorem latestEnd_elf (addr num size : UInt32) :
    LatestEnd {⟨addr, num.toNat * size.toNat⟩} (addr + num * size) := by
  apply latestEnd_single
  rw [UInt32.toNat_add, UInt32.toNat_mul, Nat.add_mod_mod]

/-- The end before it is rounded. -/
theorem latestEnd_context (run : getMbiMemEnd mem mbi = some stop)
    (listed : word32 mem mbi 0 &&& mbiFlagMods ≠ 0 → word32 mem mbi 24 ≠ 0) :
    ∃ last, stop = pageUp last ∧ LatestEnd (contextParts mem mbi) last := by
  obtain ⟨last, cmdline, run⟩ := Option.bind_eq_some_iff.mp run
  obtain ⟨last, mods, run⟩ := Option.bind_eq_some_iff.mp run
  obtain ⟨last, aout, run⟩ := Option.bind_eq_some_iff.mp run
  obtain ⟨last, elf, run⟩ := Option.bind_eq_some_iff.mp run
  obtain ⟨last, memmap, run⟩ := Option.bind_eq_some_iff.mp run
  obtain ⟨last, drives, run⟩ := Option.bind_eq_some_iff.mp run
  obtain ⟨last, name, run⟩ := Option.bind_eq_some_iff.mp run
  obtain ⟨last, apm, run⟩ := Option.bind_eq_some_iff.mp run
  obtain ⟨last, vbe, run⟩ := Option.bind_eq_some_iff.mp run
  have ends := (latestEnd_add mbi 88).later cmdline fun _ _ => latestEnd_string
  have ends := ends.later mods fun present _ => latestEnd_modules (listed present)
  have ends := ends.laterAt aout (latestEnd_aout _ _ _)
  have ends := ends.laterAt elf (latestEnd_elf _ _ _)
  have ends := ends.laterAt memmap (latestEnd_add _ _)
  have ends := ends.laterAt drives (latestEnd_add _ _)
  have ends := ends.later name fun _ _ => latestEnd_string
  have ends := ends.laterAt apm (latestEnd_add _ _)
  exact ⟨last, (Option.some.inj run).symm,
    ends.laterAt vbe ((latestEnd_add _ 512).union (latestEnd_add _ 256))⟩

end Ends

section Rounded

variable {mem : Mem} {mbi last stop : UInt32} {parts : Set Access}

theorem roundUp_isLeast {start alignment : Nat} (positive : 0 < alignment) :
    IsLeast {n | alignment ∣ n ∧ start ≤ n} (roundUp start alignment) := by
  have division := Nat.div_add_mod (start + alignment - 1) alignment
  have rest := Nat.mod_lt (start + alignment - 1) positive
  rw [Nat.mul_comm] at division
  refine ⟨⟨Nat.dvd_mul_left _ _, by rw [roundUp]; omega⟩, ?_⟩
  rintro n ⟨⟨q, rfl⟩, later⟩
  have quotient : (start + alignment - 1) / alignment < q + 1 := by
    rw [Nat.div_lt_iff_lt_mul positive, Nat.mul_comm, Nat.mul_add_one]
    omega
  rw [roundUp, Nat.mul_comm]
  exact Nat.mul_le_mul_left alignment (Nat.le_of_lt_succ quotient)

theorem toNat_pageUp (room : last.toNat + 0x1000 ≤ 2 ^ 32) :
    (pageUp last).toNat = roundUp last.toNat 0x1000 := by
  have bounded : plusOverflow last (0x1000 - 1) = false := by
    apply plusOverflow_eq_false.mpr
    change last.toNat + 0xFFF < 2 ^ 32
    omega
  exact (rounded_iff bounded).2.2 (roundsUp_two_pow _ 12)

/-- The first page boundary behind all parts is the one behind the latest end. -/
theorem LatestEnd.pageUp_isLeast (ends : LatestEnd parts last)
    (fits : ∀ part ∈ parts, part.Fits) :
    IsLeast {n | 0x1000 ∣ n ∧ ∀ part ∈ parts, part.stop ≤ n} (pageUp last).toNat := by
  have latest := ends fits
  have bounds (n : Nat) : last.toNat ≤ n ↔ ∀ part ∈ parts, part.stop ≤ n := by
    rw [isLUB_le_iff latest, mem_upperBounds, Set.forall_mem_image]
  have room : last.toNat ≤ 2 ^ 32 - 0x1000 := by
    rw [bounds]
    intro part inside
    have stops := fits part inside
    rw [Access.Fits] at stops
    omega
  rw [toNat_pageUp (by omega)]
  simp only [← bounds]
  exact roundUp_isLeast (by decide)

/-- The end is the first page boundary behind all parts. -/
theorem getMbiMemEnd_isLeast (run : getMbiMemEnd mem mbi = some stop)
    (listed : word32 mem mbi 0 &&& mbiFlagMods ≠ 0 → word32 mem mbi 24 ≠ 0)
    (fits : ∀ part ∈ contextParts mem mbi, part.Fits) :
    IsLeast {n | 0x1000 ∣ n ∧ ∀ part ∈ contextParts mem mbi, part.stop ≤ n} stop.toNat := by
  obtain ⟨last, rfl, ends⟩ := latestEnd_context run listed
  exact ends.pageUp_isLeast fits

end Rounded

section Relocated

variable {globals : LinuxGlobals} {args : LinuxArgs} {mem : Mem} {placement : KernelPlacement}
  {ready placed : LinuxMachine}

end Relocated

section Mapped

theorem contextParts_memmap {mem : Mem} {mbi : UInt32} (flags : word32 mem mbi 0 = 0x40) :
    contextParts mem mbi =
      {⟨mbi, 88⟩, ⟨word32 mem mbi 48, (word32 mem mbi 44).toNat⟩} := by
  have absent (parts : Set Access) (flag : UInt32) (none : (0x40 : UInt32) &&& flag = 0) :
      presentParts mem mbi flag parts = ∅ :=
    Set.eq_empty_of_forall_notMem fun part both => both.1 (flags.symm ▸ none)
  have present (parts : Set Access) : presentParts mem mbi mbiFlagMemmap parts = parts :=
    Set.ext fun part => and_iff_right (flags.symm ▸ by decide)
  rw [contextParts, present, absent _ mbiFlagCmdline (by decide),
    absent _ mbiFlagMods (by decide), absent _ mbiFlagAout (by decide),
    absent _ mbiFlagElf (by decide), absent _ mbiFlagDrives (by decide),
    absent _ mbiFlagBtldname (by decide), absent _ mbiFlagApm (by decide),
    absent _ mbiFlagVbe (by decide)]
  simp only [Set.union_empty, Set.singleton_union]

/-- A kernel in memory, and a memory map of one entry above the loader. -/
def contextMemory : Mem :=
  write (linuxMemory 4 1 0x7FFFFFFF 0x1000) 0x9000
    (le32 0x40 ++ List.replicate 40 0 ++ le32 24 ++ le32 0x2000000)

theorem contextMemory_parts {mem : Mem} (flags : word32 mem 0x9000 0 = 0x40)
    (length : word32 mem 0x9000 44 = 24) (addr : word32 mem 0x9000 48 = 0x2000000) :
    contextParts mem 0x9000 = {⟨0x9000, 88⟩, ⟨0x2000000, 24⟩} ∧
      ∀ part ∈ contextParts mem 0x9000, part.Fits := by
  have parts : contextParts mem 0x9000 = {⟨0x9000, 88⟩, ⟨0x2000000, 24⟩} := by
    rw [contextParts_memmap flags, length, addr]
    rfl
  refine ⟨parts, ?_⟩
  rw [parts]
  rintro part (rfl | rfl)
  · decide
  · decide

theorem getMbiMemEnd_isLeast_mapped :
    getMbiMemEnd contextMemory 0x9000 = some 0x2001000 ∧
      IsLeast {n | 0x1000 ∣ n ∧ ∀ part ∈ contextParts contextMemory 0x9000, part.stop ≤ n}
        0x2001000 := by
  have run : getMbiMemEnd contextMemory 0x9000 = some 0x2001000 := by
    decide +kernel
  have parts := @contextMemory_parts contextMemory (by decide) (by decide) (by decide)
  exact ⟨run, getMbiMemEnd_isLeast run (by decide) parts.2⟩

end Mapped

end Sable
