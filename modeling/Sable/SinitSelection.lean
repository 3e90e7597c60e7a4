import Sable.SinitAcm

/-!
# The module that `prepare_sinit_acm` selects

A module that passes the checks at its place passes them also at the place it is
copied to, as long as the copy does not wrap around the end of the address space.
The selection is safe in every run of calls that never copies a module which
failed the checks and never asks again after `verify_acmod` failed.
-/

namespace Sable

open ByteMemory HaltingProgram

section Overflow

theorem plusOverflow_eq_false {x y : UInt32} :
    plusOverflow x y = false ↔ x.toNat + y.toNat < 2 ^ 32 := by
  have size := x.toNat_lt
  have rest : ((0xffffffff : UInt32) - x).toNat = 2 ^ 32 - 1 - x.toNat :=
    UInt32.toNat_sub_of_le _ _ (by rw [UInt32.le_iff_toNat_le]; exact Nat.le_of_lt_succ size)
  rw [plusOverflow, decide_eq_false_iff_not, UInt32.lt_iff_toNat_lt, rest]
  omega

theorem multiplyOverflow_eq_false {x y : UInt32} :
    multiplyOverflow x y = false ↔ x.toNat * y.toNat < 2 ^ 32 := by
  rw [multiplyOverflow]
  by_cases positive : x > 0
  · have nonzero : 0 < x.toNat := positive
    rw [if_pos positive, decide_eq_false_iff_not, UInt32.not_lt, UInt32.le_iff_toNat_le,
      UInt32.toNat_div, Nat.le_div_iff_mul_le nonzero, Nat.mul_comm]
    have limit : (0xffffffff : UInt32).toNat = 2 ^ 32 - 1 := rfl
    omega
  · have zero : x.toNat = 0 := Nat.eq_zero_of_not_pos positive
    rw [if_neg positive, zero, Nat.zero_mul]
    simp

end Overflow

/-- The first `length` bytes at two places are the same. -/
def SameImage (mem : Mem) (src : UInt32) (other : Mem) (dst : UInt32) (length : Nat) : Prop :=
  ∀ offset < length, word8 other dst offset = word8 mem src offset

theorem copyBytes_image (mem : Mem) (dst src : UInt32) {length : Nat}
    (small : length ≤ 2 ^ 32) :
    SameImage mem src (copyBytes mem dst src length) dst length := by
  intro offset inside
  have size := dst.toNat_lt
  have place : ((dst.toNat + offset) % 2 ^ 32 + 2 ^ 32 - dst.toNat) % 2 ^ 32 = offset := by
    omega
  simp only [word8, flat, copyBytes, place]
  rw [if_pos inside]

namespace SameImage

variable {mem other : Mem} {src dst : UInt32} {length offset : Nat}

theorem read (image : SameImage mem src other dst length) {count : Nat}
    (inside : offset + count ≤ length) :
    ByteMemory.read (flat other) (dst.toNat + offset) count =
      ByteMemory.read (flat mem) (src.toNat + offset) count := by
  apply List.map_congr_left
  intro k member
  have bounded : k < count := List.mem_range.mp member
  rw [Nat.add_assoc, Nat.add_assoc]
  exact image (offset + k) (by omega)

theorem word16 (image : SameImage mem src other dst length) (inside : offset + 2 ≤ length) :
    word16 other dst offset = word16 mem src offset := by
  rw [Sable.word16, Sable.word16, image offset (by omega), image (offset + 1) (by omega)]

theorem word32 (image : SameImage mem src other dst length) (inside : offset + 4 ≤ length) :
    word32 other dst offset = word32 mem src offset := by
  rw [Sable.word32, Sable.word32, load32, load32, image.read inside]

theorem word64 (image : SameImage mem src other dst length) (inside : offset + 8 ≤ length) :
    word64 other dst offset = word64 mem src offset := by
  rw [Sable.word64, Sable.word64, image.word32 (by omega), image.word32 (by omega)]

end SameImage

section Relocation

theorem any_range_congr {count : Nat} {first second : Nat → Bool}
    (same : ∀ i < count, first i = second i) :
    (List.range count).any first = (List.range count).any second := by
  rw [Bool.eq_iff_iff]
  simp only [List.any_eq_true, List.mem_range]
  constructor
  · rintro ⟨i, inside, holds⟩
    exact ⟨i, inside, same i inside ▸ holds⟩
  · rintro ⟨i, inside, holds⟩
    exact ⟨i, inside, same i inside ▸ holds⟩

/-- A module and a copy of it that does not wrap around. -/
structure Relocated (mem : Mem) (src : UInt32) (other : Mem) (dst : UInt32) (length : Nat) :
    Prop where
  image : SameImage mem src other dst length
  header : 1216 ≤ length
  whole : (AcmHdr.size mem src * 4).toNat = length
  fits : dst.toNat + length ≤ 2 ^ 32

variable {mem other : Mem} {src dst : UInt32} {length : Nat}

namespace Relocated

variable (moved : Relocated mem src other dst length)

include moved

theorem size : AcmHdr.size other dst = AcmHdr.size mem src :=
  moved.image.word32 (by have := moved.header; omega)

theorem infoTable {infoTable : Nat} (found : getAcmodInfoTable mem src = some infoTable) :
    getAcmodInfoTable other dst = some infoTable ∧ infoTable + 48 ≤ length := by
  have header := moved.header
  have fits := moved.fits
  have headerLen : AcmHdr.headerLen other dst = AcmHdr.headerLen mem src :=
    moved.image.word32 (by omega)
  have scratchSize : AcmHdr.scratchSize other dst = AcmHdr.scratchSize mem src :=
    moved.image.word32 (by omega)
  rw [getAcmodInfoTable] at found ⊢
  simp only [headerLen, scratchSize, moved.size, Option.ite_none_left_eq_some] at found ⊢
  obtain ⟨sum, bytes, table, inside, -, same⟩ := found
  cases same
  rw [Bool.not_eq_true, plusOverflow_eq_false] at table
  have bound : ((AcmHdr.headerLen mem src + AcmHdr.scratchSize mem src) * 4).toNat + 48 ≤
      length := by
    rw [gt_iff_lt, UInt32.not_lt, UInt32.le_iff_toNat_le, UInt32.toNat_add,
      Nat.mod_eq_of_lt table, moved.whole] at inside
    exact inside
  refine ⟨⟨sum, bytes, ?_, inside, ?_, rfl⟩, bound⟩
  · rw [Bool.not_eq_true, plusOverflow_eq_false]
    exact table
  · rw [Bool.not_eq_true, plusOverflow_eq_false]
    omega

theorem isSinitAcmod {acmodSize : UInt32} (passed : isSinitAcmod mem src acmodSize) :
    Sable.isSinitAcmod other dst acmodSize := by
  have header := moved.header
  have moduleType : AcmHdr.moduleType other dst = AcmHdr.moduleType mem src :=
    moved.image.word16 (by omega)
  have moduleVendor : AcmHdr.moduleVendor other dst = AcmHdr.moduleVendor mem src :=
    moved.image.word32 (by omega)
  rw [Sable.isSinitAcmod, decide_eq_true_eq, isAcmod] at passed ⊢
  simp only [moved.size, moduleType, moduleVendor, Option.ite_none_left_eq_some] at passed ⊢
  obtain ⟨large, overflow, whole, kind, rest⟩ := passed
  obtain ⟨table, found, rest⟩ := Option.bind_eq_some_iff.mp rest
  obtain ⟨tableMoved, inside⟩ := moved.infoTable found
  refine ⟨large, overflow, whole, kind, Option.bind_eq_some_iff.mpr ⟨table, tableMoved, ?_⟩⟩
  simpa only [moved.image.read (by omega : table + 16 ≤ length),
    moved.image (table + 16) (by omega), moved.image (table + 17) (by omega)] using rest

theorem idList {idListOff idSize : UInt32} {list : Nat} (large : 4 ≤ idSize.toNat)
    (found : getIdList mem src idListOff idSize = some list) :
    getIdList other dst idListOff idSize = some list ∧
      list + idSize.toNat + (word32 mem src list).toNat * idSize.toNat ≤ length := by
  have fits := moved.fits
  rw [getIdList] at found ⊢
  simp only [moved.size, Option.ite_none_left_eq_some] at found ⊢
  obtain ⟨offset, start, -, overflow, sum, inside, same⟩ := found
  cases same
  rw [Bool.not_eq_true, plusOverflow_eq_false] at offset sum
  rw [Bool.not_eq_true, multiplyOverflow_eq_false] at overflow
  have first : (idListOff + idSize).toNat = idListOff.toNat + idSize.toNat := by
    rw [UInt32.toNat_add, Nat.mod_eq_of_lt offset]
  have all : (word32 mem src idListOff.toNat * idSize).toNat =
      (word32 mem src idListOff.toNat).toNat * idSize.toNat := by
    rw [UInt32.toNat_mul, Nat.mod_eq_of_lt overflow]
  have bound : idListOff.toNat + idSize.toNat +
      (word32 mem src idListOff.toNat).toNat * idSize.toNat ≤ length := by
    rw [gt_iff_lt, UInt32.not_lt, UInt32.le_iff_toNat_le, UInt32.toNat_add,
      Nat.mod_eq_of_lt sum, first, all, moved.whole] at inside
    exact inside
  have count : word32 other dst idListOff.toNat = word32 mem src idListOff.toNat :=
    moved.image.word32 (by omega)
  refine ⟨⟨?_, start, ?_, ?_, ?_, ?_, rfl⟩, bound⟩
  · rw [Bool.not_eq_true, plusOverflow_eq_false]
    exact offset
  · rw [Bool.not_eq_true, plusOverflow_eq_false]
    omega
  · rw [count, Bool.not_eq_true, multiplyOverflow_eq_false]
    exact overflow
  · rw [count, Bool.not_eq_true, plusOverflow_eq_false]
    exact sum
  · rw [count]
    exact inside

/-- A list of identifiers that a field of the information table points to. -/
theorem listOf {field list : Nat} {idSize : UInt32} (inTable : field + 4 ≤ 48)
    (large : 4 ≤ idSize.toNat)
    (found : ((getAcmodInfoTable mem src).bind fun infoTable =>
      getIdList mem src (word32 mem src (infoTable + field)) idSize) = some list) :
    ((getAcmodInfoTable other dst).bind fun infoTable =>
        getIdList other dst (word32 other dst (infoTable + field)) idSize) = some list ∧
      list + idSize.toNat + (word32 mem src list).toNat * idSize.toNat ≤ length := by
  obtain ⟨table, present, rest⟩ := Option.bind_eq_some_iff.mp found
  obtain ⟨tableMoved, inside⟩ := moved.infoTable present
  obtain ⟨listMoved, bound⟩ := moved.idList large rest
  refine ⟨Option.bind_eq_some_iff.mpr ⟨table, tableMoved, ?_⟩, bound⟩
  rw [moved.image.word32 (by omega)]
  exact listMoved

variable (regs : TxtRegisters)

theorem chipsetMatches {id : Nat} (inside : id + 16 ≤ length) :
    chipsetMatches regs other dst id = Sable.chipsetMatches regs mem src id := by
  rw [Sable.chipsetMatches, Sable.chipsetMatches, moved.image.word32 (by omega),
    moved.image.word16 (by omega), moved.image.word16 (by omega), moved.image.word16 (by omega)]

theorem processorMatches {id : Nat} (inside : id + 24 ≤ length) :
    processorMatches regs other dst id = Sable.processorMatches regs mem src id := by
  rw [Sable.processorMatches, Sable.processorMatches, moved.image.word32 (by omega),
    moved.image.word32 (by omega), moved.image.word64 (by omega),
    moved.image.word64 (by omega)]

theorem matchesChipset {list : Nat}
    (inside : list + 16 + (word32 mem src list).toNat * 16 ≤ length) :
    matchesChipset regs other dst list = Sable.matchesChipset regs mem src list := by
  rw [Sable.matchesChipset, Sable.matchesChipset, moved.image.word32 (by omega)]
  apply any_range_congr
  intro i bounded
  exact moved.chipsetMatches regs (by omega)

theorem matchesProcessor {list : Nat}
    (inside : list + 24 + (word32 mem src list).toNat * 24 ≤ length) :
    matchesProcessor regs other dst list = Sable.matchesProcessor regs mem src list := by
  rw [Sable.matchesProcessor, Sable.matchesProcessor, moved.image.word32 (by omega)]
  apply any_range_congr
  intro i bounded
  exact moved.processorMatches regs (by omega)

theorem doesAcmodMatchPlatform (passed : doesAcmodMatchPlatform regs mem src) :
    Sable.doesAcmodMatchPlatform regs other dst := by
  have header := moved.header
  have flags : AcmHdr.flags other dst = AcmHdr.flags mem src :=
    moved.image.word16 (by omega)
  rw [Sable.doesAcmodMatchPlatform] at passed ⊢
  rw [flags]
  by_cases fused : (regs.prodFused = true) ≠ (AcmHdr.flags mem src &&& 0x8000 = 0)
  · rw [if_pos fused] at passed
    cases passed
  rw [if_neg fused, Option.any_eq_true] at passed ⊢
  obtain ⟨list, chipsets, passed⟩ := passed
  obtain ⟨listMoved, inside⟩ := moved.listOf (by decide) (by decide) chipsets
  refine ⟨list, listMoved, ?_⟩
  rw [moved.matchesChipset regs inside]
  by_cases chipset : Sable.matchesChipset regs mem src list = true
  case neg =>
    rw [if_neg chipset] at passed
    cases passed
  rw [if_pos chipset, Option.any_eq_true] at passed ⊢
  obtain ⟨table, present, passed⟩ := passed
  obtain ⟨tableMoved, tableInside⟩ := moved.infoTable present
  refine ⟨table, tableMoved, ?_⟩
  rw [moved.image (table + 17) (by omega)]
  by_cases version : word8 mem src (table + 17) ≥ 4
  · rw [if_pos version, Option.any_eq_true] at passed ⊢
    obtain ⟨processorList, processors, passed⟩ := passed
    obtain ⟨processorsMoved, processorsInside⟩ :=
      moved.listOf (by decide) (by decide) processors
    refine ⟨processorList, processorsMoved, ?_⟩
    rw [moved.matchesProcessor regs processorsInside]
    exact passed
  · rw [if_neg version]

end Relocated

end Relocation

section Selection

variable {regs : TxtRegisters}

/-- The module passes the checks on SINIT modules and on the platform. -/
def Checked (regs : TxtRegisters) (mem : Mem) (hdr : UInt32) : Prop :=
  isSinitAcmod mem hdr (AcmHdr.size mem hdr * 4) ∧ doesAcmodMatchPlatform regs mem hdr

/-- The module that has been chosen has passed all checks at the place where it is. -/
def SinitState.Passed (regs : TxtRegisters) (state : SinitState) : Prop :=
  Checked regs state.mem state.gSinit ∧ verifyAcmod regs state.mem state.gSinit

/-- The firmware has loaded a module that passes the checks and is not older. -/
def BiosNewer (regs : TxtRegisters) (mem : Mem) (sinit : UInt32) : Prop :=
  getBiosSinit regs mem regs.sinitBase.toUInt32 ≠ 0 ∧
    AcmHdr.date mem regs.sinitBase.toUInt32 ≥ AcmHdr.date mem sinit

/-- What `copy_sinit` asks of a module before it copies it. -/
structure Copyable (regs : TxtRegisters) (mem : Mem) (sinit : UInt32) : Prop where
  present : sinit ≠ 0
  newer : ¬ BiosNewer regs mem sinit
  bytes : (AcmHdr.size mem sinit).toNat * 4 < 2 ^ 32
  room : (AcmHdr.size mem sinit).toNat * 4 ≤ regs.sinitSize.toUInt32.toNat
  region : regs.sinitBase.toUInt32 ≠ 0

/-- The state before a call: a module that is chosen already passes `verify_acmod`, and
otherwise some module passes the checks or module 1 is not copied, and the copy of a module
that passes them does not wrap around the end of the memory. -/
structure Careful (regs : TxtRegisters) (state : SinitState) (m : UInt32) : Prop where
  chosen : state.gSinit ≠ 0 → verifyAcmod regs state.mem state.gSinit
  candidate : state.gSinit = 0 →
    (∃ i, 0 < i ∧ i < (modsCount state.mem m).toNat ∧ moduleMatches regs state.mem m i) ∨
      (modsCount state.mem m).toNat ≤ 1 ∨ ¬ Copyable regs state.mem (modStart state.mem m 1)
  fits : state.gSinit = 0 → ∀ i, 0 < i → i < (modsCount state.mem m).toNat →
    moduleMatches regs state.mem m i → Copyable regs state.mem (modStart state.mem m i) →
      regs.sinitBase.toUInt32.toNat + (AcmHdr.size state.mem (modStart state.mem m i)).toNat * 4 ≤
        2 ^ 32

theorem isSinitAcmod_size {mem : Mem} {hdr acmodSize : UInt32}
    (passed : isSinitAcmod mem hdr acmodSize) :
    acmodSize = AcmHdr.size mem hdr * 4 ∧ 1216 ≤ acmodSize.toNat := by
  rw [isSinitAcmod, decide_eq_true_eq, isAcmod] at passed
  simp only [Option.ite_none_left_eq_some] at passed
  obtain ⟨large, -, whole, -⟩ := passed
  exact ⟨not_not.mp whole, Nat.le_of_not_lt large⟩

theorem getBiosSinit_checked {mem : Mem} {base : UInt32}
    (found : getBiosSinit regs mem base ≠ 0) :
    getBiosSinit regs mem base = base ∧ base ≠ 0 ∧ Checked regs mem base := by
  rw [getBiosSinit] at found ⊢
  by_cases null : base = 0
  · rw [if_pos null] at found
    exact absurd rfl found
  rw [if_neg null] at found ⊢
  by_cases empty : biosSinitSize regs mem = 0
  · rw [if_pos empty] at found
    exact absurd rfl found
  rw [if_neg empty] at found ⊢
  by_cases failed : isSinitAcmod mem base (biosSinitSize regs mem) = false ∨
      doesAcmodMatchPlatform regs mem base = false
  · rw [if_pos failed] at found
    exact absurd rfl found
  rw [if_neg failed]
  rw [not_or, Bool.not_eq_false, Bool.not_eq_false] at failed
  have size := (isSinitAcmod_size failed.1).1
  exact ⟨rfl, null, size ▸ failed.1, failed.2⟩

/-- `copy_sinit` chooses the firmware's module, none, or a copy of the given one. -/
theorem copySinit_cases (mem : Mem) (sinit : UInt32) :
    (∃ base, copySinit regs mem sinit = (base, mem) ∧ Checked regs mem base) ∨
      copySinit regs mem sinit = (0, mem) ∨
      Copyable regs mem sinit ∧ copySinit regs mem sinit =
        (regs.sinitBase.toUInt32, copyBytes mem regs.sinitBase.toUInt32 sinit
          (AcmHdr.size mem sinit * 4).toNat) := by
  rw [copySinit]
  by_cases bios : getBiosSinit regs mem regs.sinitBase.toUInt32 ≠ 0 ∧
      (sinit = 0 ∨ AcmHdr.date mem (getBiosSinit regs mem regs.sinitBase.toUInt32) ≥
        AcmHdr.date mem sinit)
  · obtain ⟨same, -, checked⟩ := getBiosSinit_checked bios.1
    rw [if_pos bios, same]
    exact .inl ⟨_, rfl, checked⟩
  rw [if_neg bios]
  by_cases null : sinit = 0
  · rw [if_pos null]
    exact .inr (.inl rfl)
  rw [if_neg null]
  by_cases overflow : multiplyOverflow (AcmHdr.size mem sinit) 4 = true
  · rw [if_pos overflow]
    exact .inr (.inl rfl)
  rw [if_neg overflow]
  rw [Bool.not_eq_true, multiplyOverflow_eq_false] at overflow
  have bytes : (AcmHdr.size mem sinit).toNat * 4 < 2 ^ 32 := overflow
  have length : (AcmHdr.size mem sinit * 4).toNat = (AcmHdr.size mem sinit).toNat * 4 := by
    rw [UInt32.toNat_mul]
    exact Nat.mod_eq_of_lt bytes
  by_cases large : AcmHdr.size mem sinit * 4 > regs.sinitSize.toUInt32
  · rw [if_pos large]
    exact .inr (.inl rfl)
  rw [if_neg large]
  by_cases region : regs.sinitBase.toUInt32 = 0
  · rw [if_pos region]
    exact .inr (.inl rfl)
  rw [if_neg region]
  refine .inr (.inr ⟨⟨null, ?_, bytes, ?_, region⟩, rfl⟩)
  · rintro ⟨found, newer⟩
    have same := (getBiosSinit_checked found).1
    exact bios ⟨found, .inr (by rw [same]; exact newer)⟩
  · rw [gt_iff_lt, UInt32.not_lt, UInt32.le_iff_toNat_le, length] at large
    exact large

/-- The loop ends with a module that passes the checks, or has looked at all. -/
theorem lastModule_cases (mem : Mem) (m : UInt32) (count : Nat) (base2 : UInt32) :
    (∃ i, 0 < i ∧ i ≤ count ∧ moduleMatches regs mem m i ∧
        lastModule regs mem m count base2 = modStart mem m i) ∨
      (∀ i, 0 < i → i ≤ count → ¬ moduleMatches regs mem m i) ∧
        lastModule regs mem m count base2 =
          if count = 0 then base2 else modStart mem m 1 := by
  induction count generalizing base2 with
  | zero => exact .inr ⟨fun i positive small => by omega, rfl⟩
  | succ count ih =>
      rw [lastModule]
      by_cases found : moduleMatches regs mem m (count + 1)
      · rw [if_pos found]
        exact .inl ⟨count + 1, Nat.succ_pos _, Nat.le_refl _, found, rfl⟩
      · rw [if_neg found]
        rcases ih (modStart mem m (count + 1)) with ⟨i, positive, small, here, last⟩ | rest
        · exact .inl ⟨i, positive, by omega, here, last⟩
        · refine .inr ⟨fun i positive small => ?_, ?_⟩
          · rcases Nat.lt_or_ge i (count + 1) with before | at_
            · exact rest.1 i positive (by omega)
            · have last : i = count + 1 := by omega
              rw [last]
              exact found
          · rw [rest.2, if_neg (Nat.succ_ne_zero _)]
            cases count with
            | zero => rfl
            | succ count => rw [if_neg (Nat.succ_ne_zero _)]

/-- A copied module that passed the checks passes them at its new place. -/
theorem checked_copy {mem : Mem} {m : UInt32} {i : Nat}
    (fits : regs.sinitBase.toUInt32.toNat + (AcmHdr.size mem (modStart mem m i)).toNat * 4 ≤ 2 ^ 32)
    (copyable : Copyable regs mem (modStart mem m i)) (found : moduleMatches regs mem m i) :
    Checked regs
      (copyBytes mem regs.sinitBase.toUInt32 (modStart mem m i)
        (AcmHdr.size mem (modStart mem m i) * 4).toNat)
      regs.sinitBase.toUInt32 := by
  simp only [moduleMatches, decide_eq_true_eq] at found
  obtain ⟨whole, large⟩ := isSinitAcmod_size found.1
  rw [whole] at found large
  have length : (AcmHdr.size mem (modStart mem m i) * 4).toNat =
      (AcmHdr.size mem (modStart mem m i)).toNat * 4 := by
    rw [UInt32.toNat_mul]
    exact Nat.mod_eq_of_lt copyable.bytes
  have moved : Relocated mem (modStart mem m i)
      (copyBytes mem regs.sinitBase.toUInt32 (modStart mem m i)
        (AcmHdr.size mem (modStart mem m i) * 4).toNat)
      regs.sinitBase.toUInt32 (AcmHdr.size mem (modStart mem m i) * 4).toNat :=
    ⟨copyBytes_image mem _ _ (by omega), large, rfl, by omega⟩
  rw [Checked, moved.size]
  exact ⟨moved.isSinitAcmod found.1, moved.doesAcmodMatchPlatform regs found.2⟩

/-- After a careful call the chosen module, if there is one, has passed the checks,
and it passes `verify_acmod` if the call returns 1. -/
theorem prepareSinitAcm_step {state reached : SinitState} {m : UInt32} {returned : Bool}
    (before : state.gSinit = 0 ∨ Checked regs state.mem state.gSinit)
    (careful : Careful regs state m)
    (run : prepareSinitAcm regs m state = .ok returned reached) :
    (reached.gSinit = 0 ∨ Checked regs reached.mem reached.gSinit) ∧
      (returned = true → reached.Passed regs) := by
  rw [prepareSinitAcm, Prog.bind_get] at run
  by_cases chosen : state.gSinit ≠ 0
  · rw [if_pos chosen] at run
    cases run
    have checked := before.resolve_left chosen
    exact ⟨.inr checked, fun _ => ⟨checked, careful.chosen chosen⟩⟩
  rw [if_neg chosen] at run
  have none : state.gSinit = 0 := not_not.mp chosen
  by_cases empty : modsCount state.mem m = 0
  · rw [if_pos empty] at run
    cases run
  rw [if_neg empty] at run
  dsimp only at run
  have count : 0 < (modsCount state.mem m).toNat := Nat.pos_of_ne_zero fun zero =>
    empty (UInt32.toNat_inj.mp zero)
  have verified (gSinit : UInt32) (mem : Mem)
      (checked : gSinit = 0 ∨ Checked regs mem gSinit)
      (rest : (if gSinit = 0 then pure false else pure (verifyAcmod regs mem gSinit) :
        Prog Halt SinitState Bool) ⟨mem, gSinit⟩ = .ok returned reached) :
      (reached.gSinit = 0 ∨ Checked regs reached.mem reached.gSinit) ∧
        (returned = true → reached.Passed regs) := by
    by_cases null : gSinit = 0
    · rw [if_pos null] at rest
      cases rest
      exact ⟨.inl null, fun returned => absurd returned (by decide)⟩
    · rw [if_neg null] at rest
      cases rest
      exact ⟨checked, fun verified => ⟨checked.resolve_left null, verified⟩⟩
  rw [Prog.bind_modify] at run
  rcases copySinit_cases state.mem
      (lastModule regs state.mem m ((modsCount state.mem m).toNat - 1) 0) with
    ⟨base, bios, checked⟩ | refused | ⟨copyable, copied⟩
  · rw [bios] at run
    exact verified _ _ (.inr checked) run
  · rw [refused] at run
    exact verified _ _ (.inl rfl) run
  · rw [copied] at run
    refine verified _ _ (.inr ?_) run
    rcases lastModule_cases state.mem m ((modsCount state.mem m).toNat - 1) 0 with
      ⟨i, positive, small, found, last⟩ | ⟨unmatched, last⟩
    · rw [last] at copyable ⊢
      exact checked_copy (careful.fits none i positive (by omega) found copyable) copyable found
    · rw [last] at copyable
      rcases careful.candidate none with ⟨i, positive, small, found⟩ | single | refused
      · exact absurd found (unmatched i positive (by omega))
      · rw [if_pos (by omega)] at copyable
        exact absurd rfl copyable.present
      · by_cases single : (modsCount state.mem m).toNat - 1 = 0
        · rw [if_pos single] at copyable
          exact absurd rfl copyable.present
        · rw [if_neg single] at copyable
          exact absurd copyable refused

/-- Calls one after the other, each of them careful. -/
inductive SinitRun (regs : TxtRegisters) (start : SinitState) : SinitState → Prop
  | start : SinitRun regs start start
  | call {state reached : SinitState} {m : UInt32} {returned : Bool} :
      SinitRun regs start state → Careful regs state m →
        prepareSinitAcm regs m state = .ok returned reached → SinitRun regs start reached

theorem SinitRun.checked {start state : SinitState} (run : SinitRun regs start state)
    (none : start.gSinit = 0) :
    state.gSinit = 0 ∨ Checked regs state.mem state.gSinit := by
  induction run with
  | start => exact .inl none
  | call _ careful step ih => exact (prepareSinitAcm_step ih careful step).1

/-- In a run of careful calls, the module is safe whenever a call returns 1. -/
theorem prepareSinitAcm_passed {start state reached : SinitState} {m : UInt32}
    (none : start.gSinit = 0) (run : SinitRun regs start state)
    (careful : Careful regs state m)
    (returns : prepareSinitAcm regs m state = .ok true reached) : reached.Passed regs :=
  (prepareSinitAcm_step (run.checked none) careful returns).2 rfl

/-- Registers with a SINIT region at `0x20000` and no module from the firmware. -/
def sampleRegisters : TxtRegisters where
  didvid := 0x8086
  verFsbif := 0x80000001
  verQpiif := 0
  fms := 0
  platformId := 0
  sinitBase := 0x20000
  sinitSize := 0x10000
  heapBase := 0x30000
  heapSize := 0x10000
  acmMaxSize := some 0x8000

/-- Multiboot information at `0x1000` with a SINIT module at `0x10000`. -/
def sinitModule : Mem :=
  memoryOf [(0x1014, 2), (0x1019, 0x20), (0x2012, 1), (0x2016, 1), (0x2015, 5),
    (0x10000, 2), (0x10004, 0x30), (0x10005, 1), (0x10010, 0x86), (0x10011, 0x80),
    (0x10018, 0x40), (0x10019, 1), (0x10028, 0x20), (0x10030, 8),
    (0x10080, 1), (0x10088, 0x86), (0x10089, 0x80),
    (0x104c0, 0xaa), (0x104c1, 0x3a), (0x104c2, 0xc0), (0x104c3, 0x7f), (0x104c4, 0xa7),
    (0x104c5, 0x46), (0x104c6, 0xdb), (0x104c7, 0x18), (0x104c8, 0x2e), (0x104c9, 0xac),
    (0x104ca, 0x69), (0x104cb, 0x8f), (0x104cc, 0x8d), (0x104cd, 0x41), (0x104ce, 0x7f),
    (0x104cf, 0x5a), (0x104d0, 1), (0x104d1, 3), (0x104d4, 0x80), (0x104d8, 4), (0x104e0, 1)]

theorem prepareSinitAcm_passed_sinitModule :
    ∃ reached, prepareSinitAcm sampleRegisters 0x1000 ⟨sinitModule, 0⟩ = .ok true reached ∧
      reached.Passed sampleRegisters := by
  have returns : (prepareSinitAcm sampleRegisters 0x1000 ⟨sinitModule, 0⟩).value? =
      some true := by
    decide
  obtain ⟨reached, run⟩ := Outcome.eq_ok_of_value? returns
  refine ⟨reached, run, prepareSinitAcm_passed rfl .start ⟨?_, ?_, ?_⟩ run⟩
  · exact fun chosen => absurd rfl chosen
  · exact fun _ => .inl ⟨1, by decide, by decide, by decide⟩
  · intro _ i positive small _ _
    obtain rfl : i = 1 := Nat.le_antisymm (Nat.le_of_lt_succ small) positive
    decide

/-- Multiboot information at `0x1000` with a module of 64 bytes at `0x10000` that is
no authenticated code module. -/
def foreignModule : Mem :=
  memoryOf [(0x1014, 2), (0x1019, 0x20), (0x2012, 1), (0x2016, 1), (0x2014, 0x40),
    (0x10018, 0x10), (0x10020, 1), (0x10028, 0x20), (0x10030, 8)]

/-- The only module behind the kernel fails the checks and is chosen nevertheless. -/
theorem prepareSinitAcm_takes_foreign_module :
    ∃ reached, moduleMatches sampleRegisters foreignModule 0x1000 1 = false ∧
      prepareSinitAcm sampleRegisters 0x1000 ⟨foreignModule, 0⟩ = .ok true reached ∧
      ¬ reached.Passed sampleRegisters := by
  have returns : (prepareSinitAcm sampleRegisters 0x1000 ⟨foreignModule, 0⟩).value? =
      some true := by
    decide
  have failed : isSinitAcmod
      (prepareSinitAcm sampleRegisters 0x1000 ⟨foreignModule, 0⟩).state.mem
      (prepareSinitAcm sampleRegisters 0x1000 ⟨foreignModule, 0⟩).state.gSinit
      (AcmHdr.size (prepareSinitAcm sampleRegisters 0x1000 ⟨foreignModule, 0⟩).state.mem
        (prepareSinitAcm sampleRegisters 0x1000 ⟨foreignModule, 0⟩).state.gSinit * 4) =
      false := by
    decide
  obtain ⟨reached, run⟩ := Outcome.eq_ok_of_value? returns
  rw [run] at failed
  refine ⟨reached, by decide, run, fun passed => ?_⟩
  have checked : isSinitAcmod reached.mem reached.gSinit
      (AcmHdr.size reached.mem reached.gSinit * 4) = true := passed.1.1
  rw [Outcome.state_ok, checked] at failed
  cases failed

end Selection

end Sable
