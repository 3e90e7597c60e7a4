import Sable.ReadRanges
import Sable.SinitSelection

/-!
# What the checks of a SINIT module read

The functions of `sinit_acm.c` that look at a module, once more with a record of what they
read.  They find what their counterparts without a record find, and a module that lies
below the last address is not left.
-/

namespace Sable

open ByteMemory HaltingProgram

namespace Recorded

section Fields

variable (hdr : UInt32) (offset : Nat)

def acmByte : Prog Halt HeapMachine UInt8 :=
  heapByte (hdr + UInt32.ofNat offset)

def acmHalf : Prog Halt HeapMachine UInt16 :=
  heapHalf (hdr + UInt32.ofNat offset)

def acmWord : Prog Halt HeapMachine UInt32 :=
  heapWord (hdr + UInt32.ofNat offset)

def acmQuad : Prog Halt HeapMachine UInt64 :=
  heapQuad (hdr + UInt32.ofNat offset)

end Fields

section Header

variable (hdr : UInt32)

def getAcmodInfoTable : Prog Halt HeapMachine (Option Nat) := do
  let headerLen ← acmWord hdr 4
  let scratchSize ← acmWord hdr 124
  if plusOverflow headerLen scratchSize then return none
  else if multiplyOverflow (headerLen + scratchSize) 4 then return none
  else
    let userAreaOff := (headerLen + scratchSize) * 4
    if plusOverflow userAreaOff acmInfoTableSize then return none
    else
      let size ← acmWord hdr 24
      if userAreaOff + acmInfoTableSize > size * 4 then return none
      else if plusOverflow hdr userAreaOff then return none
      else return some userAreaOff.toNat

/-- The second test of a module's kind is made only if the first one succeeds. -/
def acmKind : Prog Halt HeapMachine Bool := do
  let moduleType ← acmHalf hdr 0
  if moduleType ≠ 2 then return true
  let moduleVendor ← acmWord hdr 16
  return moduleVendor ≠ 0x8086

def isAcmod (acmodSize : UInt32) : Prog Halt HeapMachine (Option UInt8) := do
  if acmodSize < acmHdrSize then return none
  let size ← acmWord hdr 24
  if multiplyOverflow size 4 then return none
  let size ← acmWord hdr 24
  if acmodSize ≠ size * 4 then return none
  let other ← acmKind hdr
  if other then return none
  match ← getAcmodInfoTable hdr with
  | none => return none
  | some infoTable =>
      let unknown ← heapCompare (hdr + UInt32.ofNat infoTable) acmUuidV3
      if unknown then return none
      let type ← acmByte hdr (infoTable + 16)
      let version ← acmByte hdr (infoTable + 17)
      if version < 3 then return none
      return some type

def isSinitAcmod (acmodSize : UInt32) : Prog Halt HeapMachine Bool := do
  let type ← isAcmod hdr acmodSize
  return type = some 1

def getIdList (idListOff idSize : UInt32) : Prog Halt HeapMachine (Option Nat) := do
  let words ← acmWord hdr 24
  let size := words * 4
  if plusOverflow idListOff idSize then return none
  else if idListOff + idSize > size then return none
  else if plusOverflow hdr idListOff then return none
  else
    let count ← acmWord hdr idListOff.toNat
    if multiplyOverflow count idSize then return none
    else if plusOverflow (idListOff + idSize) (count * idSize) then return none
    else if idListOff + idSize + count * idSize > size then return none
    else return some idListOff.toNat

/-- The list that a field of the information table points to. -/
def getListOf (field : Nat) (idSize : UInt32) : Prog Halt HeapMachine (Option Nat) := do
  match ← getAcmodInfoTable hdr with
  | none => return none
  | some infoTable =>
      let idListOff ← acmWord hdr (infoTable + field)
      getIdList hdr idListOff idSize

def getAcmodChipsetList : Prog Halt HeapMachine (Option Nat) :=
  getListOf hdr 20 16

def getAcmodProcessorList : Prog Halt HeapMachine (Option Nat) :=
  getListOf hdr 40 24

end Header

section Platform

variable (regs : TxtRegisters) (hdr : UInt32)

def chipsetMatches (id : Nat) : Prog Halt HeapMachine Bool := do
  let vendorId ← acmHalf hdr (id + 4)
  if regs.vendorId ≠ vendorId then return false
  let deviceId ← acmHalf hdr (id + 6)
  if regs.deviceId ≠ deviceId then return false
  let flags ← acmWord hdr id
  let revisionId ← acmHalf hdr (id + 8)
  if flags &&& 1 = 0 then return regs.revisionId = revisionId
  else return regs.revisionId &&& revisionId ≠ 0

def processorMatches (id : Nat) : Prog Halt HeapMachine Bool := do
  let fms ← acmWord hdr id
  let fmsMask ← acmWord hdr (id + 4)
  if fms ≠ regs.fms &&& fmsMask then return false
  let platformId ← acmQuad hdr (id + 8)
  let platformMask ← acmQuad hdr (id + 16)
  return platformId = regs.platformId &&& platformMask

/-- The loop over the entries of a list, which stops at the first one that matches. -/
def anyEntry (matching : Nat → Prog Halt HeapMachine Bool) (idSize : Nat) :
    Nat → Nat → Prog Halt HeapMachine Bool
  | 0, _ => pure false
  | count + 1, id => do
      let found ← matching id
      if found then return true
      anyEntry matching idSize count (id + idSize)

/-- The count does not change while the loop runs. -/
def matchesEntry (matching : Nat → Prog Halt HeapMachine Bool) (idSize list : Nat) :
    Prog Halt HeapMachine Bool := do
  let count ← acmWord hdr list
  anyEntry matching idSize count.toNat (list + 4)

def doesAcmodMatchPlatform : Prog Halt HeapMachine Bool := do
  let flags ← acmHalf hdr 14
  if (regs.prodFused = true) ≠ (flags &&& 0x8000 = 0) then return false
  match ← getAcmodChipsetList hdr with
  | none => return false
  | some list =>
      let chipset ← matchesEntry hdr (chipsetMatches regs hdr) 16 list
      if ¬ chipset then return false
      match ← getAcmodInfoTable hdr with
      | none => return false
      | some infoTable =>
          let version ← acmByte hdr (infoTable + 17)
          if version ≥ 4 then
            match ← getAcmodProcessorList hdr with
            | none => return false
            | some list => matchesEntry hdr (processorMatches regs hdr) 24 list
          else return true

def verifyAcmod : Prog Halt HeapMachine Bool := do
  let words ← acmWord hdr 24
  let size := words * 4
  if hdr &&& 0xfff ≠ 0 then return false
  if size = 0 ∨ size % 64 ≠ 0 then return false
  match regs.acmMaxSize with
  | none => return false
  | some acmMaxSize =>
      if size > acmMaxSize then return false
      let entryPoint ← acmWord hdr 52
      if entryPoint ≥ size then return false
      let segSel ← acmWord hdr 48
      if plusOverflow segSel 8 then return false
      let gdtLimit ← acmWord hdr 40
      if segSel = 0 ∨ segSel &&& 7 ≠ 0 ∨ segSel + 8 > gdtLimit then return false
      match ← getAcmodInfoTable hdr with
      | none => return false
      | some infoTable =>
          let minMleHdrVer ← acmWord hdr (infoTable + 28)
          if minMleHdrVer > 0x20001 then return false
          let capabilities ← acmWord hdr (infoTable + 32)
          if (0x227 &&& 3) &&& (capabilities &&& 3) = 0 then return false
          let osSinitDataVer ← acmWord hdr (infoTable + 24)
          return osSinitDataVer ≥ 4

end Platform

end Recorded

section Fields

variable {mem : Mem} {hdr : UInt32} {length offset : Nat}

theorem offset_toNat (fits : hdr.toNat + length ≤ 2 ^ 32) (inside : offset < length) :
    (UInt32.ofNat offset).toNat = offset ∧
      (hdr + UInt32.ofNat offset).toNat = hdr.toNat + offset := by
  have small : (UInt32.ofNat offset).toNat = offset :=
    UInt32.toNat_ofNat_of_lt' (by simp only [UInt32.size]; omega)
  exact ⟨small, by rw [UInt32.toNat_add, small, Nat.mod_eq_of_lt (by omega)]⟩

theorem address_within (fits : hdr.toNat + length ≤ 2 ^ 32) {len : Nat} (positive : 0 < len)
    (inside : offset + len ≤ length) :
    (UInt32.ofNat offset).toNat = offset ∧
      Access.Within hdr length ⟨hdr + UInt32.ofNat offset, len⟩ := by
  obtain ⟨small, address⟩ := offset_toNat fits (show offset < length by omega)
  refine ⟨small, ?_, ?_⟩
  · exact address ▸ Nat.le_add_right _ _
  · dsimp only
    omega

theorem acmByte_reads (fits : hdr.toNat + length ≤ 2 ^ 32) (inside : offset + 1 ≤ length) :
    Reads (Access.Within hdr length) mem (Recorded.acmByte hdr offset) (word8 mem hdr offset) := by
  obtain ⟨small, within⟩ := address_within fits (by decide) inside
  exact (heapByte_reads within).of_eq (by rw [word8_add, small, Nat.add_zero])

theorem acmHalf_reads (fits : hdr.toNat + length ≤ 2 ^ 32) (inside : offset + 2 ≤ length) :
    Reads (Access.Within hdr length) mem (Recorded.acmHalf hdr offset)
      (word16 mem hdr offset) := by
  obtain ⟨small, within⟩ := address_within fits (by decide) inside
  exact (heapHalf_reads within).of_eq (by rw [word16_add, small, Nat.add_zero])

theorem acmWord_reads (fits : hdr.toNat + length ≤ 2 ^ 32) (inside : offset + 4 ≤ length) :
    Reads (Access.Within hdr length) mem (Recorded.acmWord hdr offset)
      (word32 mem hdr offset) := by
  obtain ⟨small, within⟩ := address_within fits (by decide) inside
  exact (heapWord_reads within).of_eq (by rw [word32_add, small, Nat.add_zero])

theorem acmQuad_reads (fits : hdr.toNat + length ≤ 2 ^ 32) (inside : offset + 8 ≤ length) :
    Reads (Access.Within hdr length) mem (Recorded.acmQuad hdr offset)
      (word64 mem hdr offset) := by
  obtain ⟨small, within⟩ := address_within fits (by decide) inside
  exact (heapQuad_reads within).of_eq (by rw [word64_add, small, Nat.add_zero])

theorem acmCompare_reads (fits : hdr.toNat + length ≤ 2 ^ 32) {bytes : List UInt8}
    (inside : offset + bytes.length ≤ length) (started : offset < length) :
    Reads (Access.Within hdr length) mem (heapCompare (hdr + UInt32.ofNat offset) bytes)
      (decide (read (flat mem) (hdr.toNat + offset) bytes.length ≠ bytes)) := by
  have address := (offset_toNat fits started).2
  refine (heapCompare_reads fun i bounded => ?_).of_eq (by rw [address])
  rw [UInt32.add_assoc, ← UInt32.ofNat_add]
  exact (address_within fits (by decide) (by omega)).2

end Fields

section Header

variable {mem : Mem} {hdr : UInt32} {length : Nat}

theorem getAcmodInfoTable_reads (fits : hdr.toNat + length ≤ 2 ^ 32) (header : 1216 ≤ length) :
    Reads (Access.Within hdr length) mem (Recorded.getAcmodInfoTable hdr)
      (getAcmodInfoTable mem hdr) := by
  refine (acmWord_reads fits (by omega)).bind ((acmWord_reads fits (by omega)).bind ?_)
  refine Reads.ite (fun _ => Reads.ret _) fun _ => ?_
  refine Reads.ite (fun _ => Reads.ret _) fun _ => ?_
  refine Reads.ite (fun _ => Reads.ret _) fun _ => ?_
  refine (acmWord_reads fits (by omega)).bind ?_
  refine Reads.ite (fun _ => Reads.ret _) fun _ => ?_
  exact Reads.ite (fun _ => Reads.ret _) fun _ => Reads.ret _

theorem acmKind_reads (fits : hdr.toNat + length ≤ 2 ^ 32) (header : 1216 ≤ length) :
    Reads (Access.Within hdr length) mem (Recorded.acmKind hdr)
      (decide (AcmHdr.moduleType mem hdr ≠ 2 ∨ AcmHdr.moduleVendor mem hdr ≠ 0x8086)) := by
  refine (acmHalf_reads fits (by omega)).bind ?_
  refine (Reads.ite (fun _ => Reads.ret true) fun _ =>
    (acmWord_reads fits (by omega)).bind (Reads.ret _)).of_eq ?_
  rw [AcmHdr.moduleType, AcmHdr.moduleVendor]
  by_cases chipset : word16 mem hdr 0 = 2
  · rw [if_neg (not_not.mpr chipset)]
    simp only [chipset, ne_eq, not_true_eq_false, false_or]
  · rw [if_pos chipset]
    simp only [chipset, ne_eq, not_false_eq_true, true_or, decide_true]

end Header

section Module

variable {mem : Mem} {hdr : UInt32} {length : Nat}

/-- A module stays what it is at its own place. -/
theorem Relocated.here (header : 1216 ≤ length) (whole : (AcmHdr.size mem hdr * 4).toNat = length)
    (fits : hdr.toNat + length ≤ 2 ^ 32) : Relocated mem hdr mem hdr length :=
  ⟨fun _ _ => rfl, header, whole, fits⟩

/-- `is_acmod` does not leave the module, whether it accepts it or not. -/
theorem isAcmod_reads {acmodSize : UInt32} (fits : hdr.toNat + acmodSize.toNat ≤ 2 ^ 32) :
    Reads (Access.Within hdr acmodSize.toNat) mem (Recorded.isAcmod hdr acmodSize)
      (isAcmod mem hdr acmodSize) := by
  refine Reads.ite (fun _ => Reads.ret _) fun large => ?_
  have header : 1216 ≤ acmodSize.toNat := Nat.le_of_not_lt large
  refine (acmWord_reads fits (by omega)).bind ?_
  refine Reads.ite (fun _ => Reads.ret _) fun _ => ?_
  refine (acmWord_reads fits (by omega)).bind ?_
  refine Reads.ite (fun _ => Reads.ret _) fun whole => ?_
  refine (acmKind_reads fits header).bind ?_
  refine Reads.found (fun _ => Reads.ret _) fun _ => ?_
  refine (getAcmodInfoTable_reads fits header).bind ?_
  cases found : getAcmodInfoTable mem hdr with
  | none => exact Reads.ret _
  | some infoTable =>
      have size : (AcmHdr.size mem hdr * 4).toNat = acmodSize.toNat :=
        congrArg UInt32.toNat (not_not.mp whole).symm
      have inside := ((Relocated.here header size fits).infoTable found).2
      have uuid : infoTable + acmUuidV3.length ≤ acmodSize.toNat := by
        rw [show acmUuidV3.length = 16 from rfl]
        omega
      refine (acmCompare_reads fits uuid (by omega)).bind ?_
      refine Reads.found (fun _ => Reads.ret _) fun _ => ?_
      refine (acmByte_reads fits (by omega)).bind ((acmByte_reads fits (by omega)).bind ?_)
      exact Reads.ite (fun _ => Reads.ret _) fun _ => Reads.ret _

theorem isSinitAcmod_reads {acmodSize : UInt32} (fits : hdr.toNat + acmodSize.toNat ≤ 2 ^ 32) :
    Reads (Access.Within hdr acmodSize.toNat) mem (Recorded.isSinitAcmod hdr acmodSize)
      (isSinitAcmod mem hdr acmodSize) :=
  (isAcmod_reads fits).bind (Reads.ret _)

end Module

section Platform

variable {mem : Mem} {hdr : UInt32} {length : Nat} {regs : TxtRegisters}

theorem chipsetMatches_reads (fits : hdr.toNat + length ≤ 2 ^ 32) {id : Nat}
    (inside : id + 16 ≤ length) :
    Reads (Access.Within hdr length) mem (Recorded.chipsetMatches regs hdr id)
      (chipsetMatches regs mem hdr id) := by
  have reads : Reads (Access.Within hdr length) mem (Recorded.chipsetMatches regs hdr id)
      (if regs.vendorId ≠ word16 mem hdr (id + 4) then false
        else if regs.deviceId ≠ word16 mem hdr (id + 6) then false
        else if word32 mem hdr id &&& 1 = 0 then
          decide (regs.revisionId = word16 mem hdr (id + 8))
        else decide (regs.revisionId &&& word16 mem hdr (id + 8) ≠ 0)) := by
    refine (acmHalf_reads fits (by omega)).bind ?_
    refine Reads.ite (fun _ => Reads.ret _) fun _ => ?_
    refine (acmHalf_reads fits (by omega)).bind ?_
    refine Reads.ite (fun _ => Reads.ret _) fun _ => ?_
    refine (acmWord_reads fits (by omega)).bind ((acmHalf_reads fits (by omega)).bind ?_)
    exact Reads.ite (fun _ => Reads.ret _) fun _ => Reads.ret _
  refine reads.of_eq ?_
  have bit : word32 mem hdr id &&& 1 = 0 ∨ word32 mem hdr id &&& 1 = 1 := by
    have parity : (word32 mem hdr id &&& 1).toNat = (word32 mem hdr id).toNat % 2 := by
      rw [UInt32.toNat_and]
      exact Nat.and_one_is_mod _
    rcases Nat.mod_two_eq_zero_or_one (word32 mem hdr id).toNat with even | odd
    · exact .inl (UInt32.toNat_inj.mp (parity.trans even))
    · exact .inr (UInt32.toNat_inj.mp (parity.trans odd))
  rw [chipsetMatches]
  rcases bit with clear | set
  · by_cases vendor : regs.vendorId = word16 mem hdr (id + 4) <;>
      by_cases device : regs.deviceId = word16 mem hdr (id + 6) <;>
        simp [vendor, device, clear]
  · by_cases vendor : regs.vendorId = word16 mem hdr (id + 4) <;>
      by_cases device : regs.deviceId = word16 mem hdr (id + 6) <;>
        simp [vendor, device, set]

theorem processorMatches_reads (fits : hdr.toNat + length ≤ 2 ^ 32) {id : Nat}
    (inside : id + 24 ≤ length) :
    Reads (Access.Within hdr length) mem (Recorded.processorMatches regs hdr id)
      (processorMatches regs mem hdr id) := by
  have reads : Reads (Access.Within hdr length) mem (Recorded.processorMatches regs hdr id)
      (if word32 mem hdr id ≠ regs.fms &&& word32 mem hdr (id + 4) then false
        else decide (word64 mem hdr (id + 8) = regs.platformId &&& word64 mem hdr (id + 16))) := by
    refine (acmWord_reads fits (by omega)).bind ((acmWord_reads fits (by omega)).bind ?_)
    refine Reads.ite (fun _ => Reads.ret _) fun _ => ?_
    exact (acmQuad_reads fits (by omega)).bind ((acmQuad_reads fits (by omega)).bind (Reads.ret _))
  refine reads.of_eq ?_
  rw [processorMatches]
  by_cases family : word32 mem hdr id = regs.fms &&& word32 mem hdr (id + 4)
  · rw [if_neg (not_not.mpr family)]
    simp only [← family, true_and]
  · rw [if_pos family]
    simp only [family, false_and, decide_false]

theorem anyEntry_reads {allowed : Access → Prop} {matching : Nat → Prog Halt HeapMachine Bool}
    {test : Nat → Bool} {idSize count id : Nat}
    (entries : ∀ i < count,
      Reads allowed mem (matching (id + idSize * i)) (test (id + idSize * i))) :
    Reads allowed mem (Recorded.anyEntry matching idSize count id)
      ((List.range count).any fun i => test (id + idSize * i)) := by
  induction count generalizing id with
  | zero => exact Reads.ret false
  | succ count ih =>
      have first : Reads allowed mem (matching id) (test id) := entries 0 (Nat.succ_pos _)
      have later : ∀ i, id + idSize * (i + 1) = id + idSize + idSize * i := fun i => by
        rw [Nat.mul_add_one]
        omega
      have rest := @ih (id + idSize) fun i bounded => by
        rw [← later]
        exact entries (i + 1) (Nat.succ_lt_succ bounded)
      refine first.bind ((Reads.ite (fun _ => Reads.ret true) fun _ => rest).of_eq ?_)
      rw [List.range_succ_eq_map, List.any_cons, List.any_map, Nat.mul_zero, Nat.add_zero]
      simp only [Function.comp_def, Nat.succ_eq_add_one, later]
      cases test id <;> rfl

/-- The list starts inside the module if its start is read, and so does its first entry. -/
theorem getIdList_reads (fits : hdr.toNat + length ≤ 2 ^ 32) (header : 1216 ≤ length)
    (whole : (AcmHdr.size mem hdr * 4).toNat = length) {idListOff idSize : UInt32}
    (large : 4 ≤ idSize.toNat) :
    Reads (Access.Within hdr length) mem (Recorded.getIdList hdr idListOff idSize)
      (getIdList mem hdr idListOff idSize) := by
  refine (acmWord_reads fits (by omega)).bind ?_
  refine Reads.ite (fun _ => Reads.ret _) fun overflow => ?_
  refine Reads.ite (fun _ => Reads.ret _) fun inside => ?_
  refine Reads.ite (fun _ => Reads.ret _) fun _ => ?_
  have start : idListOff.toNat + idSize.toNat ≤ length := by
    rw [Bool.not_eq_true, plusOverflow_eq_false] at overflow
    rw [gt_iff_lt, UInt32.not_lt, UInt32.le_iff_toNat_le, UInt32.toNat_add,
      Nat.mod_eq_of_lt overflow] at inside
    exact whole ▸ inside
  refine (acmWord_reads fits (by omega)).bind ?_
  refine Reads.ite (fun _ => Reads.ret _) fun _ => ?_
  refine Reads.ite (fun _ => Reads.ret _) fun _ => ?_
  exact Reads.ite (fun _ => Reads.ret _) fun _ => Reads.ret _

theorem getListOf_reads (moved : Relocated mem hdr mem hdr length) {field : Nat}
    {idSize : UInt32} (inTable : field + 4 ≤ 48) (large : 4 ≤ idSize.toNat) :
    Reads (Access.Within hdr length) mem (Recorded.getListOf hdr field idSize)
      ((getAcmodInfoTable mem hdr).bind fun infoTable =>
        getIdList mem hdr (word32 mem hdr (infoTable + field)) idSize) := by
  refine (getAcmodInfoTable_reads moved.fits moved.header).bind ?_
  cases found : getAcmodInfoTable mem hdr with
  | none => exact Reads.ret _
  | some infoTable =>
      have inside := (moved.infoTable found).2
      rw [Option.bind_some]
      refine (acmWord_reads moved.fits (by omega)).bind ?_
      exact getIdList_reads moved.fits moved.header moved.whole large

theorem matchesEntry_reads (fits : hdr.toNat + length ≤ 2 ^ 32)
    {matching : Nat → Prog Halt HeapMachine Bool} {test : Nat → Bool} {idSize list : Nat}
    (inside : list + idSize + (word32 mem hdr list).toNat * idSize ≤ length) (large : 4 ≤ idSize)
    (entries : ∀ id, id + idSize ≤ length →
      Reads (Access.Within hdr length) mem (matching id) (test id)) :
    Reads (Access.Within hdr length) mem (Recorded.matchesEntry hdr matching idSize list)
      ((List.range (word32 mem hdr list).toNat).any fun i => test (list + 4 + idSize * i)) := by
  refine (acmWord_reads fits (by omega)).bind (anyEntry_reads fun i bounded => entries _ ?_)
  have later : idSize * i + idSize ≤ (word32 mem hdr list).toNat * idSize := by
    rw [← Nat.mul_add_one, Nat.mul_comm]
    exact Nat.mul_le_mul_right idSize bounded
  omega

/-- A module that `is_sinit_acmod` has accepted is not left by the look for the platform. -/
theorem doesAcmodMatchPlatform_reads (moved : Relocated mem hdr mem hdr length) :
    Reads (Access.Within hdr length) mem (Recorded.doesAcmodMatchPlatform regs hdr)
      (doesAcmodMatchPlatform regs mem hdr) := by
  have fits := moved.fits
  have header := moved.header
  refine (acmHalf_reads fits (by omega)).bind ?_
  refine Reads.ite (fun _ => Reads.ret _) fun _ => ?_
  refine (getListOf_reads moved (by decide) (by decide)).bind ?_
  rw [getAcmodChipsetList]
  cases chipsets : (getAcmodInfoTable mem hdr).bind fun infoTable =>
    getIdList mem hdr (word32 mem hdr (infoTable + 20)) 16 with
  | none => exact Reads.ret _
  | some list =>
      have inside : list + 16 + (word32 mem hdr list).toNat * 16 ≤ length :=
        (moved.listOf (by decide) (by decide) chipsets).2
      have chipset : Reads (Access.Within hdr length) mem
          (Recorded.matchesEntry hdr (Recorded.chipsetMatches regs hdr) 16 list)
          (matchesChipset regs mem hdr list) :=
        matchesEntry_reads fits inside (by decide) fun _ => chipsetMatches_reads fits
      refine chipset.bind ?_
      rw [Option.any_some]
      by_cases known : matchesChipset regs mem hdr list = true
      case neg =>
        rw [if_pos known, if_neg known]
        exact Reads.ret _
      rw [if_neg (not_not.mpr known), if_pos known]
      refine (getAcmodInfoTable_reads fits header).bind ?_
      cases found : getAcmodInfoTable mem hdr with
      | none => exact Reads.ret _
      | some infoTable =>
          have table := (moved.infoTable found).2
          rw [Option.any_some]
          refine (acmByte_reads fits (by omega)).bind ?_
          refine Reads.ite (fun _ => ?_) fun _ => Reads.ret _
          refine (getListOf_reads moved (by decide) (by decide)).bind ?_
          rw [getAcmodProcessorList]
          cases processors : (getAcmodInfoTable mem hdr).bind fun infoTable =>
            getIdList mem hdr (word32 mem hdr (infoTable + 40)) 24 with
          | none => exact Reads.ret _
          | some list =>
              have inside : list + 24 + (word32 mem hdr list).toNat * 24 ≤ length :=
                (moved.listOf (by decide) (by decide) processors).2
              exact matchesEntry_reads fits inside (by decide) fun _ => processorMatches_reads fits

theorem verifyAcmod_reads (moved : Relocated mem hdr mem hdr length) :
    Reads (Access.Within hdr length) mem (Recorded.verifyAcmod regs hdr)
      (verifyAcmod regs mem hdr) := by
  have fits := moved.fits
  have header := moved.header
  refine (acmWord_reads fits (by omega)).bind ?_
  refine Reads.ite (fun _ => Reads.ret _) fun _ => ?_
  refine Reads.ite (fun _ => Reads.ret _) fun _ => ?_
  cases regs.acmMaxSize with
  | none => exact Reads.ret _
  | some acmMaxSize =>
      rw [Option.any_some]
      refine Reads.ite (fun _ => Reads.ret _) fun _ => ?_
      refine (acmWord_reads fits (by omega)).bind ?_
      refine Reads.ite (fun _ => Reads.ret _) fun _ => ?_
      refine (acmWord_reads fits (by omega)).bind ?_
      refine Reads.ite (fun _ => Reads.ret _) fun _ => ?_
      refine (acmWord_reads fits (by omega)).bind ?_
      refine Reads.ite (fun _ => Reads.ret _) fun _ => ?_
      refine (getAcmodInfoTable_reads fits header).bind ?_
      cases found : getAcmodInfoTable mem hdr with
      | none => exact Reads.ret _
      | some infoTable =>
          have table := (moved.infoTable found).2
          rw [Option.any_some]
          refine (acmWord_reads fits (by omega)).bind ?_
          refine Reads.ite (fun _ => Reads.ret _) fun _ => ?_
          refine (acmWord_reads fits (by omega)).bind ?_
          refine Reads.ite (fun _ => Reads.ret _) fun _ => ?_
          exact (acmWord_reads fits (by omega)).bind (Reads.ret _)

/-- What is read of a module lies inside it, and the later checks are made only of a module
that `is_sinit_acmod` has accepted. -/
theorem sinitChecks_within (mem : Mem) (hdr acmodSize : UInt32)
    (fits : hdr.toNat + acmodSize.toNat ≤ 2 ^ 32) :
    Reads (Access.Within hdr acmodSize.toNat) mem (Recorded.isSinitAcmod hdr acmodSize)
        (isSinitAcmod mem hdr acmodSize) ∧
      (isSinitAcmod mem hdr acmodSize = true → ∀ regs,
        Reads (Access.Within hdr acmodSize.toNat) mem (Recorded.doesAcmodMatchPlatform regs hdr)
            (doesAcmodMatchPlatform regs mem hdr) ∧
          Reads (Access.Within hdr acmodSize.toNat) mem (Recorded.verifyAcmod regs hdr)
            (verifyAcmod regs mem hdr)) := by
  refine ⟨isSinitAcmod_reads fits, fun accepted regs => ?_⟩
  obtain ⟨whole, header⟩ := isSinitAcmod_size accepted
  have moved : Relocated mem hdr mem hdr acmodSize.toNat :=
    .here header (congrArg UInt32.toNat whole.symm) fits
  exact ⟨doesAcmodMatchPlatform_reads moved, verifyAcmod_reads moved⟩

/-- The SINIT module in version 4, whose list of processors has one entry. -/
def processorModule : Mem :=
  write (write (write sinitModule 0x104d1 [4]) 0x104e8 [0xa0]) 0x100a0 [1]

/-- The module passes all three checks, the one of the processor among them. -/
theorem sinitChecks_within_processorModule :
    getAcmodProcessorList processorModule 0x10000 = some 0xa0 ∧
      Reads (Access.Within 0x10000 1280) processorModule
        (Recorded.isSinitAcmod 0x10000 1280) true ∧
      Reads (Access.Within 0x10000 1280) processorModule
        (Recorded.doesAcmodMatchPlatform sampleRegisters 0x10000) true ∧
      Reads (Access.Within 0x10000 1280) processorModule
        (Recorded.verifyAcmod sampleRegisters 0x10000) true := by
  have accepted : isSinitAcmod processorModule 0x10000 1280 = true := by decide
  have matching : doesAcmodMatchPlatform sampleRegisters processorModule 0x10000 = true := by
    decide
  have verified : verifyAcmod sampleRegisters processorModule 0x10000 = true := by decide
  obtain ⟨kind, later⟩ := sinitChecks_within processorModule 0x10000 1280 (by decide)
  obtain ⟨platform, checks⟩ := later accepted sampleRegisters
  exact ⟨by decide, accepted ▸ kind, matching ▸ platform, verified ▸ checks⟩

end Platform

end Sable
