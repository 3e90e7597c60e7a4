import Sable.AddressMasks
import Mathlib.Logic.Function.Basic

/-!
# The memory type range registers of `mtrrs.c`

The pairs of base and mask registers that were saved before the measured launch are
validated after it: the masks, the types of overlapping ranges and the types of the
regions with device registers.  For the launch itself `set_mem_type` gives a memory type
to the range of the SINIT module and leaves everything else uncachable.
-/

namespace Sable

def mtrrTypeUncachable : UInt8 := 0
def mtrrTypeWrthrough : UInt8 := 4
def mtrrTypeWrback : UInt8 := 6

/-- A pair of a `mtrr_physbase_t` and a `mtrr_physmask_t`. -/
structure VarMtrr where
  physbase : UInt64
  physmask : UInt64
  deriving DecidableEq

namespace VarMtrr

def type (mtrr : VarMtrr) : UInt8 := mtrr.physbase.toUInt8
def base (mtrr : VarMtrr) : UInt64 := mtrr.physbase >>> 12
def v (mtrr : VarMtrr) : UInt64 := mtrr.physmask >>> 11 &&& 1
def mask (mtrr : VarMtrr) : UInt64 := mtrr.physmask >>> 12

end VarMtrr

/-- `mtrr_state_t` with the entries of its arrays that are in use. -/
structure MtrrState where
  mtrrDefType : UInt64
  varMtrrs : List VarMtrr

namespace MtrrState

def defType (state : MtrrState) : UInt8 := state.mtrrDefType.toUInt8
def e (state : MtrrState) : UInt64 := state.mtrrDefType >>> 11 &&& 1

end MtrrState

/-- What the validation reads besides the saved state: the leaves of `cpuid`, the capability
register and the addresses in the two ACPI tables, where they are found. -/
structure MtrrPlatform where
  cpuidEax : UInt32 → UInt32
  mtrrCap : UInt64
  ioapicAddress : Option UInt32
  mcfgBaseAddress : Option UInt32

variable (platform : MtrrPlatform) (state : MtrrState)

/-- The shift takes its amount modulo 64, as the instruction does. -/
def getMaxphyaddrMask : UInt64 :=
  if platform.cpuidEax 0x80000000 < 0x80000008 then 0xffffff
  else ((1 <<< (platform.cpuidEax 0x80000008 &&& 0xff).toUInt64) - 1) >>> 12

section PageTypes

/-- The loop of `get_page_type` with its local variables `type` and `wt`. -/
def pageTypeLoop (page : UInt64) : List VarMtrr → Option UInt8 → Bool → UInt8
  | [], type, wt =>
      if wt then mtrrTypeWrthrough
      else match type with
        | some type => type
        | none => state.defType
  | mtrr :: rest, type, wt =>
      if mtrr.v = 0 then pageTypeLoop page rest type wt
      else if page &&& mtrr.mask &&& getMaxphyaddrMask platform ≠
          mtrr.base &&& mtrr.mask &&& getMaxphyaddrMask platform then
        pageTypeLoop page rest type wt
      else if mtrr.type = mtrrTypeUncachable then mtrrTypeUncachable
      else pageTypeLoop page rest (some mtrr.type) (wt || mtrr.type = mtrrTypeWrthrough)

def getPageType (base : UInt32) : UInt8 :=
  pageTypeLoop platform state (base >>> 12).toUInt64 state.varMtrrs none false

/-- The loop of `get_region_type`; `none` is `MTRR_TYPE_MIXED`. -/
def regionTypeLoop (type : UInt8) (stop : UInt32) : Nat → UInt32 → Option UInt8
  | 0, _ => some type
  | fuel + 1, base =>
      if base < stop then
        if type ≠ getPageType platform state base then none
        else regionTypeLoop type stop fuel (base + 0x1000)
      else some type

def getRegionType (base pages : UInt32) : Option UInt8 :=
  if pages = 0 then none
  else if (0xffffffff : UInt32) - base < pages <<< 12 then none
  else if state.e = 0 then some mtrrTypeUncachable
  else
    let base := base &&& 0xfffff000
    regionTypeLoop platform state (getPageType platform state base) (base + pages <<< 12)
      pages.toNat (base + 0x1000)

end PageTypes

section Validation

def isUncachable (base pages : UInt32) : Bool :=
  getRegionType platform state base pages = some mtrrTypeUncachable

def validateMmioRegions : Bool :=
  if ¬ isUncachable platform state 0xfed20000 0x10 then false
  else if ¬ isUncachable platform state 0xfed30000 0x10 then false
  else if ¬ isUncachable platform state 0xfed40000 5 then false
  else if ¬ isUncachable platform state 0xfee00000 1 then false
  else match platform.ioapicAddress with
    | none => false
    | some address =>
        if ¬ isUncachable platform state address 1 then false
        else match platform.mcfgBaseAddress with
          | none => true
          | some address => isUncachable platform state address 1

/-- A loop over the bits below `maxPages` that stops at the first one that was looked for. -/
def maskScan (found : UInt64 → Bool) (maxPages : UInt64) : Nat → UInt64 → UInt64
  | 0, tb => tb
  | fuel + 1, tb =>
      if tb ≠ maxPages then
        if found tb then tb else maskScan found maxPages fuel (tb <<< 1)
      else tb

/-- The check for a range that is not contiguous. -/
def maskContiguous (mask : UInt64) : Bool :=
  let maxphyaddrMask := getMaxphyaddrMask platform
  let maxPages := maxphyaddrMask + 1
  let tb := maskScan (fun tb => tb &&& mask &&& maxphyaddrMask ≠ 0) maxPages 64 1
  maskScan (fun tb => tb &&& mask &&& maxphyaddrMask = 0) maxPages 64 tb = maxPages

def masksLoop : List VarMtrr → Bool
  | [] => true
  | mtrr :: rest =>
      if mtrr.v = 0 then masksLoop rest
      else if ¬ maskContiguous platform mtrr.mask then false
      else masksLoop rest

/-- The loop that looks for a third range, which is uncachable and contains one of two. -/
def containingLoop (first second : VarMtrr) : List VarMtrr → Bool
  | [] => false
  | third :: rest =>
      let maxphyaddrMask := getMaxphyaddrMask platform
      if third.v = 0 then containingLoop first second rest
      else if third.type ≠ mtrrTypeUncachable then containingLoop first second rest
      else if first.base &&& first.mask &&& third.mask &&& maxphyaddrMask =
            third.base &&& third.mask &&& maxphyaddrMask ∧
          third.mask &&& ~~~first.mask &&& maxphyaddrMask = 0 then true
      else if second.base &&& second.mask &&& third.mask &&& maxphyaddrMask =
            third.base &&& third.mask &&& maxphyaddrMask ∧
          third.mask &&& ~~~second.mask &&& maxphyaddrMask = 0 then true
      else containingLoop first second rest

/-- The loop over the ranges behind the range `first`. -/
def overlapLoop (first : VarMtrr) : List VarMtrr → Bool
  | [] => true
  | second :: rest =>
      let maxphyaddrMask := getMaxphyaddrMask platform
      if second.v = 0 then overlapLoop first rest
      else if first.base &&& first.mask &&& second.mask &&& maxphyaddrMask ≠
            second.base &&& second.mask &&& maxphyaddrMask ∧
          second.base &&& second.mask &&& first.mask &&& maxphyaddrMask ≠
            first.base &&& first.mask &&& maxphyaddrMask then
        overlapLoop first rest
      else if first.type = second.type then overlapLoop first rest
      else if first.type = mtrrTypeUncachable ∨ second.type = mtrrTypeUncachable then
        overlapLoop first rest
      else if first.type = mtrrTypeWrthrough ∧ second.type = mtrrTypeWrback then
        overlapLoop first rest
      else if first.type = mtrrTypeWrback ∧ second.type = mtrrTypeWrthrough then
        overlapLoop first rest
      else if containingLoop platform first second state.varMtrrs then overlapLoop first rest
      else false

def overlapsLoop : List VarMtrr → Bool
  | [] => true
  | first :: rest =>
      if first.v = 0 then overlapsLoop rest
      else if ¬ overlapLoop platform state first rest then false
      else overlapsLoop rest

def validateMtrrs : Bool :=
  if state.e = 0 then true
  else if (platform.mtrrCap &&& 0xff).toNat < state.varMtrrs.length then false
  else if ¬ masksLoop platform state.varMtrrs then false
  else if ¬ overlapsLoop platform state state.varMtrrs then false
  else if ¬ validateMmioRegions platform state then false
  else true

end Validation

section SetMemType

/-- The capability register, the default type register and the pairs of variable range
registers. -/
structure MtrrMsrs where
  mtrrCap : UInt64
  mtrrDefType : UInt64
  varMtrrs : Nat → VarMtrr

/-- The number of pairs of variable range registers. -/
def MtrrMsrs.vcnt (msrs : MtrrMsrs) : Nat :=
  (msrs.mtrrCap &&& 0xff).toNat

namespace VarMtrr

def setType (mtrr : VarMtrr) (type : UInt32) : VarMtrr :=
  { mtrr with physbase := mtrr.physbase &&& ~~~0xff ||| type.toUInt8.toUInt64 }

def setBase (mtrr : VarMtrr) (base : UInt32) : VarMtrr :=
  { mtrr with physbase := mtrr.physbase &&& (0xfff : UInt64) ||| base.toUInt64 <<< 12 }

def setMask (mtrr : VarMtrr) (mask : UInt32) : VarMtrr :=
  { mtrr with physmask := mtrr.physmask &&& (0xfff : UInt64) ||| mask.toUInt64 <<< 12 }

def enable (mtrr : VarMtrr) : VarMtrr :=
  { mtrr with physmask := mtrr.physmask ||| 0x800 }

def disable (mtrr : VarMtrr) : VarMtrr :=
  { mtrr with physmask := mtrr.physmask &&& ~~~0x800 }

end VarMtrr

def sinitMtrrMask : UInt32 := 0xffffff

def pageUp (p : UInt32) : UInt32 :=
  (p + 0x1000 - 1) &&& ~~~(0x1000 - 1)

/-- The position after the highest bit. -/
def fls (mask : Nat) : Nat :=
  if mask = 0 then mask else mask.log2 + 1

/-- The loop that disables the variable range registers from `ndx` on. -/
def disableLoop : Nat → Nat → MtrrMsrs → MtrrMsrs
  | 0, _, msrs => msrs
  | count + 1, ndx, msrs =>
      disableLoop count (ndx + 1)
        { msrs with varMtrrs := Function.update msrs.varMtrrs ndx (msrs.varMtrrs ndx).disable }

/-- The loop that counts the lower zero bits of the base; it does not end for zero. -/
def zeroBits : Nat → UInt32 → Option Nat
  | 0, _ => none
  | fuel + 1, baseV => if baseV &&& 1 = 0 then (zeroBits fuel (baseV >>> 1)).map (· + 1) else some 0

/-- The loop that doubles `mtrr_s`. -/
def mtrrSize : Nat → Nat
  | 0 => 1
  | j + 1 => mtrrSize j * 2

/-- The variables of the two loops of `set_mem_type` and the registers. -/
structure Mapping where
  base : UInt32
  numPages : Nat
  ndx : Nat
  msrs : MtrrMsrs

/-- Map a number of pages with the current pair of registers. -/
def Mapping.mapPages (memType : UInt32) (pages : Nat) (mapping : Mapping) : Mapping :=
  let mtrr := mapping.msrs.varMtrrs mapping.ndx
  let mtrr := (mtrr.setBase (mapping.base >>> 12 &&& sinitMtrrMask)).setType memType
  let mtrr := (mtrr.setMask (~~~(UInt32.ofNat pages - 1) &&& sinitMtrrMask)).enable
  { base := mapping.base + UInt32.ofNat (pages * 0x1000)
    numPages := mapping.numPages - pages
    ndx := mapping.ndx + 1
    msrs := { mapping.msrs with
      varMtrrs := Function.update mapping.msrs.varMtrrs mapping.ndx mtrr } }

/-- The loop over blocks of `mtrrS` pages. -/
def mapAligned (memType : UInt32) (mtrrS vcnt : Nat) : Nat → Mapping → Bool × Mapping
  | 0, mapping => (true, mapping)
  | fuel + 1, mapping =>
      if mapping.numPages ≥ mtrrS then
        let mapping := mapping.mapPages memType mtrrS
        if mapping.ndx = vcnt then (false, mapping)
        else mapAligned memType mtrrS vcnt fuel mapping
      else (true, mapping)

/-- The loop over the pages that are left, in powers of two. -/
def mapRemaining (memType : UInt32) (vcnt : Nat) : Nat → Mapping → Bool × Mapping
  | 0, mapping => (true, mapping)
  | fuel + 1, mapping =>
      if mapping.numPages > 0 then
        let pagesInRange := 1 <<< (fls mapping.numPages - 1)
        let mapping := mapping.mapPages memType pagesInRange
        if mapping.ndx = vcnt then (false, mapping)
        else mapRemaining memType vcnt fuel mapping
      else (true, mapping)

/-- Set the type of a range of memory, and everything else to uncachable.  Without a result
the loop over the lower bits of `base` does not end. -/
def setMemType (base size memType : UInt32) (msrs : MtrrMsrs) : Option (Bool × MtrrMsrs) :=
  let msrs := { msrs with mtrrDefType := msrs.mtrrDefType &&& ~~~0x4ff }
  let msrs := disableLoop msrs.vcnt 0 msrs
  let numPages := (pageUp size >>> 12).toNat
  match zeroBits 32 base with
  | none => none
  | some i =>
      let mtrrS := mtrrSize (i - 12)
      let (done, mapping) := mapAligned memType mtrrS msrs.vcnt numPages ⟨base, numPages, 0, msrs⟩
      if done then
        let (done, mapping) := mapRemaining memType msrs.vcnt mapping.numPages mapping
        some (done, mapping.msrs)
      else some (false, mapping.msrs)

end SetMemType

section SaveRestore

/-- `MAX_VARIABLE_MTRRS`. -/
def maxVariableMtrrs : Nat := 16

/-- Enable or disable all memory type range registers. -/
def setAllMtrrs (enable : Bool) (msrs : MtrrMsrs) : MtrrMsrs :=
  { msrs with
    mtrrDefType := if enable then msrs.mtrrDefType ||| 0x800 else msrs.mtrrDefType &&& ~~~0x800 }

/-- The registers that `set_mtrrs_for_acmod` changes. -/
structure CacheRegisters where
  msrs : MtrrMsrs
  cr0 : UInt32
  cr4 : UInt32
  eflags : UInt32

/-- Map the module at `hdr`, whose header has the given size.  After a failure the caches, the
global pages and the interrupts stay disabled. -/
def setMtrrsForAcmod (hdr size : UInt32) (regs : CacheRegisters) :
    Option (Bool × CacheRegisters) :=
  let disabled : CacheRegisters :=
    { msrs := setAllMtrrs false regs.msrs
      cr0 := regs.cr0 &&& ~~~0x20000000 ||| 0x40000000
      cr4 := regs.cr4 &&& ~~~0x80
      eflags := regs.eflags &&& ~~~0x200 }
  (setMemType hdr (size * 4) mtrrTypeWrback.toUInt32 disabled.msrs).map fun (done, msrs) =>
    if done then (true, { regs with msrs := setAllMtrrs true msrs })
    else (false, { disabled with msrs := msrs })

def saveMtrrs (msrs : MtrrMsrs) : MtrrState where
  mtrrDefType := msrs.mtrrDefType
  varMtrrs :=
    (List.range (if msrs.vcnt > maxVariableMtrrs then maxVariableMtrrs else msrs.vcnt)).map
      msrs.varMtrrs

/-- The loop that writes the saved pairs from `ndx` on. -/
def restoreLoop : List VarMtrr → Nat → MtrrMsrs → MtrrMsrs
  | [], _, msrs => msrs
  | mtrr :: rest, ndx, msrs =>
      restoreLoop rest (ndx + 1)
        { msrs with varMtrrs := Function.update msrs.varMtrrs ndx mtrr }

/-- Without an argument the state that was saved last is restored, if there is one. -/
def restoreMtrrs (savedState gSavedMtrrs : Option MtrrState) (msrs : MtrrMsrs) : MtrrMsrs :=
  match savedState.or gSavedMtrrs with
  | none => msrs
  | some state =>
      { restoreLoop state.varMtrrs 0 (setAllMtrrs false msrs) with
        mtrrDefType := state.mtrrDefType }

end SaveRestore

end Sable
