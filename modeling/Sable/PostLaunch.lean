import Sable.E820
import Sable.SinitAcm

/-!
# The memory map after the measured launch

`verify_e820_map` of `verify.c`, the functions of `txt.c` around the ranges that
VT-d protects and around the regions of TXT, the module list of `loader.c`, and
`intel_post_launch`, which goes through all of them.
-/

namespace Sable

open ByteMemory HaltingProgram

section MemoryDescriptors

/-- `sinit_mdr_t`. -/
structure SinitMdr where
  base : UInt64
  length : UInt64
  memType : UInt8
  deriving DecidableEq

/-- `MDR_MEMTYPE_GOOD`. -/
def mdrMemtypeGood : UInt8 := 0

/-- The comparison of the inner loop of the sort. -/
def SinitMdr.precedes (mdr tmpEntry : SinitMdr) : Bool :=
  tmpEntry.base > mdr.base ∨ tmpEntry.base = mdr.base ∧ tmpEntry.length > mdr.length

/-- The inner loop of the sort, from descriptor `j` on. -/
def leastMdr : List SinitMdr → Nat → SinitMdr → Nat → SinitMdr × Nat
  | [], _, tmpEntry, pos => (tmpEntry, pos)
  | mdr :: mdrs, j, tmpEntry, pos =>
      if mdr.precedes tmpEntry then leastMdr mdrs (j + 1) mdr j
      else leastMdr mdrs (j + 1) tmpEntry pos

/-- The sort of `verify_e820_map`: a round exchanges the first of the remaining
descriptors with the least one, whose place is counted from the first. -/
def sortMdrs : Nat → List SinitMdr → List SinitMdr
  | 0, mdrs => mdrs
  | _ + 1, [] => []
  | count + 1, mdr :: mdrs =>
      let (tmpEntry, pos) := leastMdr mdrs 1 mdr 0
      if pos > 0 then tmpEntry :: sortMdrs count (mdrs.set (pos - 1) mdr)
      else mdr :: sortMdrs count mdrs

/-- The loop over the sorted descriptors, and the last gap. -/
def reserveGaps : List SinitMdr → UInt64 → E820Table → Bool × E820Table
  | [], base, table => e820ReserveRam table base (0xffffffffffffffff - base)
  | mdr :: mdrs, base, table =>
      if mdr.memType > mdrMemtypeGood then reserveGaps mdrs base table
      else
        let length := mdr.base - base
        if length > 0 then
          let (reserved, table) := e820ReserveRam table base length
          if reserved then reserveGaps mdrs (mdr.base + mdr.length) table
          else (false, table)
        else reserveGaps mdrs (mdr.base + mdr.length) table

/-- RAM outside the memory descriptors becomes reserved. -/
def verifyE820Map (table : E820Table) (mdrs : List SinitMdr) : Bool × E820Table :=
  if mdrs.length = 0 then (false, table)
  else reserveGaps (sortMdrs mdrs.length mdrs) 0 table

end MemoryDescriptors

section VtdPmrs

/-- The fields of `os_sinit_data_t` that `set_vtd_pmrs` stores. -/
structure VtdPmrs where
  loBase : UInt64
  loSize : UInt64
  hiBase : UInt64
  hiSize : UInt64
  deriving DecidableEq

/-- `~0x1fffffULL`. -/
def pmrMask : UInt64 := 0xffffffffffe00000

def setVtdPmrs (ranges : RamRanges) : VtdPmrs :=
  let minLoRam := ranges.minLoRam &&& pmrMask
  let minHiRam := ranges.minHiRam &&& pmrMask
  { loBase := minLoRam
    loSize := (ranges.maxLoRam - minLoRam) &&& pmrMask
    hiBase := minHiRam
    hiSize := (ranges.maxHiRam - minHiRam) &&& pmrMask }

/-- One half of `reserve_vtd_delta_mem`: reserve the memory from the end of a
protected range up to the end of the RAM. -/
def reserveDelta (table : E820Table) (maxRam limit : UInt64) : Bool × E820Table :=
  if maxRam ≠ limit then e820ReserveRam table limit (maxRam - limit) else (true, table)

def reserveVtdDeltaMem (pmrs : VtdPmrs) (table : E820Table) (ranges : RamRanges) :
    Bool × E820Table :=
  let (reserved, table) := reserveDelta table ranges.maxLoRam (pmrs.loBase + pmrs.loSize)
  if reserved then reserveDelta table ranges.maxHiRam (pmrs.hiBase + pmrs.hiSize)
  else (false, table)

/-- Whether the stored ranges are the ones that the table asks for. -/
def verifyVtdPmrs (pmrs : VtdPmrs) (table : E820Table) : Bool × E820Table :=
  match getRamRanges table with
  | (none, table) => (false, table)
  | (some ranges, table) =>
      let (reserved, table) := reserveVtdDeltaMem pmrs table ranges
      if reserved then (setVtdPmrs ranges = pmrs, table) else (false, table)

end VtdPmrs

/-- The start and the end of a `module_t`. -/
structure LoadedModule where
  modStart : UInt32
  modEnd : UInt32
  deriving DecidableEq

/-- What the steps after the launch work on: the copied memory map, the modules of
the loader, and the entries of the memory map that the kernel is given. -/
structure LaunchState where
  table : E820Table
  modules : List LoadedModule
  memmap : List MemoryMap

/-- What the steps after the launch read: the registers, the data that SINIT has
left in the heap, the end of the loader's own memory, whether `verify_txt_heap` and
`validate_mtrrs` succeed, and the memory with the modules. -/
structure LaunchPlatform where
  regs : TxtRegisters
  pmrs : VtdPmrs
  mdrs : List SinitMdr
  lctx : LoaderCtx
  tbootEnd : UInt32
  heapVerified : Bool
  mtrrsVerified : Bool
  mem : Mem

section Modules

/-- `remove_module` for the start of a module in the list, which is also the
result; zero stands for the first module. -/
def removeModule (modules : List LoadedModule) (modStart : UInt32) :
    UInt32 × List LoadedModule :=
  match modules with
  | [] => (0, [])
  | first :: rest =>
      if modStart = 0 then (first.modStart, rest)
      else (modStart, modules.eraseIdx (modules.findIdx fun m => m.modStart = modStart))

/-- The loop of `remove_txt_modules` down from module `i`. -/
def removeTxtLoop (mem : Mem) : Nat → List LoadedModule → List LoadedModule
  | 0, modules => modules
  | i + 1, modules =>
      match modules[i + 1]? with
      | none => modules
      | some m =>
          if isSinitAcmod mem m.modStart (m.modEnd - m.modStart) then
            let (removed, modules) := removeModule modules m.modStart
            if removed = 0 then modules else removeTxtLoop mem i modules
          else removeTxtLoop mem i modules

def removeTxtModules (mem : Mem) (lctx : LoaderCtx) (modules : List LoadedModule) :
    List LoadedModule :=
  if lctx.bad then modules else removeTxtLoop mem (modules.length - 1) modules

/-- Whether all modules lie in RAM. -/
def verifyModules (lctx : LoaderCtx) (table : E820Table) (modules : List LoadedModule) :
    Bool :=
  if lctx.bad then false
  else modules.all fun m =>
    e820CheckRegion table m.modStart.toUInt64 (m.modEnd - m.modStart).toUInt64 = e820Ram

end Modules

section PostLaunch

variable (platform : LaunchPlatform)

def tbootBaseAddr : UInt64 := 0x800000
def txtPrivConfigRegsBase : UInt64 := 0xfed20000

/-- `TXT_CONFIG_REGS_SIZE`. -/
def txtConfigRegsSize : UInt64 := 0xfed30000 - 0xfed20000

/-- `get_tboot_mem_end`, the end of the loader rounded up to a page. -/
def getTbootMemEnd : UInt32 :=
  (platform.tbootEnd + 0xfff) &&& 0xfffff000

/-- `txt_post_launch_verify_platform`, which returns zero for success. -/
def txtPostLaunchVerifyPlatform (table : E820Table) : Int × E820Table :=
  if platform.heapVerified = false then (1, table)
  else if platform.mtrrsVerified = false then (1, table)
  else
    let (verified, table) := verifyVtdPmrs platform.pmrs table
    if verified then (0, table) else (1, table)

def txtProtectMemRegions (table : E820Table) : Int × E820Table :=
  let (done, table) :=
    e820ProtectRegion table platform.regs.heapBase platform.regs.heapSize e820Reserved
  if done = false then (-1, table)
  else
    let (done, table) :=
      e820ProtectRegion table platform.regs.sinitBase platform.regs.sinitSize e820Reserved
    if done = false then (-1, table)
    else
      let (done, table) :=
        e820ProtectRegion table txtPrivConfigRegsBase txtConfigRegsSize e820Reserved
      if done = false then (-1, table)
      else
        let (done, table) := verifyE820Map table platform.mdrs
        if done then (0, table) else (-2, table)

/-- The kernel is given the copied table. -/
def replaceE820Map (lctx : LoaderCtx) : Prog Halt LaunchState Unit :=
  if lctx.bad then pure ()
  else if lctx.type = 1 then
    Prog.modify fun state => { state with memmap := state.table.entries }
  else Prog.halt .spin

/-- Run a function that changes the table. -/
def onTable {α : Type} (change : E820Table → α × E820Table) : Prog Halt LaunchState α :=
  Prog.step fun state =>
    ((change state.table).1, { state with table := (change state.table).2 })

/-- The errors of all steps behind the first one are only printed. -/
def intelPostLaunch : Prog Halt LaunchState Unit := do
  let err ← onTable (txtPostLaunchVerifyPlatform platform)
  if err ≠ 0 then Prog.halt .spin
  else do
    Prog.modify fun state =>
      { state with modules := removeTxtModules platform.mem platform.lctx state.modules }
    let _ ← onTable (txtProtectMemRegions platform)
    let state ← Prog.get
    let _ := verifyModules platform.lctx state.table state.modules
    let _ := e820CheckRegion state.table tbootBaseAddr
      (platform.tbootEnd.toUInt64 - tbootBaseAddr)
    let _ ← onTable fun table => e820ProtectRegion table tbootBaseAddr
      ((getTbootMemEnd platform).toUInt64 - tbootBaseAddr) e820Reserved
    replaceE820Map platform.lctx

end PostLaunch

end Sable
