import Sable.Boot
import Sable.Mtrrs
import Sable.Txt

/-!
# The kernel loader of `linux.c`

`expand_linux_image` checks a Linux image, finds a place for the initrd and for the two parts
of the kernel, copies them there and sets up the boot parameters.  The machine keeps the ranges
that are read through the pointers to the image, the calls of `memcpy` and the ranges that are
written through `e820_map`.  The loader context is a multiboot 1 one, the only kind that is
ever set up, so that nothing is done for EFI.
-/

namespace Sable

open ByteMemory BigEndian HaltingProgram

/-- A call of `memcpy`. -/
structure Copy where
  dst : UInt32
  src : UInt32
  len : UInt32
  deriving DecidableEq

structure LinuxMachine where
  mem : Mem
  reads : List Access
  copies : List Copy
  mapWrites : List Access

/-- Nothing is recorded yet. -/
def LinuxMachine.start (mem : Mem) : LinuxMachine :=
  ⟨mem, [], [], []⟩

section Accesses

def imageRead (addr : UInt32) (len : Nat) : Prog Halt LinuxMachine Unit :=
  Prog.modify fun m => { m with reads := ⟨addr, len⟩ :: m.reads }

def imageByte (addr : UInt32) : Prog Halt LinuxMachine UInt8 := do
  imageRead addr 1
  let m ← Prog.get
  return word8 m.mem addr 0

def imageHalf (addr : UInt32) : Prog Halt LinuxMachine UInt16 := do
  imageRead addr 2
  let m ← Prog.get
  return word16 m.mem addr 0

def imageWord (addr : UInt32) : Prog Halt LinuxMachine UInt32 := do
  imageRead addr 4
  let m ← Prog.get
  return word32 m.mem addr 0

def linuxStore (addr : UInt32) (bytes : List UInt8) : Prog Halt LinuxMachine Unit :=
  Prog.modify fun m => { m with mem := storeFrom m.mem addr bytes.length fun i => bytes.getD i 0 }

def linuxClear (addr : UInt32) (len : Nat) : Prog Halt LinuxMachine Unit :=
  Prog.modify fun m => { m with mem := storeFrom m.mem addr len fun _ => 0 }

def linuxCopy (dst src len : UInt32) : Prog Halt LinuxMachine Unit :=
  Prog.modify fun m =>
    { m with mem := copyBytes m.mem dst src len.toNat, copies := ⟨dst, src, len⟩ :: m.copies }

/-- Copy a part of the image. -/
def imageCopy (dst src len : UInt32) : Prog Halt LinuxMachine Unit := do
  imageRead src len.toNat
  linuxCopy dst src len

/-- Store a field of an entry of `e820_map`. -/
def mapStore (addr : UInt32) (bytes : List UInt8) : Prog Halt LinuxMachine Unit := do
  Prog.modify fun m => { m with mapWrites := ⟨addr, bytes.length⟩ :: m.mapWrites }
  linuxStore addr bytes

def le16 (half : UInt16) : List UInt8 :=
  [half.toUInt8, (half >>> 8).toUInt8]

def le64 (quad : UInt64) : List UInt8 :=
  le32 quad.toUInt32 ++ le32 (quad >>> 32).toUInt32

end Accesses

section LoaderContext

def mbiFlagAout : UInt32 := 0x10
def mbiFlagElf : UInt32 := 0x20
def mbiFlagDrives : UInt32 := 0x80
def mbiFlagBtldname : UInt32 := 0x200
def mbiFlagApm : UInt32 := 0x400
def mbiFlagVbe : UInt32 := 0x800

variable (mem : Mem) (mbi : UInt32)

/-- Whether there is multiboot information with the flag. -/
def mbiHas (flag : UInt32) : Bool :=
  mbi ≠ 0 ∧ word32 mem mbi 0 &&& flag ≠ 0

def getCmdline : UInt32 :=
  if mbiHas mem mbi mbiFlagCmdline then word32 mem mbi 16 else 0

/-- The address behind a string, if it ends. -/
def stringEnd (ptr : UInt32) : Option UInt32 :=
  (cstring mem ptr).map fun string => ptr + UInt32.ofNat string.length + 1

/-- The end so far, or the later one of what is present with the flag. -/
def laterEnd (flag : UInt32) (bound : Option UInt32) (last : UInt32) : Option UInt32 :=
  if word32 mem mbi 0 &&& flag ≠ 0 then bound.map (max last) else some last

/-- The end of the modules and of the strings that belong to them; the loop ends at a module
with the address zero. -/
def modulesEnd : Option UInt32 :=
  let count := word32 mem mbi 20
  let addr := word32 mem mbi 24
  ((List.range count.toNat).takeWhile fun i => addr + UInt32.ofNat (16 * i) ≠ 0).foldlM
    (fun last i => (stringEnd mem (word32 mem (addr + UInt32.ofNat (16 * i)) 8)).map (max last))
    (addr + count * 16)

/-- `get_mbi_mem_end_mb1`; there is no end if a string has none. -/
def getMbiMemEnd : Option UInt32 := do
  let last := mbi + 88
  let last ← laterEnd mem mbi mbiFlagCmdline (stringEnd mem (word32 mem mbi 16)) last
  let last ← laterEnd mem mbi mbiFlagMods (modulesEnd mem mbi) last
  let last ← laterEnd mem mbi mbiFlagAout
    (some (word32 mem mbi 36 + word32 mem mbi 28 + 4 + word32 mem mbi 32)) last
  let last ← laterEnd mem mbi mbiFlagElf
    (some (word32 mem mbi 36 + word32 mem mbi 28 * word32 mem mbi 32)) last
  let last ← laterEnd mem mbi mbiFlagMemmap (some (word32 mem mbi 48 + word32 mem mbi 44)) last
  let last ← laterEnd mem mbi mbiFlagDrives (some (word32 mem mbi 56 + word32 mem mbi 52)) last
  let last ← laterEnd mem mbi mbiFlagBtldname (stringEnd mem (word32 mem mbi 64)) last
  let last ← laterEnd mem mbi mbiFlagApm (some (word32 mem mbi 68 + 20)) last
  let last ← laterEnd mem mbi mbiFlagVbe
    (some (max (word32 mem mbi 72 + 512) (word32 mem mbi 76 + 256))) last
  return pageUp last

def getLoaderCtxEnd : Option UInt32 :=
  if mbi = 0 then some 0 else getMbiMemEnd mem mbi

def getLoaderMemLower : UInt32 :=
  if mbi = 0 then 0 else word32 mem mbi 4

def getLoaderMemUpper : UInt32 :=
  if mbi = 0 then 0 else word32 mem mbi 8

end LoaderContext

section Initrd

/-- The results of `get_highest_sized_ram`. -/
structure SizedRam where
  base : UInt64
  size : UInt64
  deriving DecidableEq

/-- The loop of `get_highest_sized_ram`: the last region that was large enough is kept. -/
def highestSizedRamLoop (size limit : UInt64) : List MemoryMap → SizedRam → SizedRam
  | [], lastFit => lastFit
  | entry :: rest, lastFit =>
      if entry.type = e820Ram then
        if entry.baseAddr + entry.length > limit then lastFit
        else if size ≤ entry.length then
          highestSizedRamLoop size limit rest ⟨entry.baseAddr, entry.length⟩
        else highestSizedRamLoop size limit rest lastFit
      else highestSizedRamLoop size limit rest lastFit

def getHighestSizedRam (table : E820Table) (size limit : UInt64) : SizedRam :=
  highestSizedRamLoop size limit table.entries ⟨0, 0⟩

def pageMask : UInt32 := 0xFFFFF000

/-- The memory limit of the command line, which is never above four gigabytes. -/
def memLimit (mem : UInt64) : UInt64 :=
  if mem > fourGigabytes ∨ mem = 0 then fourGigabytes else mem

/-- The highest place of the initrd in the region, unless a check fails. -/
def initrdInRam (ram : SizedRam) (initrdSize : UInt32) : Option UInt32 :=
  if ram.size = 0 then none
  else if initrdSize.toUInt64 > ram.size then none
  else if ram.base > 0xffffffff then none
  else if plusOverflow ram.base.toUInt32 (ram.size - initrdSize.toUInt64).toUInt32 then none
  else some ((ram.base + ram.size - initrdSize.toUInt64).toUInt32 &&& pageMask)

/-- The initrd should not exceed `initrd_addr_max`. -/
def initrdBelow (initrdAddrMax initrdSize initrdBase : UInt32) : Option UInt32 :=
  if initrdBase + initrdSize > initrdAddrMax then
    if initrdAddrMax < initrdSize then none
    else some ((initrdAddrMax - initrdSize) &&& pageMask)
  else some initrdBase

/-- The test for an overlap with the kernel image. -/
def overlapsImage (linuxImage linuxSize initrdBase initrdSize : UInt32) : Bool :=
  initrdBase < linuxImage + linuxSize ∧ linuxImage < initrdBase + initrdSize

/-- An initrd that overlaps the kernel image is moved below it. -/
def initrdBeside (ram : SizedRam) (linuxImage linuxSize initrdSize initrdBase : UInt32) :
    Option UInt32 :=
  if overlapsImage linuxImage linuxSize initrdBase initrdSize then
    let initrdBase := (linuxImage - initrdSize) &&& pageMask
    if initrdBase.toUInt64 < ram.base then none else some initrdBase
  else some initrdBase

end Initrd

/-- What is found on the kernel's command line. -/
structure LinuxOptions where
  vidMode : UInt16
  mem : UInt64

/-- The arguments of `expand_linux_image`. -/
structure LinuxArgs where
  linuxImage : UInt32
  linuxSize : UInt32
  initrdImage : UInt32
  initrdSize : UInt32
  entryPoint : UInt32
  isMeasuredLaunch : Bool

/-- What it finds in its surroundings: the address of the multiboot information, the end of
the loader itself, the page that it shares with the kernel, its memory map, and how it reads
a command line. -/
structure LinuxGlobals where
  mbi : UInt32
  tbootMemEnd : UInt32
  tbootShared : UInt32
  table : E820Table
  parseCmdline : Option (List UInt8) → LinuxOptions

/-- Where the two parts of the kernel go. -/
structure KernelPlacement where
  realModeBase : UInt32
  realModeSize : UInt32
  protectedModeBase : UInt32
  protectedModeSize : UInt32
  deriving DecidableEq

/-- The boot parameters are put behind the real-mode part. -/
def KernelPlacement.bootParams (placement : KernelPlacement) : UInt32 :=
  placement.realModeBase + placement.realModeSize

section Expand

variable (globals : LinuxGlobals) (args : LinuxArgs)

/-- The header of the image, at `KERNEL_HEADER_OFFSET`. -/
def LinuxArgs.hdr : UInt32 :=
  args.linuxImage + 0x1F1

/-- The size of `linux_kernel_header_t`. -/
def linuxHeaderSize : UInt32 := 119

def LinuxArgs.valid : Bool :=
  args.linuxImage ≠ 0 ∧ args.linuxSize ≠ 0 ∧ ¬ args.linuxSize < linuxHeaderSize ∧
    args.hdr ≠ 0 ∧ args.entryPoint ≠ 0

/-- Parse the command line, if there is one. -/
def linuxParseCmdline : Prog Halt LinuxMachine LinuxOptions := do
  let m ← Prog.get
  let cmdline := getCmdline m.mem globals.mbi
  if cmdline = 0 then return globals.parseCmdline none
  match cstring m.mem cmdline with
  | none => Prog.halt .spin
  | some string => return globals.parseCmdline (some string)

/-- A setup of zero sectors stands for the default size. -/
def defaultSects (hdr : UInt32) (setupSects : UInt8) : Prog Halt LinuxMachine Unit :=
  if setupSects = 0 then linuxStore hdr [4] else pure ()

/-- Check the header and set the fields that are the loader's. -/
def prepareHeader (hdr : UInt32) : Prog Halt LinuxMachine (Option LinuxOptions) := do
  let setupSects ← imageByte hdr
  defaultSects hdr setupSects
  let setupSects ← imageByte hdr
  if setupSects > 64 then return none
  let options ← linuxParseCmdline globals
  linuxStore (hdr + 9) (le16 options.vidMode)
  let header ← imageWord (hdr + 17)
  if header ≠ 0x53726448 then return none
  let version ← imageHalf (hdr + 21)
  if version < 0x0205 then return none
  linuxStore (hdr + 31) [0x71]
  let loadflags ← imageByte (hdr + 32)
  linuxStore (hdr + 32) [loadflags ||| 0x80]
  linuxStore (hdr + 51) (le16 0x8B00)
  return some options

/-- Find a place for the initrd and copy it there; without an initrd its pointer is kept. -/
def placeInitrd (options : LinuxOptions) : Prog Halt LinuxMachine (Option UInt32) := do
  if args.initrdSize > 0 then
    let ram := getHighestSizedRam globals.table args.initrdSize.toUInt64 (memLimit options.mem)
    match initrdInRam ram args.initrdSize with
    | none => return none
    | some initrdBase => do
        let initrdAddrMax ← imageWord (args.hdr + 59)
        match initrdBelow initrdAddrMax args.initrdSize initrdBase >>=
            initrdBeside ram args.linuxImage args.linuxSize args.initrdSize with
        | none => return none
        | some initrdBase => do
            linuxCopy initrdBase args.initrdImage args.initrdSize
            return some initrdBase
  else return some args.initrdImage

/-- All that is done before the kernel is placed. -/
def prepareLinuxImage : Prog Halt LinuxMachine Bool := do
  if ¬ args.valid then return false
  match ← prepareHeader globals args.hdr with
  | none => return false
  | some options => do
      match ← placeInitrd globals args options with
      | none => return false
      | some initrdBase => do
          linuxStore (args.hdr + 39) (le32 initrdBase)
          linuxStore (args.hdr + 43) (le32 args.initrdSize)
          return true

/-- The place of the real-mode part, which is kept away from the loader's own memory. -/
def realModeBase (mem : Mem) : UInt32 :=
  let base :=
    if mbiHas mem globals.mbi mbiFlagMemlimits then
      (getLoaderMemLower mem globals.mbi <<< 10) - 0x9100
    else 0x90000
  let base := if base < 0x69C00 then 0x69C00 else base
  if base > 0x90000 then 0x90000 else base

/-- The place of a relocatable kernel: behind the loader and its context, on a multiple of the
alignment. -/
def relocateKernel (hdr ctxEnd : UInt32) : Prog Halt LinuxMachine (Option UInt32) := do
  let start := if ctxEnd > globals.tbootMemEnd then ctxEnd else globals.tbootMemEnd
  let kernelAlignment ← imageWord (hdr + 63)
  if plusOverflow start (kernelAlignment - 1) then return none
  let base := (start + kernelAlignment - 1) &&& ~~~(kernelAlignment - 1)
  linuxStore (hdr + 35) (le32 base)
  return some base

/-- The place of any other kernel, which has to be loaded high. -/
def loadHigh (mem : Mem) (loadflags : UInt8) (protectedModeSize : UInt32) : Option UInt32 :=
  if loadflags &&& 1 ≠ 0 then
    if plusOverflow 0x100000 protectedModeSize then none
    else if mbiHas mem globals.mbi mbiFlagMemlimits ∧ (0x100000 : UInt32) + protectedModeSize >
        (getLoaderMemUpper mem globals.mbi <<< 10) + 0x100000 then none
    else some 0x100000
  else none

/-- `protected_mode_base`, unless a check fails. -/
def protectedModeBase (hdr protectedModeSize : UInt32) :
    Prog Halt LinuxMachine (Option UInt32) := do
  let m ← Prog.get
  let relocatableKernel ← imageByte (hdr + 67)
  if relocatableKernel ≠ 0 then
    match getLoaderCtxEnd m.mem globals.mbi with
    | none => Prog.halt .spin
    | some ctxEnd => relocateKernel globals hdr ctxEnd
  else
    let loadflags ← imageByte (hdr + 32)
    return loadHigh globals m.mem loadflags protectedModeSize

def placeKernel : Prog Halt LinuxMachine (Option KernelPlacement) := do
  let m ← Prog.get
  let setupSects ← imageByte args.hdr
  let realModeSize := (setupSects.toUInt32 + 1) * 512
  if realModeSize + 0x1000 > 0x8D00 then return none
  let protectedModeSize := args.linuxSize - realModeSize
  let base ← protectedModeBase globals args.hdr protectedModeSize
  return base.map fun base =>
    ⟨realModeBase globals m.mem, realModeSize, base, protectedModeSize⟩

/-- All the checks of `expand_linux_image`. -/
def placeLinuxImage : Prog Halt LinuxMachine (Option KernelPlacement) := do
  let prepared ← prepareLinuxImage globals args
  if prepared then placeKernel globals args else return none

/-- Copy the two parts of the kernel; the result is the header as it was before. -/
def loadParts (placement : KernelPlacement) : Prog Halt LinuxMachine (List UInt8) := do
  linuxStore (args.hdr + 55) (le32 (placement.realModeBase + 0x8D00))
  imageRead args.hdr 119
  let m ← Prog.get
  imageCopy placement.protectedModeBase (args.linuxImage + placement.realModeSize)
    placement.protectedModeSize
  imageCopy placement.realModeBase args.linuxImage placement.realModeSize
  return read (flat m.mem) args.hdr.toNat 119

/-- Copy the command line and put the header into the boot parameters. -/
def setBootParams (placement : KernelPlacement) (header : List UInt8) :
    Prog Halt LinuxMachine Unit := do
  let m ← Prog.get
  let kernelCmdline := getCmdline m.mem globals.mbi
  match cstring m.mem kernelCmdline with
  | none => Prog.halt .spin
  | some string => do
      linuxClear (placement.realModeBase + 0x8D00) 0x400
      linuxCopy (placement.realModeBase + 0x8D00) kernelCmdline
        (UInt32.ofNat (min string.length 0x3FF))
      linuxClear placement.bootParams 0x1000
      linuxStore (placement.bootParams + 0x1F1) header

/-- The kernel with its boot parameters, as far as they come from the image. -/
def loadLinuxImage : Prog Halt LinuxMachine (Option (KernelPlacement × List UInt8)) := do
  match ← placeLinuxImage globals args with
  | none => return none
  | some placement => do
      let header ← loadParts args placement
      setBootParams globals placement header
      return some (placement, header)

/-- The loop over the entries of the loader's memory map, with a bound on its rounds; a run
that needs more of them counts as one that does not end. -/
def copyMapLoop (e820Map last : UInt32) : Nat → UInt32 → Nat → Prog Halt LinuxMachine Nat
  | 0, _, _ => Prog.halt .spin
  | fuel + 1, p, i => do
      if p < last then
        let m ← Prog.get
        mapStore (e820Map + UInt32.ofNat (20 * i)) (le64 (word64 m.mem p 4))
        let m ← Prog.get
        mapStore (e820Map + UInt32.ofNat (20 * i) + 8) (le64 (word64 m.mem p 12))
        let m ← Prog.get
        mapStore (e820Map + UInt32.ofNat (20 * i) + 16) (le32 (word32 m.mem p 20))
        copyMapLoop e820Map last fuel (p + 24) (i + 1)
      else return i

/-- Copy the loader's memory map to the boot parameters. -/
def handOverMap (bootParams : UInt32) : Prog Halt LinuxMachine Unit := do
  let m ← Prog.get
  if mbiHas m.mem globals.mbi mbiFlagMemmap then
    let memmapStart := word32 m.mem globals.mbi 48
    let count ← copyMapLoop (bootParams + 0x2D0) (memmapStart + word32 m.mem globals.mbi 44)
      (2 ^ 32) memmapStart 0
    linuxStore (bootParams + 0x1E8) [UInt8.ofNat count]

/-- Set the fields for the screen and the address of the shared page. -/
def finishBootParams (bootParams : UInt32) : Prog Halt LinuxMachine Unit := do
  linuxStore (bootParams + 6) [3]
  linuxStore (bootParams + 14) [25]
  linuxStore (bootParams + 7) [80]
  linuxStore (bootParams + 16) (le16 16)
  linuxStore (bootParams + 15) [1]
  linuxStore (bootParams + 1) [24]
  if args.isMeasuredLaunch then
    linuxStore (bootParams + 0x58) (le64 globals.tbootShared.toUInt64)

/-- The result is the entry point, unless a check fails. -/
def expandLinuxImage : Prog Halt LinuxMachine (Option UInt32) := do
  match ← loadLinuxImage globals args with
  | none => return none
  | some (placement, header) => do
      handOverMap globals placement.bootParams
      finishBootParams globals args placement.bootParams
      return some (ofBe32 ((header.drop 35).take 4).reverse)

end Expand

end Sable
