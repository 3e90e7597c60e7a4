import Sable.ByteMemory
import Sable.Exceptions
import Sable.HaltingPrograms

/-!
# The choice of the SINIT module in `sinit_acm.c`

Pointers have 32 bits, and addresses behind the last one start again at zero.  A
pointer into an authenticated code module is kept as its offset from the module's
header.  The registers do not change while a module is looked for.
-/

namespace Sable

open ByteMemory HaltingProgram

section Words

/-- Memory behind the last address starts again at zero. -/
def flat (mem : Mem) : Mem :=
  fun a => mem (a % 2 ^ 32)

variable (mem : Mem) (addr : UInt32) (offset : Nat)

def word8 : UInt8 :=
  flat mem (addr.toNat + offset)

def word16 : UInt16 :=
  (word8 mem addr (offset + 1)).toUInt16 <<< 8 ||| (word8 mem addr offset).toUInt16

def word32 : UInt32 :=
  load32 (flat mem) (addr.toNat + offset)

def word64 : UInt64 :=
  (word32 mem addr (offset + 4)).toUInt64 <<< 32 ||| (word32 mem addr offset).toUInt64

end Words

/-- `plus_overflow_u32`. -/
def plusOverflow (x y : UInt32) : Bool :=
  0xffffffff - x < y

/-- `multiply_overflow_u32`. -/
def multiplyOverflow (x y : UInt32) : Bool :=
  if x > 0 then 0xffffffff / x < y else false

/-- `memcpy`, which also copies between overlapping ranges. -/
def copyBytes (mem : Mem) (dst src : UInt32) (length : Nat) : Mem :=
  fun a =>
    if (a + 2 ^ 32 - dst.toNat) % 2 ^ 32 < length then
      flat mem (src.toNat + (a + 2 ^ 32 - dst.toNat) % 2 ^ 32)
    else mem a

section AcmHeader

variable (mem : Mem) (hdr : UInt32)

def AcmHdr.moduleType : UInt16 := word16 mem hdr 0
def AcmHdr.headerLen : UInt32 := word32 mem hdr 4
def AcmHdr.flags : UInt16 := word16 mem hdr 14
def AcmHdr.moduleVendor : UInt32 := word32 mem hdr 16
def AcmHdr.date : UInt32 := word32 mem hdr 20
def AcmHdr.size : UInt32 := word32 mem hdr 24
def AcmHdr.gdtLimit : UInt32 := word32 mem hdr 40
def AcmHdr.segSel : UInt32 := word32 mem hdr 48
def AcmHdr.entryPoint : UInt32 := word32 mem hdr 52
def AcmHdr.scratchSize : UInt32 := word32 mem hdr 124

/-- `sizeof(acm_hdr_t)`. -/
def acmHdrSize : UInt32 := 1216

/-- `sizeof(acm_info_table_t)`. -/
def acmInfoTableSize : UInt32 := 48

/-- `ACM_UUID_V3`. -/
def acmUuidV3 : List UInt8 :=
  [0xaa, 0x3a, 0xc0, 0x7f, 0xa7, 0x46, 0xdb, 0x18,
    0x2e, 0xac, 0x69, 0x8f, 0x8d, 0x41, 0x7f, 0x5a]

/-- `get_acmod_info_table`. -/
def getAcmodInfoTable : Option Nat :=
  let headerLen := AcmHdr.headerLen mem hdr
  let scratchSize := AcmHdr.scratchSize mem hdr
  if plusOverflow headerLen scratchSize then none
  else if multiplyOverflow (headerLen + scratchSize) 4 then none
  else
    let userAreaOff := (headerLen + scratchSize) * 4
    if plusOverflow userAreaOff acmInfoTableSize then none
    else if userAreaOff + acmInfoTableSize > AcmHdr.size mem hdr * 4 then none
    else if plusOverflow hdr userAreaOff then none
    else some userAreaOff.toNat

/-- `is_acmod`, with the type of the module if it is one. -/
def isAcmod (acmodSize : UInt32) : Option UInt8 :=
  if acmodSize < acmHdrSize then none
  else if multiplyOverflow (AcmHdr.size mem hdr) 4 then none
  else if acmodSize ≠ AcmHdr.size mem hdr * 4 then none
  else if AcmHdr.moduleType mem hdr ≠ 2 ∨ AcmHdr.moduleVendor mem hdr ≠ 0x8086 then none
  else (getAcmodInfoTable mem hdr).bind fun infoTable =>
    if read (flat mem) (hdr.toNat + infoTable) 16 ≠ acmUuidV3 then none
    else if word8 mem hdr (infoTable + 17) < 3 then none
    else some (word8 mem hdr (infoTable + 16))

/-- `is_sinit_acmod`, which asks for `ACM_CHIPSET_TYPE_SINIT`. -/
def isSinitAcmod (acmodSize : UInt32) : Bool :=
  isAcmod mem hdr acmodSize = some 1

/-- A list of identifiers of the given size that starts at an offset given by the
information table. -/
def getIdList (idListOff idSize : UInt32) : Option Nat :=
  let size := AcmHdr.size mem hdr * 4
  if plusOverflow idListOff idSize then none
  else if idListOff + idSize > size then none
  else if plusOverflow hdr idListOff then none
  else
    let count := word32 mem hdr idListOff.toNat
    if multiplyOverflow count idSize then none
    else if plusOverflow (idListOff + idSize) (count * idSize) then none
    else if idListOff + idSize + count * idSize > size then none
    else some idListOff.toNat

def getAcmodChipsetList : Option Nat :=
  (getAcmodInfoTable mem hdr).bind fun infoTable =>
    getIdList mem hdr (word32 mem hdr (infoTable + 20)) 16

def getAcmodProcessorList : Option Nat :=
  (getAcmodInfoTable mem hdr).bind fun infoTable =>
    getIdList mem hdr (word32 mem hdr (infoTable + 40)) 24

end AcmHeader

/-- The registers that decide about a module: the public configuration registers,
the family of the processor with its platform, and the largest module that
`get_parameters` allows, if it succeeds. -/
structure TxtRegisters where
  didvid : UInt64
  verFsbif : UInt64
  verQpiif : UInt64
  fms : UInt32
  platformId : UInt64
  sinitBase : UInt64
  sinitSize : UInt64
  heapBase : UInt64
  heapSize : UInt64
  acmMaxSize : Option UInt32
  deriving DecidableEq

section Platform

variable (regs : TxtRegisters) (mem : Mem)

def TxtRegisters.vendorId : UInt16 := regs.didvid.toUInt16
def TxtRegisters.deviceId : UInt16 := (regs.didvid >>> 16).toUInt16
def TxtRegisters.revisionId : UInt16 := (regs.didvid >>> 32).toUInt16

/-- The bit `prod_fused` of `VER.FSBIF`, or of `VER.QPIIF` where that is to be used. -/
def TxtRegisters.prodFused : Bool :=
  let low := regs.verFsbif &&& 0xffffffff
  let ver := if low = 0xffffffff ∨ low = 0 then regs.verQpiif else regs.verFsbif
  ver &&& 0x80000000 ≠ 0

def chipsetMatches (hdr : UInt32) (id : Nat) : Bool :=
  let revisionId := word16 mem hdr (id + 8)
  regs.vendorId = word16 mem hdr (id + 4) ∧ regs.deviceId = word16 mem hdr (id + 6) ∧
    (word32 mem hdr id &&& 1 = 0 ∧ regs.revisionId = revisionId ∨
      word32 mem hdr id &&& 1 = 1 ∧ regs.revisionId &&& revisionId ≠ 0)

def processorMatches (hdr : UInt32) (id : Nat) : Bool :=
  word32 mem hdr id = regs.fms &&& word32 mem hdr (id + 4) ∧
    word64 mem hdr (id + 8) = regs.platformId &&& word64 mem hdr (id + 16)

/-- Whether some entry of the list of chipsets is the one at hand. -/
def matchesChipset (hdr : UInt32) (list : Nat) : Bool :=
  (List.range (word32 mem hdr list).toNat).any
    fun i => chipsetMatches regs mem hdr (list + 4 + 16 * i)

/-- Whether some entry of the list of processors is the one at hand. -/
def matchesProcessor (hdr : UInt32) (list : Nat) : Bool :=
  (List.range (word32 mem hdr list).toNat).any
    fun i => processorMatches regs mem hdr (list + 4 + 24 * i)

def doesAcmodMatchPlatform (hdr : UInt32) : Bool :=
  if (regs.prodFused = true) ≠ (AcmHdr.flags mem hdr &&& 0x8000 = 0) then false
  else (getAcmodChipsetList mem hdr).any fun list =>
    if matchesChipset regs mem hdr list then
      (getAcmodInfoTable mem hdr).any fun infoTable =>
        if word8 mem hdr (infoTable + 17) ≥ 4 then
          (getAcmodProcessorList mem hdr).any (matchesProcessor regs mem hdr)
        else true
    else false

/-- The size of the module that the firmware has loaded, in the heap. -/
def biosSinitSize : UInt32 :=
  word32 mem regs.heapBase.toUInt32 12

/-- The result is the null pointer if there is no module that fits. -/
def getBiosSinit (sinitRegionBase : UInt32) : UInt32 :=
  if sinitRegionBase = 0 then 0
  else if biosSinitSize regs mem = 0 then 0
  else if isSinitAcmod mem sinitRegionBase (biosSinitSize regs mem) = false ∨
      doesAcmodMatchPlatform regs mem sinitRegionBase = false then 0
  else sinitRegionBase

/-- The module to use, and the memory with a module copied to its place. -/
def copySinit (sinit : UInt32) : UInt32 × Mem :=
  let sinitRegionBase := regs.sinitBase.toUInt32
  let sinitRegionSize := regs.sinitSize.toUInt32
  let biosSinit := getBiosSinit regs mem sinitRegionBase
  if biosSinit ≠ 0 ∧ (sinit = 0 ∨ AcmHdr.date mem biosSinit ≥ AcmHdr.date mem sinit) then
    (biosSinit, mem)
  else if sinit = 0 then (0, mem)
  else if multiplyOverflow (AcmHdr.size mem sinit) 4 then (0, mem)
  else if AcmHdr.size mem sinit * 4 > sinitRegionSize then (0, mem)
  else if sinitRegionBase = 0 then (0, mem)
  else (sinitRegionBase,
    copyBytes mem sinitRegionBase sinit (AcmHdr.size mem sinit * 4).toNat)

def verifyAcmod (acmHdr : UInt32) : Bool :=
  let size := AcmHdr.size mem acmHdr * 4
  let segSel := AcmHdr.segSel mem acmHdr
  if acmHdr &&& 0xfff ≠ 0 then false
  else if size = 0 ∨ size % 64 ≠ 0 then false
  else regs.acmMaxSize.any fun acmMaxSize =>
    if size > acmMaxSize then false
    else if AcmHdr.entryPoint mem acmHdr ≥ size then false
    else if plusOverflow segSel 8 then false
    else if segSel = 0 ∨ segSel &&& 7 ≠ 0 ∨ segSel + 8 > AcmHdr.gdtLimit mem acmHdr then false
    else (getAcmodInfoTable mem acmHdr).any fun infoTable =>
      if word32 mem acmHdr (infoTable + 28) > 0x20001 then false
      else if (0x227 &&& 3) &&& (word32 mem acmHdr (infoTable + 32) &&& 3) = 0 then false
      else word32 mem acmHdr (infoTable + 24) ≥ 4

end Platform

/-- Memory and `g_sinit`. -/
structure SinitState where
  mem : Mem
  gSinit : UInt32

section Prepare

variable (regs : TxtRegisters) (mem : Mem)

def modsCount (m : UInt32) : UInt32 := word32 mem m 20
def modsAddr (m : UInt32) : UInt32 := word32 mem m 24

/-- `get_module_mb1` for a module that exists. -/
def moduleAddr (m : UInt32) (i : Nat) : UInt32 :=
  modsAddr mem m + UInt32.ofNat i * 16

def modStart (m : UInt32) (i : Nat) : UInt32 := word32 mem (moduleAddr mem m i) 0
def modEnd (m : UInt32) (i : Nat) : UInt32 := word32 mem (moduleAddr mem m i) 4

/-- The checks that a module of the list has to pass. -/
def moduleMatches (m : UInt32) (i : Nat) : Bool :=
  isSinitAcmod mem (modStart mem m i) (modEnd mem m i - modStart mem m i) ∧
    doesAcmodMatchPlatform regs mem (modStart mem m i)

/-- The loop of `prepare_sinit_acm` down from module `i`; it ends with the module
it has looked at last. -/
def lastModule (m : UInt32) : Nat → UInt32 → UInt32
  | 0, base2 => base2
  | i + 1, _ =>
      if moduleMatches regs mem m (i + 1) then modStart mem m (i + 1)
      else lastModule m i (modStart mem m (i + 1))

/-- An empty list of modules makes the loop start far behind its end, and the
pointer to the module is null. -/
def prepareSinitAcm (m : UInt32) : Prog Halt SinitState Bool := do
  let state ← Prog.get
  if state.gSinit ≠ 0 then pure true
  else if modsCount state.mem m = 0 then Prog.halt .fault
  else do
    let base2 := lastModule regs state.mem m ((modsCount state.mem m).toNat - 1) 0
    let (gSinit, mem) := copySinit regs state.mem base2
    Prog.modify fun _ => ⟨mem, gSinit⟩
    if gSinit = 0 then pure false else pure (verifyAcmod regs mem gSinit)

end Prepare

end Sable
