import Sable.Heap
import Sable.PostLaunch

/-!
# The heap of the measured launch in `txt.c`

Before the launch the loader lays out its two blocks behind the data of the firmware:
one for the measured environment and one for SINIT, whose size depends on the version
that the SINIT module supports.
-/

namespace Sable

open ByteMemory BigEndian HaltingProgram

section Stores

/-- Replace `len` bytes from an address on; behind the last address memory starts again. -/
def storeFrom (mem : Mem) (addr : UInt32) (len : Nat) (bytes : Nat → UInt8) : Mem :=
  fun a =>
    if (a + 2 ^ 32 - addr.toNat) % 2 ^ 32 < len then
      bytes ((a + 2 ^ 32 - addr.toNat) % 2 ^ 32)
    else mem a

def heapStore (addr : UInt32) (len : Nat) (bytes : Nat → UInt8) : Prog Halt HeapMachine Unit :=
  Prog.modify fun m =>
    { m with mem := storeFrom m.mem addr len bytes, writes := ⟨addr, len⟩ :: m.writes }

def heapStoreBytes (addr : UInt32) (bytes : List UInt8) : Prog Halt HeapMachine Unit :=
  heapStore addr bytes.length fun i => bytes.getD i 0

def heapStoreWord (addr : UInt32) (word : UInt32) : Prog Halt HeapMachine Unit :=
  heapStoreBytes addr (le32 word)

def heapStoreQuad (addr : UInt32) (quad : UInt64) : Prog Halt HeapMachine Unit :=
  heapStoreBytes addr (le32 quad.toUInt32 ++ le32 (quad >>> 32).toUInt32)

/-- `memset` with zeros. -/
def heapClear (addr len : UInt32) : Prog Halt HeapMachine Unit :=
  heapStore addr len.toNat fun _ => 0

/-- Store the size in front of a block. -/
def storeSize (start : UInt32) (size : UInt64) : Prog Halt HeapMachine Unit := do
  heapStoreQuad start size
  Prog.modify fun m => { m with blocks := ⟨start, size⟩ :: m.blocks }

end Stores

/-- What the initialisation of the heap reads elsewhere: the registers of the heap, the
parameters `ptab_base` and `sinit`, the layout of the loader's own memory, the miscellaneous
register, the copied memory map, the root pointer of ACPI and the place of its copy. -/
structure HeapPlatform where
  heapBase : UInt64
  heapSize : UInt64
  ptabBase : UInt32
  sinit : UInt32
  mleStart : UInt32
  mleEnd : UInt32
  mleHdr : UInt32
  miscEnable : UInt64
  table : E820Table
  rsdp : UInt32
  gRsdp : UInt32

section SinitModule

variable (mem : Mem) (hdr : UInt32)

def getSupportedOsSinitDataVer : UInt32 :=
  match getAcmodInfoTable mem hdr with
  | none => 0
  | some infoTable => word32 mem hdr (infoTable + 24)

def getSinitCapabilities : UInt32 :=
  match getAcmodInfoTable mem hdr with
  | none => 0
  | some infoTable =>
      if word8 mem hdr (infoTable + 17) < 3 then 0 else word32 mem hdr (infoTable + 32)

end SinitModule

section Capabilities

def capRlpWakeGetsec : UInt32 := 0x1
def capRlpWakeMonitor : UInt32 := 0x2
def capEcxPgtbl : UInt32 := 0x4
def capPcrMapNoLegacy : UInt32 := 0x10
def capPcrMapDa : UInt32 := 0x20
def capTcgEventLogFormat : UInt32 := 0x200

/-- `MLE_HDR_CAPS`. -/
def mleHdrCaps : UInt32 := 0x227

/-- Set a bit field of a word in the heap. -/
def setCap (addr cap : UInt32) : Prog Halt HeapMachine Unit := do
  let raw ← heapWord addr
  heapStoreWord addr (raw ||| cap)

def clearCap (addr cap : UInt32) : Prog Halt HeapMachine Unit := do
  let raw ← heapWord addr
  heapStoreWord addr (raw &&& ~~~cap)

end Capabilities

variable (platform : HeapPlatform)

section EventLog

/-- The place of `event_log_buffer` in `os_mle_data_t`. -/
def eventLogBuffer : UInt32 := 4 + 268 + 4 + 4 + 64 * 1024

def initEventLog : Prog Halt HeapMachine UInt32 := do
  let osMleData ← getOsMleDataStart (getTxtHeap platform.heapBase)
  let elog := osMleData + eventLogBuffer
  heapStoreBytes elog evtlogSignature
  heapStoreBytes (elog + 32) [1]
  heapStoreBytes (elog + 33) [0]
  heapStoreBytes (elog + 34) [1]
  heapStoreBytes (elog + 35) [0]
  heapStoreWord (elog + 36) maxEventLogSize
  heapStoreWord (elog + 40) 48
  heapStoreWord (elog + 44) 48
  return elog

def initOsSinitExtData (elts : UInt32) : Prog Halt HeapMachine Unit := do
  let elog ← initEventLog platform
  heapStoreQuad (elts + 8) elog.toUInt64
  heapStoreWord elts 5
  heapStoreWord (elts + 4) (8 + 8)
  let size ← heapWord (elts + 4)
  let elt := elts + size
  heapStoreWord elt 0
  heapStoreWord (elt + 4) 8

end EventLog

section Initialisation

/-- The block for the measured environment. -/
def initOsMleData (txtHeap : UInt32) : Prog Halt HeapMachine Unit := do
  let osMleData ← getOsMleDataStart txtHeap
  storeSize (osMleData - 8) (osMleDataSize + 8)
  heapClear osMleData osMleDataSize.toUInt32
  heapStoreWord osMleData 3
  heapStoreWord (osMleData + 272) 0
  heapStoreWord (osMleData + 276) platform.miscEnable.toUInt32

/-- The block for SINIT up to the place of the loader; the result is the address of the
data. -/
def initOsSinitData (txtHeap version : UInt32) : Prog Halt HeapMachine UInt32 := do
  let osSinitData ← getOsSinitDataStart txtHeap
  storeSize (osSinitData - 8) (calcOsSinitDataSize version)
  let size ← heapQuad (osSinitData - 8)
  heapClear osSinitData size.toUInt32
  heapStoreWord osSinitData version
  heapStoreQuad (osSinitData + 8) platform.ptabBase.toUInt64
  heapStoreQuad (osSinitData + 16) (platform.mleEnd - platform.mleStart).toUInt64
  heapStoreQuad (osSinitData + 24) (platform.mleHdr.toUInt64 - platform.mleStart.toUInt64)
  return osSinitData

def storeVtdPmrs (osSinitData : UInt32) (ranges : RamRanges) : Prog Halt HeapMachine Unit := do
  let pmrs := setVtdPmrs ranges
  heapStoreQuad (osSinitData + 32) pmrs.loBase
  heapStoreQuad (osSinitData + 40) pmrs.loSize
  heapStoreQuad (osSinitData + 48) pmrs.hiBase
  heapStoreQuad (osSinitData + 56) pmrs.hiSize

/-- The way in which the other processors wake up; `false` if there is none. -/
def chooseWakeup (caps sinitCaps : UInt32) : Prog Halt HeapMachine Bool := do
  heapStoreWord caps (mleHdrCaps &&&
    ~~~(capRlpWakeGetsec ||| capRlpWakeMonitor ||| capPcrMapDa))
  if sinitCaps &&& capRlpWakeMonitor ≠ 0 then
    setCap caps capRlpWakeMonitor
    return true
  else if sinitCaps &&& capRlpWakeGetsec ≠ 0 then
    setCap caps capRlpWakeGetsec
    return true
  else return false

/-- The root pointer of ACPI; without one the loader never goes on. -/
def storeRsdp (osSinitData version : UInt32) : Prog Halt HeapMachine Unit := do
  if platform.rsdp = 0 then Prog.halt .spin
  else if version < 6 then
    let m ← Prog.get
    heapStoreQuad (osSinitData + 84) (word32 m.mem platform.rsdp 16).toUInt64
  else
    Prog.modify fun m => { m with mem := copyBytes m.mem platform.gRsdp platform.rsdp 36 }
    heapStoreQuad (osSinitData + 84) platform.gRsdp.toUInt64

/-- The mapping of the platform configuration registers; `false` if there is none. -/
def choosePcrMap (caps sinitCaps : UInt32) : Prog Halt HeapMachine Bool := do
  setCap caps capPcrMapNoLegacy
  if sinitCaps &&& capPcrMapNoLegacy = 0 then
    clearCap caps capPcrMapNoLegacy
    return true
  else if sinitCaps &&& capPcrMapDa ≠ 0 then
    setCap caps capPcrMapDa
    return true
  else return false

/-- The rest of the block for SINIT; `false` if SINIT cannot be used. -/
def finishOsSinitData (osSinitData version : UInt32) (ranges : RamRanges) :
    Prog Halt HeapMachine Bool := do
  storeVtdPmrs osSinitData ranges
  let m ← Prog.get
  let sinitCaps := getSinitCapabilities m.mem platform.sinit
  let caps := osSinitData + 80
  let woken ← chooseWakeup caps sinitCaps
  if ¬ woken then return false
  if sinitCaps &&& capTcgEventLogFormat ≠ 0 then setCap caps capTcgEventLogFormat
  clearCap caps capEcxPgtbl
  storeRsdp platform osSinitData version
  let mapped ← choosePcrMap caps sinitCaps
  if ¬ mapped then return false
  let stored ← heapWord osSinitData
  if stored ≥ 6 then initOsSinitExtData platform (osSinitData + 92)
  return true

/-- The result is `none` for the null pointer.  The table that `get_ram_ranges` leaves behind
is not used. -/
def initTxtHeap : Prog Halt HeapMachine (Option UInt32) := do
  let txtHeap := getTxtHeap platform.heapBase
  let verified ← verifyTxtHeap platform.heapBase platform.heapSize txtHeap true
  if ¬ verified then return none
  initOsMleData platform txtHeap
  let m ← Prog.get
  let supported := getSupportedOsSinitDataVer m.mem platform.sinit
  if supported < minOsSinitDataVer then return none
  let version := if supported > maxOsSinitDataVer then maxOsSinitDataVer else supported
  let osSinitData ← initOsSinitData platform txtHeap version
  match (getRamRanges platform.table).1 with
  | none => return none
  | some ranges => do
      let finished ← finishOsSinitData platform osSinitData version ranges
      if ¬ finished then return none
      return some txtHeap

end Initialisation

end Sable
