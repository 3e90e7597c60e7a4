import Sable.SinitAcm

/-!
# The TXT heap of `heap.c`

The heap consists of four blocks, each behind a word with its size: the data of the
firmware, of the loader for the measured environment, of the loader for SINIT and of
SINIT.  The place of a block comes from the sizes of the blocks before it.  The
machine keeps the ranges that are read and written through heap pointers.
-/

namespace Sable

open ByteMemory BigEndian HaltingProgram

/-- Bytes from an address on; behind the last address they start again at zero. -/
structure Access where
  addr : UInt32
  len : Nat
  deriving DecidableEq

/-- The address is one of the accessed ones. -/
def Access.Touches (access : Access) (a : Nat) : Prop :=
  ∃ i < access.len, a = (access.addr.toNat + i) % 2 ^ 32

/-- A block of the heap: where its size is found, and its size. -/
structure HeapBlock where
  start : UInt32
  size : UInt64
  deriving DecidableEq

/-- Memory with a record of the accesses through heap pointers and of the blocks whose sizes
were written. -/
structure HeapMachine where
  mem : Mem
  reads : List Access
  writes : List Access
  blocks : List HeapBlock

/-- Nothing is recorded yet. -/
def HeapMachine.start (mem : Mem) : HeapMachine :=
  ⟨mem, [], [], []⟩

section Accesses

def heapRead (addr : UInt32) (len : Nat) : Prog Halt HeapMachine Unit :=
  Prog.modify fun m => { m with reads := ⟨addr, len⟩ :: m.reads }

def heapByte (addr : UInt32) : Prog Halt HeapMachine UInt8 := do
  heapRead addr 1
  let m ← Prog.get
  return word8 m.mem addr 0

def heapWord (addr : UInt32) : Prog Halt HeapMachine UInt32 := do
  heapRead addr 4
  let m ← Prog.get
  return word32 m.mem addr 0

def heapQuad (addr : UInt32) : Prog Halt HeapMachine UInt64 := do
  heapRead addr 8
  let m ← Prog.get
  return word64 m.mem addr 0

end Accesses

section Blocks

variable (heap : UInt32)

def getBiosDataSize : Prog Halt HeapMachine UInt64 :=
  heapQuad heap

def getBiosDataStart : UInt32 :=
  heap + 8

def getOsMleDataSize : Prog Halt HeapMachine UInt64 := do
  let bios ← getBiosDataSize heap
  heapQuad (heap + bios.toUInt32)

def getOsMleDataStart : Prog Halt HeapMachine UInt32 := do
  let bios ← getBiosDataSize heap
  return heap + bios.toUInt32 + 8

def getOsSinitDataSize : Prog Halt HeapMachine UInt64 := do
  let bios ← getBiosDataSize heap
  let osMle ← getOsMleDataSize heap
  heapQuad (heap + bios.toUInt32 + osMle.toUInt32)

def getOsSinitDataStart : Prog Halt HeapMachine UInt32 := do
  let bios ← getBiosDataSize heap
  let osMle ← getOsMleDataSize heap
  return heap + bios.toUInt32 + osMle.toUInt32 + 8

def getSinitMleDataSize : Prog Halt HeapMachine UInt64 := do
  let bios ← getBiosDataSize heap
  let osMle ← getOsMleDataSize heap
  let osSinit ← getOsSinitDataSize heap
  heapQuad (heap + bios.toUInt32 + osMle.toUInt32 + osSinit.toUInt32)

def getSinitMleDataStart : Prog Halt HeapMachine UInt32 := do
  let bios ← getBiosDataSize heap
  let osMle ← getOsMleDataSize heap
  let osSinit ← getOsSinitDataSize heap
  return heap + bios.toUInt32 + osMle.toUInt32 + osSinit.toUInt32 + 8

end Blocks

section Elements

/-- `EVTLOG_SIGNATURE`. -/
def evtlogSignature : List UInt8 :=
  [0x54, 0x58, 0x54, 0x20, 0x45, 0x76, 0x65, 0x6e, 0x74, 0x20,
    0x43, 0x6f, 0x6e, 0x74, 0x61, 0x69, 0x6e, 0x65, 0x72, 0]

/-- `MAX_EVENT_LOG_SIZE`. -/
def maxEventLogSize : UInt32 := 5 * 4 * 1024

/-- `memcmp` with a constant; the result is whether the bytes differ. -/
def heapCompare (addr : UInt32) : List UInt8 → Prog Halt HeapMachine Bool
  | [] => pure false
  | byte :: rest => do
      let value ← heapByte addr
      if value ≠ byte then return true
      heapCompare (addr + 1) rest

def verifyEvtLog (elog : UInt32) : Prog Halt HeapMachine Bool := do
  if elog = 0 then return false
  let differs ← heapCompare elog evtlogSignature
  if differs then return false
  let size ← heapWord (elog + 36)
  if size ≠ maxEventLogSize then return false
  let pcrEventsOffset ← heapWord (elog + 40)
  if pcrEventsOffset < 48 then return false
  let nextEventOffset ← heapWord (elog + 44)
  if nextEventOffset < pcrEventsOffset ∨ nextEventOffset > size then return false
  return true

def verifyBiosSpecVerElt (elt : UInt32) : Prog Halt HeapMachine Bool := do
  let size ← heapWord (elt + 4)
  return size = 8 + 6

/-- The loop over the addresses of an ACM element. -/
def acmAddrsLoop (addrs : UInt32) : Nat → Prog Halt HeapMachine Bool
  | 0 => pure true
  | count + 1 => do
      let addr ← heapQuad addrs
      if addr = 0 then return false
      if addr ≥ 0x100000000 then return false
      acmAddrsLoop (addrs + 8) count

def verifyAcmElt (elt : UInt32) : Prog Halt HeapMachine Bool := do
  let size ← heapWord (elt + 4)
  let numAcms ← heapWord (elt + 8)
  if size ≠ 8 + 4 + numAcms * 8 then return false
  acmAddrsLoop (elt + 12) numAcms.toNat

def verifyCustomElt (elt : UInt32) : Prog Halt HeapMachine Bool := do
  let size ← heapWord (elt + 4)
  return ¬ size < 8 + 16

def verifyEvtLogPtrElt (elt : UInt32) : Prog Halt HeapMachine Bool := do
  let size ← heapWord (elt + 4)
  if size ≠ 8 + 8 then return false
  let eventLogPhysAddr ← heapQuad (elt + 8)
  verifyEvtLog eventLogPhysAddr.toUInt32

def verifyEvtLogPtrElt2 (elt : UInt32) : Prog Halt HeapMachine Bool :=
  pure (elt ≠ 0)

/-- One element; an element of an unknown type is accepted. -/
def verifyElt (type elt : UInt32) : Prog Halt HeapMachine Bool :=
  if type = 1 then verifyBiosSpecVerElt elt
  else if type = 2 then verifyAcmElt elt
  else if type = 4 then verifyCustomElt elt
  else if type = 5 then verifyEvtLogPtrElt elt
  else if type = 7 then verifyEvtLogPtrElt2 elt
  else pure true

/-- The loop takes at least one byte in each iteration. -/
def extDataEltsLoop : Nat → UInt32 → UInt32 → Prog Halt HeapMachine Bool
  | 0, _, _ => pure false
  | fuel + 1, elt, eltsSize => do
      if eltsSize < 8 then return false
      let size ← heapWord (elt + 4)
      if eltsSize < size ∨ size = 0 then return false
      let type ← heapWord elt
      if type = 0 then return true
      let good ← verifyElt type elt
      if ¬ good then return false
      extDataEltsLoop fuel (elt + size) (eltsSize - size)

def verifyExtDataElts (elts eltsSize : UInt32) : Prog Halt HeapMachine Bool :=
  extDataEltsLoop (eltsSize.toNat + 1) elts eltsSize

end Elements

section Verification

variable (heapBase heapSize : UInt64)

/-- `get_txt_heap`, which drops the upper half of the register. -/
def getTxtHeap : UInt32 :=
  heapBase.toUInt32

/-- `NR_CPUS`. -/
def nrCpus : UInt32 := 512

def verifyBiosData (txtHeap : UInt32) : Prog Halt HeapMachine Bool := do
  if txtHeap = 0 ∨ heapBase = 0 ∨ heapSize = 0 then return false
  let size ← getBiosDataSize txtHeap
  if size = 0 then return false
  if size > heapSize then return false
  let biosData := getBiosDataStart txtHeap
  let version ← heapWord biosData
  if version < 2 then return false
  let numLogicalProcs ← heapWord (biosData + 24)
  if numLogicalProcs < 1 then return false
  if numLogicalProcs > nrCpus then return false
  if version ≥ 4 ∧ size > 36 + 8 then
    verifyExtDataElts (biosData + 36) (size - 36 - 8).toUInt32
  else return true

/-- `sizeof(os_mle_data_t)`. -/
def osMleDataSize : UInt64 := 4 + 268 + 4 + 4 + 64 * 1024 + 5 * 4 * 1024

def verifyOsMleData (txtHeap : UInt32) : Prog Halt HeapMachine Bool := do
  let size ← getOsMleDataSize txtHeap
  if size = 0 then return false
  if size > heapSize then return false
  if size ≠ osMleDataSize + 8 then return false
  let osMleData ← getOsMleDataStart txtHeap
  let version ← heapWord osMleData
  return version = 3

def minOsSinitDataVer : UInt32 := 4
def maxOsSinitDataVer : UInt32 := 7

/-- `sizeof(os_sinit_data_t)`. -/
def osSinitDataSize : UInt64 := 92

/-- Only for supported versions. -/
def calcOsSinitDataSize (version : UInt32) : UInt64 :=
  if version ≥ 6 then osSinitDataSize + 8 + 2 * 8 + 8
  else if version = minOsSinitDataVer then 84 + 8
  else osSinitDataSize + 8

def verifyOsSinitData (txtHeap : UInt32) : Prog Halt HeapMachine Bool := do
  let size ← getOsSinitDataSize txtHeap
  if size = 0 then return false
  if size > heapSize then return false
  let osSinitData ← getOsSinitDataStart txtHeap
  let version ← heapWord osSinitData
  if version < minOsSinitDataVer ∨ version > maxOsSinitDataVer then return false
  if size ≠ calcOsSinitDataSize version then return false
  if version ≥ 6 then
    verifyExtDataElts (osSinitData + 92) (size - osSinitDataSize - 8).toUInt32
  else return true

def verifySinitMleData (txtHeap : UInt32) : Prog Halt HeapMachine Bool := do
  let size ← getSinitMleDataSize txtHeap
  if size = 0 then return false
  if size > heapSize then return false
  let sinitMleData ← getSinitMleDataStart txtHeap
  let version ← heapWord sinitMleData
  return ¬ version < 6

/-- `plus_overflow_u64`. -/
def plusOverflow64 (x y : UInt64) : Bool :=
  0xffffffffffffffff - x < y

def verifyTxtHeap (txtHeap : UInt32) (biosDataOnly : Bool) : Prog Halt HeapMachine Bool := do
  let verified ← verifyBiosData heapBase heapSize txtHeap
  if ¬ verified then return false
  if biosDataOnly then return true
  let size1 ← getBiosDataSize txtHeap
  let size2 ← getOsMleDataSize txtHeap
  let size3 ← getOsSinitDataSize txtHeap
  let size4 ← getSinitMleDataSize txtHeap
  if plusOverflow64 size1 size2 then return false
  if plusOverflow64 size3 size4 then return false
  if plusOverflow64 (size1 + size2) (size3 + size4) then return false
  if size1 + size2 + size3 + size4 > heapSize then return false
  let verified ← verifyOsMleData heapSize txtHeap
  if ¬ verified then return false
  let verified ← verifyOsSinitData heapSize txtHeap
  if ¬ verified then return false
  verifySinitMleData heapSize txtHeap

end Verification

end Sable
