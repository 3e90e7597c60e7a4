import Sable.Util

/-!
# The TIS driver of `tis.c`

The driver talks to the TPM through memory-mapped registers.  A device says
what a read of each register returns and how reads and writes change its
state; nothing is assumed about it here.
-/

namespace Sable

open ByteMemory BigEndian HaltingProgram

/-- The registers of a TPM.  Those of `struct TIS_MMAP` are addressed by the
locality, those of `struct TIS_ID` exist once. -/
structure TisDevice (σ : Type) where
  readAccess : UInt32 → σ → UInt8 × σ
  writeAccess : UInt32 → UInt8 → σ → σ
  readIntfCapability : UInt32 → σ → UInt32 × σ
  readSts : UInt32 → σ → UInt8 × σ
  writeSts : UInt32 → UInt8 → σ → σ
  readFifo : UInt32 → σ → UInt8 × σ
  writeFifo : UInt32 → UInt8 → σ → σ
  readDidVid : σ → UInt32 × σ
  readRid : σ → UInt8 × σ

/-- A bus on which no TPM answers, so that all registers read as ones. -/
def TisDevice.absent : TisDevice Unit where
  readAccess := fun _ world => (0xff, world)
  writeAccess := fun _ _ world => world
  readIntfCapability := fun _ world => (0xffffffff, world)
  readSts := fun _ world => (0xff, world)
  writeSts := fun _ _ world => world
  readFifo := fun _ world => (0xff, world)
  writeFifo := fun _ _ world => world
  readDidVid := fun world => (0xffffffff, world)
  readRid := fun world => (0xff, world)

inductive TisTpmVendor
  | noTpm
  | stm
  | infineon
  | atmel
  | broadcom
  | qemu
  | ibm
  deriving DecidableEq

def tisBase : UInt32 := 0xfed40000

def tisLocality0 : UInt32 := 0x0000
def tisLocality2 : UInt32 := 0x2000
def tisLocality4 : UInt32 := 0x4000

def tisAccessValid : UInt8 := 0x80
def tisAccessActive : UInt8 := 0x20
def tisAccessToSeize : UInt8 := 0x08
def tisAccessRequest : UInt8 := 0x02

def tisStsValid : UInt8 := 0x80
def tisStsCmdReady : UInt8 := 0x40
def tisStsTpmGo : UInt8 := 0x20
def tisStsDataAvail : UInt8 := 0x10
def tisStsExpect : UInt8 := 0x08

/-- The value of a 32-bit word read as a signed `int`, cut off at zero: the
number of iterations of a loop that counts up to it. -/
def signedBound (word : UInt32) : Nat :=
  if word.toNat < 2 ^ 31 then word.toNat else 0

section Driver

variable {σ : Type} (device : TisDevice σ)

/-- Read a register. -/
def readReg {α : Type} (register : σ → α × σ) : Boot σ α :=
  Prog.step fun m => ((register m.world).1, { m with world := (register m.world).2 })

def writeReg (register : σ → σ) : Boot σ Unit :=
  Prog.modify fun m => { m with world := register m.world }

/-- Request access for a given locality, without the log entry. -/
def tisAccessRun (locality : UInt32) (force : Bool) : Boot σ (Result Unit) := do
  assert (locality ≠ tisLocality0 ∨ force = false)
  assert (locality ≤ tisLocality4)
  let mmap := tisBase + locality
  Prog.modify fun m => { m with tisLocality := mmap }
  let access ← readReg (device.readAccess mmap)
  if access &&& tisAccessValid = 0 then
    return .error .tisLocalityRegisterInvalid ()
  let access ← readReg (device.readAccess mmap)
  if access = 0xff then
    return .error .tisLocalityRegisterInvalid ()
  let access ← readReg (device.readAccess mmap)
  if access &&& tisAccessActive ≠ 0 then
    return .error .tisLocalityAlreadyAccessed ()
  writeReg (device.writeAccess mmap tisAccessRequest)
  writeReg (device.writeSts mmap tisStsCmdReady)
  if force then
    let access ← readReg (device.readAccess mmap)
    if access &&& tisAccessActive = 0 then
      writeReg (device.writeAccess mmap tisAccessToSeize)
      writeReg (device.writeSts mmap tisStsCmdReady)
  let access ← readReg (device.readAccess mmap)
  if access &&& tisAccessActive = 0 then
    return .error .tisLocalityAccessTimeout ()
  return .ok ()

def tisAccess (locality : UInt32) (force : Bool) : Boot σ (Result Unit) := do
  let ret ← tisAccessRun device locality force
  emit (.accessed locality ret.exception)
  return ret

/-- Whether the device shows the identification bug that `tis_init` works
around; later registers are only read if the earlier ones fit. -/
def didVidBug : Boot σ Bool := do
  let didVid ← readReg device.readDidVid
  if didVid ≠ 0xffffffff then return false
  let capability ← readReg (device.readIntfCapability tisBase)
  if capability &&& ~~~0x1fa ≠ 5 then return false
  let access ← readReg (device.readAccess tisBase)
  return access &&& 0xe8 = 0x80

/-- The vendor of a known identification, with the text printed for it. -/
def vendorOf (didVid : UInt32) : Option (TisTpmVendor × String) :=
  if didVid = 0x2e4d5453 ∨ didVid = 0x4a100000 ∨ didVid = 0x104a then
    some (.stm, "STM rev:")
  else if didVid = 0xb15d1 then some (.infineon, "Infineon rev:")
  else if didVid = 0x32021114 ∨ didVid = 0x32031114 then some (.atmel, "Atmel rev:")
  else if didVid = 0x100214E4 then some (.broadcom, "Broadcom rev:")
  else if didVid = 0x10001 then some (.qemu, "Qemu TPM rev:")
  else if didVid = 0x11014 then some (.ibm, "IBM TPM rev:")
  else none

/-- The `switch` of `tis_init` on the identification. -/
def identifyVendor (didVid : UInt32) : Boot σ TisTpmVendor :=
  match vendorOf didVid with
  | some (vendor, message) => do
      let rid ← readReg device.readRid
      outDescription message rid.toUInt32
      return vendor
  | none =>
      if didVid = 0 ∨ didVid = 0xffffffff then do
        outInfo "TPM not found!"
        return .noTpm
      else do
        let didVid ← readReg device.readDidVid
        outDescription "TPM unknown! ID:" didVid
        return .noTpm

def tisInit : Boot σ TisTpmVendor := do
  let bug ← didVidBug device
  if bug then
    outInfo "Fix DID/VID bug..."
    let _ ← tisAccess device tisLocality0 false
  let didVid ← readReg device.readDidVid
  identifyVendor device didVid

/-- One round of the loop of `tis_deactivate_all`; the result holds the active
bit if the locality stayed active. -/
def tisDeactivate (mmap : UInt32) : Boot σ UInt8 := do
  let access ← readReg (device.readAccess mmap)
  if access = 0xff then return 0
  writeReg (device.writeAccess mmap tisAccessActive)
  let access ← readReg (device.readAccess mmap)
  return access &&& tisAccessActive

def tisDeactivateAll : Boot σ (Result Unit) := do
  let first ← tisDeactivate device tisBase
  let second ← tisDeactivate device (tisBase + 0x1000)
  let third ← tisDeactivate device (tisBase + 0x2000)
  let fourth ← tisDeactivate device (tisBase + 0x3000)
  if first ||| second ||| third ||| fourth ≠ 0 then
    return .error .tisLocalityDeactivate ()
  return .ok ()

/-- Poll the status register until it shows `state`, up to 4000 times. -/
def waitState (mmap : UInt32) (state : UInt8) : Nat → Boot σ Unit
  | 0 => pure ()
  | polls + 1 => do
      let sts ← readReg (device.readSts mmap)
      if sts &&& state = state then return ()
      waitState mmap state polls

def writeFifoLoop (mmap : UInt32) : List UInt8 → Boot σ Unit
  | [] => pure ()
  | byte :: bytes => do
      writeReg (device.writeFifo mmap byte)
      writeFifoLoop mmap bytes

/-- Make the TPM ready to receive a command. -/
def tisReady (mmap : UInt32) : Boot σ Unit := do
  let sts ← readReg (device.readSts mmap)
  if sts &&& tisStsCmdReady = 0 then
    writeReg (device.writeSts mmap tisStsCmdReady)
    waitState device mmap tisStsCmdReady 4000

/-- Write the command in the input buffer to the TPM and start it. -/
def tisWrite : Boot σ (Result Unit) := do
  let m ← Prog.get
  let mmap := m.tisLocality
  tisReady device mmap
  let sts ← readReg (device.readSts mmap)
  if sts &&& tisStsCmdReady = 0 then
    return .error .tisTransmit ()
  let size := signedBound (ofBe32 (read m.tisIn 2 4))
  writeFifoLoop device mmap (read m.tisIn 0 size)
  waitState device mmap tisStsValid 4000
  let sts ← readReg (device.readSts mmap)
  if sts &&& tisStsExpect ≠ 0 then
    return .error .tisTransmit ()
  writeReg (device.writeSts mmap tisStsTpmGo)
  return .ok ()

/-- The size of `tis_buffers.out`. -/
def tisBufferSize : Nat := 1024

/-- Read up to `count` bytes into the output buffer behind the first `value`
ones, as long as data is available; the result is the new byte count.  The
source compares no count with the size of the buffer: a byte more is stored
behind it. -/
def readFifoLoop (mmap : UInt32) : Nat → Nat → Boot σ Nat
  | 0, value => pure value
  | count + 1, value => do
      let sts ← readReg (device.readSts mmap)
      if sts &&& tisStsDataAvail = 0 then return value
      let byte ← readReg (device.readFifo mmap)
      if value < tisBufferSize then
        Prog.modify fun m => { m with tisOut := write m.tisOut value [byte] }
        readFifoLoop mmap count (value + 1)
      else Prog.halt .overrun

/-- Read the response of the TPM into the output buffer. -/
def tisRead : Boot σ (Result Unit) := do
  let m ← Prog.get
  let mmap := m.tisLocality
  waitState device mmap (tisStsValid ||| tisStsDataAvail) 4000
  let sts ← readReg (device.readSts mmap)
  if sts &&& tisStsValid = 0 then
    return .error .tisTransmit ()
  let value ← readFifoLoop device mmap 6 0
  let m ← Prog.get
  let size := signedBound (ofBe32 (read m.tisOut 2 4))
  let _ ← readFifoLoop device mmap (size - value) value
  let sts ← readReg (device.readSts mmap)
  if sts &&& tisStsDataAvail ≠ 0 then
    return .error .tisTransmit ()
  writeReg (device.writeSts mmap tisStsCmdReady)
  return .ok ()

/-- Transmit a command to the TPM and wait for the response. -/
def tisTransmit : Boot σ (Result Unit) := do
  let res ← tisWrite device
  if res.exception ≠ .none then
    return .error res.exception ()
  let res ← tisRead device
  if res.exception ≠ .none then
    return .error res.exception ()
  return .ok ()

end Driver

end Sable
