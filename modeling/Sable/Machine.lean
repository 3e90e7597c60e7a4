import Sable.Alloc
import Sable.Hmac

/-!
# The machine state of the boot loader

Everything the boot loader reads or changes: the memory with the heap, the
static buffers and session slots, the typed objects behind session pointers,
the characters the keyboard will deliver, and the hardware behind the TPM
registers, whose state is a parameter.  The locals of the running TPM command
are kept here too, so that they hold leftovers until they are initialised.
A log of the calls and messages a run makes is recorded on the side.
-/

namespace Sable

open ByteMemory BigEndian HaltingProgram

/-- `TPM_OSAP_EXTENSION`. -/
structure TpmOsapExtension where
  nonceEvenOSAP : Block 20
  nonceOddOSAP : Block 20

/-- `TPM_SESSION`, with the address of the OSAP extension or null. -/
structure TpmSession where
  authHandle : UInt32
  nonceEven : Block 20
  nonceOdd : Block 20
  continueAuthSession : UInt8
  osap : UInt32

/-- The buffers that a pack or unpack context can point to. -/
inductive BufferPtr
  | tisIn
  | tisOut
  | mem (addr : UInt32)
  deriving DecidableEq

structure PackContext where
  packBuffer : BufferPtr
  bytesPacked : UInt32
  size : UInt32

structure UnpackContext where
  unpackBuffer : BufferPtr
  bytesUnpacked : UInt32
  size : UInt32

/-- The two elements of the static array `sessions`. -/
inductive SessionSlot
  | zero
  | one
  deriving DecidableEq

/-- What the log of a run records.  `issued` and `finished` bracket a TPM
command; `sent` is the frame handed to the TPM, with the sessions that
authorise it and the odd nonces they carry. -/
inductive Event
  | issued (ordinal : UInt32)
  | sent (ordinal : UInt32) (uses : List (UInt32 × Block 20)) (frame : List UInt8)
  | finished (ordinal : UInt32) (exception : Error)
  | random (exception : Error) (bytes : List UInt8)
  | opened (session : UInt32) (nonceOddOSAP : Option (Block 20))
  | extend (pcr : UInt32) (digest : Block 20)
  | accessed (locality : UInt32) (exception : Error)
  | hashed (exception : Error)
  | output (bytes : List UInt8)
  | confirmed
  | booted (exception : Error)
  | launchKernel
  | startModule

/-- The local contexts of a TPM command. -/
structure Locals where
  pctx : PackContext
  uctx : UnpackContext
  sctx : Sha1Context
  hctx : HmacContext

structure Machine (σ : Type) where
  world : σ
  tisIn : Mem
  tisOut : Mem
  tisLocality : UInt32
  heap : UInt32
  mem : Mem
  sessionAt : UInt32 → TpmSession
  osapAt : UInt32 → TpmOsapExtension
  sessions : SessionSlot → UInt32
  keys : List UInt8
  locals : Locals
  log : List Event

/-- A machine with zeros in memory, no session and no key pressed. -/
def Machine.blank {σ : Type} (world : σ) : Machine σ where
  world := world
  tisIn := fun _ => 0
  tisOut := fun _ => 0
  tisLocality := 0
  heap := 8
  mem := fun _ => 0
  sessionAt := fun _ => ⟨0, Block.zero 20, Block.zero 20, 0, 0⟩
  osapAt := fun _ => ⟨Block.zero 20, Block.zero 20⟩
  sessions := fun _ => 0
  keys := []
  locals := ⟨⟨.tisIn, 0, 0⟩, ⟨.tisOut, 0, 0⟩, default, default⟩
  log := []

/-- Programs of the boot loader. -/
abbrev Boot (σ α : Type) := Prog Halt (Machine σ) α

/-- The run does not come to a write behind the end of an object. -/
def InBounds {σ α : Type} (program : Boot σ α) (m : Machine σ) : Prop :=
  ∀ reached, program m ≠ .halt .overrun reached

section Operations

variable {σ : Type}

def emit (event : Event) : Boot σ Unit :=
  Prog.modify fun m => { m with log := m.log ++ [event] }

/-- `ASSERT`: a failed assertion calls `fail`, which exits. -/
def assert (condition : Prop) [Decidable condition] : Boot σ Unit :=
  if condition then pure () else Prog.halt .exit

/-- `alloc` on the heap of the machine. -/
def allocHeap (size : UInt32) : Boot σ UInt32 := fun m =>
  match alloc m.heap size m.mem with
  | .ok ptr mem => .ok ptr { m with mem := mem }
  | .halt reason mem => .halt reason { m with mem := mem }

/-- Store bytes through a pointer into memory. -/
def storeBytes (ptr offset : UInt32) (bytes : List UInt8) : Boot σ Unit :=
  if ptr = 0 then Prog.halt .fault
  else Prog.modify fun m =>
    { m with mem := write m.mem (ptr.toNat + offset.toNat) bytes }

/-- Read the object behind a session pointer. -/
def loadSession (ptr : UInt32) : Boot σ TpmSession :=
  if ptr = 0 then Prog.halt .fault
  else do
    let m ← Prog.get
    pure (m.sessionAt ptr)

/-- Change the object behind a session pointer. -/
def updateSession (ptr : UInt32) (update : TpmSession → TpmSession) :
    Boot σ Unit :=
  if ptr = 0 then Prog.halt .fault
  else Prog.modify fun m =>
    { m with sessionAt := Function.update m.sessionAt ptr (update (m.sessionAt ptr)) }

def loadOsap (ptr : UInt32) : Boot σ TpmOsapExtension :=
  if ptr = 0 then Prog.halt .fault
  else do
    let m ← Prog.get
    pure (m.osapAt ptr)

def updateOsap (ptr : UInt32) (update : TpmOsapExtension → TpmOsapExtension) :
    Boot σ Unit :=
  if ptr = 0 then Prog.halt .fault
  else Prog.modify fun m =>
    { m with osapAt := Function.update m.osapAt ptr (update (m.osapAt ptr)) }

/-- The pointer stored in a session slot. -/
def getSlot (slot : SessionSlot) : Boot σ UInt32 := do
  let m ← Prog.get
  pure (m.sessions slot)

def setSlot (slot : SessionSlot) (ptr : UInt32) : Boot σ Unit :=
  Prog.modify fun m => { m with sessions := Function.update m.sessions slot ptr }

/-- `alloc(heap, sizeof(TPM_SESSION))`.  The fields of the new object are the
bytes that lie in the heap, in the order of the packed record. -/
def allocSession : Boot σ UInt32 := do
  let ptr ← allocHeap 49
  Prog.modify fun m =>
    let field := fun offset len => read m.mem (ptr.toNat + offset) len
    { m with
      sessionAt := Function.update m.sessionAt ptr
        { authHandle := load32 m.mem ptr.toNat
          nonceEven := Block.ofList 20 (field 4 20)
          nonceOdd := Block.ofList 20 (field 24 20)
          continueAuthSession := m.mem (ptr.toNat + 44)
          osap := load32 m.mem (ptr.toNat + 45) } }
  pure ptr

/-- `alloc(heap, sizeof(TPM_OSAP_EXTENSION))`. -/
def allocOsap : Boot σ UInt32 := do
  let ptr ← allocHeap 40
  Prog.modify fun m =>
    { m with
      osapAt := Function.update m.osapAt ptr
        { nonceEvenOSAP := Block.ofList 20 (read m.mem ptr.toNat 20)
          nonceOddOSAP := Block.ofList 20 (read m.mem (ptr.toNat + 20) 20) } }
  pure ptr

end Operations

end Sable
