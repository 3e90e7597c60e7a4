import Sable.Machine

/-!
# Marshalling of TPM structures

The pack and unpack functions of `tpm_struct.c`.  Every value can go into the
packed buffer, into a hash, or both, depending on which of the two context
pointers is null.
-/

namespace Sable

open ByteMemory BigEndian HaltingProgram

/-- The argument `ctx` of a marshalling function. -/
inductive ContextPtr
  | null
  | given
  deriving DecidableEq

/-- The argument `sctx` of a marshalling function: null, the SHA-1 context of
the command, or the SHA-1 context inside its HMAC context. -/
inductive HashPtr
  | null
  | plain
  | keyed
  deriving DecidableEq

structure TpmPcrSelection where
  sizeOfSelect : UInt16
  pcrSelect : UInt32
  deriving DecidableEq

structure TpmPcrInfoLong where
  tag : UInt16
  localityAtCreation : UInt8
  localityAtRelease : UInt8
  creationPCRSelection : TpmPcrSelection
  releasePCRSelection : TpmPcrSelection
  digestAtCreation : Block 20
  digestAtRelease : Block 20

structure TpmStoredData12 where
  tag : UInt16
  et : UInt16
  sealInfoSize : UInt32
  sealInfo : UInt32
  encDataSize : UInt32
  encData : UInt32
  deriving DecidableEq

structure TpmPcrComposite where
  select : TpmPcrSelection
  valueSize : UInt32
  pcrValue : UInt32

section Contexts

variable {σ : Type}

def sha1InitLocal : Boot σ Unit :=
  Prog.modify fun m =>
    { m with locals := { m.locals with sctx := sha1Init m.locals.sctx } }

/-- `sha1` on the local context; the result is the exception. -/
def sha1Local (bytes : List UInt8) : Boot σ Error :=
  Prog.step fun m =>
    ((sha1 m.locals.sctx bytes).exception,
      { m with locals := { m.locals with sctx := (sha1 m.locals.sctx bytes).value } })

def sha1FinishLocal : Boot σ Unit :=
  Prog.modify fun m =>
    { m with locals := { m.locals with sctx := sha1Finish m.locals.sctx } }

/-- `sctx.hash`. -/
def sctxHash : Boot σ (Block 20) := do
  let m ← Prog.get
  pure m.locals.sctx.hash

def hmacInitLocal (key : List UInt8) : Boot σ Unit :=
  Prog.modify fun m =>
    { m with locals := { m.locals with hctx := (hmacInit m.locals.hctx key).value } }

def hmacFinishLocal : Boot σ Unit :=
  Prog.modify fun m =>
    { m with locals := { m.locals with hctx := (hmacFinish m.locals.hctx).value } }

/-- `hctx.sctx.hash`. -/
def hctxHash : Boot σ (Block 20) := do
  let m ← Prog.get
  pure m.locals.hctx.sctx.hash

/-- The context that `sha1` is given. -/
def HashPtr.context (locals : Locals) : HashPtr → Option Sha1Context
  | .null => none
  | .plain => some locals.sctx
  | .keyed => some locals.hctx.sctx

/-- `sha1` stays inside the buffer of its context: the index lies in it, and the sum of
index and count, which `sha1` takes in 32 bits, does not wrap around. -/
def HashPtr.Room (bytes : List UInt8) (locals : Locals) (sctx : HashPtr) : Prop :=
  ∀ ctx ∈ sctx.context locals, ctx.index < 64 ∧ bytes.length + ctx.index < 2 ^ 32

@[irreducible]
instance (bytes : List UInt8) (locals : Locals) (sctx : HashPtr) :
    Decidable (sctx.Room bytes locals) :=
  inferInstanceAs (Decidable (∀ ctx ∈ sctx.context locals, _))

@[simp]
theorem HashPtr.room_null (bytes : List UInt8) (locals : Locals) :
    HashPtr.null.Room bytes locals := by
  simp [HashPtr.Room, HashPtr.context]

@[simp]
theorem HashPtr.room_plain (bytes : List UInt8) (locals : Locals) :
    HashPtr.plain.Room bytes locals ↔
      locals.sctx.index < 64 ∧ bytes.length + locals.sctx.index < 2 ^ 32 := by
  simp [HashPtr.Room, HashPtr.context]

@[simp]
theorem HashPtr.room_keyed (bytes : List UInt8) (locals : Locals) :
    HashPtr.keyed.Room bytes locals ↔
      locals.hctx.sctx.index < 64 ∧ bytes.length + locals.hctx.sctx.index < 2 ^ 32 := by
  simp [HashPtr.Room, HashPtr.context]

/-- The local variables after `sha1` on the context. -/
def HashPtr.absorb (bytes : List UInt8) (locals : Locals) : HashPtr → Locals
  | .null => locals
  | .plain => { locals with sctx := (sha1 locals.sctx bytes).value }
  | .keyed =>
      { locals with
        hctx := { locals.hctx with sctx := (sha1 locals.hctx.sctx bytes).value } }

/-- `if (sctx) sha1(sctx, …)`, whose exception nobody looks at. -/
def hashBytes (bytes : List UInt8) (sctx : HashPtr) : Boot σ Unit := do
  let m ← Prog.get
  if sctx.Room bytes m.locals then
    Prog.modify fun m => { m with locals := sctx.absorb bytes m.locals }
  else Prog.halt .overrun

theorem hashBytes_eq (bytes : List UInt8) (sctx : HashPtr) (m : Machine σ) :
    hashBytes bytes sctx m =
      if sctx.Room bytes m.locals then
        .ok () { m with locals := sctx.absorb bytes m.locals }
      else .halt .overrun m := by
  rw [hashBytes, Prog.bind_get]
  split <;> rfl

@[simp]
theorem hashBytes_null_eq (bytes : List UInt8) :
    hashBytes bytes .null = (pure () : Boot σ Unit) := by
  funext m
  rw [hashBytes_eq, if_pos (HashPtr.room_null bytes m.locals)]
  rfl

def packInit (buffer : BufferPtr) (bufferSize : UInt32) : Boot σ Unit :=
  Prog.modify fun m =>
    { m with locals := { m.locals with pctx := ⟨buffer, 0, bufferSize⟩ } }

def packFinish : Boot σ UInt32 := do
  let m ← Prog.get
  pure m.locals.pctx.bytesPacked

def unpackInit (buffer : BufferPtr) (bufferSize : UInt32) : Boot σ Unit :=
  Prog.modify fun m =>
    { m with locals := { m.locals with uctx := ⟨buffer, 0, bufferSize⟩ } }

def unpackFinish : Boot σ UInt32 := do
  let m ← Prog.get
  pure m.locals.uctx.bytesUnpacked

/-- The bytes at an offset of a buffer. -/
def Machine.readBuffer (m : Machine σ) (offset len : Nat) : BufferPtr → List UInt8
  | .tisIn => read m.tisIn offset len
  | .tisOut => read m.tisOut offset len
  | .mem addr => read m.mem (addr.toNat + offset) len

def Machine.writeBuffer (m : Machine σ) (offset : Nat) (bytes : List UInt8) :
    BufferPtr → Machine σ
  | .tisIn => { m with tisIn := write m.tisIn offset bytes }
  | .tisOut => { m with tisOut := write m.tisOut offset bytes }
  | .mem addr => { m with mem := write m.mem (addr.toNat + offset) bytes }

/-- `check_pack_overflow` and the store that follows it. -/
def packBytes (bytes : List UInt8) : Boot σ Unit := do
  let m ← Prog.get
  let pctx := m.locals.pctx
  let size := UInt32.ofNat bytes.length
  if pctx.bytesPacked + size ≤ pctx.size then
    if pctx.packBuffer = .mem 0 then Prog.halt .fault
    else
      Prog.modify fun m =>
        let m := m.writeBuffer pctx.bytesPacked.toNat bytes pctx.packBuffer
        { m with locals := { m.locals with
            pctx := { pctx with bytesPacked := pctx.bytesPacked + size } } }
  else Prog.halt .exit

/-- `check_unpack_overflow`. -/
def checkUnpackOverflow (size : UInt32) : Boot σ Unit := do
  let m ← Prog.get
  let uctx := m.locals.uctx
  if uctx.bytesUnpacked + size ≤ uctx.size then pure ()
  else Prog.halt .exit

/-- The bytes at the position of the unpack context. -/
def peekBytes (size : UInt32) : Boot σ (List UInt8) := do
  let m ← Prog.get
  let uctx := m.locals.uctx
  pure (m.readBuffer uctx.bytesUnpacked.toNat size.toNat uctx.unpackBuffer)

/-- `ctx->bytes_unpacked += size`. -/
def advance (size : UInt32) : Boot σ Unit :=
  Prog.modify fun m =>
    let uctx := m.locals.uctx
    { m with locals := { m.locals with
        uctx := { uctx with bytesUnpacked := uctx.bytesUnpacked + size } } }

/-- Take bytes of a value with a fixed width out of the unpacked buffer. -/
def unpackBytes (size : UInt32) : Boot σ (List UInt8) := do
  checkUnpackOverflow size
  let bytes ← peekBytes size
  advance size
  pure bytes

end Contexts

section Marshal

variable {σ : Type}

/-- The common body of the functions that marshal a value: hash it if there is
a hash context, then pack it if there is a pack context. -/
def marshalBytes (bytes : List UInt8) (ctx : ContextPtr) (sctx : HashPtr) :
    Boot σ Unit := do
  hashBytes bytes sctx
  match ctx with
  | .null => pure ()
  | .given => packBytes bytes

def marshalBYTE (val : UInt8) (ctx : ContextPtr) (sctx : HashPtr) : Boot σ Unit :=
  marshalBytes [val] ctx sctx

/-- The value is stored after `htons`, that is, in big-endian order. -/
def marshalUINT16 (val : UInt16) (ctx : ContextPtr) (sctx : HashPtr) : Boot σ Unit :=
  marshalBytes (be16 val) ctx sctx

def marshalUINT32 (val : UInt32) (ctx : ContextPtr) (sctx : HashPtr) : Boot σ Unit :=
  marshalBytes (be32 val) ctx sctx

/-- `marshal_array` of an object that is not in the modelled memory, such as a
local variable. -/
def marshalObject (data : Block 20) (ctx : ContextPtr) (sctx : HashPtr) :
    Boot σ Unit :=
  marshalBytes data.bytes ctx sctx

/-- `marshal_array` of the bytes behind a pointer. -/
def marshalArray (data size : UInt32) (ctx : ContextPtr) (sctx : HashPtr) :
    Boot σ Unit := do
  assert (data ≠ 0)
  let m ← Prog.get
  marshalBytes (read m.mem data.toNat size.toNat) ctx sctx

def unmarshalBYTE (val : UInt8) (ctx : ContextPtr) (sctx : HashPtr) :
    Boot σ UInt8 := do
  assert (ctx ≠ .null ∨ sctx ≠ .null)
  if ctx = .null then
    hashBytes [val] sctx
    return val
  let tmp ← unpackBytes 1
  hashBytes tmp sctx
  return tmp.getD 0 0

/-- Without an unpack context the value is converted by `htonl`, which leaves
nothing of it in the lower half that is hashed. -/
def unmarshalUINT16 (val : UInt16) (ctx : ContextPtr) (sctx : HashPtr) :
    Boot σ UInt16 := do
  assert (ctx ≠ .null ∨ sctx ≠ .null)
  if ctx = .null then
    hashBytes (be16 (byteSwap val.toUInt32).toUInt16).reverse sctx
    return val
  let tmp ← unpackBytes 2
  hashBytes tmp sctx
  return ofBe16 tmp

def unmarshalUINT32 (val : UInt32) (ctx : ContextPtr) (sctx : HashPtr) :
    Boot σ UInt32 := do
  assert (ctx ≠ .null ∨ sctx ≠ .null)
  if ctx = .null then
    hashBytes (be32 val) sctx
    return val
  let tmp ← unpackBytes 4
  hashBytes tmp sctx
  return ofBe32 tmp

/-- `unmarshal_array` into an object whose bytes are given, or with a null
destination. -/
def unmarshalArray (data : Option (List UInt8)) (size : UInt32) (ctx : ContextPtr)
    (sctx : HashPtr) : Boot σ (Option (List UInt8)) := do
  assert (ctx ≠ .null ∨ sctx ≠ .null)
  if ctx = .null then
    let m ← Prog.get
    hashBytes (data.getD (read m.mem 0 size.toNat)) sctx
    return data
  let tmp ← unpackBytes size
  let data := data.map fun _ => tmp
  let m ← Prog.get
  hashBytes (data.getD (read m.mem 0 size.toNat)) sctx
  return data

/-- `unmarshal_array` into a twenty-byte object. -/
def unmarshalObject (data : Block 20) (ctx : ContextPtr) (sctx : HashPtr) :
    Boot σ (Block 20) := do
  let data ← unmarshalArray (some data.bytes) 20 ctx sctx
  return Block.ofList 20 (data.getD [])

/-- `unmarshal_ptr`: the result is the address of a new block with the bytes. -/
def unmarshalPtr (size : UInt32) (ctx : ContextPtr) (sctx : HashPtr) :
    Boot σ UInt32 := do
  assert (ctx ≠ .null)
  checkUnpackOverflow size
  let ptr ← allocHeap size
  assert (ptr ≠ 0)
  let bytes ← peekBytes size
  Prog.modify fun m => { m with mem := write m.mem ptr.toNat bytes }
  advance size
  let m ← Prog.get
  hashBytes (read m.mem ptr.toNat size.toNat) sctx
  return ptr

def marshalPcrSelection (select : TpmPcrSelection) (ctx : ContextPtr)
    (sctx : HashPtr) : Boot σ Unit := do
  marshalUINT16 select.sizeOfSelect ctx sctx
  marshalArray select.pcrSelect select.sizeOfSelect.toUInt32 ctx sctx

def marshalPcrInfoLong (pcrInfo : TpmPcrInfoLong) (ctx : ContextPtr)
    (sctx : HashPtr) : Boot σ Unit := do
  marshalUINT16 pcrInfo.tag ctx sctx
  marshalBYTE pcrInfo.localityAtCreation ctx sctx
  marshalBYTE pcrInfo.localityAtRelease ctx sctx
  marshalPcrSelection pcrInfo.creationPCRSelection ctx sctx
  marshalPcrSelection pcrInfo.releasePCRSelection ctx sctx
  marshalObject pcrInfo.digestAtCreation ctx sctx
  marshalObject pcrInfo.digestAtRelease ctx sctx

def marshalStoredData12 (data : TpmStoredData12) (ctx : ContextPtr)
    (sctx : HashPtr) : Boot σ Unit := do
  marshalUINT16 data.tag ctx sctx
  marshalUINT16 data.et ctx sctx
  marshalUINT32 data.sealInfoSize ctx sctx
  marshalArray data.sealInfo data.sealInfoSize ctx sctx
  marshalUINT32 data.encDataSize ctx sctx
  marshalArray data.encData data.encDataSize ctx sctx

/-- The fields of the result start out as whatever the caller's object holds,
which no path reads. -/
def unmarshalStoredData12 (ctx : ContextPtr) (sctx : HashPtr) :
    Boot σ TpmStoredData12 := do
  let tag ← unmarshalUINT16 0 ctx sctx
  let et ← unmarshalUINT16 0 ctx sctx
  let sealInfoSize ← unmarshalUINT32 0 ctx sctx
  let sealInfo ← unmarshalPtr sealInfoSize ctx sctx
  let encDataSize ← unmarshalUINT32 0 ctx sctx
  let encData ← unmarshalPtr encDataSize ctx sctx
  return ⟨tag, et, sealInfoSize, sealInfo, encDataSize, encData⟩

def sizeofPcrSelection (select : TpmPcrSelection) : UInt32 :=
  2 + select.sizeOfSelect.toUInt32

def sizeofPcrInfoLong (pcrInfo : TpmPcrInfoLong) : UInt32 :=
  2 + 2 * 1 + sizeofPcrSelection pcrInfo.creationPCRSelection +
    sizeofPcrSelection pcrInfo.releasePCRSelection + 2 * 20

def sizeofStoredData12 (storedData : TpmStoredData12) : UInt32 :=
  2 + 2 + 4 + storedData.sealInfoSize + 4 + storedData.encDataSize

def encAuthGen (entityAuthData sharedSecret authLastNonceEven : Block 20) :
    Block 20 :=
  let sctx := sha1Init default
  let sctx := (sha1 sctx sharedSecret.bytes).value
  let sctx := (sha1 sctx authLastNonceEven.bytes).value
  Block.xor entityAuthData (sha1Finish sctx).hash

def sharedSecretGen (auth nonceEvenOSAP nonceOddOSAP : Block 20) : Block 20 :=
  let hctx := (hmacInit default auth.bytes).value
  let hctx := (hmac hctx nonceEvenOSAP.bytes).value
  let hctx := (hmac hctx nonceOddOSAP.bytes).value
  (hmacFinish hctx).value.sctx.hash

def getTpmCompositeHash (comp : TpmPcrComposite) : Boot σ (Block 20) := do
  sha1InitLocal
  marshalPcrSelection comp.select .null .plain
  marshalUINT32 comp.valueSize .null .plain
  marshalArray comp.pcrValue comp.valueSize .null .plain
  sha1FinishLocal
  sctxHash

def packStoredData12 (data dataSize : UInt32) (storedData : TpmStoredData12) :
    Boot σ UInt32 := do
  packInit (.mem data) dataSize
  marshalStoredData12 storedData .given .null
  packFinish

def unpackStoredData12 (data dataSize : UInt32) : Boot σ TpmStoredData12 := do
  unpackInit (.mem data) dataSize
  unmarshalStoredData12 .given .null

/-- The result is the address and the size of the serialised structure. -/
def extractStoredData12 (storedData : TpmStoredData12) :
    Boot σ (UInt32 × UInt32) := do
  let size := sizeofStoredData12 storedData
  let data ← allocHeap size
  let _ ← packStoredData12 data size storedData
  return (data, size)

end Marshal

end Sable
