import Sable.Tis
import Sable.TpmStruct

/-!
# The TPM commands of `tpm.c`

Each command packs a frame into the TIS input buffer, has the driver exchange
it for a response, and unpacks the response.  Authorised commands hash the
parameters as they are packed and unpacked and compute one keyed hash for each
session.
-/

namespace Sable

open ByteMemory BigEndian HaltingProgram

def tagRquCommand : UInt16 := 0x00c1
def tagRquAuth1Command : UInt16 := 0x00c2
def tagRquAuth2Command : UInt16 := 0x00c3
def tagRspCommand : UInt16 := 0x00c4
def tagRspAuth1Command : UInt16 := 0x00c5
def tagRspAuth2Command : UInt16 := 0x00c6

def ordOIAP : UInt32 := 0x0A
def ordOSAP : UInt32 := 0x0B
def ordExtend : UInt32 := 0x14
def ordPcrRead : UInt32 := 0x15
def ordSeal : UInt32 := 0x17
def ordUnseal : UInt32 := 0x18
def ordGetRandom : UInt32 := 0x46
def ordStartup : UInt32 := 0x99
def ordNvWriteValueAuth : UInt32 := 0xCE
def ordNvReadValue : UInt32 := 0xCF

/-- The error that `TPM_ERROR` stores for a nonzero result. -/
def tpmError (result : UInt32) : Error :=
  .tpm (0x80 ||| result)

/-- `HEAP_DATA`. -/
structure HeapData where
  dataSize : UInt32
  data : UInt32
  deriving DecidableEq

/-- The fixed fields at the start of every response. -/
structure ResponseHeader where
  tag : UInt16
  paramSize : UInt32
  result : UInt32

section Parts

variable {σ : Type} (device : TisDevice σ)

/-- Record the begin and the end of a command in the log. -/
def command {α : Type} (ordinal : UInt32) (body : Boot σ (Result α)) :
    Boot σ (Result α) := do
  emit (.issued ordinal)
  let ret ← body
  emit (.finished ordinal ret.exception)
  pure ret

/-- `pack_init` on the TIS input buffer and the first two fields. -/
def marshalHeader (tagIn : UInt16) (paramSizeIn : UInt32) : Boot σ Unit := do
  packInit .tisIn 1024
  marshalUINT16 tagIn .given .null
  marshalUINT32 paramSizeIn .given .null

/-- Check the packed size and exchange the frame for a response. -/
def transmit (ordinalIn paramSizeIn : UInt32) (uses : List (UInt32 × Block 20)) :
    Boot σ (Result Unit) := do
  let bytesPacked ← packFinish
  assert (bytesPacked = paramSizeIn)
  let m ← Prog.get
  emit (.sent ordinalIn uses (read m.tisIn 0 bytesPacked.toNat))
  tisTransmit device

/-- `unpack_init` on the TIS output buffer and the first three fields. -/
def unmarshalHeader (sctx : HashPtr) : Boot σ ResponseHeader := do
  unpackInit .tisOut 1024
  let tagOut ← unmarshalUINT16 0 .given .null
  let paramSizeOut ← unmarshalUINT32 0 .given .null
  let res ← unmarshalUINT32 0 .given sctx
  return ⟨tagOut, paramSizeOut, res⟩

/-- The request of a command without authorisation. -/
def plainRequest (ordinalIn paramSizeIn : UInt32)
    (uses : List (UInt32 × Block 20)) (params : Boot σ Unit) :
    Boot σ (Result Unit) := do
  marshalHeader tagRquCommand paramSizeIn
  marshalUINT32 ordinalIn .given .null
  params
  transmit device ordinalIn paramSizeIn uses

/-- The response of a command without authorisation; `initial` is the value
returned with a TPM error. -/
def plainResponse {α : Type} (initial : α) (params : Boot σ (Result α)) :
    Boot σ (Result α) := do
  let header ← unmarshalHeader .null
  if header.result ≠ 0 then return .error (tpmError header.result) initial
  let ret ← params
  if ret.exception ≠ .none then return ret
  let bytesUnpacked ← unpackFinish
  if bytesUnpacked ≠ header.paramSize then
    return .error .tpmBadOutputParam ret.value
  if header.tag ≠ tagRspCommand then
    return .error .tpmBadOutputParam ret.value
  return ret

/-- A whole command without authorisation. -/
def plainCommand {α : Type} (ordinalIn paramSizeIn : UInt32)
    (uses : List (UInt32 × Block 20)) (request : Boot σ Unit) (initial : α)
    (response : Boot σ (Result α)) : Boot σ (Result α) := do
  let transmitRet ← plainRequest device ordinalIn paramSizeIn uses request
  if transmitRet.exception ≠ .none then
    return .error transmitRet.exception initial
  plainResponse initial response

/-- The session and the odd nonce with which a command is authorised. -/
def authUse (s : UInt32) : Boot σ (UInt32 × Block 20) := do
  let session ← loadSession s
  return (s, session.nonceOdd)

/-- The authorisation trailer of a request: handle, odd nonce, continuation
flag, and the keyed hash over the parameter digest in `sctx.hash`, both nonces
and the flag. -/
def marshalAuth (secret : Block 20) (s : UInt32) : Boot σ Unit := do
  hmacInitLocal secret.bytes
  let digest ← sctxHash
  marshalObject digest .null .keyed
  let session ← loadSession s
  marshalUINT32 session.authHandle .given .null
  marshalObject session.nonceEven .null .keyed
  marshalObject session.nonceOdd .given .keyed
  marshalBYTE session.continueAuthSession .given .keyed
  hmacFinishLocal
  let inAuth ← hctxHash
  marshalObject inAuth .given .null

/-- The hashed part of the authorisation trailer of a response. -/
def unmarshalAuth (secret : Block 20) (s : UInt32) : Boot σ Unit := do
  hmacInitLocal secret.bytes
  let digest ← sctxHash
  let _ ← unmarshalObject digest .null .keyed
  let session ← loadSession s
  let nonceEven ← unmarshalObject session.nonceEven .given .keyed
  updateSession s fun session => { session with nonceEven := nonceEven }
  let _ ← unmarshalObject session.nonceOdd .null .keyed
  let continueAuthSession ←
    unmarshalBYTE session.continueAuthSession .given .keyed
  updateSession s fun session =>
    { session with continueAuthSession := continueAuthSession }

/-- The end of a response trailer: the value `resAuth` from the response and
the computed one. -/
def unmarshalResAuth : Boot σ (Block 20 × Block 20) := do
  let resAuth ← unmarshalObject default .given .null
  hmacFinishLocal
  let hm ← hctxHash
  return (resAuth, hm)

/-- `if (!s->continueAuthSession) *session = NULL`. -/
def closeSession (session : SessionSlot) (s : UInt32) : Boot σ Unit := do
  let object ← loadSession s
  if object.continueAuthSession = 0 then setSlot session 0
  else pure ()

end Parts

section Commands

variable {σ : Type} (device : TisDevice σ)

def tpmStartup (startupTypeIn : UInt16) : Boot σ (Result Unit) :=
  command ordStartup <|
    plainCommand device ordStartup (2 + 4 + 4 + 2) []
      (marshalUINT16 startupTypeIn .given .null) ()
      (pure (.ok ()))

/-- The value of the result is the content of the caller's buffer, which
`buffer` is before the call. -/
def tpmGetRandom (buffer : List UInt8) (bytesRequestedIn : UInt32) :
    Boot σ (Result (List UInt8)) := do
  let ret ← command ordGetRandom <|
    plainCommand device ordGetRandom (2 + 4 + 4 + 4) []
      (marshalUINT32 bytesRequestedIn .given .null) buffer
      (do
        let randomBytesSizeOut ← unmarshalUINT32 0 .given .null
        if bytesRequestedIn ≠ randomBytesSizeOut then
          return .error .tpmBadOutputParam buffer
        let bytes ← unmarshalArray (some buffer) randomBytesSizeOut .given .null
        return .ok (bytes.getD []))
  emit (.random ret.exception ret.value)
  return ret

def tpmPCRRead (pcrIndexIn : UInt32) : Boot σ (Result (Block 20)) :=
  command ordPcrRead <|
    plainCommand device ordPcrRead (2 + 4 + 4 + 4) []
      (marshalUINT32 pcrIndexIn .given .null) default
      (do
        let value ← unmarshalObject default .given .null
        return .ok value)

def tpmExtend (pcrNumIn : UInt32) (inDigestIn : Block 20) :
    Boot σ (Result (Block 20)) := do
  emit (.extend pcrNumIn inDigestIn)
  command ordExtend <|
    plainCommand device ordExtend (2 + 4 + 4 + 4 + 20) []
      (do
        marshalUINT32 pcrNumIn .given .null
        marshalObject inDigestIn .given .null) default
      (do
        let value ← unmarshalObject default .given .null
        return .ok value)

/-- The parameters of the `OIAP` response, which go into a new session object.
A null pointer is caught by the assertion of `unmarshal_UINT32` on its
argument. -/
def unmarshalOIAP (session : SessionSlot) : Boot σ (Result Unit) := do
  let s ← allocSession
  setSlot session s
  emit (.opened s none)
  assert (s ≠ 0)
  let authHandle ← unmarshalUINT32 0 .given .null
  let nonceEven ← unmarshalObject default .given .null
  updateSession s fun object =>
    { object with authHandle := authHandle, nonceEven := nonceEven, osap := 0 }
  return .ok ()

def tpmOIAP (session : SessionSlot) : Boot σ (Result Unit) :=
  command ordOIAP <|
    plainCommand device ordOIAP (2 + 4 + 4) [] (pure ()) () (unmarshalOIAP session)

/-- The parameters of the `OSAP` response.  A null pointer to the extension
makes `unmarshal_array` skip the copy. -/
def unmarshalOSAP (nonceOddOSAP : Block 20) (session : SessionSlot) :
    Boot σ (Result UInt32) := do
  let s ← allocSession
  setSlot session s
  emit (.opened s (some nonceOddOSAP))
  let osap ← allocOsap
  updateSession s fun object => { object with osap := osap }
  let authHandle ← unmarshalUINT32 0 .given .null
  let nonceEven ← unmarshalObject default .given .null
  updateSession s fun object =>
    { object with authHandle := authHandle, nonceEven := nonceEven }
  if osap = 0 then
    let _ ← unmarshalArray none 20 .given .null
    return .ok osap
  let nonceEvenOSAP ← unmarshalObject default .given .null
  updateOsap osap fun extension => { extension with nonceEvenOSAP := nonceEvenOSAP }
  return .ok osap

def tpmOSAP (entityTypeIn : UInt16) (entityValueIn : UInt32)
    (nonceOddOSAP : Block 20) (session : SessionSlot) : Boot σ (Result Unit) :=
  command ordOSAP do
    let ret ← plainCommand device ordOSAP (2 + 4 + 4 + 2 + 4 + 20) [(0, nonceOddOSAP)]
      (do
        marshalUINT16 entityTypeIn .given .null
        marshalUINT32 entityValueIn .given .null
        marshalObject nonceOddOSAP .given .null) 0
      (unmarshalOSAP nonceOddOSAP session)
    if ret.exception ≠ .none then return .error ret.exception ()
    updateOsap ret.value fun extension => { extension with nonceOddOSAP := nonceOddOSAP }
    return .ok ()

def nvWriteRequest (dataIn dataSizeIn nvIndexIn offsetIn : UInt32)
    (nvAuth : Block 20) (s : UInt32) : Boot σ (Result Unit) := do
  let paramSizeIn := 2 + 4 + 4 + 4 + 4 + 4 + dataSizeIn + 4 + 20 + 1 + 20
  sha1InitLocal
  marshalHeader tagRquAuth1Command paramSizeIn
  marshalUINT32 ordNvWriteValueAuth .given .plain
  marshalUINT32 nvIndexIn .given .plain
  marshalUINT32 offsetIn .given .plain
  marshalUINT32 dataSizeIn .given .plain
  marshalArray dataIn dataSizeIn .given .plain
  sha1FinishLocal
  marshalAuth nvAuth s
  let used ← authUse s
  transmit device ordNvWriteValueAuth paramSizeIn [used]

def nvWriteResponse (nvAuth : Block 20) (session : SessionSlot) (s : UInt32) :
    Boot σ (Result Unit) := do
  sha1InitLocal
  let header ← unmarshalHeader .plain
  if header.result ≠ 0 then return .error (tpmError header.result) ()
  let _ ← unmarshalUINT32 ordNvWriteValueAuth .null .plain
  sha1FinishLocal
  unmarshalAuth nvAuth s
  let (resAuthOut, hm) ← unmarshalResAuth
  let bytesUnpacked ← unpackFinish
  if bytesUnpacked ≠ header.paramSize then return .error .tpmBadOutputParam ()
  if header.tag ≠ tagRspAuth1Command then return .error .tpmBadOutputParam ()
  closeSession session s
  if hm ≠ resAuthOut then return .error .tpmBadOutputAuth ()
  return .ok ()

def tpmNvWriteValueAuth (dataIn dataSizeIn nvIndexIn offsetIn : UInt32)
    (nvAuth : Block 20) (session : SessionSlot) : Boot σ (Result Unit) :=
  command ordNvWriteValueAuth do
    let s ← getSlot session
    let transmitRet ← nvWriteRequest device dataIn dataSizeIn nvIndexIn offsetIn
      nvAuth s
    if transmitRet.exception ≠ .none then return .error transmitRet.exception ()
    nvWriteResponse nvAuth session s

/-- The parameters of an `NV_ReadValue` or `Unseal` response. -/
def unmarshalHeapData (ordinalIn : UInt32) : Boot σ HeapData := do
  let _ ← unmarshalUINT32 ordinalIn .null .plain
  let dataSize ← unmarshalUINT32 0 .given .plain
  let data ← unmarshalPtr dataSize .given .plain
  sha1FinishLocal
  return ⟨dataSize, data⟩

/-- The request of `TPM_NV_ReadValue`; `s` is null if it is not authorised. -/
def nvReadRequest (nvIndexIn offsetIn dataSizeIn : UInt32) (ownerAuth : Block 20)
    (s : UInt32) : Boot σ (Result Unit) := do
  let tagIn := if s ≠ 0 then tagRquAuth1Command else tagRquCommand
  let paramSizeIn : UInt32 := if s ≠ 0 then 2 + 4 + 4 + 4 + 4 + 4 + 4 + 20 + 1 + 20
    else 2 + 4 + 4 + 4 + 4 + 4
  sha1InitLocal
  marshalHeader tagIn paramSizeIn
  marshalUINT32 ordNvReadValue .given .plain
  marshalUINT32 nvIndexIn .given .plain
  marshalUINT32 offsetIn .given .plain
  marshalUINT32 dataSizeIn .given .plain
  sha1FinishLocal
  if s = 0 then transmit device ordNvReadValue paramSizeIn []
  else
    marshalAuth ownerAuth s
    let used ← authUse s
    transmit device ordNvReadValue paramSizeIn [used]

/-- The response of `TPM_NV_ReadValue`; here the keyed hash is finished before
the value it is compared with is unpacked. -/
def nvReadResponse (ownerAuth : Block 20) (session : Option SessionSlot)
    (s : UInt32) : Boot σ (Result HeapData) := do
  sha1InitLocal
  let header ← unmarshalHeader .plain
  if header.result ≠ 0 then return .error (tpmError header.result) ⟨0, 0⟩
  let value ← unmarshalHeapData ordNvReadValue
  if s = 0 then
    let bytesUnpacked ← unpackFinish
    if bytesUnpacked ≠ header.paramSize then return .error .tpmBadOutputParam value
    if header.tag ≠ tagRspCommand then return .error .tpmBadOutputParam value
    return .ok value
  unmarshalAuth ownerAuth s
  hmacFinishLocal
  let hm ← hctxHash
  let ownerAuthOut ← unmarshalObject default .given .null
  session.forM fun slot => closeSession slot s
  let bytesUnpacked ← unpackFinish
  if bytesUnpacked ≠ header.paramSize then return .error .tpmBadOutputParam value
  if header.tag ≠ tagRspAuth1Command then return .error .tpmBadOutputParam value
  if hm ≠ ownerAuthOut then return .error .tpmBadOutputAuth value
  return .ok value

/-- The pointer `session && *session ? *session : NULL`. -/
def optionalSession : Option SessionSlot → Boot σ UInt32
  | none => pure 0
  | some slot => getSlot slot

def tpmNvReadValue (nvIndexIn offsetIn dataSizeIn : UInt32)
    (ownerAuthIn : Option (Block 20)) (session : Option SessionSlot) :
    Boot σ (Result HeapData) :=
  command ordNvReadValue do
    let s ← optionalSession session
    assert (ownerAuthIn.isSome = true ∧ s ≠ 0 ∨ ownerAuthIn.isSome = false ∧ s = 0)
    let transmitRet ← nvReadRequest device nvIndexIn offsetIn dataSizeIn
      (ownerAuthIn.getD default) s
    if transmitRet.exception ≠ .none then
      return .error transmitRet.exception ⟨0, 0⟩
    nvReadResponse (ownerAuthIn.getD default) session s

def unsealRequest (inDataIn : TpmStoredData12) (parentHandleIn : UInt32)
    (parentAuth : Block 20) (parentS : UInt32) (dataAuth : Block 20)
    (dataS : UInt32) : Boot σ (Result Unit) := do
  let inDataSizeIn := sizeofStoredData12 inDataIn
  let paramSizeIn := 2 + 4 + 4 + 4 + inDataSizeIn + 4 + 20 + 1 + 20 +
    4 + 20 + 1 + 20
  sha1InitLocal
  marshalHeader tagRquAuth2Command paramSizeIn
  marshalUINT32 ordUnseal .given .plain
  marshalUINT32 parentHandleIn .given .null
  marshalStoredData12 inDataIn .given .plain
  sha1FinishLocal
  marshalAuth parentAuth parentS
  marshalAuth dataAuth dataS
  let parentUse ← authUse parentS
  let dataUse ← authUse dataS
  transmit device ordUnseal paramSizeIn [parentUse, dataUse]

/-- The response of `TPM_Unseal`: the first keyed hash is compared before the
second trailer is unpacked. -/
def unsealResponse (parentAuth : Block 20) (parentSession : SessionSlot)
    (parentS : UInt32) (dataAuth : Block 20) (dataSession : SessionSlot)
    (dataS : UInt32) : Boot σ (Result HeapData) := do
  sha1InitLocal
  let header ← unmarshalHeader .plain
  if header.result ≠ 0 then return .error (tpmError header.result) ⟨0, 0⟩
  let value ← unmarshalHeapData ordUnseal
  unmarshalAuth parentAuth parentS
  let (resAuthOut, hm) ← unmarshalResAuth
  closeSession parentSession parentS
  if hm ≠ resAuthOut then return .error .tpmBadOutputAuth value
  unmarshalAuth dataAuth dataS
  let (dataAuthOut, hm) ← unmarshalResAuth
  let bytesUnpacked ← unpackFinish
  if bytesUnpacked ≠ header.paramSize then return .error .tpmBadOutputParam value
  if header.tag ≠ tagRspAuth2Command then return .error .tpmBadOutputParam value
  if hm ≠ dataAuthOut then return .error .tpmBadOutputAuth value
  closeSession dataSession dataS
  return .ok value

def tpmUnseal (inDataIn : TpmStoredData12) (parentHandleIn : UInt32)
    (parentAuth : Block 20) (parentSession : SessionSlot) (dataAuth : Block 20)
    (dataSession : SessionSlot) : Boot σ (Result HeapData) :=
  command ordUnseal do
    let parentS ← getSlot parentSession
    let dataS ← getSlot dataSession
    let transmitRet ← unsealRequest device inDataIn parentHandleIn parentAuth
      parentS dataAuth dataS
    if transmitRet.exception ≠ .none then
      return .error transmitRet.exception ⟨0, 0⟩
    unsealResponse parentAuth parentSession parentS dataAuth dataSession dataS

def sealRequest (keyHandleIn : UInt32) (encAuthIn : Block 20)
    (pcrInfoIn : TpmPcrInfoLong) (inDataIn inDataSizeIn : UInt32)
    (s : UInt32) (sharedSecret : Block 20) : Boot σ (Result Unit) := do
  let pcrInfoSizeIn := sizeofPcrInfoLong pcrInfoIn
  let paramSizeIn := 2 + 4 + 4 + 4 + 20 + 4 + pcrInfoSizeIn + 4 + inDataSizeIn +
    4 + 20 + 1 + 20
  sha1InitLocal
  marshalHeader tagRquAuth1Command paramSizeIn
  marshalUINT32 ordSeal .given .plain
  marshalUINT32 keyHandleIn .given .null
  marshalObject encAuthIn .given .plain
  marshalUINT32 pcrInfoSizeIn .given .plain
  marshalPcrInfoLong pcrInfoIn .given .plain
  marshalUINT32 inDataSizeIn .given .plain
  marshalArray inDataIn inDataSizeIn .given .plain
  sha1FinishLocal
  marshalAuth sharedSecret s
  let used ← authUse s
  transmit device ordSeal paramSizeIn [used]

/-- A stored-data object filled with zeros. -/
def emptyStoredData12 : TpmStoredData12 :=
  ⟨0, 0, 0, 0, 0, 0⟩

/-- The response of `TPM_Seal`, which accepts only an ended session. -/
def sealResponse (session : SessionSlot) (s : UInt32) (sharedSecret : Block 20) :
    Boot σ (Result TpmStoredData12) := do
  sha1InitLocal
  let header ← unmarshalHeader .plain
  if header.result ≠ 0 then
    return .error (tpmError header.result) emptyStoredData12
  let _ ← unmarshalUINT32 ordSeal .null .plain
  let value ← unmarshalStoredData12 .given .plain
  sha1FinishLocal
  unmarshalAuth sharedSecret s
  let (resAuthOut, hm) ← unmarshalResAuth
  let bytesUnpacked ← unpackFinish
  if bytesUnpacked ≠ header.paramSize then return .error .tpmBadOutputParam value
  if header.tag ≠ tagRspAuth1Command then return .error .tpmBadOutputParam value
  if hm ≠ resAuthOut then return .error .tpmBadOutputAuth value
  let object ← loadSession s
  if object.continueAuthSession ≠ 0 then return .error .tpmBadOutputParam value
  setSlot session 0
  return .ok value

def tpmSeal (keyHandleIn : UInt32) (encAuthIn : Block 20)
    (pcrInfoIn : TpmPcrInfoLong) (inDataIn inDataSizeIn : UInt32)
    (session : SessionSlot) (sharedSecret : Block 20) :
    Boot σ (Result TpmStoredData12) :=
  command ordSeal do
    let s ← getSlot session
    let transmitRet ← sealRequest device keyHandleIn encAuthIn pcrInfoIn inDataIn
      inDataSizeIn s sharedSecret
    if transmitRet.exception ≠ .none then
      return .error transmitRet.exception emptyStoredData12
    sealResponse session s sharedSecret

end Commands

end Sable
