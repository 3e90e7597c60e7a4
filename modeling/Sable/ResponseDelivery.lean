import Sable.ParserReads
import Sable.ReceivedBytes

/-!
# Responses of earlier commands

All commands receive into the same output buffer, and their parsers are free to
read all of it.  A TPM command is the packing of a frame, an exchange, and what
the command does with the response.  In runs in which the device delivers every
response as a whole, the bytes that a successful parser has read were received
in the exchange of its own command.
-/

namespace Sable

open ByteMemory BigEndian HaltingProgram

/-- The calls of the functions of `tpm.c`, indexed by the value they return. -/
inductive TpmCall : Type → Type
  | startup (startupTypeIn : UInt16) : TpmCall Unit
  | getRandom (buffer : List UInt8) (bytesRequestedIn : UInt32) : TpmCall (List UInt8)
  | pcrRead (pcrIndexIn : UInt32) : TpmCall (Block 20)
  | extend (pcrNumIn : UInt32) (inDigestIn : Block 20) : TpmCall (Block 20)
  | oiap (session : SessionSlot) : TpmCall Unit
  | osap (entityTypeIn : UInt16) (entityValueIn : UInt32) (nonceOddOSAP : Block 20)
      (session : SessionSlot) : TpmCall Unit
  | nvWriteValueAuth (dataIn dataSizeIn nvIndexIn offsetIn : UInt32) (nvAuth : Block 20)
      (session : SessionSlot) : TpmCall Unit
  | nvReadValue (nvIndexIn offsetIn dataSizeIn : UInt32) (ownerAuthIn : Option (Block 20))
      (session : Option SessionSlot) : TpmCall HeapData
  | unsealBlob (inDataIn : TpmStoredData12) (parentHandleIn : UInt32)
      (parentAuth : Block 20) (parentSession : SessionSlot) (dataAuth : Block 20)
      (dataSession : SessionSlot) : TpmCall HeapData
  | sealData (keyHandleIn : UInt32) (encAuthIn : Block 20) (pcrInfoIn : TpmPcrInfoLong)
      (inDataIn inDataSizeIn : UInt32) (session : SessionSlot)
      (sharedSecret : Block 20) : TpmCall TpmStoredData12

section Parts

variable {σ α : Type}

/-- Check the packed size and log the frame, as `transmit` does before it calls
the driver. -/
def handOver (ordinalIn paramSizeIn : UInt32) (uses : List (UInt32 × Block 20)) :
    Boot σ Unit := do
  let bytesPacked ← packFinish
  assert (bytesPacked = paramSizeIn)
  let m ← Prog.get
  emit (.sent ordinalIn uses (read m.tisIn 0 bytesPacked.toNat))

/-- The frame of a command without authorisation. -/
def plainFrame (ordinalIn paramSizeIn : UInt32) (uses : List (UInt32 × Block 20))
    (params : Boot σ Unit) : Boot σ Unit := do
  marshalHeader tagRquCommand paramSizeIn
  marshalUINT32 ordinalIn .given .null
  params
  handOver ordinalIn paramSizeIn uses

def nvWriteFrame (dataIn dataSizeIn nvIndexIn offsetIn : UInt32) (nvAuth : Block 20)
    (s : UInt32) : Boot σ Unit := do
  let paramSizeIn := 2 + 4 + 4 + 4 + 4 + 4 + dataSizeIn + 4 + 20 + 1 + 20
  sha1InitLocal
  marshalHeader tagRquAuth1Command paramSizeIn
  marshalUINT32 ordNvWriteValueAuth .given .plain
  marshalUINT32 nvIndexIn .given .plain
  marshalUINT32 offsetIn .given .plain
  marshalUINT32 dataSizeIn .given .plain
  marshalArray dataIn dataSizeIn .given .plain
  sha1FinishLocal
  marshalAuth nvAuth s
  let used ← authUse s
  handOver ordNvWriteValueAuth paramSizeIn [used]

def nvReadFrame (nvIndexIn offsetIn dataSizeIn : UInt32) (ownerAuth : Block 20)
    (s : UInt32) : Boot σ Unit := do
  let tagIn := if s ≠ 0 then tagRquAuth1Command else tagRquCommand
  let paramSizeIn : UInt32 := if s ≠ 0 then 2 + 4 + 4 + 4 + 4 + 4 + 4 + 20 + 1 + 20
    else 2 + 4 + 4 + 4 + 4 + 4
  sha1InitLocal
  marshalHeader tagIn paramSizeIn
  marshalUINT32 ordNvReadValue .given .plain
  marshalUINT32 nvIndexIn .given .plain
  marshalUINT32 offsetIn .given .plain
  marshalUINT32 dataSizeIn .given .plain
  sha1FinishLocal
  if s = 0 then handOver ordNvReadValue paramSizeIn []
  else
    marshalAuth ownerAuth s
    let used ← authUse s
    handOver ordNvReadValue paramSizeIn [used]

def unsealFrame (inDataIn : TpmStoredData12) (parentHandleIn : UInt32)
    (parentAuth : Block 20) (parentS : UInt32) (dataAuth : Block 20)
    (dataS : UInt32) : Boot σ Unit := do
  let inDataSizeIn := sizeofStoredData12 inDataIn
  let paramSizeIn := 2 + 4 + 4 + 4 + inDataSizeIn + 4 + 20 + 1 + 20 +
    4 + 20 + 1 + 20
  sha1InitLocal
  marshalHeader tagRquAuth2Command paramSizeIn
  marshalUINT32 ordUnseal .given .plain
  marshalUINT32 parentHandleIn .given .null
  marshalStoredData12 inDataIn .given .plain
  sha1FinishLocal
  marshalAuth parentAuth parentS
  marshalAuth dataAuth dataS
  let parentUse ← authUse parentS
  let dataUse ← authUse dataS
  handOver ordUnseal paramSizeIn [parentUse, dataUse]

def sealFrame (keyHandleIn : UInt32) (encAuthIn : Block 20)
    (pcrInfoIn : TpmPcrInfoLong) (inDataIn inDataSizeIn : UInt32)
    (s : UInt32) (sharedSecret : Block 20) : Boot σ Unit := do
  let pcrInfoSizeIn := sizeofPcrInfoLong pcrInfoIn
  let paramSizeIn := 2 + 4 + 4 + 4 + 20 + 4 + pcrInfoSizeIn + 4 + inDataSizeIn +
    4 + 20 + 1 + 20
  sha1InitLocal
  marshalHeader tagRquAuth1Command paramSizeIn
  marshalUINT32 ordSeal .given .plain
  marshalUINT32 keyHandleIn .given .null
  marshalObject encAuthIn .given .plain
  marshalUINT32 pcrInfoSizeIn .given .plain
  marshalPcrInfoLong pcrInfoIn .given .plain
  marshalUINT32 inDataSizeIn .given .plain
  marshalArray inDataIn inDataSizeIn .given .plain
  sha1FinishLocal
  marshalAuth sharedSecret s
  let used ← authUse s
  handOver ordSeal paramSizeIn [used]

/-- What follows an exchange: the exception of the driver is passed on, or the
response is parsed. -/
def afterExchange (initial : α) (response : Boot σ (Result α)) (transmitRet : Result Unit) :
    Boot σ (Result α) :=
  if transmitRet.exception ≠ .none then pure (.error transmitRet.exception initial)
  else response

end Parts

namespace TpmCall

variable {σ α : Type}

/-- The function of `tpm.c`. -/
def run (device : TisDevice σ) : TpmCall α → Boot σ (Result α)
  | startup startupTypeIn => tpmStartup device startupTypeIn
  | getRandom buffer bytesRequestedIn => tpmGetRandom device buffer bytesRequestedIn
  | pcrRead pcrIndexIn => tpmPCRRead device pcrIndexIn
  | extend pcrNumIn inDigestIn => tpmExtend device pcrNumIn inDigestIn
  | oiap session => tpmOIAP device session
  | osap entityTypeIn entityValueIn nonceOddOSAP session =>
      tpmOSAP device entityTypeIn entityValueIn nonceOddOSAP session
  | nvWriteValueAuth dataIn dataSizeIn nvIndexIn offsetIn nvAuth session =>
      tpmNvWriteValueAuth device dataIn dataSizeIn nvIndexIn offsetIn nvAuth session
  | nvReadValue nvIndexIn offsetIn dataSizeIn ownerAuthIn session =>
      tpmNvReadValue device nvIndexIn offsetIn dataSizeIn ownerAuthIn session
  | unsealBlob inDataIn parentHandleIn parentAuth parentSession dataAuth dataSession =>
      tpmUnseal device inDataIn parentHandleIn parentAuth parentSession dataAuth
        dataSession
  | sealData keyHandleIn encAuthIn pcrInfoIn inDataIn inDataSizeIn session sharedSecret =>
      tpmSeal device keyHandleIn encAuthIn pcrInfoIn inDataIn inDataSizeIn session
        sharedSecret

/-- The part of a call before the driver is called; the result are the session
pointers that the rest of the call uses. -/
def frame : TpmCall α → Boot σ (UInt32 × UInt32)
  | startup startupTypeIn => do
      emit (.issued ordStartup)
      plainFrame ordStartup (2 + 4 + 4 + 2) [] (marshalUINT16 startupTypeIn .given .null)
      return (0, 0)
  | getRandom _ bytesRequestedIn => do
      emit (.issued ordGetRandom)
      plainFrame ordGetRandom (2 + 4 + 4 + 4) []
        (marshalUINT32 bytesRequestedIn .given .null)
      return (0, 0)
  | pcrRead pcrIndexIn => do
      emit (.issued ordPcrRead)
      plainFrame ordPcrRead (2 + 4 + 4 + 4) [] (marshalUINT32 pcrIndexIn .given .null)
      return (0, 0)
  | extend pcrNumIn inDigestIn => do
      emit (.extend pcrNumIn inDigestIn)
      emit (.issued ordExtend)
      plainFrame ordExtend (2 + 4 + 4 + 4 + 20) [] do
        marshalUINT32 pcrNumIn .given .null
        marshalObject inDigestIn .given .null
      return (0, 0)
  | oiap _ => do
      emit (.issued ordOIAP)
      plainFrame ordOIAP (2 + 4 + 4) [] (pure ())
      return (0, 0)
  | osap entityTypeIn entityValueIn nonceOddOSAP _ => do
      emit (.issued ordOSAP)
      plainFrame ordOSAP (2 + 4 + 4 + 2 + 4 + 20) [(0, nonceOddOSAP)] do
        marshalUINT16 entityTypeIn .given .null
        marshalUINT32 entityValueIn .given .null
        marshalObject nonceOddOSAP .given .null
      return (0, 0)
  | nvWriteValueAuth dataIn dataSizeIn nvIndexIn offsetIn nvAuth session => do
      emit (.issued ordNvWriteValueAuth)
      let s ← getSlot session
      nvWriteFrame dataIn dataSizeIn nvIndexIn offsetIn nvAuth s
      return (s, 0)
  | nvReadValue nvIndexIn offsetIn dataSizeIn ownerAuthIn session => do
      emit (.issued ordNvReadValue)
      let s ← optionalSession session
      assert (ownerAuthIn.isSome = true ∧ s ≠ 0 ∨ ownerAuthIn.isSome = false ∧ s = 0)
      nvReadFrame nvIndexIn offsetIn dataSizeIn (ownerAuthIn.getD default) s
      return (s, 0)
  | unsealBlob inDataIn parentHandleIn parentAuth parentSession dataAuth dataSession => do
      emit (.issued ordUnseal)
      let parentS ← getSlot parentSession
      let dataS ← getSlot dataSession
      unsealFrame inDataIn parentHandleIn parentAuth parentS dataAuth dataS
      return (parentS, dataS)
  | sealData keyHandleIn encAuthIn pcrInfoIn inDataIn inDataSizeIn session
      sharedSecret => do
      emit (.issued ordSeal)
      let s ← getSlot session
      sealFrame keyHandleIn encAuthIn pcrInfoIn inDataIn inDataSizeIn s sharedSecret
      return (s, 0)

/-- The end of a command: it is logged with its exception. -/
def logged (ordinal : UInt32) (body : Boot σ (Result α)) : Boot σ (Result α) := do
  let ret ← body
  emit (.finished ordinal ret.exception)
  return ret

/-- The part of a call behind the driver. -/
def rest (s : UInt32 × UInt32) (transmitRet : Result Unit) :
    TpmCall α → Boot σ (Result α)
  | startup _ =>
      logged ordStartup (afterExchange () (plainResponse () (pure (.ok ()))) transmitRet)
  | getRandom buffer bytesRequestedIn => do
      let ret ← logged ordGetRandom <| afterExchange buffer (plainResponse buffer do
        let randomBytesSizeOut ← unmarshalUINT32 0 .given .null
        if bytesRequestedIn ≠ randomBytesSizeOut then
          return .error .tpmBadOutputParam buffer
        let bytes ← unmarshalArray (some buffer) randomBytesSizeOut .given .null
        return .ok (bytes.getD [])) transmitRet
      emit (.random ret.exception ret.value)
      return ret
  | pcrRead _ =>
      logged ordPcrRead <| afterExchange default (plainResponse default do
        let value ← unmarshalObject default .given .null
        return .ok value) transmitRet
  | extend _ _ =>
      logged ordExtend <| afterExchange default (plainResponse default do
        let value ← unmarshalObject default .given .null
        return .ok value) transmitRet
  | oiap session =>
      logged ordOIAP (afterExchange () (plainResponse () (unmarshalOIAP session)) transmitRet)
  | osap _ _ nonceOddOSAP session =>
      logged ordOSAP do
        let ret ← afterExchange 0 (plainResponse 0 (unmarshalOSAP nonceOddOSAP session))
          transmitRet
        if ret.exception ≠ .none then return .error ret.exception ()
        updateOsap ret.value fun extension =>
          { extension with nonceOddOSAP := nonceOddOSAP }
        return .ok ()
  | nvWriteValueAuth _ _ _ _ nvAuth session =>
      logged ordNvWriteValueAuth
        (afterExchange () (nvWriteResponse nvAuth session s.1) transmitRet)
  | nvReadValue _ _ _ ownerAuthIn session =>
      logged ordNvReadValue (afterExchange ⟨0, 0⟩
        (nvReadResponse (ownerAuthIn.getD default) session s.1) transmitRet)
  | unsealBlob _ _ parentAuth parentSession dataAuth dataSession =>
      logged ordUnseal (afterExchange ⟨0, 0⟩
        (unsealResponse parentAuth parentSession s.1 dataAuth dataSession s.2) transmitRet)
  | sealData _ _ _ _ _ session sharedSecret =>
      logged ordSeal (afterExchange emptyStoredData12
        (sealResponse session s.1 sharedSecret) transmitRet)

theorem nvReadRequest_eq (device : TisDevice σ) (nvIndexIn offsetIn dataSizeIn : UInt32)
    (ownerAuth : Block 20) (s : UInt32) :
    nvReadRequest device nvIndexIn offsetIn dataSizeIn ownerAuth s = (do
      nvReadFrame nvIndexIn offsetIn dataSizeIn ownerAuth s
      tisTransmit device) := by
  by_cases null : s = 0
  · simp only [nvReadRequest, nvReadFrame, null, if_true, transmit, handOver, bind_assoc]
  · simp only [nvReadRequest, nvReadFrame, null, if_false, transmit, handOver, bind_assoc]

/-- Every call packs its frame, exchanges it, and goes on with the response. -/
theorem run_eq (device : TisDevice σ) (call : TpmCall α) :
    call.run device = (do
      let s ← call.frame
      let transmitRet ← tisTransmit device
      call.rest s transmitRet) := by
  cases call with
  | nvReadValue nvIndexIn offsetIn dataSizeIn ownerAuthIn session =>
      simp only [run, frame, rest, tpmNvReadValue, nvReadRequest_eq, command, afterExchange,
        logged, bind_assoc, pure_bind]
  | _ =>
      simp only [run, frame, rest, tpmStartup, tpmGetRandom, tpmPCRRead, tpmExtend, tpmOIAP,
        tpmOSAP, tpmNvWriteValueAuth, tpmUnseal, tpmSeal, command, plainCommand,
        plainRequest, nvWriteRequest, unsealRequest, sealRequest, transmit, plainFrame,
        nvWriteFrame, unsealFrame, sealFrame, handOver, afterExchange, logged, bind_assoc,
        pure_bind]

/-- A number of random bytes that a buffer can hold. -/
def Modest : TpmCall α → Prop
  | getRandom _ bytesRequestedIn => bytesRequestedIn.toNat < 2 ^ 31
  | _ => True

end TpmCall

section Frames

variable {σ : Type}

@[grind ←]
theorem handOver_respects {keep still : Prop} {allowed : Event → Prop}
    (events : BodyEvents allowed) (ordinalIn paramSizeIn : UInt32)
    (uses : List (UInt32 × Block 20)) :
    Respects keep still allowed (handOver ordinalIn paramSizeIn uses : Boot σ Unit) := by
  have sent := events.sent
  unfold handOver
  repeat' first
    | with_reducible intro _
    | with_reducible apply Respects.bind
  all_goals grind

theorem plainFrame_keeps_memory {ordinalIn paramSizeIn : UInt32}
    {uses : List (UInt32 × Block 20)} {params : Boot σ Unit}
    (respects : Respects False True (fun _ => True) params) :
    Prog.Preserves (fun m => (m.mem, m.heap))
      (plainFrame ordinalIn paramSizeIn uses params) := by
  refine marshalHeader_keeps_memory fun _ => ?_
  refine (marshalBytes_respects _ _ _).bind fun _ => respects.bind fun _ => ?_
  exact handOver_respects bodyEvents_true _ _ _

theorem nvWriteFrame_keeps_memory (dataIn dataSizeIn nvIndexIn offsetIn : UInt32)
    (nvAuth : Block 20) (s : UInt32) :
    Prog.Preserves (fun m => (m.mem, m.heap))
      (nvWriteFrame dataIn dataSizeIn nvIndexIn offsetIn nvAuth s : Boot σ Unit) := by
  have events := bodyEvents_true
  refine Prog.Preserves.bind (fun _ => rfl) fun _ => marshalHeader_keeps_memory fun _ => ?_
  unfold marshalUINT32
  repeat' first
    | with_reducible intro _
    | with_reducible apply Respects.bind
  all_goals grind

theorem nvReadFrame_keeps_memory (nvIndexIn offsetIn dataSizeIn : UInt32)
    (ownerAuth : Block 20) (s : UInt32) :
    Prog.Preserves (fun m => (m.mem, m.heap))
      (nvReadFrame nvIndexIn offsetIn dataSizeIn ownerAuth s : Boot σ Unit) := by
  have events := bodyEvents_true
  refine Prog.Preserves.bind (fun _ => rfl) fun _ => marshalHeader_keeps_memory fun _ => ?_
  unfold marshalUINT32
  repeat' first
    | with_reducible intro _
    | with_reducible apply Respects.bind
    | with_reducible apply Respects.ite
  all_goals grind

theorem unsealFrame_keeps_memory (inDataIn : TpmStoredData12) (parentHandleIn : UInt32)
    (parentAuth : Block 20) (parentS : UInt32) (dataAuth : Block 20) (dataS : UInt32) :
    Prog.Preserves (fun m => (m.mem, m.heap)) (unsealFrame inDataIn parentHandleIn parentAuth
      parentS dataAuth dataS : Boot σ Unit) := by
  have events := bodyEvents_true
  refine Prog.Preserves.bind (fun _ => rfl) fun _ => marshalHeader_keeps_memory fun _ => ?_
  unfold marshalUINT32
  repeat' first
    | with_reducible intro _
    | with_reducible apply Respects.bind
  all_goals grind

theorem sealFrame_keeps_memory (keyHandleIn : UInt32) (encAuthIn : Block 20)
    (pcrInfoIn : TpmPcrInfoLong) (inDataIn inDataSizeIn : UInt32) (s : UInt32)
    (sharedSecret : Block 20) :
    Prog.Preserves (fun m => (m.mem, m.heap)) (sealFrame keyHandleIn encAuthIn pcrInfoIn
      inDataIn inDataSizeIn s sharedSecret : Boot σ Unit) := by
  have events := bodyEvents_true
  refine Prog.Preserves.bind (fun _ => rfl) fun _ => marshalHeader_keeps_memory fun _ => ?_
  unfold marshalUINT32 marshalObject
  repeat' first
    | with_reducible intro _
    | with_reducible apply Respects.bind
  all_goals grind

/-- Packing a frame leaves the memory alone. -/
theorem TpmCall.frame_keeps_memory {α : Type} (call : TpmCall α) :
    Prog.Preserves (fun m => (m.mem, m.heap)) (call.frame : Boot σ (UInt32 × UInt32)) := by
  have log (event : Event) :
      Prog.Preserves (fun m => (m.mem, m.heap)) (emit event : Boot σ Unit) :=
    fun _ => rfl
  have slot (session : SessionSlot) :
      Prog.Preserves (fun m => (m.mem, m.heap)) (getSlot session : Boot σ UInt32) :=
    fun _ => rfl
  cases call with
  | startup startupTypeIn =>
      refine (log _).bind fun _ => Prog.Preserves.bind ?_ fun _ _ => rfl
      exact plainFrame_keeps_memory (marshalBytes_respects _ _ _)
  | getRandom buffer bytesRequestedIn =>
      refine (log _).bind fun _ => Prog.Preserves.bind ?_ fun _ _ => rfl
      exact plainFrame_keeps_memory (marshalBytes_respects _ _ _)
  | pcrRead pcrIndexIn =>
      refine (log _).bind fun _ => Prog.Preserves.bind ?_ fun _ _ => rfl
      exact plainFrame_keeps_memory (marshalBytes_respects _ _ _)
  | extend pcrNumIn inDigestIn =>
      refine (log _).bind fun _ => (log _).bind fun _ =>
        Prog.Preserves.bind ?_ fun _ _ => rfl
      exact plainFrame_keeps_memory
        ((marshalBytes_respects _ _ _).bind fun _ => marshalBytes_respects _ _ _)
  | oiap session =>
      refine (log _).bind fun _ => Prog.Preserves.bind ?_ fun _ _ => rfl
      exact plainFrame_keeps_memory (Respects.ret _)
  | osap entityTypeIn entityValueIn nonceOddOSAP session =>
      refine (log _).bind fun _ => Prog.Preserves.bind ?_ fun _ _ => rfl
      exact plainFrame_keeps_memory ((marshalBytes_respects _ _ _).bind fun _ =>
        (marshalBytes_respects _ _ _).bind fun _ => marshalBytes_respects _ _ _)
  | nvWriteValueAuth dataIn dataSizeIn nvIndexIn offsetIn nvAuth session =>
      refine (log _).bind fun _ => (slot _).bind fun _ =>
        Prog.Preserves.bind ?_ fun _ _ => rfl
      exact nvWriteFrame_keeps_memory _ _ _ _ _ _
  | nvReadValue nvIndexIn offsetIn dataSizeIn ownerAuthIn session =>
      have optional : Prog.Preserves (fun m => (m.mem, m.heap))
          (optionalSession session : Boot σ UInt32) := by
        cases session with
        | none => exact fun _ => rfl
        | some session => exact slot session
      refine (log _).bind fun _ => optional.bind fun _ =>
        Prog.Preserves.bind (Prog.Steps.ite (fun _ => rfl) fun _ => rfl) fun _ =>
          Prog.Preserves.bind ?_ fun _ _ => rfl
      exact nvReadFrame_keeps_memory _ _ _ _ _
  | unsealBlob inDataIn parentHandleIn parentAuth parentSession dataAuth dataSession =>
      refine (log _).bind fun _ => (slot _).bind fun _ => (slot _).bind fun _ =>
        Prog.Preserves.bind ?_ fun _ _ => rfl
      exact unsealFrame_keeps_memory _ _ _ _ _ _
  | sealData keyHandleIn encAuthIn pcrInfoIn inDataIn inDataSizeIn session sharedSecret =>
      refine (log _).bind fun _ => (slot _).bind fun _ =>
        Prog.Preserves.bind ?_ fun _ _ => rfl
      exact sealFrame_keeps_memory _ _ _ _ _ _ _

end Frames

section Responses

variable {σ α β : Type} {area : HeapArea}

theorem afterExchange_ok {initial : α} {response : Boot σ (Result α)} {ret : Result Unit}
    (success : ret.exception = .none) : afterExchange initial response ret = response :=
  if_neg (not_not_intro success)

theorem unmarshalOIAP_parses (session : SessionSlot) :
    Parses area (unmarshalOIAP session : Boot σ (Result Unit)) := by
  unfold unmarshalOIAP
  repeat' first
    | with_reducible intro _
    | with_reducible apply Parses.bind
  all_goals grind

theorem unmarshalOSAP_parses (nonceOddOSAP : Block 20) (session : SessionSlot) :
    Parses area (unmarshalOSAP nonceOddOSAP session : Boot σ (Result UInt32)) := by
  have skipped : Parses area
      (unmarshalArray none 20 .given .null : Boot σ (Option (List UInt8))) :=
    unmarshalArray_parses none (by decide) .given .null
  unfold unmarshalOSAP
  repeat' first
    | with_reducible intro _
    | with_reducible apply Parses.bind
    | with_reducible apply Parses.ite
  all_goals grind

theorem randomBytes_parses {buffer : List UInt8} {bytesRequestedIn : UInt32}
    (modest : bytesRequestedIn.toNat < 2 ^ 31) :
    Parses area (do
      let randomBytesSizeOut ← unmarshalUINT32 0 .given .null
      if bytesRequestedIn ≠ randomBytesSizeOut then
        return .error .tpmBadOutputParam buffer
      let bytes ← unmarshalArray (some buffer) randomBytesSizeOut .given .null
      return .ok (bytes.getD []) : Boot σ (Result (List UInt8))) := by
  refine (unmarshalUINT32_parses _ _ _).bind fun size => ?_
  by_cases same : bytesRequestedIn = size
  · rw [if_neg (not_not_intro same)]
    subst same
    exact (unmarshalArray_parses _ modest _ _).bind fun _ => Parses.ret _
  · rw [if_pos same]
    exact Parses.ret _

theorem logged_startsParsing {ordinal : UInt32} {body : Boot σ (Result α)}
    (starts : StartsParsing area body) : StartsParsing area (TpmCall.logged ordinal body) :=
  starts.bind fun _ => (emit_parses _).bind fun _ => Parses.ret _

/-- The rest of a call after a successful exchange depends only on the bytes that
it unpacks. -/
theorem TpmCall.rest_startsParsing {call : TpmCall α} (modest : call.Modest)
    {ret : Result Unit} (success : ret.exception = .none) (s : UInt32 × UInt32) :
    StartsParsing area (call.rest s ret : Boot σ (Result α)) := by
  have digest : Parses area (do
      let value ← unmarshalObject default .given .null
      return .ok value : Boot σ (Result (Block 20))) :=
    (unmarshalObject_parses _ _ _).bind fun _ => Parses.ret _
  cases call with
  | startup startupTypeIn =>
      rw [rest, afterExchange_ok success]
      exact logged_startsParsing (plainResponse_startsParsing (Parses.ret _))
  | getRandom buffer bytesRequestedIn =>
      rw [rest, afterExchange_ok success]
      refine StartsParsing.bind (logged_startsParsing
        (plainResponse_startsParsing (randomBytes_parses modest))) fun _ => ?_
      exact (emit_parses _).bind fun _ => Parses.ret _
  | pcrRead pcrIndexIn =>
      rw [rest, afterExchange_ok success]
      exact logged_startsParsing (plainResponse_startsParsing digest)
  | extend pcrNumIn inDigestIn =>
      rw [rest, afterExchange_ok success]
      exact logged_startsParsing (plainResponse_startsParsing digest)
  | oiap session =>
      rw [rest, afterExchange_ok success]
      exact logged_startsParsing (plainResponse_startsParsing (unmarshalOIAP_parses session))
  | osap entityTypeIn entityValueIn nonceOddOSAP session =>
      rw [rest, afterExchange_ok success]
      refine logged_startsParsing (StartsParsing.bind
        (plainResponse_startsParsing (unmarshalOSAP_parses nonceOddOSAP session)) fun _ => ?_)
      exact Parses.ite (Parses.ret _) ((updateOsap_parses _ _).bind fun _ => Parses.ret _)
  | nvWriteValueAuth dataIn dataSizeIn nvIndexIn offsetIn nvAuth session =>
      rw [rest, afterExchange_ok success]
      exact logged_startsParsing (nvWriteResponse_startsParsing _ _ _)
  | nvReadValue nvIndexIn offsetIn dataSizeIn ownerAuthIn session =>
      rw [rest, afterExchange_ok success]
      exact logged_startsParsing (nvReadResponse_startsParsing _ _ _)
  | unsealBlob inDataIn parentHandleIn parentAuth parentSession dataAuth dataSession =>
      rw [rest, afterExchange_ok success]
      exact logged_startsParsing (unsealResponse_startsParsing _ _ _ _ _ _)
  | sealData keyHandleIn encAuthIn pcrInfoIn inDataIn inDataSizeIn session sharedSecret =>
      rw [rest, afterExchange_ok success]
      exact logged_startsParsing (sealResponse_startsParsing _ _ _)

/-- What a call does after the check of the size keeps the unpack context, and it
does not turn a failure into a success. -/
theorem ChecksSize.bind {program : Boot σ (Result α)} {next : Result α → Boot σ (Result β)}
    (first : ChecksSize area program)
    (keeps : ∀ ret, Prog.Preserves (fun m => m.locals.uctx) (next ret))
    (passes : ∀ ret m value reached, next ret m = .ok value reached →
      value.exception = .none → ret.exception = .none) :
    ChecksSize area (program >>= next) := by
  intro out
  refine Prog.Runs.bind (first out) fun ret m checked => ?_
  have same := keeps ret m
  cases run : next ret m with
  | ok value reached =>
      rw [run] at same
      intro none
      exact (congrArg UnpackContext.bytesUnpacked same).trans
        (checked (passes ret m value reached run none))
  | halt reason reached => trivial

theorem logged_checksSize {ordinal : UInt32} {body : Boot σ (Result α)}
    (checks : ChecksSize area body) : ChecksSize area (TpmCall.logged ordinal body) := by
  refine checks.bind (fun ret => fun _ => rfl) ?_
  intro ret m value reached run none
  cases run
  exact none

/-- A call that succeeds after a successful exchange has unpacked as many bytes as
the response announces. -/
theorem TpmCall.rest_checksSize {call : TpmCall α} (modest : call.Modest)
    {ret : Result Unit} (success : ret.exception = .none) (s : UInt32 × UInt32) :
    ChecksSize area (call.rest s ret : Boot σ (Result α)) := by
  have digest : Parses area (do
      let value ← unmarshalObject default .given .null
      return .ok value : Boot σ (Result (Block 20))) :=
    (unmarshalObject_parses _ _ _).bind fun _ => Parses.ret _
  cases call with
  | startup startupTypeIn =>
      rw [rest, afterExchange_ok success]
      exact logged_checksSize (plainResponse_checksSize (Parses.ret _))
  | getRandom buffer bytesRequestedIn =>
      rw [rest, afterExchange_ok success]
      refine (logged_checksSize (plainResponse_checksSize (randomBytes_parses modest))).bind
        (fun ret => fun _ => rfl) ?_
      intro ret m value reached run none
      cases run
      exact none
  | pcrRead pcrIndexIn =>
      rw [rest, afterExchange_ok success]
      exact logged_checksSize (plainResponse_checksSize digest)
  | extend pcrNumIn inDigestIn =>
      rw [rest, afterExchange_ok success]
      exact logged_checksSize (plainResponse_checksSize digest)
  | oiap session =>
      rw [rest, afterExchange_ok success]
      exact logged_checksSize (plainResponse_checksSize (unmarshalOIAP_parses session))
  | osap entityTypeIn entityValueIn nonceOddOSAP session =>
      rw [rest, afterExchange_ok success]
      refine logged_checksSize ((plainResponse_checksSize
        (unmarshalOSAP_parses nonceOddOSAP session)).bind (fun ret => ?_) ?_)
      · refine Prog.Steps.ite (fun _ => rfl) (Prog.Preserves.bind ?_ fun _ _ => rfl)
        exact Prog.Steps.ite (fun _ => rfl) fun _ => rfl
      · intro ret m value reached run none
        by_contra failed
        rw [if_pos failed] at run
        cases run
        exact failed none
  | nvWriteValueAuth dataIn dataSizeIn nvIndexIn offsetIn nvAuth session =>
      rw [rest, afterExchange_ok success]
      exact logged_checksSize (nvWriteResponse_checksSize _ _ _)
  | nvReadValue nvIndexIn offsetIn dataSizeIn ownerAuthIn session =>
      rw [rest, afterExchange_ok success]
      exact logged_checksSize (nvReadResponse_checksSize _ _ _)
  | unsealBlob inDataIn parentHandleIn parentAuth parentSession dataAuth dataSession =>
      rw [rest, afterExchange_ok success]
      exact logged_checksSize (unsealResponse_checksSize _ _ _ _ _ _)
  | sealData keyHandleIn encAuthIn pcrInfoIn inDataIn inDataSizeIn session sharedSecret =>
      rw [rest, afterExchange_ok success]
      exact logged_checksSize (sealResponse_checksSize _ _ _)

end Responses

section Runs

variable {σ α : Type} {device : TisDevice σ} {area : HeapArea}

theorem tisTransmit_keeps_memory :
    Prog.Preserves (fun m => (m.mem, m.heap)) (tisTransmit device) := by
  have register {β : Type} (register : σ → β × σ) :
      Prog.Preserves (fun m : Machine σ => (m.mem, m.heap)) (readReg register) :=
    fun _ => rfl
  have waits (mmap : UInt32) (state : UInt8) (polls : Nat) :
      Prog.Preserves (fun m => (m.mem, m.heap)) (waitState device mmap state polls) := by
    induction polls with
    | zero => exact fun _ => rfl
    | succ polls ih =>
        exact (register _).bind fun _ => Prog.Steps.ite (fun _ => rfl) ih
  have writes (mmap : UInt32) (bytes : List UInt8) :
      Prog.Preserves (fun m => (m.mem, m.heap)) (writeFifoLoop device mmap bytes) := by
    induction bytes with
    | nil => exact fun _ => rfl
    | cons byte bytes ih => exact Prog.Preserves.bind (fun _ => rfl) fun _ => ih
  have reads (mmap : UInt32) (count value : Nat) :
      Prog.Preserves (fun m => (m.mem, m.heap)) (readFifoLoop device mmap count value) := by
    induction count generalizing value with
    | zero => exact fun _ => rfl
    | succ count ih =>
        refine (register _).bind fun _ => Prog.Preserves.ite (fun _ => rfl) ?_
        refine (register _).bind fun _ => Prog.Preserves.ite ?_ fun _ => rfl
        exact Prog.Preserves.bind (fun _ => rfl) fun _ => ih (value + 1)
  unfold tisTransmit tisWrite tisRead tisReady
  repeat' first
    | with_reducible intro _
    | with_reducible apply Prog.Preserves.bind
    | with_reducible apply Prog.Preserves.ite
  all_goals first
    | exact waits _ _ _
    | exact writes _ _
    | exact reads _ _ _
    | exact fun _ => rfl

/-- The exception of the driver is passed on. -/
theorem TpmCall.exception_of_failed {call : TpmCall α} {s : UInt32 × UInt32}
    {ret : Result Unit} {m reached : Machine σ} {value : Result α}
    (failed : ret.exception ≠ .none) (run : call.rest s ret m = .ok value reached) :
    value.exception = ret.exception ∧ reached.mem = m.mem ∧ reached.heap = m.heap := by
  cases call with
  | osap entityTypeIn entityValueIn nonceOddOSAP session =>
      simp only [rest, logged, afterExchange, if_pos failed, pure_bind] at run
      rw [if_pos (by exact failed)] at run
      cases run
      exact ⟨rfl, rfl, rfl⟩
  | _ =>
      simp only [rest, logged, afterExchange, if_pos failed, bind_assoc, pure_bind] at run
      cases run
      exact ⟨rfl, rfl, rfl⟩

/-- The condition on a call: the device delivers the whole response to its frame,
and random bytes are asked for in a number that a buffer can hold. -/
structure TpmCall.Delivered (device : TisDevice σ) (call : TpmCall α)
    (m : Machine (σ × List UInt8)) : Prop where
  modest : call.Modest
  whole : ∀ s packed, call.frame m = .ok s packed → Delivers device.recorded packed

/-- A successful exchange has received exactly the bytes that the header announces,
and a successful call depends on no other byte of the output buffer. -/
structure TpmCall.OwnBytes (device : TisDevice σ) (call : TpmCall α)
    (m : Machine (σ × List UInt8)) : Prop where
  received : ∀ s packed ret answered, call.frame m = .ok s packed →
    tisTransmit device.recorded packed = .ok ret answered → ret.exception = .none →
    WholeResponse answered.received ∧
      read answered.tisOut 0 answered.received.length = answered.received
  parsed : ∀ s packed ret answered value reached, call.frame m = .ok s packed →
    tisTransmit device.recorded packed = .ok ret answered →
    call.rest s ret answered = .ok value reached → value.exception = .none →
    ∀ out, read out 0 answered.received.length = answered.received →
      call.rest s ret (answered.withOut out) = .ok value (reached.withOut out)

/-- The states between the calls of a run in which every call is `Delivered`.  What
the boot loader does between two calls leaves the TPM and the output buffer alone
and keeps the heap sound. -/
inductive Attended (area : HeapArea) (device : TisDevice σ) :
    Machine (σ × List UInt8) → Prop
  | start {m : Machine (σ × List UInt8)} {before : Mem} (nonempty : 0 < area.units)
      (heap : m.heap = area.heap)
      (init : initHeap area.heap area.size before = .ok () m.mem) : Attended area device m
  | between {m next : Machine (σ × List UInt8)} (attended : Attended area device m)
      (world : next.world = m.world) (out : next.tisOut = m.tisOut)
      (sound : SoundHeap area next) : Attended area device next
  | call {α : Type} {call : TpmCall α} {m next : Machine (σ × List UInt8)}
      {value : Result α} (attended : Attended area device m)
      (delivered : call.Delivered device m)
      (run : call.run device.recorded m = .ok value next) : Attended area device next

theorem SoundHeap.of_eq {m next : Machine σ} (sound : SoundHeap area m)
    (same : (next.mem, next.heap) = (m.mem, m.heap)) : SoundHeap area next := by
  obtain ⟨mem, heap⟩ := Prod.mk.inj same
  exact ⟨heap.trans sound.1, mem ▸ sound.2⟩

/-- The heap is sound when the response is parsed. -/
theorem TpmCall.answered_soundHeap {call : TpmCall α} {m packed answered : Machine σ}
    {s : UInt32 × UInt32} {ret : Result Unit} (sound : SoundHeap area m)
    (frames : call.frame m = .ok s packed)
    (transmits : tisTransmit device packed = .ok ret answered) : SoundHeap area answered :=
  (sound.of_eq (call.frame_keeps_memory.eq_of_ok frames)).of_eq
    (tisTransmit_keeps_memory.eq_of_ok transmits)

theorem TpmCall.soundHeap {call : TpmCall α} (modest : call.Modest) {m next : Machine σ}
    {value : Result α} (sound : SoundHeap area m)
    (run : call.run device m = .ok value next) : SoundHeap area next := by
  rw [run_eq] at run
  obtain ⟨s, packed, frames, run⟩ := Prog.bind_eq_ok.mp run
  obtain ⟨ret, answered, transmits, run⟩ := Prog.bind_eq_ok.mp run
  have answeredSound := answered_soundHeap sound frames transmits
  by_cases success : ret.exception = .none
  · exact (rest_startsParsing modest success s _ _ _ answeredSound run).1.heap
  · obtain ⟨-, mem, heap⟩ := exception_of_failed success run
    exact answeredSound.of_eq (Prod.ext mem heap)

theorem Attended.soundHeap {m : Machine (σ × List UInt8)}
    (attended : Attended area device m) : SoundHeap area m := by
  induction attended with
  | start nonempty heap init => exact ⟨heap, 0, Tracks.init nonempty init⟩
  | between attended world out sound ih => exact sound
  | call attended delivered run ih => exact TpmCall.soundHeap delivered.modest ih run

/-- In every run in which the device delivers each response as a whole, no parser
that succeeds has read a byte of an earlier response. -/
theorem Attended.ownBytes {m : Machine (σ × List UInt8)} (attended : Attended area device m)
    (call : TpmCall α) (delivered : call.Delivered device m) :
    call.OwnBytes device m := by
  refine ⟨?_, ?_⟩
  · intro s packed ret answered frames transmits success
    exact tisTransmit_whole device (delivered.whole s packed frames) transmits success
  · intro s packed ret answered value reached frames transmits run none out agree
    have success : ret.exception = .none := by
      by_contra failed
      exact failed ((TpmCall.exception_of_failed failed run).1.symm.trans none)
    have sound := TpmCall.answered_soundHeap attended.soundHeap frames transmits
    obtain ⟨whole, stored⟩ :=
      tisTransmit_whole device (delivered.whole s packed frames) transmits success
    have unpacked := (TpmCall.rest_checksSize delivered.modest success s
      answered.tisOut).of_ok ⟨sound, rfl⟩ run none
    have header : read answered.tisOut 2 4 = (answered.received.drop 2).take 4 := by
      rw [← stored, drop_read _ _ _ _ (by have := whole.1; omega),
        take_read _ _ _ _ (by have := whole.1; omega)]
    have count : reached.parsed = answered.received.length := by
      rw [Machine.parsed, unpacked, header, whole.2.1,
        toNat_ofNat_small (by have := whole.2.2; omega)]
    refine (TpmCall.rest_startsParsing delivered.modest success s _ _ _ sound
      run).2.determined out ?_
    rw [count, agree, stored]

/-- A device whose responses are given beforehand; the status register shows data
until the response is used up. -/
def scriptedDevice : TisDevice (List UInt8 × List (List UInt8)) where
  readAccess := fun _ world => (tisAccessValid, world)
  writeAccess := fun _ _ world => world
  readIntfCapability := fun _ world => (0, world)
  readSts := fun _ world => (if world.1 = [] then 0xc0 else 0xd0, world)
  writeSts := fun _ value world =>
    if value = tisStsTpmGo then (world.2.headD [], world.2.tail) else ([], world.2)
  readFifo := fun _ world => (world.1.headD 0xff, world.1.tail, world.2)
  writeFifo := fun _ _ world => world
  readDidVid := fun world => (0x10001, world)
  readRid := fun world => (0, world)

/-- The response to a `TPM_PCRRead` of a register filled with one byte. -/
def pcrReadResponse (byte : UInt8) : List UInt8 :=
  [0, 0xc4, 0, 0, 0, 30, 0, 0, 0, 0] ++ List.replicate 20 byte

/-- A device that answers every command by the same response. -/
def steadyAnswer (response : List UInt8) : TisDevice (List UInt8) where
  readAccess := fun _ world => (tisAccessValid, world)
  writeAccess := fun _ _ world => world
  readIntfCapability := fun _ world => (0, world)
  readSts := fun _ world => (if world = [] then 0xc0 else 0xd0, world)
  writeSts := fun _ value _ => if value = tisStsTpmGo then response else []
  readFifo := fun _ world => (world.headD 0xff, world.tail)
  writeFifo := fun _ _ world => world
  readDidVid := fun world => (0x10001, world)
  readRid := fun world => (0, world)

theorem steadyAnswer_delivers (m : Machine (List UInt8 × List UInt8)) :
    Delivers (steadyAnswer (pcrReadResponse 1)).recorded m := by
  intro mmap reached run
  have started := @tisAwait_started _ (steadyAnswer (pcrReadResponse 1)).recorded
    (fun world => world = (pcrReadResponse 1, [])) (fun _ _ => rfl)
    (fun _ _ known => by rw [known]; rfl)
  have known := started.of_ok trivial run rfl
  have delivered : (deliver (steadyAnswer (pcrReadResponse 1)).recorded mmap 30
      reached.world).1 = pcrReadResponse 1 := by
    rw [known]
    rfl
  exact ⟨30, by rw [delivered]; exact ⟨by decide, by decide, by decide⟩,
    by rw [delivered]; rfl⟩

/-- The state of a machine with a fresh heap. -/
def freshMachine {σ : Type} (world : σ) : Machine σ :=
  { Machine.blank world with
    heap := 4096
    mem := MemNode.store (fun _ => 0) 4096 ⟨7, 0⟩ }

theorem Attended.ownBytes_pcrRead :
    (∃ reached, (TpmCall.pcrRead 19).run (steadyAnswer (pcrReadResponse 1)).recorded
        (freshMachine ([], [])) = .ok (.ok ⟨List.replicate 20 1, rfl⟩) reached) ∧
      (TpmCall.pcrRead 19).OwnBytes (steadyAnswer (pcrReadResponse 1))
        (freshMachine ([], [])) := by
  refine ⟨Outcome.eq_ok_of_value? (by decide +kernel), ?_⟩
  have init : initHeap 4096 64 (fun _ => 0) =
      .ok () (freshMachine (([], []) : List UInt8 × List UInt8)).mem :=
    rfl
  have start : Attended ⟨4096, 64, by decide, by decide⟩ (steadyAnswer (pcrReadResponse 1))
      (freshMachine ([], [])) :=
    Attended.start (by decide) rfl init
  exact start.ownBytes (TpmCall.pcrRead 19) ⟨trivial, fun _ _ _ => steadyAnswer_delivers _⟩

/-- The second response ends behind its header, and the second call returns the
value of the first register. -/
theorem pcrRead_returns_stale_value :
    ∃ m, (TpmCall.pcrRead 18).run scriptedDevice.recorded
        (freshMachine (([], [pcrReadResponse 1, (pcrReadResponse 2).take 6]), [])) =
          .ok (.ok ⟨List.replicate 20 1, rfl⟩) m ∧
      (∃ reached, (TpmCall.pcrRead 19).run scriptedDevice.recorded m =
        .ok (.ok ⟨List.replicate 20 1, rfl⟩) reached ∧ reached.received.length = 6) ∧
      ¬ (TpmCall.pcrRead 19).OwnBytes scriptedDevice m := by
  have values : ((do
      let first ← (TpmCall.pcrRead 18).run scriptedDevice.recorded
      let s ← (TpmCall.pcrRead 19).frame
      let ret ← tisTransmit scriptedDevice.recorded
      let answered ← Prog.get
      let second ← (TpmCall.pcrRead 19).rest s ret
      let reached ← Prog.get
      return (first, ret.exception, answered.received, second, reached.received.length))
        (freshMachine (([], [pcrReadResponse 1, (pcrReadResponse 2).take 6]), []))).value? =
      some (.ok ⟨List.replicate 20 1, rfl⟩, .none, [0, 0xc4, 0, 0, 0, 30],
        .ok ⟨List.replicate 20 1, rfl⟩, 6) := by
    decide +kernel
  obtain ⟨last, run⟩ := Outcome.eq_ok_of_value? values
  obtain ⟨first, m, runFirst, run⟩ := Prog.bind_eq_ok.mp run
  obtain ⟨s, packed, frames, run⟩ := Prog.bind_eq_ok.mp run
  obtain ⟨ret, answered, transmits, run⟩ := Prog.bind_eq_ok.mp run
  rw [Prog.bind_get] at run
  obtain ⟨second, reached, rests, run⟩ := Prog.bind_eq_ok.mp run
  rw [Prog.bind_get, Prog.pure_apply] at run
  simp only [Outcome.ok.injEq, Prod.mk.injEq] at run
  obtain ⟨⟨rfl, success, received, rfl, count⟩, -⟩ := run
  refine ⟨m, runFirst, ⟨reached, ?_, count⟩, fun own => ?_⟩
  · rw [TpmCall.run_eq, Prog.bind_ok frames, Prog.bind_ok transmits, rests]
  · obtain ⟨⟨-, size, -⟩, -⟩ := own.received s packed ret answered frames transmits success
    rw [received] at size
    exact absurd size (by decide)

end Runs

end Sable
