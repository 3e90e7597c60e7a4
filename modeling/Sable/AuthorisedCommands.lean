import Sable.RequestFrames
import Sable.Frames

/-!
# Authorised commands

The commands that carry authorisation trailers, with what they have in common:
the sessions and secrets they use, the request they are meant to send, and the
split of their run into a request and a response.
-/

namespace Sable

open ByteMemory BigEndian HaltingProgram

/-- The authorised commands of `tpm.c` with their arguments, indexed by the
value they return. -/
inductive AuthorisedCommand : Type → Type
  | nvWriteValueAuth (dataIn dataSizeIn nvIndexIn offsetIn : UInt32)
      (nvAuth : Block 20) (session : SessionSlot) : AuthorisedCommand Unit
  | nvReadValue (nvIndexIn offsetIn dataSizeIn : UInt32) (ownerAuthIn : Block 20)
      (session : SessionSlot) : AuthorisedCommand HeapData
  | unsealBlob (inDataIn : TpmStoredData12) (parentHandleIn : UInt32)
      (parentAuth : Block 20) (parentSession : SessionSlot) (dataAuth : Block 20)
      (dataSession : SessionSlot) : AuthorisedCommand HeapData
  | sealData (keyHandleIn : UInt32) (encAuthIn : Block 20) (pcrInfoIn : TpmPcrInfoLong)
      (inDataIn inDataSizeIn : UInt32) (session : SessionSlot)
      (sharedSecret : Block 20) : AuthorisedCommand TpmStoredData12

namespace AuthorisedCommand

variable {σ α : Type}

def ordinal : AuthorisedCommand α → UInt32
  | nvWriteValueAuth .. => ordNvWriteValueAuth
  | nvReadValue .. => ordNvReadValue
  | unsealBlob .. => ordUnseal
  | sealData .. => ordSeal

/-- The function of `tpm.c`. -/
def run (device : TisDevice σ) : AuthorisedCommand α → Boot σ (Result α)
  | nvWriteValueAuth dataIn dataSizeIn nvIndexIn offsetIn nvAuth session =>
      tpmNvWriteValueAuth device dataIn dataSizeIn nvIndexIn offsetIn nvAuth session
  | nvReadValue nvIndexIn offsetIn dataSizeIn ownerAuthIn session =>
      tpmNvReadValue device nvIndexIn offsetIn dataSizeIn (some ownerAuthIn)
        (some session)
  | unsealBlob inDataIn parentHandleIn parentAuth parentSession dataAuth dataSession =>
      tpmUnseal device inDataIn parentHandleIn parentAuth parentSession dataAuth
        dataSession
  | sealData keyHandleIn encAuthIn pcrInfoIn inDataIn inDataSizeIn session sharedSecret =>
      tpmSeal device keyHandleIn encAuthIn pcrInfoIn inDataIn inDataSizeIn session
        sharedSecret

/-- The secrets of the caller, each with the session it is used in. -/
def credentials (m : Machine σ) : AuthorisedCommand α → List (Block 20 × UInt32)
  | nvWriteValueAuth _ _ _ _ nvAuth session => [(nvAuth, m.sessions session)]
  | nvReadValue _ _ _ ownerAuthIn session => [(ownerAuthIn, m.sessions session)]
  | unsealBlob _ _ parentAuth parentSession dataAuth dataSession =>
      [(parentAuth, m.sessions parentSession), (dataAuth, m.sessions dataSession)]
  | sealData _ _ _ _ _ session sharedSecret => [(sharedSecret, m.sessions session)]

/-- The number of bytes of the frame. -/
def frameSize : AuthorisedCommand α → Nat
  | nvWriteValueAuth _ dataSizeIn _ _ _ _ => 67 + dataSizeIn.toNat
  | nvReadValue .. => 67
  | unsealBlob inDataIn _ _ _ _ _ =>
      116 + inDataIn.sealInfoSize.toNat + inDataIn.encDataSize.toNat
  | sealData _ _ pcrInfoIn _ inDataSizeIn _ _ =>
      87 + (sizeofPcrInfoLong pcrInfoIn).toNat + inDataSizeIn.toNat

/-- The pointers through which the request reads its parameters and sessions. -/
def pointers (m : Machine σ) : AuthorisedCommand α → List UInt32
  | nvWriteValueAuth dataIn _ _ _ _ session => [dataIn, m.sessions session]
  | nvReadValue _ _ _ _ session => [m.sessions session]
  | unsealBlob inDataIn _ _ parentSession _ dataSession =>
      [inDataIn.sealInfo, inDataIn.encData, m.sessions parentSession,
        m.sessions dataSession]
  | sealData _ _ pcrInfoIn inDataIn _ session _ =>
      [pcrInfoIn.creationPCRSelection.pcrSelect,
        pcrInfoIn.releasePCRSelection.pcrSelect, inDataIn, m.sessions session]

/-- The request that the arguments describe. -/
def request (m : Machine σ) (command : AuthorisedCommand α) : TpmWire.Request :=
  match command with
  | nvWriteValueAuth dataIn dataSizeIn nvIndexIn offsetIn _ _ =>
      authorisedRequest m tagRquAuth1Command ordNvWriteValueAuth []
        (nvWriteParams m dataIn dataSizeIn nvIndexIn offsetIn) (command.credentials m)
  | nvReadValue nvIndexIn offsetIn dataSizeIn _ _ =>
      authorisedRequest m tagRquAuth1Command ordNvReadValue []
        (nvReadParams nvIndexIn offsetIn dataSizeIn) (command.credentials m)
  | unsealBlob inDataIn parentHandleIn _ _ _ _ =>
      authorisedRequest m tagRquAuth2Command ordUnseal (be32 parentHandleIn)
        (storedData12Bytes m inDataIn) (command.credentials m)
  | sealData keyHandleIn encAuthIn pcrInfoIn inDataIn inDataSizeIn _ _ =>
      authorisedRequest m tagRquAuth1Command ordSeal (be32 keyHandleIn)
        (sealParams m encAuthIn pcrInfoIn inDataIn inDataSizeIn) (command.credentials m)

/-- The first part of the run, with the session pointers of `m`. -/
def requestPart (device : TisDevice σ) (m : Machine σ) :
    AuthorisedCommand α → Boot σ (Result Unit)
  | nvWriteValueAuth dataIn dataSizeIn nvIndexIn offsetIn nvAuth session =>
      nvWriteRequest device dataIn dataSizeIn nvIndexIn offsetIn nvAuth
        (m.sessions session)
  | nvReadValue nvIndexIn offsetIn dataSizeIn ownerAuthIn session => do
      assert (m.sessions session ≠ 0)
      nvReadRequest device nvIndexIn offsetIn dataSizeIn ownerAuthIn (m.sessions session)
  | unsealBlob inDataIn parentHandleIn parentAuth parentSession dataAuth dataSession =>
      unsealRequest device inDataIn parentHandleIn parentAuth (m.sessions parentSession)
        dataAuth (m.sessions dataSession)
  | sealData keyHandleIn encAuthIn pcrInfoIn inDataIn inDataSizeIn session sharedSecret =>
      sealRequest device keyHandleIn encAuthIn pcrInfoIn inDataIn inDataSizeIn
        (m.sessions session) sharedSecret

/-- The second part of the run. -/
def responsePart (m : Machine σ) : AuthorisedCommand α → Boot σ (Result α)
  | nvWriteValueAuth _ _ _ _ nvAuth session =>
      nvWriteResponse nvAuth session (m.sessions session)
  | nvReadValue _ _ _ ownerAuthIn session =>
      nvReadResponse ownerAuthIn (some session) (m.sessions session)
  | unsealBlob _ _ parentAuth parentSession dataAuth dataSession =>
      unsealResponse parentAuth parentSession (m.sessions parentSession) dataAuth
        dataSession (m.sessions dataSession)
  | sealData _ _ _ _ _ session sharedSecret =>
      sealResponse session (m.sessions session) sharedSecret

/-- The value returned with a transmission error. -/
def noValue : AuthorisedCommand α → α
  | nvWriteValueAuth .. => ()
  | nvReadValue .. => ⟨0, 0⟩
  | unsealBlob .. => ⟨0, 0⟩
  | sealData .. => emptyStoredData12

/-- What follows the transmission of the request. -/
def afterRequest (m : Machine σ) (command : AuthorisedCommand α)
    (transmitRet : Result Unit) : Boot σ (Result α) :=
  if transmitRet.exception ≠ .none then
    pure (.error transmitRet.exception command.noValue)
  else command.responsePart m

/-- The state in which the request is packed. -/
def issuedAt (m : Machine σ) (command : AuthorisedCommand α) : Machine σ :=
  { m with log := m.log ++ [.issued command.ordinal] }

theorem assert_congr {p q : Prop} [Decidable p] [Decidable q] (same : p ↔ q) :
    (assert p : Boot σ Unit) = assert q := by
  unfold assert
  simp only [same]

theorem run_eq (device : TisDevice σ) (m : Machine σ) (command : AuthorisedCommand α) :
    command.run device m =
      (do
        let transmitRet ← command.requestPart device m
        let ret ← command.afterRequest m transmitRet
        emit (.finished command.ordinal ret.exception)
        return ret) (command.issuedAt m) := by
  cases command with
  | nvWriteValueAuth dataIn dataSizeIn nvIndexIn offsetIn nvAuth session =>
      simp only [run, tpmNvWriteValueAuth, Sable.command, emit, Prog.bind_modify,
        getSlot, bind_assoc, Prog.bind_get, pure_bind, requestPart,
        afterRequest, responsePart, noValue, ordinal, issuedAt]
  | nvReadValue nvIndexIn offsetIn dataSizeIn ownerAuthIn session =>
      have check : (assert ((some ownerAuthIn).isSome = true ∧ m.sessions session ≠ 0 ∨
          (some ownerAuthIn).isSome = false ∧ m.sessions session = 0) : Boot σ Unit) =
            assert (m.sessions session ≠ 0) :=
        assert_congr (by simp)
      simp only [run, tpmNvReadValue, Sable.command, emit, Prog.bind_modify,
        optionalSession, getSlot, bind_assoc, Prog.bind_get, pure_bind, requestPart,
        afterRequest, responsePart, noValue, ordinal, issuedAt, check,
        Option.getD_some]
  | unsealBlob inDataIn parentHandleIn parentAuth parentSession dataAuth dataSession =>
      simp only [run, tpmUnseal, Sable.command, emit, Prog.bind_modify,
        getSlot, bind_assoc, Prog.bind_get, pure_bind, requestPart,
        afterRequest, responsePart, noValue, ordinal, issuedAt]
  | sealData keyHandleIn encAuthIn pcrInfoIn inDataIn inDataSizeIn session sharedSecret =>
      simp only [run, tpmSeal, Sable.command, emit, Prog.bind_modify,
        getSlot, bind_assoc, Prog.bind_get, pure_bind, requestPart,
        afterRequest, responsePart, noValue, ordinal, issuedAt]

end AuthorisedCommand

end Sable
