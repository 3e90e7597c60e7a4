import Sable.NvRoundTrip

/-!
# A TPM that seals

What the boot flow relies on when it seals a passphrase and unseals it in a
later boot: a TPM 1.2 with authorisation sessions, platform configuration
registers, areas that store bytes, and a storage root key that binds data to
the digest of some registers and to a secret.  Its random numbers, its choice of
session handles and the encryption under the storage root key are parameters.
-/

namespace Sable

open ByteMemory BigEndian HaltingProgram

section State

/-- A session that the TPM has open, with its even nonce; a session of `OSAP` has the
nonces of its shared secret as well. -/
structure OpenSession where
  nonceEven : Block 20
  sharedNonces : Option (List UInt8)

/-- The key with which a session authorises the use of what `auth` protects. -/
def OpenSession.secret (session : OpenSession) (auth : Block 20) : Block 20 :=
  match session.sharedNonces with
  | none => auth
  | some nonces => SecureHash.hmac auth.bytes nonces

/-- A keyed hash that the TPM has compared with the one in a request. -/
structure KeyedCheck where
  session : OpenSession
  message : List UInt8

/-- The keyed hash of somebody who knows `auth`. -/
def KeyedCheck.mac (check : KeyedCheck) (auth : Block 20) : Block 20 :=
  SecureHash.hmac (check.session.secret auth).bytes check.message

/-- An area of non-volatile storage with the secret that a write needs. -/
structure NvSpace where
  auth : Block 20
  bytes : List UInt8
  bounded : bytes.length < 2 ^ 31

theorem length_overwriteBytes {bytes data : List UInt8} {offset : Nat}
    (inside : offset + data.length ≤ bytes.length) :
    (overwriteBytes bytes offset data).length = bytes.length := by
  simp only [overwriteBytes, List.length_append, List.length_take, List.length_drop]
  omega

def NvSpace.overwrite (space : NvSpace) (offset : Nat) (data : List UInt8)
    (inside : offset + data.length ≤ space.bytes.length) : NvSpace where
  auth := space.auth
  bytes := overwriteBytes space.bytes offset data
  bounded := by
    rw [length_overwriteBytes inside]
    exact space.bounded

/-- The state of the TPM.  An index without an area has one of no bytes.  The checks made
with the secret of the storage root key and those made with the secret of sealed data are
remembered. -/
structure SealingState where
  srkAuth : Block 20
  pcrs : Nat → Block 20
  spaces : UInt32 → NvSpace
  drawn : Nat
  sessions : UInt32 → Option OpenSession
  srkChecks : List KeyedCheck
  dataChecks : List KeyedCheck

/-- The state after a restart: the sessions are gone, the registers have new values and
other random numbers have been drawn. -/
structure Restarted (before after : SealingState) : Prop where
  srkAuth : after.srkAuth = before.srkAuth
  spaces : after.spaces = before.spaces
  sessions : after.sessions = fun _ => none
  srkChecks : after.srkChecks = []
  dataChecks : after.dataChecks = []

/-- What is encrypted under the storage root key: the secret and the data, and a digest of
the fields of the blob that are not encrypted. -/
structure SealedData where
  auth : Block 20
  storedDigest : Block 20
  data : List UInt8

/-- The parameters of the TPM.  The storage root key has 2048 bits.  There is a handle as
long as no more than one session is open. -/
structure SealingChip where
  random : Nat → Block 20
  freeHandle : (UInt32 → Option OpenSession) → Option UInt32
  wrap : Block 20 → SealedData → Option (List UInt8)
  unwrap : List UInt8 → Option SealedData
  freeHandle_free : ∀ sessions handle, freeHandle sessions = some handle →
    sessions handle = none
  freeHandle_second : ∀ sessions first, (∀ other, other ≠ first → sessions other = none) →
    (freeHandle sessions).isSome
  length_wrap : ∀ seed sealed encData, wrap seed sealed = some encData → encData.length = 256
  length_unwrap : ∀ encData sealed, unwrap encData = some sealed → sealed.data.length ≤ 256
  unwrap_wrap : ∀ seed sealed encData, wrap seed sealed = some encData →
    unwrap encData = some sealed

end State

section Registers

/-- The registers that a selection names by the bits of its bytes. -/
def selectedPcrs (selection : List UInt8) : List Nat :=
  (List.range 24).filter fun pcr =>
    (selection.getD (2 + pcr / 8) 0).toNat.testBit (pcr % 8)

/-- `TPM_PCR_COMPOSITE` for the current values of the selected registers. -/
def pcrComposite (pcrs : Nat → Block 20) (selection : List UInt8) : List UInt8 :=
  let values := ((selectedPcrs selection).map fun pcr => (pcrs pcr).bytes).flatten
  selection ++ be32 (UInt32.ofNat values.length) ++ values

def compositeDigest (pcrs : Nat → Block 20) (selection : List UInt8) : Block 20 :=
  SecureHash.sha1 (pcrComposite pcrs selection)

/-- The fields of `TPM_PCR_INFO_LONG` with selections of three bytes. -/
structure PcrInfoFields where
  front : List UInt8
  creation : List UInt8
  release : List UInt8
  digestAtRelease : List UInt8

def PcrInfoFields.ofBytes (info : List UInt8) : PcrInfoFields where
  front := info.take 4
  creation := (info.drop 4).take 5
  release := (info.drop 9).take 5
  digestAtRelease := (info.drop 34).take 20

/-- The information that goes into a blob: the digest at its creation comes from the
TPM. -/
def sealInfoOf (pcrs : Nat → Block 20) (info : List UInt8) : List UInt8 :=
  let fields := PcrInfoFields.ofBytes info
  fields.front ++ fields.creation ++ fields.release ++
    (compositeDigest pcrs fields.creation).bytes ++ fields.digestAtRelease

/-- The fields of a blob that are not encrypted. -/
def storedDigest (sealInfo : List UInt8) : Block 20 :=
  SecureHash.sha1 (blobFields 0x16 0 sealInfo [])

end Registers

section Commands

/-- An error, which leaves the state alone. -/
def refusal (code : UInt32) : TpmWire.Response :=
  ⟨tagRspCommand, code, [], []⟩

/-- The session of a trailer after a granted command. -/
def SealingState.roll (core : SealingState) (trailer : TpmWire.RequestTrailer)
    (session : OpenSession) (nonceEven : Block 20) : SealingState :=
  { core with
    sessions := Function.update core.sessions trailer.handle
      (if trailer.continueAuthSession = 0 then none
        else some { session with nonceEven := nonceEven }) }

/-- The check that a trailer asks for. -/
def checkOf (request : TpmWire.Request) (session : OpenSession)
    (trailer : TpmWire.RequestTrailer) : KeyedCheck :=
  ⟨session, trailer.message request.digest session.nonceEven⟩

/-- The state when the secret of the storage root key has been checked. -/
def SealingState.checkedFor (core : SealingState) (request : TpmWire.Request)
    (session : OpenSession) (trailer : TpmWire.RequestTrailer) : SealingState :=
  { core with srkChecks := core.srkChecks ++ [checkOf request session trailer] }

variable (chip : SealingChip) (core : SealingState) (request : TpmWire.Request)

def answerGetRandom : TpmWire.Response × SealingState :=
  let bytes := (chip.random core.drawn).bytes.take (ofBe32 (request.params.take 4)).toNat
  (⟨tagRspCommand, 0, be32 (UInt32.ofNat bytes.length) ++ bytes, []⟩,
    { core with drawn := core.drawn + 1 })

def answerPcrRead : TpmWire.Response × SealingState :=
  let index := (ofBe32 (request.params.take 4)).toNat
  if index < 24 then (⟨tagRspCommand, 0, (core.pcrs index).bytes, []⟩, core)
  else (refusal 2, core)

def answerOIAP : TpmWire.Response × SealingState :=
  match chip.freeHandle core.sessions with
  | none => (refusal 0x15, core)
  | some handle =>
      let nonceEven := chip.random core.drawn
      (oiapAnswer handle nonceEven,
        { core with
          drawn := core.drawn + 1
          sessions := Function.update core.sessions handle (some ⟨nonceEven, none⟩) })

/-- The response that opens a session with a shared secret. -/
def osapAnswer (handle : UInt32) (nonceEven nonceEvenOSAP : Block 20) : TpmWire.Response :=
  ⟨tagRspCommand, 0, be32 handle ++ nonceEven.bytes ++ nonceEvenOSAP.bytes, []⟩

/-- Only sessions for the storage root key are opened. -/
def answerOSAP : TpmWire.Response × SealingState :=
  if request.params.take 6 = be16 etKeyhandle ++ be32 khSRK then
    match chip.freeHandle core.sessions with
    | none => (refusal 0x15, core)
    | some handle =>
        let nonceEven := chip.random core.drawn
        let nonceEvenOSAP := chip.random (core.drawn + 1)
        (osapAnswer handle nonceEven nonceEvenOSAP,
          { core with
            drawn := core.drawn + 2
            sessions := Function.update core.sessions handle
              (some ⟨nonceEven, some (nonceEvenOSAP.bytes ++ request.params.drop 6)⟩) })
  else (refusal 3, core)

/-- Seal the data of an authorised request. -/
def sealGranted (trailer : TpmWire.RequestTrailer) (session : OpenSession) :
    TpmWire.Response × SealingState :=
  let secret := session.secret core.srkAuth
  let pad := SecureHash.sha1 (secret.bytes ++ session.nonceEven.bytes)
  let auth := Block.xor (Block.ofList 20 (request.params.take 20)) pad
  let infoSize := (ofBe32 ((request.params.drop 20).take 4)).toNat
  let info := (request.params.drop 24).take infoSize
  let data := request.params.drop (28 + infoSize)
  let sealInfo := sealInfoOf core.pcrs info
  let nonceEven := chip.random (core.drawn + 1)
  if infoSize = 54 then
    match chip.wrap (chip.random core.drawn) ⟨auth, storedDigest sealInfo, data⟩ with
    | none => (refusal 0x2b, core)
    | some encData =>
        (.granted tagRspAuth1Command ordSeal (blobFields 0x16 0 sealInfo encData)
          [⟨secret, nonceEven, trailer.nonceOdd, trailer.continueAuthSession⟩],
          { core with drawn := core.drawn + 2 }.roll trailer session nonceEven)
  else (refusal 3, core)

def answerSeal : TpmWire.Response × SealingState :=
  match request.trailers with
  | [trailer] =>
      match core.sessions trailer.handle with
      | none => (refusal 0x22, core)
      | some session =>
          if request.handles = be32 khSRK ∧ session.sharedNonces.isSome ∧
              trailer.auth = (checkOf request session trailer).mac core.srkAuth then
            sealGranted chip (core.checkedFor request session trailer) request trailer session
          else (refusal 1, core.checkedFor request session trailer)
  | _ => (refusal 0x22, core)

def answerNvWrite : TpmWire.Response × SealingState :=
  match request.trailers with
  | [trailer] =>
      match core.sessions trailer.handle with
      | none => (refusal 0x22, core)
      | some session =>
          let index := ofBe32 (request.params.take 4)
          let offset := (ofBe32 ((request.params.drop 4).take 4)).toNat
          let data := request.params.drop 12
          let space := core.spaces index
          if trailer.auth = (checkOf request session trailer).mac space.auth then
            if inside : offset + data.length ≤ space.bytes.length then
              let nonceEven := chip.random core.drawn
              (.granted tagRspAuth1Command ordNvWriteValueAuth []
                [⟨session.secret space.auth, nonceEven, trailer.nonceOdd,
                  trailer.continueAuthSession⟩],
                { core with
                  drawn := core.drawn + 1
                  spaces := Function.update core.spaces index
                    (space.overwrite offset data inside) }.roll trailer session nonceEven)
            else (refusal 0x11, core)
          else (refusal 1, core)
  | _ => (refusal 0x22, core)

def answerNvRead : TpmWire.Response × SealingState :=
  let space := core.spaces (ofBe32 (request.params.take 4))
  let offset := (ofBe32 ((request.params.drop 4).take 4)).toNat
  let size := (ofBe32 ((request.params.drop 8).take 4)).toNat
  if offset + size ≤ space.bytes.length ∧ 14 + size ≤ 1024 then
    (nvDataOf ((space.bytes.drop offset).take size), core)
  else (refusal 0x11, core)

/-- The response to an authorised request for sealed data. -/
def unsealGranted (data : List UInt8)
    (trailers : List (TpmWire.RequestTrailer × Block 20)) : TpmWire.Response :=
  .granted tagRspAuth2Command ordUnseal (be32 (UInt32.ofNat data.length) ++ data)
    (trailers.map fun trailer =>
      ⟨trailer.2, chip.random core.drawn, trailer.1.nonceOdd, trailer.1.continueAuthSession⟩)

/-- The two strings of a blob. -/
def blobStrings (blob : List UInt8) : List UInt8 × List UInt8 :=
  let sealInfoSize := (ofBe32 ((blob.drop 4).take 4)).toNat
  ((blob.drop 8).take sealInfoSize, blob.drop (12 + sealInfoSize))

/-- Sealed data are given to a caller who knows their secret, while the registers have the
values that they are bound to. -/
def unsealFor (parent entity : TpmWire.RequestTrailer)
    (parentSession dataSession : OpenSession) : TpmWire.Response × SealingState :=
  let (sealInfo, encData) := blobStrings request.params
  match chip.unwrap encData with
  | none => (refusal 0x24, core)
  | some sealed =>
      if sealed.storedDigest = storedDigest sealInfo then
        let check := checkOf request dataSession entity
        let checked := { core with dataChecks := core.dataChecks ++ [check] }
        let fields := PcrInfoFields.ofBytes sealInfo
        if entity.auth = check.mac sealed.auth then
          if (compositeDigest core.pcrs fields.release).bytes = fields.digestAtRelease then
            (unsealGranted chip core sealed.data
              [(parent, parentSession.secret core.srkAuth),
                (entity, dataSession.secret sealed.auth)],
              ({ checked with drawn := core.drawn + 1 }.roll parent parentSession
                (chip.random core.drawn)).roll entity dataSession (chip.random core.drawn))
          else (refusal 0x18, checked)
        else (refusal 0x1d, checked)
      else (refusal 0x24, core)

def answerUnseal : TpmWire.Response × SealingState :=
  match request.trailers with
  | [parent, entity] =>
      match core.sessions parent.handle, core.sessions entity.handle with
      | some parentSession, some dataSession =>
          if request.handles = be32 khSRK ∧
              parent.auth = (checkOf request parentSession parent).mac core.srkAuth then
            unsealFor chip (core.checkedFor request parentSession parent) request parent entity
              parentSession dataSession
          else (refusal 1, core.checkedFor request parentSession parent)
      | _, _ => (refusal 0x22, core)
  | _ => (refusal 0x22, core)

/-- The answer of the TPM to a request. -/
def SealingChip.answer : TpmWire.Response × SealingState :=
  if request.ordinal = ordGetRandom then answerGetRandom chip core request
  else if request.ordinal = ordPcrRead then answerPcrRead core request
  else if request.ordinal = ordOIAP then answerOIAP chip core
  else if request.ordinal = ordOSAP then answerOSAP chip core request
  else if request.ordinal = ordSeal then answerSeal chip core request
  else if request.ordinal = ordUnseal then answerUnseal chip core request
  else if request.ordinal = ordNvWriteValueAuth then answerNvWrite chip core request
  else if request.ordinal = ordNvReadValue then answerNvRead core request
  else (refusal 0x0a, core)

/-- The TPM behind the registers gives these answers. -/
def FifoTpm.Follows {σ : Type} {device : TisDevice σ} {mmap : UInt32}
    (tpm : FifoTpm device mmap SealingState) (chip : SealingChip) : Prop :=
  ∀ core request, request.WellFormed → tpm.exec core request.encode =
    ((chip.answer core request).1.encode, (chip.answer core request).2)

end Commands

section Answers

variable {σ : Type} {device : TisDevice σ} {mmap : UInt32}
  {tpm : FifoTpm device mmap SealingState} {chip : SealingChip} {core : SealingState}

theorem FifoTpm.Follows.nonce (follows : tpm.Follows chip) :
    tpm.exec core nonceRequest.encode =
      ((nonceAnswer (chip.random core.drawn)).encode,
        { core with drawn := core.drawn + 1 }) := by
  have params : nonceRequest.params = be32 20 := rfl
  have ordinal : nonceRequest.ordinal = ordGetRandom := rfl
  have whole : (chip.random core.drawn).bytes.take 20 = (chip.random core.drawn).bytes :=
    List.take_of_length_le (Block.length_eq _).le
  rw [follows core nonceRequest ⟨rfl, rfl, by decide⟩, SealingChip.answer, ordinal, if_pos rfl,
    answerGetRandom, params, List.take_of_length_le (length_be32 _).le, ofBe32_be32]
  simp only [UInt32.reduceToNat, whole, Block.length_eq]
  rfl

/-- The request for the value of a register. -/
def pcrRequest (index : UInt32) : TpmWire.Request :=
  plainRequestOf ordPcrRead (be32 index)

theorem FifoTpm.Follows.pcrRead (follows : tpm.Follows chip) {index : UInt32} {pcr : Nat}
    (number : index.toNat = pcr) (known : pcr < 24) :
    tpm.exec core (pcrRequest index).encode =
      ((⟨tagRspCommand, 0, (core.pcrs pcr).bytes, []⟩ : TpmWire.Response).encode, core) := by
  have params : (pcrRequest index).params = be32 index := rfl
  have ordinal : (pcrRequest index).ordinal = ordPcrRead := rfl
  rw [follows core (pcrRequest index) ⟨rfl, rfl, by
      rw [pcrRequest, plainRequestOf, TpmWire.Request.size]
      simp⟩, SealingChip.answer, ordinal, if_neg (by decide), if_pos rfl, answerPcrRead, params,
    List.take_of_length_le (length_be32 _).le, ofBe32_be32, number, if_pos known]

theorem FifoTpm.Follows.oiap (follows : tpm.Follows chip) {handle : UInt32}
    (free : chip.freeHandle core.sessions = some handle) :
    tpm.exec core oiapRequest.encode =
      ((oiapAnswer handle (chip.random core.drawn)).encode,
        { core with
          drawn := core.drawn + 1
          sessions := Function.update core.sessions handle
            (some ⟨chip.random core.drawn, none⟩) }) := by
  have ordinal : oiapRequest.ordinal = ordOIAP := rfl
  rw [follows core oiapRequest ⟨rfl, rfl, by decide⟩, SealingChip.answer, ordinal,
    if_neg (by decide), if_neg (by decide), if_pos rfl, answerOIAP, free]

theorem FifoTpm.Follows.oiap_full (follows : tpm.Follows chip)
    (full : chip.freeHandle core.sessions = none) :
    resultOf (tpm.exec core oiapRequest.encode).1 ≠ 0 := by
  have ordinal : oiapRequest.ordinal = ordOIAP := rfl
  rw [follows core oiapRequest ⟨rfl, rfl, by decide⟩, SealingChip.answer, ordinal,
    if_neg (by decide), if_neg (by decide), if_pos rfl, answerOIAP, full, resultOf_encode]
  exact (by decide : (0x15 : UInt32) ≠ 0)

/-- The request for a session that shares a secret of the storage root key. -/
def osapRequest (nonceOddOSAP : Block 20) : TpmWire.Request :=
  plainRequestOf ordOSAP (be16 etKeyhandle ++ be32 khSRK ++ nonceOddOSAP.bytes)

theorem osapRequest_wellFormed (nonceOddOSAP : Block 20) :
    (osapRequest nonceOddOSAP).WellFormed :=
  ⟨rfl, rfl, by simp [osapRequest, plainRequestOf, TpmWire.Request.size]⟩

theorem osapRequest_params (nonceOddOSAP : Block 20) :
    (osapRequest nonceOddOSAP).params.take 6 = be16 etKeyhandle ++ be32 khSRK ∧
      (osapRequest nonceOddOSAP).params.drop 6 = nonceOddOSAP.bytes := by
  have length : (be16 etKeyhandle ++ be32 khSRK).length = 6 := by simp
  exact ⟨List.take_left' length, List.drop_left' length⟩

theorem FifoTpm.Follows.osap (follows : tpm.Follows chip) {handle : UInt32}
    (nonceOddOSAP : Block 20) (free : chip.freeHandle core.sessions = some handle) :
    tpm.exec core (osapRequest nonceOddOSAP).encode =
      ((osapAnswer handle (chip.random core.drawn) (chip.random (core.drawn + 1))).encode,
        { core with
          drawn := core.drawn + 2
          sessions := Function.update core.sessions handle (some ⟨chip.random core.drawn,
            some ((chip.random (core.drawn + 1)).bytes ++ nonceOddOSAP.bytes)⟩) }) := by
  have ordinal : (osapRequest nonceOddOSAP).ordinal = ordOSAP := rfl
  obtain ⟨entity, nonce⟩ := osapRequest_params nonceOddOSAP
  rw [follows core _ (osapRequest_wellFormed nonceOddOSAP), SealingChip.answer, ordinal,
    if_neg (by decide), if_neg (by decide), if_neg (by decide), if_pos rfl, answerOSAP,
    if_pos entity, free, nonce]

theorem FifoTpm.Follows.osap_full (follows : tpm.Follows chip) (nonceOddOSAP : Block 20)
    (full : chip.freeHandle core.sessions = none) :
    resultOf (tpm.exec core (osapRequest nonceOddOSAP).encode).1 ≠ 0 := by
  have ordinal : (osapRequest nonceOddOSAP).ordinal = ordOSAP := rfl
  rw [follows core _ (osapRequest_wellFormed nonceOddOSAP), SealingChip.answer, ordinal,
    if_neg (by decide), if_neg (by decide), if_neg (by decide), if_pos rfl, answerOSAP,
    if_pos (osapRequest_params nonceOddOSAP).1, full, resultOf_encode]
  exact (by decide : (0x15 : UInt32) ≠ 0)

end Answers

section Storage

variable {σ : Type} {device : TisDevice σ} {mmap : UInt32}
  {tpm : FifoTpm device mmap SealingState} {chip : SealingChip} {core : SealingState}

/-- The fields of the parameters of a write and of a read. -/
theorem nvParams_fields (index offset size : UInt32) (data : List UInt8) :
    let params := be32 index ++ be32 offset ++ be32 size ++ data
    ofBe32 (params.take 4) = index ∧ ofBe32 ((params.drop 4).take 4) = offset ∧
      ofBe32 ((params.drop 8).take 4) = size ∧ params.drop 12 = data := by
  intro params
  have skip (value : UInt32) (rest : List UInt8) : (be32 value ++ rest).drop 4 = rest :=
    List.drop_left' (length_be32 _)
  have eq : params = be32 index ++ (be32 offset ++ (be32 size ++ data)) := by
    simp only [params, List.append_assoc]
  refine ⟨?_, ?_, ?_, ?_⟩
  · rw [eq, List.take_left' (length_be32 _), ofBe32_be32]
  · rw [eq, skip, List.take_left' (length_be32 _), ofBe32_be32]
  · rw [eq, ← List.drop_drop (i := 4) (j := 4), skip, skip, List.take_left' (length_be32 _),
      ofBe32_be32]
  · rw [eq, ← List.drop_drop (i := 8) (j := 4), skip, ← List.drop_drop (i := 4) (j := 4), skip,
      skip]

theorem answer_nvWrite (index offset : UInt32) (data : List UInt8)
    (trailer : TpmWire.RequestTrailer) :
    chip.answer core (nvWriteOf index offset data trailer) =
      answerNvWrite chip core (nvWriteOf index offset data trailer) := by
  have ordinal : (nvWriteOf index offset data trailer).ordinal = ordNvWriteValueAuth := rfl
  rw [SealingChip.answer, ordinal, if_neg (by decide), if_neg (by decide), if_neg (by decide),
    if_neg (by decide), if_neg (by decide), if_neg (by decide), if_pos rfl]

/-- A write changes the area that it names, and no secret. -/
theorem answerNvWrite_stores {index offset : UInt32} {data : List UInt8}
    {trailer : TpmWire.RequestTrailer}
    (granted : (answerNvWrite chip core (nvWriteOf index offset data trailer)).1.result = 0) :
    offset.toNat + data.length ≤ (core.spaces index).bytes.length ∧
      ((answerNvWrite chip core (nvWriteOf index offset data trailer)).2.spaces index).bytes =
        overwriteBytes (core.spaces index).bytes offset.toNat data := by
  obtain ⟨indexEq, offsetEq, -, dataEq⟩ := nvParams_fields index offset
    (UInt32.ofNat data.length) data
  have trailers : (nvWriteOf index offset data trailer).trailers = [trailer] := rfl
  have params : (nvWriteOf index offset data trailer).params =
      be32 index ++ be32 offset ++ be32 (UInt32.ofNat data.length) ++ data := rfl
  cases session : core.sessions trailer.handle with
  | none =>
      rw [answerNvWrite, trailers] at granted
      simp only [session] at granted
      exact absurd granted (by decide : (0x22 : UInt32) ≠ 0)
  | some session =>
      rw [answerNvWrite, trailers] at granted ⊢
      simp only [session, params, indexEq, offsetEq, dataEq] at granted ⊢
      split at granted
      · rename_i auth
        split at granted
        · rename_i inside
          rw [if_pos auth, dif_pos inside]
          refine ⟨inside, ?_⟩
          simp [SealingState.roll, NvSpace.overwrite]
        · exact absurd granted (by decide : (0x11 : UInt32) ≠ 0)
      · exact absurd granted (by decide : (1 : UInt32) ≠ 0)

/-- A write by a caller who knows the secret of the area, to a place inside it. -/
theorem answerNvWrite_granted {index offset : UInt32} {data : List UInt8}
    {trailer : TpmWire.RequestTrailer} {session : OpenSession}
    (found : core.sessions trailer.handle = some session)
    (auth : trailer.auth = (checkOf (nvWriteOf index offset data trailer) session trailer).mac
      (core.spaces index).auth)
    (inside : offset.toNat + data.length ≤ (core.spaces index).bytes.length) :
    (answerNvWrite chip core (nvWriteOf index offset data trailer)).1 =
      .granted tagRspAuth1Command ordNvWriteValueAuth []
        [⟨session.secret (core.spaces index).auth, chip.random core.drawn, trailer.nonceOdd,
          trailer.continueAuthSession⟩] := by
  obtain ⟨indexEq, offsetEq, -, dataEq⟩ := nvParams_fields index offset
    (UInt32.ofNat data.length) data
  have trailers : (nvWriteOf index offset data trailer).trailers = [trailer] := rfl
  have params : (nvWriteOf index offset data trailer).params =
      be32 index ++ be32 offset ++ be32 (UInt32.ofNat data.length) ++ data := rfl
  rw [answerNvWrite, trailers]
  simp only [found, params, indexEq, offsetEq, dataEq]
  rw [if_pos auth, dif_pos inside]

/-- A write leaves the secret of the storage root key and its checks alone. -/
theorem answerNvWrite_keeps (chip : SealingChip) (core : SealingState)
    (request : TpmWire.Request) :
    (answerNvWrite chip core request).2.srkAuth = core.srkAuth ∧
      (answerNvWrite chip core request).2.srkChecks = core.srkChecks := by
  unfold answerNvWrite
  dsimp only
  split
  · split
    · exact ⟨rfl, rfl⟩
    · split
      · split
        · exact ⟨rfl, rfl⟩
        · exact ⟨rfl, rfl⟩
      · exact ⟨rfl, rfl⟩
  · exact ⟨rfl, rfl⟩

theorem answer_nvRead (index offset size : UInt32) :
    chip.answer core (nvReadOf index offset size) =
      if offset.toNat + size.toNat ≤ (core.spaces index).bytes.length ∧
          14 + size.toNat ≤ 1024 then
        (nvDataOf (((core.spaces index).bytes.drop offset.toNat).take size.toNat), core)
      else (refusal 0x11, core) := by
  obtain ⟨indexEq, offsetEq, sizeEq, -⟩ := nvParams_fields index offset size []
  have params : (nvReadOf index offset size).params =
      be32 index ++ be32 offset ++ be32 size ++ [] := (List.append_nil _).symm
  have ordinal : (nvReadOf index offset size).ordinal = ordNvReadValue := rfl
  rw [SealingChip.answer, ordinal, if_neg (by decide), if_neg (by decide), if_neg (by decide),
    if_neg (by decide), if_neg (by decide), if_neg (by decide), if_neg (by decide), if_pos rfl,
    answerNvRead, params]
  simp only [indexEq, offsetEq, sizeEq]

/-- Every index has an area that stores what is written to it. -/
theorem FifoTpm.Follows.nvArea (follows : tpm.Follows chip) (index : UInt32) :
    tpm.NvArea index fun core => (core.spaces index).bytes := by
  refine ⟨fun core offset data trailer short granted => ?_, fun core offset size inside short => ?_,
    fun core offset size beyond => ?_, fun core => (core.spaces index).bounded⟩
  · rw [follows core _ (nvWriteOf_wellFormed short), answer_nvWrite] at granted ⊢
    rw [resultOf_encode] at granted
    exact answerNvWrite_stores granted
  · rw [follows core _ (nvReadOf_wellFormed index offset size), answer_nvRead,
      if_pos ⟨inside, short⟩]
  · rw [follows core _ (nvReadOf_wellFormed index offset size), answer_nvRead,
      if_neg fun fits => absurd fits.1 (Nat.not_le.mpr beyond), resultOf_encode]
    exact (by decide : (0x11 : UInt32) ≠ 0)

end Storage

section Sealing

variable {σ : Type} {device : TisDevice σ} {mmap : UInt32}
  {tpm : FifoTpm device mmap SealingState} {chip : SealingChip} {core : SealingState}
  {encAuth : Block 20} {info data : List UInt8} {trailer : TpmWire.RequestTrailer}
  {session : OpenSession}

/-- A request to seal some data under the storage root key. -/
def sealRequestOf (encAuth : Block 20) (info data : List UInt8)
    (trailer : TpmWire.RequestTrailer) : TpmWire.Request :=
  ⟨tagRquAuth1Command, ordSeal, be32 khSRK,
    encAuth.bytes ++ be32 (UInt32.ofNat info.length) ++ info ++
      be32 (UInt32.ofNat data.length) ++ data, [trailer]⟩

/-- The secret of the data in a request to seal them. -/
def SealingState.decrypt (core : SealingState) (session : OpenSession) (encAuth : Block 20) :
    Block 20 :=
  Block.xor encAuth
    (SecureHash.sha1 ((session.secret core.srkAuth).bytes ++ session.nonceEven.bytes))

/-- What the TPM encrypts for a request to seal some data. -/
def SealingState.sealing (core : SealingState) (session : OpenSession) (encAuth : Block 20)
    (info data : List UInt8) : SealedData :=
  ⟨core.decrypt session encAuth, storedDigest (sealInfoOf core.pcrs info), data⟩

/-- The fields of the parameters of a request to seal some data. -/
theorem sealParams_fields (encAuth : Block 20) {info : List UInt8} (data : List UInt8)
    (small : info.length < 2 ^ 31) :
    let params := encAuth.bytes ++ be32 (UInt32.ofNat info.length) ++ info ++
      be32 (UInt32.ofNat data.length) ++ data
    Block.ofList 20 (params.take 20) = encAuth ∧
      (ofBe32 ((params.drop 20).take 4)).toNat = info.length ∧
      (params.drop 24).take info.length = info ∧ params.drop (28 + info.length) = data := by
  intro params
  have eq : params = encAuth.bytes ++ (be32 (UInt32.ofNat info.length) ++ (info ++
      (be32 (UInt32.ofNat data.length) ++ data))) := by
    simp only [params, List.append_assoc]
  have front : params.drop 20 = be32 (UInt32.ofNat info.length) ++ (info ++
      (be32 (UInt32.ofNat data.length) ++ data)) := by
    rw [eq, List.drop_left' encAuth.length_eq]
  have middle : params.drop 24 = info ++ (be32 (UInt32.ofNat data.length) ++ data) := by
    rw [← List.drop_drop (i := 4) (j := 20), front, List.drop_left' (length_be32 _)]
  refine ⟨?_, ?_, ?_, ?_⟩
  · rw [eq, List.take_left' encAuth.length_eq, Block.ofList_bytes]
  · rw [front, List.take_left' (length_be32 _), ofBe32_be32, toNat_ofNat_small small]
  · rw [middle, List.take_left' rfl]
  · have place : 28 + info.length = 24 + (info.length + 4) := by omega
    rw [place, ← List.drop_drop (i := info.length + 4) (j := 24), middle,
      ← List.drop_drop (i := 4) (j := info.length), List.drop_left' rfl,
      List.drop_left' (length_be32 _)]

/-- Data that the TPM seals. -/
theorem sealGranted_eq {encData : List UInt8} (length : info.length = 54)
    (wraps : chip.wrap (chip.random core.drawn) (core.sealing session encAuth info data) =
      some encData) :
    sealGranted chip core (sealRequestOf encAuth info data trailer) trailer session =
      (.granted tagRspAuth1Command ordSeal (blobFields 0x16 0 (sealInfoOf core.pcrs info) encData)
          [⟨session.secret core.srkAuth, chip.random (core.drawn + 1), trailer.nonceOdd,
            trailer.continueAuthSession⟩],
        { core with drawn := core.drawn + 2 }.roll trailer session
          (chip.random (core.drawn + 1))) := by
  obtain ⟨auth, infoSize, infoEq, dataEq⟩ := sealParams_fields encAuth data
    (by omega : info.length < 2 ^ 31)
  have params : (sealRequestOf encAuth info data trailer).params =
      encAuth.bytes ++ be32 (UInt32.ofNat info.length) ++ info ++
        be32 (UInt32.ofNat data.length) ++ data := rfl
  rw [SealingState.sealing, SealingState.decrypt] at wraps
  rw [sealGranted, params]
  simp only [auth, infoSize, infoEq, dataEq, if_pos length, wraps]

theorem sealGranted_refused (length : info.length = 54)
    (wraps : chip.wrap (chip.random core.drawn) (core.sealing session encAuth info data) = none) :
    (sealGranted chip core (sealRequestOf encAuth info data trailer) trailer session).1 =
      refusal 0x2b := by
  obtain ⟨auth, infoSize, infoEq, dataEq⟩ := sealParams_fields encAuth data
    (by omega : info.length < 2 ^ 31)
  have params : (sealRequestOf encAuth info data trailer).params =
      encAuth.bytes ++ be32 (UInt32.ofNat info.length) ++ info ++
        be32 (UInt32.ofNat data.length) ++ data := rfl
  rw [SealingState.sealing, SealingState.decrypt] at wraps
  rw [sealGranted, params]
  simp only [auth, infoSize, infoEq, dataEq, if_pos length, wraps]

theorem answer_seal : chip.answer core (sealRequestOf encAuth info data trailer) =
    answerSeal chip core (sealRequestOf encAuth info data trailer) := by
  have ordinal : (sealRequestOf encAuth info data trailer).ordinal = ordSeal := rfl
  rw [SealingChip.answer, ordinal, if_neg (by decide), if_neg (by decide), if_neg (by decide),
    if_neg (by decide), if_pos rfl]

/-- The TPM seals exactly for a caller who knows the secret of the storage root key, in a
session that shares it, and data that it can encrypt. -/
structure SealingState.Seals (core : SealingState) (chip : SealingChip) (session : OpenSession)
    (encAuth : Block 20) (info data : List UInt8) (trailer : TpmWire.RequestTrailer)
    (encData : List UInt8) : Prop where
  shared : session.sharedNonces.isSome
  auth : trailer.auth =
    (checkOf (sealRequestOf encAuth info data trailer) session trailer).mac core.srkAuth
  wraps : chip.wrap (chip.random core.drawn) (core.sealing session encAuth info data) =
    some encData

theorem answerSeal_eq {encData : List UInt8} (length : info.length = 54)
    (found : core.sessions trailer.handle = some session)
    (seals : core.Seals chip session encAuth info data trailer encData) :
    answerSeal chip core (sealRequestOf encAuth info data trailer) =
      (.granted tagRspAuth1Command ordSeal (blobFields 0x16 0 (sealInfoOf core.pcrs info) encData)
          [⟨session.secret core.srkAuth, chip.random (core.drawn + 1), trailer.nonceOdd,
            trailer.continueAuthSession⟩],
        { core.checkedFor (sealRequestOf encAuth info data trailer) session trailer with
          drawn := core.drawn + 2 }.roll trailer session (chip.random (core.drawn + 1))) := by
  have trailers : (sealRequestOf encAuth info data trailer).trailers = [trailer] := rfl
  rw [answerSeal, trailers]
  simp only [found]
  have wraps : chip.wrap (chip.random (core.checkedFor (sealRequestOf encAuth info data trailer)
      session trailer).drawn) ((core.checkedFor (sealRequestOf encAuth info data trailer) session
        trailer).sealing session encAuth info data) = some encData := seals.wraps
  rw [if_pos ⟨rfl, seals.shared, seals.auth⟩]
  exact sealGranted_eq length wraps

theorem answerSeal_seals (length : info.length = 54)
    (found : core.sessions trailer.handle = some session)
    (granted : (answerSeal chip core (sealRequestOf encAuth info data trailer)).1.result = 0) :
    ∃ encData, core.Seals chip session encAuth info data trailer encData := by
  have trailers : (sealRequestOf encAuth info data trailer).trailers = [trailer] := rfl
  rw [answerSeal, trailers] at granted
  simp only [found] at granted
  split at granted
  · rename_i accepted
    obtain ⟨-, shared, auth⟩ := accepted
    cases wraps : chip.wrap (chip.random (core.checkedFor (sealRequestOf encAuth info data trailer)
      session trailer).drawn) ((core.checkedFor (sealRequestOf encAuth info data trailer) session
        trailer).sealing session encAuth info data) with
    | none =>
        rw [sealGranted_refused length wraps] at granted
        exact absurd granted (by decide : (0x2b : UInt32) ≠ 0)
    | some encData => exact ⟨encData, shared, auth, wraps⟩
  · exact absurd granted (by decide : (1 : UInt32) ≠ 0)

end Sealing

section Unsealing

variable {chip : SealingChip} {core : SealingState} {sealInfo encData : List UInt8}
  {sealed : SealedData} {parent entity : TpmWire.RequestTrailer}
  {parentSession dataSession : OpenSession}

theorem blobStrings_blobFields (tag et : UInt16) {sealInfo encData : List UInt8}
    (small : sealInfo.length < 2 ^ 31) :
    blobStrings (blobFields tag et sealInfo encData) = (sealInfo, encData) := by
  have front : (be16 tag ++ be16 et).length = 4 := by simp
  have eq : blobFields tag et sealInfo encData = be16 tag ++ be16 et ++
      (be32 (UInt32.ofNat sealInfo.length) ++ (sealInfo ++
        (be32 (UInt32.ofNat encData.length) ++ encData))) := by
    simp only [blobFields, List.append_assoc]
  have rest : (blobFields tag et sealInfo encData).drop 4 =
      be32 (UInt32.ofNat sealInfo.length) ++ (sealInfo ++
        (be32 (UInt32.ofNat encData.length) ++ encData)) := by
    rw [eq, List.drop_left' front]
  have strings : (blobFields tag et sealInfo encData).drop 8 =
      sealInfo ++ (be32 (UInt32.ofNat encData.length) ++ encData) := by
    rw [← List.drop_drop (i := 4) (j := 4), rest, List.drop_left' (length_be32 _)]
  have size : (ofBe32 (((blobFields tag et sealInfo encData).drop 4).take 4)).toNat =
      sealInfo.length := by
    rw [rest, List.take_left' (length_be32 _), ofBe32_be32, toNat_ofNat_small small]
  have place : 12 + sealInfo.length = 8 + (sealInfo.length + 4) := by omega
  rw [blobStrings, size, strings, List.take_left' rfl, place,
    ← List.drop_drop (i := sealInfo.length + 4) (j := 8), strings,
    ← List.drop_drop (i := 4) (j := sealInfo.length), List.drop_left' rfl,
    List.drop_left' (length_be32 _)]

/-- A request for the data that are sealed in a blob. -/
def unsealRequestOf (sealInfo encData : List UInt8)
    (parent entity : TpmWire.RequestTrailer) : TpmWire.Request :=
  ⟨tagRquAuth2Command, ordUnseal, be32 khSRK, blobFields 0x16 0 sealInfo encData,
    [parent, entity]⟩

theorem answer_unseal : chip.answer core (unsealRequestOf sealInfo encData parent entity) =
    answerUnseal chip core (unsealRequestOf sealInfo encData parent entity) := by
  have ordinal : (unsealRequestOf sealInfo encData parent entity).ordinal = ordUnseal := rfl
  rw [SealingChip.answer, ordinal, if_neg (by decide), if_neg (by decide), if_neg (by decide),
    if_neg (by decide), if_neg (by decide), if_pos rfl]

/-- The blob is as the TPM made it. -/
structure SealingChip.Made (chip : SealingChip) (sealInfo encData : List UInt8)
    (sealed : SealedData) : Prop where
  small : sealInfo.length < 2 ^ 31
  unwraps : chip.unwrap encData = some sealed
  digest : sealed.storedDigest = storedDigest sealInfo

/-- The caller knows the secrets of the storage root key and of the data, and the registers
have the values that the data are bound to. -/
structure SealingState.Releases (core : SealingState) (sealInfo encData : List UInt8)
    (sealed : SealedData) (parent entity : TpmWire.RequestTrailer)
    (parentSession dataSession : OpenSession) : Prop where
  parentAuth : parent.auth = (checkOf (unsealRequestOf sealInfo encData parent entity)
    parentSession parent).mac core.srkAuth
  dataAuth : entity.auth = (checkOf (unsealRequestOf sealInfo encData parent entity)
    dataSession entity).mac sealed.auth
  registers : (compositeDigest core.pcrs (PcrInfoFields.ofBytes sealInfo).release).bytes =
    (PcrInfoFields.ofBytes sealInfo).digestAtRelease

/-- Sealed data that the TPM gives back. -/
theorem answerUnseal_released (made : chip.Made sealInfo encData sealed)
    (parentFound : core.sessions parent.handle = some parentSession)
    (dataFound : core.sessions entity.handle = some dataSession)
    (releases : core.Releases sealInfo encData sealed parent entity parentSession dataSession) :
    ∃ next, answerUnseal chip core (unsealRequestOf sealInfo encData parent entity) =
        (unsealGranted chip core sealed.data [(parent, parentSession.secret core.srkAuth),
          (entity, dataSession.secret sealed.auth)], next) ∧
      next.srkChecks = core.srkChecks ++
        [checkOf (unsealRequestOf sealInfo encData parent entity) parentSession parent] ∧
      next.dataChecks = core.dataChecks ++
        [checkOf (unsealRequestOf sealInfo encData parent entity) dataSession entity] := by
  have trailers : (unsealRequestOf sealInfo encData parent entity).trailers =
      [parent, entity] := rfl
  have params : (unsealRequestOf sealInfo encData parent entity).params =
      blobFields 0x16 0 sealInfo encData := rfl
  rw [answerUnseal, trailers]
  simp only [parentFound, dataFound]
  rw [if_pos ⟨rfl, releases.parentAuth⟩, unsealFor, params, blobStrings_blobFields _ _ made.small]
  simp only [made.unwraps]
  have registers : (compositeDigest (core.checkedFor (unsealRequestOf sealInfo encData parent
      entity) parentSession parent).pcrs (PcrInfoFields.ofBytes sealInfo).release).bytes =
        (PcrInfoFields.ofBytes sealInfo).digestAtRelease := releases.registers
  rw [if_pos made.digest, if_pos releases.dataAuth, if_pos registers]
  exact ⟨_, rfl, rfl, rfl⟩

/-- Sealed data are kept from everybody else. -/
theorem answerUnseal_refused (made : chip.Made sealInfo encData sealed)
    (parentFound : core.sessions parent.handle = some parentSession)
    (dataFound : core.sessions entity.handle = some dataSession)
    (kept : ¬ core.Releases sealInfo encData sealed parent entity parentSession dataSession) :
    (answerUnseal chip core (unsealRequestOf sealInfo encData parent entity)).1.result ≠ 0 := by
  have trailers : (unsealRequestOf sealInfo encData parent entity).trailers =
      [parent, entity] := rfl
  have params : (unsealRequestOf sealInfo encData parent entity).params =
      blobFields 0x16 0 sealInfo encData := rfl
  rw [answerUnseal, trailers]
  simp only [parentFound, dataFound]
  by_cases parentAuth : parent.auth = (checkOf (unsealRequestOf sealInfo encData parent entity)
    parentSession parent).mac core.srkAuth
  swap
  · rw [if_neg fun good => parentAuth good.2]
    exact (by decide : (1 : UInt32) ≠ 0)
  rw [if_pos ⟨rfl, parentAuth⟩, unsealFor, params, blobStrings_blobFields _ _ made.small]
  simp only [made.unwraps]
  rw [if_pos made.digest]
  by_cases dataAuth : entity.auth = (checkOf (unsealRequestOf sealInfo encData parent entity)
    dataSession entity).mac sealed.auth
  swap
  · rw [if_neg dataAuth]
    exact (by decide : (0x1d : UInt32) ≠ 0)
  have registers : ¬ (compositeDigest (core.checkedFor (unsealRequestOf sealInfo encData parent
      entity) parentSession parent).pcrs (PcrInfoFields.ofBytes sealInfo).release).bytes =
        (PcrInfoFields.ofBytes sealInfo).digestAtRelease :=
    fun registers => kept ⟨parentAuth, dataAuth, registers⟩
  rw [if_pos dataAuth, if_neg registers]
  exact (by decide : (0x18 : UInt32) ≠ 0)

end Unsealing

section Devices

variable (chip : SealingChip)

theorem length_sealInfoOf_le (pcrs : Nat → Block 20) (info : List UInt8) :
    (sealInfoOf pcrs info).length ≤ 54 := by
  simp only [sealInfoOf, PcrInfoFields.ofBytes, List.length_append, List.length_take,
    List.length_drop, Block.length_eq]
  omega

theorem size_refusal (code : UInt32) : (refusal code).size = 10 :=
  rfl

theorem size_granted (tag : UInt16) (ordinal : UInt32) (params : List UInt8)
    (grants : List TpmWire.Response.Grant) :
    (TpmWire.Response.granted tag ordinal params grants).size =
      10 + params.length + 41 * grants.length := by
  simp [TpmWire.Response.granted, TpmWire.Response.size]

variable (core : SealingState) (request : TpmWire.Request)

theorem answerOIAP_small : (answerOIAP chip core).1.size ≤ 1024 := by
  unfold answerOIAP
  split
  · simp [size_refusal]
  · simp [oiapAnswer, TpmWire.Response.size]

theorem answerOSAP_small : (answerOSAP chip core request).1.size ≤ 1024 := by
  unfold answerOSAP
  split
  · split
    · simp [size_refusal]
    · simp [osapAnswer, TpmWire.Response.size]
  · simp [size_refusal]

theorem sealGranted_small (trailer : TpmWire.RequestTrailer) (session : OpenSession) :
    (sealGranted chip core request trailer session).1.size ≤ 1024 := by
  unfold sealGranted
  dsimp only
  split
  · split
    · simp [size_refusal]
    · rename_i encData wrapped
      have encLength := chip.length_wrap _ _ _ wrapped
      have infoLength := length_sealInfoOf_le core.pcrs ((request.params.drop 24).take
        (ofBe32 ((request.params.drop 20).take 4)).toNat)
      rw [size_granted, length_blobFields, List.length_singleton]
      omega
  · simp [size_refusal]

theorem answerSeal_small : (answerSeal chip core request).1.size ≤ 1024 := by
  unfold answerSeal
  split
  · split
    · simp [size_refusal]
    · split
      · exact sealGranted_small chip _ request _ _
      · simp [size_refusal]
  · simp [size_refusal]

theorem answerNvWrite_small : (answerNvWrite chip core request).1.size ≤ 1024 := by
  unfold answerNvWrite
  dsimp only
  split
  · split
    · simp [size_refusal]
    · split
      · split
        · simp [size_granted]
        · simp [size_refusal]
      · simp [size_refusal]
  · simp [size_refusal]

theorem answerNvRead_small : (answerNvRead core request).1.size ≤ 1024 := by
  unfold answerNvRead
  dsimp only
  split
  · rename_i inside
    simp only [nvDataOf, TpmWire.Response.size, List.length_append, length_be32, List.length_take,
      List.length_nil]
    omega
  · simp [size_refusal]

theorem unsealFor_small (parent entity : TpmWire.RequestTrailer)
    (parentSession dataSession : OpenSession) :
    (unsealFor chip core request parent entity parentSession dataSession).1.size ≤ 1024 := by
  unfold unsealFor
  dsimp only
  split
  · simp [size_refusal]
  · rename_i sealed unwrapped
    have bounded := chip.length_unwrap _ _ unwrapped
    split
    · split
      · split
        · rw [unsealGranted, size_granted]
          simp only [List.length_append, length_be32, List.length_map, List.length_cons,
            List.length_nil]
          omega
        · simp [size_refusal]
      · simp [size_refusal]
    · simp [size_refusal]

theorem answerUnseal_small : (answerUnseal chip core request).1.size ≤ 1024 := by
  unfold answerUnseal
  split
  · split
    · split
      · exact unsealFor_small chip _ request _ _ _ _
      · simp [size_refusal]
    · simp [size_refusal]
  · simp [size_refusal]

/-- Every answer fits into the buffer of the interface. -/
theorem SealingChip.answer_small : (chip.answer core request).1.size ≤ 1024 := by
  unfold SealingChip.answer
  split
  · simp [answerGetRandom, TpmWire.Response.size]
    omega
  split
  · unfold answerPcrRead
    dsimp only
    split
    · simp [TpmWire.Response.size]
    · simp [size_refusal]
  split
  · exact answerOIAP_small chip core
  split
  · exact answerOSAP_small chip core request
  split
  · exact answerSeal_small chip core request
  split
  · exact answerUnseal_small chip core request
  split
  · exact answerNvWrite_small chip core request
  split
  · exact answerNvRead_small core request
  · simp [size_refusal]

/-- A TPM that gives the answers of the chip to the frames of requests. -/
def sealingExec (core : SealingState) (frame : List UInt8) : List UInt8 × SealingState :=
  match TpmWire.Request.decode frame with
  | some request => ((chip.answer core request).1.encode, (chip.answer core request).2)
  | none => ((refusal 0x19).encode, core)

theorem sealingExec_framed (core : SealingState) (frame : List UInt8) :
    Framed (sealingExec chip core frame).1 := by
  unfold sealingExec
  split
  · exact framed_response (chip.answer_small core _)
  · exact framed_response (by decide)

def sealingTpm : FifoTpm (steadyDevice (sealingExec chip)) 0 SealingState :=
  steadyTpm (sealingExec chip) 0 (sealingExec_framed chip)

theorem sealingTpm_reliable : (sealingTpm chip).Reliable :=
  steadyTpm_reliable (sealingExec chip) 0 (sealingExec_framed chip)

/-- There is a TPM for every chip. -/
theorem sealingTpm_follows : (sealingTpm chip).Follows chip := by
  intro core request wellFormed
  have exec : (sealingTpm chip).exec = sealingExec chip := rfl
  simp only [exec, sealingExec, TpmWire.Request.decode_encode wellFormed]

end Devices

end Sable
