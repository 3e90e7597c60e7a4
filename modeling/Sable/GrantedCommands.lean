import Sable.LinkedMachines
import Sable.ResponseAuthenticity

/-!
# Commands that a TPM grants

The other half of the parsers: on a machine linked to a TPM, a response with
result zero, the right size and a trailer made with the secret of the caller is
accepted, and the command returns what the response carries.
-/

namespace Sable

open ByteMemory BigEndian HaltingProgram

section Replies

variable {σ κ α : Type} {device : TisDevice σ} {mmap : UInt32} {tpm : FifoTpm device mmap κ}
  {area : HeapArea} {core : κ} {used : Nat} {contents : UInt32 → Option (List UInt8)}
  {store : Store} {m : Machine σ}

/-- A machine that has parsed a response is linked again. -/
theorem Linked.unpacked {answered parsed : Machine σ} {source : Source} {progress : Progress}
    (linked : Linked tpm area core used contents store answered)
    (receiving : Receiving area answered source progress parsed) (log : List Event) :
    Linked tpm area core progress.used progress.contents
      { store with
        objects := progress.objects
        slots := parsed.sessions } { parsed with log := log } := by
  have world := congrArg Machine.world receiving.rest
  have locality := congrArg Machine.tisLocality receiving.rest
  have extensions := congrArg Machine.osapAt receiving.rest
  have keys := congrArg Machine.keys receiving.rest
  dsimp only at world locality extensions keys
  refine ⟨locality.trans linked.locality, by rw [world, linked.idle], receiving.heap,
    receiving.tracks, ?_⟩
  rw [← linked.store_eq, Machine.store, Machine.store]
  dsimp only
  rw [receiving.objects, extensions, keys]

/-- With a reliable TPM, the run of an authorised command is the parser of its response. -/
theorem AuthorisedCommand.run_replied (command : AuthorisedCommand α)
    (fits : command.frameSize ≤ 1024) (nonNull : ∀ ptr ∈ command.pointers m, ptr ≠ 0)
    (reliable : tpm.Reliable) (linked : Linked tpm area core used contents store m) :
    ∃ answered,
      Replied tpm area (tpm.exec core (command.request m).encode).2 used contents store m.mem
        (tpm.exec core (command.request m).encode).1 answered ∧
      answered.sessionAt = m.sessionAt ∧
      command.run device m = (do
        let ret ← command.responsePart m
        emit (.finished command.ordinal ret.exception)
        return ret) answered := by
  obtain ⟨answered, sent, run⟩ := run_answered fits nonNull reliable linked.locality linked.idle
  exact ⟨answered, sent.replied linked, sent.sessionAt_eq, run⟩

/-- A write that the TPM grants. -/
theorem tpmNvWriteValueAuth_granted (reliable : tpm.Reliable)
    (linked : Linked tpm area core used contents store m)
    {dataIn dataSizeIn nvIndexIn offsetIn : UInt32} {nvAuth nonceEven : Block 20}
    {session : SessionSlot} {continues : UInt8} (fits : 67 + dataSizeIn.toNat ≤ 1024)
    (dataNonNull : dataIn ≠ 0) (sessionNonNull : m.sessions session ≠ 0)
    (grants : (tpm.exec core ((AuthorisedCommand.nvWriteValueAuth dataIn dataSizeIn nvIndexIn
        offsetIn nvAuth session).request m).encode).1 =
      (TpmWire.Response.granted tagRspAuth1Command ordNvWriteValueAuth []
        [⟨nvAuth, nonceEven, (m.sessionAt (m.sessions session)).nonceOdd,
          continues⟩]).encode) :
    ∃ reached, tpmNvWriteValueAuth device dataIn dataSizeIn nvIndexIn offsetIn nvAuth session
      m = .ok (.ok ()) reached := by
  let command : AuthorisedCommand Unit :=
    .nvWriteValueAuth dataIn dataSizeIn nvIndexIn offsetIn nvAuth session
  let response : TpmWire.Response := .granted tagRspAuth1Command ordNvWriteValueAuth []
    [⟨nvAuth, nonceEven, (m.sessionAt (m.sessions session)).nonceOdd, continues⟩]
  obtain ⟨answered, replied, objects, run⟩ := AuthorisedCommand.run_replied
    command fits (by
      simp [command, AuthorisedCommand.pointers, dataNonNull, sessionNonNull]) reliable linked
  rw [show (tpm.exec core (command.request m).encode).1 = response.encode from grants]
    at replied
  have size : response.size = 51 := rfl
  have length := length_outputSource answered
  have carries : (outputSource answered).Carries response := replied.carries (by omega)
  have wellFormed : response.WellFormed := ⟨rfl, by rw [size]; decide⟩
  have inside : response.size ≤ (outputSource answered).bytes.length := by
    rw [size, length]
    decide
  have result : (outputSource answered).result = 0 := carries.result_eq wellFormed inside
  obtain ⟨ret, parsed, parses, post⟩ := (@nvWriteResponse_runs _ area answered _
    ⟨used, contents, answered.sessionAt, 0⟩ False nvAuth session (m.sessions session) rfl length
    fun _ => sessionNonNull).returns answered
      (AuthorisedCommand.receiving_start replied.heap replied.tracks)
  have none : ret.exception = .none := by
    refine (post.2 result).2.mpr ?_
    rw [objects]
    exact carries.accepted wellFormed inside (TpmWire.Response.granted_authentic ..)
  rw [Result.eq_ok none] at parses
  exact ⟨_, run.trans (Prog.bind_ok parses _)⟩

/-- A stored-data record as it stands in a response. -/
def blobFields (tag et : UInt16) (sealInfo encData : List UInt8) : List UInt8 :=
  be16 tag ++ be16 et ++ be32 (UInt32.ofNat sealInfo.length) ++ sealInfo ++
    be32 (UInt32.ofNat encData.length) ++ encData

theorem length_blobFields (tag et : UInt16) (sealInfo encData : List UInt8) :
    (blobFields tag et sealInfo encData).length =
      12 + sealInfo.length + encData.length := by
  simp [blobFields]
  omega

/-- The fields of a record that a response carries. -/
theorem Source.blobFields_at {source : Source} {pos : Nat} {tag et : UInt16}
    {sealInfo encData : List UInt8} (short : sealInfo.length + encData.length ≤ 1024)
    (inside : pos + (blobFields tag et sealInfo encData).length ≤ source.bytes.length)
    (record : source.slice pos (blobFields tag et sealInfo encData).length =
      blobFields tag et sealInfo encData) :
    (ofBe16 (source.slice pos 2) = tag ∧ ofBe16 (source.slice (pos + 2) 2) = et) ∧
      (source.sealInfoSizeAt pos).toNat = sealInfo.length ∧
      (source.encDataSizeAt pos).toNat = encData.length ∧
      source.slice (pos + 8) sealInfo.length = sealInfo ∧
      source.slice (pos + 8 + sealInfo.length + 4) encData.length = encData := by
  have length := length_blobFields tag et sealInfo encData
  have count : (blobFields tag et sealInfo encData).length =
      2 + 2 + 4 + sealInfo.length + 4 + encData.length := by omega
  rw [count] at record
  simp only [Source.slice_add, blobFields] at record
  obtain ⟨record, encBytes⟩ := List.append_inj record (by
    simp [Source.slice]
    omega)
  obtain ⟨record, encWord⟩ := List.append_inj record (by
    simp [Source.slice]
    omega)
  obtain ⟨record, infoBytes⟩ := List.append_inj record (by
    simp [Source.slice]
    omega)
  obtain ⟨record, infoWord⟩ := List.append_inj record (by
    simp [Source.slice]
    omega)
  obtain ⟨tagBytes, etBytes⟩ := List.append_inj record (by
    simp [Source.slice]
    omega)
  have sealSize : source.sealInfoSizeAt pos = UInt32.ofNat sealInfo.length := by
    rw [Source.sealInfoSizeAt, infoWord, ofBe32_be32]
  have sealCount : (source.sealInfoSizeAt pos).toNat = sealInfo.length := by
    rw [sealSize, toNat_ofNat_small (by omega)]
  have encSize : source.encDataSizeAt pos = UInt32.ofNat encData.length := by
    have place : pos + 8 + (source.sealInfoSizeAt pos).toNat =
        pos + (2 + 2 + 4 + sealInfo.length) := by omega
    rw [Source.encDataSizeAt, place, encWord, ofBe32_be32]
  refine ⟨⟨by rw [tagBytes, ofBe16_be16], by rw [etBytes, ofBe16_be16]⟩, sealCount, ?_, ?_, ?_⟩
  · rw [encSize, toNat_ofNat_small (by omega)]
  · exact infoBytes
  · have place : pos + 8 + sealInfo.length + 4 = pos + (2 + 2 + 4 + sealInfo.length + 4) := by
      omega
    rw [place]
    exact encBytes

/-- A blob that the TPM seals: its strings are in two new blocks.  The caller accepts it if
the response is made with its secret. -/
theorem tpmSeal_answered (reliable : tpm.Reliable)
    (linked : Linked tpm area core used contents store m) {keyHandleIn : UInt32}
    {encAuthIn sharedSecret secret nonceEven : Block 20} {pcrInfoIn : TpmPcrInfoLong}
    {inDataIn inDataSizeIn : UInt32} {session : SessionSlot} {tag et : UInt16}
    {sealInfo encData : List UInt8}
    (fits : 87 + (sizeofPcrInfoLong pcrInfoIn).toNat + inDataSizeIn.toNat ≤ 1024)
    (nonNull : ∀ ptr ∈ (AuthorisedCommand.sealData keyHandleIn encAuthIn pcrInfoIn inDataIn
      inDataSizeIn session sharedSecret).pointers m, ptr ≠ 0)
    (sealPositive : 0 < sealInfo.length) (encPositive : 0 < encData.length)
    (short : 63 + sealInfo.length + encData.length ≤ 1024)
    (room : used + sealInfo.length / 8 + encData.length / 8 + 4 ≤ area.units)
    (grants : (tpm.exec core ((AuthorisedCommand.sealData keyHandleIn encAuthIn pcrInfoIn
        inDataIn inDataSizeIn session sharedSecret).request m).encode).1 =
      (TpmWire.Response.granted tagRspAuth1Command ordSeal (blobFields tag et sealInfo encData)
        [⟨secret, nonceEven, (m.sessionAt (m.sessions session)).nonceOdd, 0⟩]).encode) :
    ∃ ret reached after,
      tpmSeal device keyHandleIn encAuthIn pcrInfoIn inDataIn inDataSizeIn session sharedSecret
        m = .ok ret reached ∧ (ret.value.tag = tag ∧ ret.value.et = et) ∧
      ret.value.sealInfoSize.toNat = sealInfo.length ∧
      ret.value.encDataSize.toNat = encData.length ∧ ret.value.encData ≠ ret.value.sealInfo ∧
      Linked tpm area (tpm.exec core ((AuthorisedCommand.sealData keyHandleIn encAuthIn pcrInfoIn
          inDataIn inDataSizeIn session sharedSecret).request m).encode).2
        (used + sealInfo.length / 8 + 2 + encData.length / 8 + 2)
        (Function.update (Function.update contents ret.value.sealInfo (some sealInfo))
          ret.value.encData (some encData)) after reached ∧
      after.keys = store.keys ∧ (secret = sharedSecret → ret.exception = .none) := by
  let command : AuthorisedCommand TpmStoredData12 :=
    .sealData keyHandleIn encAuthIn pcrInfoIn inDataIn inDataSizeIn session sharedSecret
  let response : TpmWire.Response := .granted tagRspAuth1Command ordSeal
    (blobFields tag et sealInfo encData)
    [⟨secret, nonceEven, (m.sessionAt (m.sessions session)).nonceOdd, 0⟩]
  have sessionNonNull : m.sessions session ≠ 0 :=
    nonNull _ (by simp [AuthorisedCommand.pointers])
  obtain ⟨answered, replied, objects, run⟩ := AuthorisedCommand.run_replied
    command fits nonNull reliable linked
  rw [show (tpm.exec core (command.request m).encode).1 = response.encode from grants]
    at replied
  have count := length_blobFields tag et sealInfo encData
  have size : response.size = 63 + sealInfo.length + encData.length := by
    simp [response, TpmWire.Response.granted, TpmWire.Response.size, count]
    omega
  have length := length_outputSource answered
  have carries : (outputSource answered).Carries response := replied.carries (by omega)
  have wellFormed : response.WellFormed := ⟨rfl, by omega⟩
  have inside : response.size ≤ (outputSource answered).bytes.length := by omega
  have result : (outputSource answered).result = 0 := carries.result_eq wellFormed inside
  obtain ⟨words, sealSize, encSize, infoBytes, encBytes⟩ := @Source.blobFields_at
    (outputSource answered) 10 tag et sealInfo encData (by omega) (by omega)
    (carries.params_eq wellFormed inside)
  have blobLength : (outputSource answered).blobLength 10 = response.params.length := by
    rw [Source.blobLength, sealSize, encSize]
    exact count.symm
  have authentic := carries.accepted wellFormed inside (TpmWire.Response.granted_authentic ..)
  have trailer : ((outputSource answered).trailerAt
      (10 + (outputSource answered).blobLength 10)).continueAuthSession = 0 := by
    have same := congrArg TpmWire.Response.trailers (carries.response_eq wellFormed inside)
    rw [blobLength]
    exact congrArg TpmWire.ResponseTrailer.continueAuthSession (List.cons.inj same).1
  have space : (outputSource answered).BlobFits area used 10 ∧
      10 + (outputSource answered).blobLength 10 + 41 ≤ 1024 := by
    refine ⟨⟨?_, ?_, ?_, ?_⟩, ?_⟩
    all_goals
      simp only [Source.blobLength, UInt32.lt_iff_toNat_lt, UInt32.toNat_zero, sealSize,
        encSize, length]
      omega
  obtain ⟨ret, parsed, parses, post⟩ := (@sealResponse_runs _ area answered _
    ⟨used, contents, answered.sessionAt, 0⟩ False session (m.sessions session) sharedSecret rfl
    length fun _ => ⟨sessionNonNull, fun _ => space⟩).returns answered
      (AuthorisedCommand.receiving_start replied.heap replied.tracks)
  obtain ⟨found, unpacking, accepted⟩ := post.2 result
  have none (same : secret = sharedSecret) : ret.exception = .none := by
    subst same
    refine accepted.mpr ⟨?_, trailer⟩
    rw [blobLength, objects]
    exact authentic
  have infoSize := found.sealInfoSize
  have dataSize := found.encDataSize
  have linkedNext := replied.unpacked unpacking.toReceiving
    (parsed.log ++ [.finished ordSeal ret.exception])
  simp only [Progress.advance, Progress.receive, Progress.storeBlob, Progress.store,
    infoSize, dataSize, sealSize, encSize] at linkedNext
  rw [infoBytes, encBytes] at linkedNext
  exact ⟨ret, _, _, run.trans (Prog.bind_ok parses _),
    ⟨found.tag.trans words.1, found.et.trans words.2⟩, by rw [infoSize, sealSize],
    by rw [dataSize, encSize], found.different, linkedNext, rfl, none⟩

theorem tpmSeal_granted (reliable : tpm.Reliable)
    (linked : Linked tpm area core used contents store m) {keyHandleIn : UInt32}
    {encAuthIn sharedSecret nonceEven : Block 20} {pcrInfoIn : TpmPcrInfoLong}
    {inDataIn inDataSizeIn : UInt32} {session : SessionSlot} {tag et : UInt16}
    {sealInfo encData : List UInt8}
    (fits : 87 + (sizeofPcrInfoLong pcrInfoIn).toNat + inDataSizeIn.toNat ≤ 1024)
    (nonNull : ∀ ptr ∈ (AuthorisedCommand.sealData keyHandleIn encAuthIn pcrInfoIn inDataIn
      inDataSizeIn session sharedSecret).pointers m, ptr ≠ 0)
    (sealPositive : 0 < sealInfo.length) (encPositive : 0 < encData.length)
    (short : 63 + sealInfo.length + encData.length ≤ 1024)
    (room : used + sealInfo.length / 8 + encData.length / 8 + 4 ≤ area.units)
    (grants : (tpm.exec core ((AuthorisedCommand.sealData keyHandleIn encAuthIn pcrInfoIn
        inDataIn inDataSizeIn session sharedSecret).request m).encode).1 =
      (TpmWire.Response.granted tagRspAuth1Command ordSeal (blobFields tag et sealInfo encData)
        [⟨sharedSecret, nonceEven, (m.sessionAt (m.sessions session)).nonceOdd, 0⟩]).encode) :
    ∃ blob reached after,
      tpmSeal device keyHandleIn encAuthIn pcrInfoIn inDataIn inDataSizeIn session sharedSecret
        m = .ok (.ok blob) reached ∧
      blob.sealInfoSize.toNat = sealInfo.length ∧ blob.encDataSize.toNat = encData.length ∧
      blob.encData ≠ blob.sealInfo ∧
      Linked tpm area (tpm.exec core ((AuthorisedCommand.sealData keyHandleIn encAuthIn pcrInfoIn
          inDataIn inDataSizeIn session sharedSecret).request m).encode).2
        (used + sealInfo.length / 8 + 2 + encData.length / 8 + 2)
        (Function.update (Function.update contents blob.sealInfo (some sealInfo)) blob.encData
          (some encData)) after reached := by
  obtain ⟨ret, reached, after, run, -, sealSize, encSize, different, linkedNext, -, accepted⟩ :=
    tpmSeal_answered reliable linked fits nonNull sealPositive encPositive short room grants
  rw [Result.eq_ok (accepted rfl)] at run
  exact ⟨ret.value, reached, after, run, sealSize, encSize, different, linkedNext⟩

end Replies

end Sable
