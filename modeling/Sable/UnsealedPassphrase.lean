import Sable.BootFrames
import Sable.SealedPassphrase

/-!
# The passphrase in a later boot

`trusted_boot` reads the blob from the NV area and asks for the two authorisation
strings.  The TPM gives the passphrase back exactly if the registers have the
values of the time when it was sealed and both strings are the same; it is then
shown.  Otherwise nothing of it is shown, and there is an error.
-/

namespace Sable

open ByteMemory BigEndian HaltingProgram

section Reading

variable {σ : Type} {device : TisDevice σ} {mmap : UInt32}
  {tpm : FifoTpm device mmap SealingState} {chip : SealingChip} {area : HeapArea}
  {core : SealingState} {used : Nat} {contents : UInt32 → Option (List UInt8)}
  {store : Store} {m reached : Machine σ} {sealInfo encData : List UInt8}

/-- A blob is unpacked from a tracked block. -/
theorem unpackStoredData12_reads (linked : Linked tpm area core used contents store m)
    {ptr : UInt32} {bytes : List UInt8} (tracked : contents ptr = some bytes)
    (short : bytes.length ≤ 1024) (begins : blobFields 0x16 0 sealInfo encData <+: bytes)
    (sealPositive : 0 < sealInfo.length) (encPositive : 0 < encData.length)
    (room : used + sealInfo.length / 8 + encData.length / 8 + 4 ≤ area.units) :
    ∃ blob blocks reached,
      unpackStoredData12 ptr (UInt32.ofNat bytes.length) m = .ok blob reached ∧
      BlobTracked blocks sealInfo encData blob ∧
      Linked tpm area core (used + sealInfo.length / 8 + encData.length / 8 + 4) blocks store
        reached := by
  let source : Source := ⟨.mem ptr, bytes⟩
  let start : Machine σ :=
    { m with locals := { m.locals with uctx := ⟨.mem ptr, 0, UInt32.ofNat bytes.length⟩ } }
  have length := length_blobFields 0x16 0 sealInfo encData
  have long := begins.length_le
  have init : unpackInit (.mem ptr) (UInt32.ofNat bytes.length) m = .ok () start := rfl
  have startLinked : Linked tpm area core used contents store start := linked.of_eq rfl
  have record : source.slice 0 (blobFields 0x16 0 sealInfo encData).length =
      blobFields 0x16 0 sealInfo encData := by
    rw [Source.slice, List.drop_zero]
    exact (List.prefix_iff_eq_take.mp begins).symm
  obtain ⟨words, sealSize, encSize, infoBytes, encBytes⟩ := @Source.blobFields_at source 0 0x16 0
    sealInfo encData (by omega) (by simpa [source] using long) record
  have fits : source.BlobFits area used 0 := by
    refine ⟨?_, ?_, ?_, ?_⟩
    all_goals
      simp only [Source.blobLength, UInt32.lt_iff_toNat_lt, UInt32.toNat_zero, sealSize, encSize,
        source]
      omega
  have unpacking : UnpackingWith area start source ⟨used, contents, start.sessionAt, 0⟩
      (fun _ _ => True) start :=
    ⟨⟨⟨rfl, startLinked.heap, startLinked.tracks, rfl, tracked, Nat.zero_le _, by
      simp only [source]; omega⟩, rfl⟩, trivial⟩
  obtain ⟨blob, parsed, parses, found, unpacked⟩ := (@unmarshalStoredData12_runs _ area start
    source ⟨used, contents, start.sessionAt, 0⟩ False .null (fun _ _ _ => True) [] short
    (Nat.zero_le _) (fun _ _ _ _ => hashBytes_null) fun _ => fits).returns start unpacking
  have respects : Respects True False (fun _ => True)
      (unmarshalStoredData12 .given .null : Boot σ TpmStoredData12) :=
    unmarshalStoredData12_respects _ _
  have kept := (respects start).sessions trivial
  rw [parses] at kept
  have slots : parsed.sessions = start.sessions := kept.2
  have linkedNext := startLinked.unpacked unpacked.1.toReceiving parsed.log
  have same : { store with
      objects := start.sessionAt
      slots := parsed.sessions } = store := by
    rw [← startLinked.store_eq, Machine.store, slots]
  have infoSize := found.sealInfoSize
  have dataSize := found.encDataSize
  simp only [Progress.storeBlob, Progress.advance, Progress.store, same, infoSize, dataSize,
    sealSize, encSize, Nat.zero_add] at linkedNext
  rw [infoBytes, encBytes] at linkedNext
  have total : used + sealInfo.length / 8 + 2 + encData.length / 8 + 2 =
      used + sealInfo.length / 8 + encData.length / 8 + 4 := by omega
  rw [total] at linkedNext
  refine ⟨blob, _, parsed, ?_, ⟨found.tag.trans words.1, found.et.trans words.2,
    by rw [infoSize, sealSize], by rw [dataSize, encSize], ?_, Function.update_self ..⟩,
    linkedNext⟩
  · rw [unpackStoredData12, Prog.bind_ok init]
    exact parses
  · rw [Function.update_of_ne found.different.symm, Function.update_self]

/-- The blob is read from the area again. -/
theorem readPassphrase_reads (reliable : tpm.Reliable) (follows : tpm.Follows chip)
    (linked : Linked tpm area core used contents store m) {index size : UInt32}
    (sealLength : sealInfo.length = 54) (encLength : encData.length = 256)
    (holds : HoldsBlob sealInfo encData size.toNat (core.spaces index).bytes)
    (short : 67 + size.toNat ≤ 1024) (room : used + 163 ≤ area.units) :
    ∃ blob more blocks reached, readPassphrase device index size m = .ok (.ok blob) reached ∧
      more ≤ used + 163 ∧ BlobTracked blocks sealInfo encData blob ∧
      Linked tpm area core more blocks store reached := by
  obtain ⟨inside, begins⟩ := holds
  have length := length_blobFields 0x16 0 sealInfo encData
  have long := begins.length_le
  have count : ((core.spaces index).bytes.take size.toNat).length = size.toNat :=
    List.length_take_of_le inside
  have positive : 0 < size := by
    rw [UInt32.lt_iff_toNat_lt, UInt32.toNat_zero]
    omega
  obtain ⟨ptr, fetched, fetches, -, fetchedLinked⟩ := tpmNvReadValue_reads reliable
    (follows.nvArea index) linked positive inside (by omega) (by omega)
  have same : (tpm.exec core (nvReadOf index 0 size).encode).2 = core := by
    rw [follows core _ (nvReadOf_wellFormed index 0 size), answer_nvRead]
    split
    · rfl
    · rfl
  rw [same] at fetchedLinked
  obtain ⟨blob, blocks, last, unpacks, blobTracked, lastLinked⟩ := unpackStoredData12_reads
    fetchedLinked (Function.update_self ..) (by omega) begins (by omega) (by omega) (by omega)
  rw [count, UInt32.ofNat_toNat] at unpacks
  refine ⟨blob, _, blocks, last, ?_, ?_, blobTracked, lastLinked⟩
  · rw [readPassphrase, Prog.bind_ok fetches, if_neg (by simp)]
    exact Prog.bind_ok unpacks _
  · omega

end Reading

section Unsealing

variable {σ : Type} {device : TisDevice σ} {mmap : UInt32}
  {tpm : FifoTpm device mmap SealingState} {chip : SealingChip} {area : HeapArea}
  {core : SealingState} {used : Nat} {contents : UInt32 → Option (List UInt8)}
  {store : Store} {m reached : Machine σ} {sealInfo encData : List UInt8}
  {blob : TpmStoredData12} {parentSession dataSession : OpenSession}

/-- The state in which `unseal_passphrase` calls `TPM_Unseal`. -/
structure UnsealPrepared (core next : SealingState)
    (contents blocks : UInt32 → Option (List UInt8)) (after : Store)
    (parentSession dataSession : OpenSession) : Prop where
  undisturbed : Undisturbed core next
  keeps : Keeps contents blocks
  parent : InSession next.sessions blocks after .zero parentSession
  data : InSession next.sessions blocks after .one dataSession
  plain : dataSession.sharedNonces = none

/-- What `unseal_passphrase` does with the answer of the TPM. -/
def finishUnseal (unsealRet : Result HeapData) : Boot σ (Result UInt32) := do
  if unsealRet.exception ≠ .none then return .error unsealRet.exception 0
  return .ok unsealRet.value.data

theorem unsealPassphrase_prepares (reliable : tpm.Reliable) (follows : tpm.Follows chip)
    (linked : Linked tpm area core used contents store m)
    (fresh : core.sessions = fun _ => none) (room : used + 23 ≤ area.units)
    (srkAuth ppAuth : Block 20) (blob : TpmStoredData12) :
    ∃ parentSession dataSession next blocks after prepared,
      unsealPassphrase device srkAuth ppAuth blob m =
        (tpmUnseal device blob khSRK (parentSession.secret srkAuth) .zero ppAuth .one >>=
          finishUnseal) prepared ∧
      UnsealPrepared core next contents blocks after parentSession dataSession ∧
      Linked tpm area next (used + 23) blocks after prepared := by
  have none (handle : UInt32) : core.sessions handle = none := by rw [fresh]
  obtain ⟨handle, free⟩ := Option.isSome_iff_exists.mp
    (chip.freeHandle_second core.sessions 0 fun other _ => none other)
  let parentSession : OpenSession := ⟨chip.random (core.drawn + 1),
    some ((chip.random (core.drawn + 1 + 1)).bytes ++ (chip.random core.drawn).bytes)⟩
  obtain ⟨second, freeSecond⟩ := Option.isSome_iff_exists.mp
    (chip.freeHandle_second (Function.update core.sessions handle (some parentSession)) handle
      fun other different => by rw [Function.update_of_ne different, none])
  obtain ⟨first, drawFirst, -, firstLinked⟩ := getNonce_draws reliable follows linked
  obtain ⟨blocks, after, opened, opens, keeps, openedLinked, inSession, shares, -⟩ :=
    tpmOSAP_shares reliable follows firstLinked .zero (chip.random core.drawn) free (by omega)
  obtain ⟨ended, ends, endedLinked⟩ := end_runs .zero openedLinked (inSession.nonNull openedLinked)
  have inSession := inSession.ready .zero (after.objects (after.slots .zero)).nonceOdd
  have shares := shares.ready .zero (after.objects (after.slots .zero)).nonceOdd
  have secret := sessionSecret_shares endedLinked inSession shares rfl srkAuth
  obtain ⟨more, last, both, opensSecond, keepsNext, bothLinked, dataSession, others⟩ :=
    tpmOIAP_session reliable follows endedLinked .one freeSecond (by omega)
  have parent := others .zero _ (by decide) inSession
  obtain ⟨drawn, drawSecond, -, drawnLinked⟩ := getNonce_draws reliable follows bothLinked
  have filled := dataSession.nonNull drawnLinked
  obtain ⟨set, prepared, sets, endsSecond, preparedLinked⟩ :=
    ready_runs .one (chip.random (core.drawn + 1 + 2 + 1)) drawnLinked filled
  refine ⟨parentSession, ⟨chip.random (core.drawn + 1 + 2), Option.none⟩, _, more, _, prepared, ?_,
    ⟨?_, keeps.trans keepsNext, parent.ready .one _, dataSession.ready .one _, rfl⟩,
    preparedLinked⟩
  · rw [unsealPassphrase, Prog.bind_ok drawFirst, Result.value_ok, Prog.bind_ok opens,
      if_neg (by simp), Prog.bind_ok ends, Prog.bind_ok secret, Prog.bind_ok opensSecond,
      if_neg (by simp), Prog.bind_ok drawSecond, if_neg (by simp), Result.value_ok,
      Prog.bind_ok sets, Prog.bind_ok endsSecond]
    rfl
  · exact ⟨rfl, rfl, rfl, rfl, rfl⟩

/-- The request that asks for sealed data. -/
theorem request_unsealBlob (tracks : Tracks area used contents m.mem)
    (blobTracked : BlobTracked contents sealInfo encData blob) (parentAuth dataAuth : Block 20) :
    ∃ parent entity : TpmWire.RequestTrailer,
      (AuthorisedCommand.unsealBlob blob khSRK parentAuth .zero dataAuth .one).request m =
        unsealRequestOf sealInfo encData parent entity ∧
      parent = requestTrailer parentAuth (unsealRequestOf sealInfo encData parent entity).digest
        (m.sessionAt (m.sessions .zero)) ∧
      entity = requestTrailer dataAuth (unsealRequestOf sealInfo encData parent entity).digest
        (m.sessionAt (m.sessions .one)) := by
  let digest := SecureHash.sha1 (be32 ordUnseal ++ blobFields 0x16 0 sealInfo encData)
  refine ⟨requestTrailer parentAuth digest (m.sessionAt (m.sessions .zero)),
    requestTrailer dataAuth digest (m.sessionAt (m.sessions .one)), ?_, rfl, rfl⟩
  rw [AuthorisedCommand.request, authorisedRequest, blobTracked.bytes_eq tracks]
  rfl

theorem unsealRequestOf_wellFormed {parent entity : TpmWire.RequestTrailer}
    (short : 116 + sealInfo.length + encData.length ≤ 1024) :
    (unsealRequestOf sealInfo encData parent entity).WellFormed := by
  have size : (unsealRequestOf sealInfo encData parent entity).size =
      116 + sealInfo.length + encData.length := by
    simp [unsealRequestOf, TpmWire.Request.size, length_blobFields]
    omega
  exact ⟨rfl, rfl, by omega⟩

/-- The secrets that are typed and the registers are those of the sealed data. -/
structure Unlocks (pcrs : Nat → Block 20) (core : SealingState) (sealed : SealedData)
    (srkAuth ppAuth : Block 20) : Prop where
  srkAuth : srkAuth = core.srkAuth
  ppAuth : ppAuth = sealed.auth
  registers : compositeDigest core.pcrs bootSelection = compositeDigest pcrs bootSelection

/-- The TPM has found that somebody who knows the secrets asks for the data, in the registers'
state that they are bound to. -/
structure Unlocked (pcrs : Nat → Block 20) (core next : SealingState) (sealed : SealedData)
    (srkAuth ppAuth : Block 20) : Prop where
  parent : ∃ check ∈ next.srkChecks, check.mac srkAuth = check.mac core.srkAuth
  data : ∃ check ∈ next.dataChecks, check.mac ppAuth = check.mac sealed.auth
  registers : compositeDigest core.pcrs bootSelection = compositeDigest pcrs bootSelection

/-- The request of `unseal_passphrase`. -/
structure UnsealAsked (core : SealingState) (m : Machine σ) (sealInfo encData : List UInt8)
    (parentSession dataSession : OpenSession) (blob : TpmStoredData12) (srkAuth ppAuth : Block 20)
    (parent entity : TpmWire.RequestTrailer) : Prop where
  unsealable : Unsealable blob .zero .one m
  request : (AuthorisedCommand.unsealBlob blob khSRK (parentSession.secret srkAuth) .zero ppAuth
    .one).request m = unsealRequestOf sealInfo encData parent entity
  wellFormed : (unsealRequestOf sealInfo encData parent entity).WellFormed
  plain : dataSession.sharedNonces = none
  parentFound : core.sessions parent.handle = some parentSession
  dataFound : core.sessions entity.handle = some dataSession
  parentNonce : (m.sessionAt (m.sessions .zero)).nonceOdd = parent.nonceOdd
  dataNonce : (m.sessionAt (m.sessions .one)).nonceOdd = entity.nonceOdd
  parentAuth : parent.auth = (checkOf (unsealRequestOf sealInfo encData parent entity)
    parentSession parent).mac srkAuth
  dataAuth : entity.auth = (checkOf (unsealRequestOf sealInfo encData parent entity)
    dataSession entity).mac ppAuth

theorem OpenSession.secret_plain {session : OpenSession} (plain : session.sharedNonces = none)
    (auth : Block 20) : session.secret auth = auth := by
  rw [OpenSession.secret, plain]

theorem unsealBlob_asks (linked : Linked tpm area core used contents store m)
    (blobTracked : BlobTracked contents sealInfo encData blob)
    (sealLength : sealInfo.length = 54) (encLength : encData.length = 256)
    (parentIn : InSession core.sessions contents store .zero parentSession)
    (dataIn : InSession core.sessions contents store .one dataSession)
    (plain : dataSession.sharedNonces = none) (srkAuth ppAuth : Block 20) :
    ∃ parent entity, UnsealAsked core m sealInfo encData parentSession dataSession blob srkAuth
      ppAuth parent entity := by
  have tracks := linked.tracks
  obtain ⟨parent, entity, request, parentMade, entityMade⟩ :=
    request_unsealBlob tracks blobTracked (parentSession.secret srkAuth) ppAuth
  have objects := linked.store_eq
  subst objects
  refine ⟨parent, entity, ⟨?_, tracks.nonNull blobTracked.sealInfo,
    tracks.nonNull blobTracked.encData, parentIn.nonNull linked, dataIn.nonNull linked⟩, request,
    unsealRequestOf_wellFormed (by omega), plain, ?_, ?_, ?_, ?_, ?_, ?_⟩
  · rw [blobTracked.sealInfoSize, blobTracked.encDataSize]
    omega
  · rw [parentMade]
    exact parentIn.found
  · rw [entityMade]
    exact dataIn.found
  · rw [parentMade]
    rfl
  · rw [entityMade]
    rfl
  · have auth := requestTrailer_auth (unsealRequestOf sealInfo encData parent entity) parentSession
      (m.sessionAt (m.sessions .zero)) parentIn.nonceEven srkAuth
    rwa [← parentMade] at auth
  · have auth := requestTrailer_auth (unsealRequestOf sealInfo encData parent entity) dataSession
      (m.sessionAt (m.sessions .one)) dataIn.nonceEven ppAuth
    rwa [OpenSession.secret_plain plain, ← entityMade] at auth

section Answers

variable {pcrs : Nat → Block 20} {sealed : SealedData} {srkAuth ppAuth : Block 20}
  {parent entity : TpmWire.RequestTrailer}

theorem UnsealAsked.releases
    (asked : UnsealAsked core m (bootPcrInfoBytes pcrs) encData parentSession dataSession blob
      srkAuth ppAuth parent entity)
    (unlocks : Unlocks pcrs core sealed srkAuth ppAuth) :
    core.Releases (bootPcrInfoBytes pcrs) encData sealed parent entity parentSession
      dataSession := by
  refine ⟨?_, ?_, ?_⟩
  · rw [asked.parentAuth, unlocks.srkAuth]
  · rw [asked.dataAuth, unlocks.ppAuth]
  · rw [ofBytes_bootPcrInfoBytes, unlocks.registers]

theorem UnsealAsked.unlocked {next : SealingState}
    (asked : UnsealAsked core m (bootPcrInfoBytes pcrs) encData parentSession dataSession blob
      srkAuth ppAuth parent entity)
    (releases : core.Releases (bootPcrInfoBytes pcrs) encData sealed parent entity parentSession
      dataSession)
    (srkChecks : next.srkChecks = core.srkChecks ++
      [checkOf (unsealRequestOf (bootPcrInfoBytes pcrs) encData parent entity) parentSession
        parent])
    (dataChecks : next.dataChecks = core.dataChecks ++
      [checkOf (unsealRequestOf (bootPcrInfoBytes pcrs) encData parent entity) dataSession
        entity]) :
    Unlocked pcrs core next sealed srkAuth ppAuth := by
  refine ⟨⟨_, ?_, asked.parentAuth.symm.trans releases.parentAuth⟩,
    ⟨_, ?_, asked.dataAuth.symm.trans releases.dataAuth⟩, ?_⟩
  · rw [srkChecks]
    exact List.mem_append_right _ (List.mem_singleton_self _)
  · rw [dataChecks]
    exact List.mem_append_right _ (List.mem_singleton_self _)
  · have registers := releases.registers
    rw [ofBytes_bootPcrInfoBytes] at registers
    exact Block.ext_bytes registers

/-- The data that the TPM releases.  Their caller accepts them if he knows the secrets. -/
theorem tpmUnseal_released (reliable : tpm.Reliable) (follows : tpm.Follows chip)
    (linked : Linked tpm area core used contents store m)
    (asked : UnsealAsked core m (bootPcrInfoBytes pcrs) encData parentSession dataSession blob
      srkAuth ppAuth parent entity)
    (made : chip.Made (bootPcrInfoBytes pcrs) encData sealed)
    (releases : core.Releases (bootPcrInfoBytes pcrs) encData sealed parent entity parentSession
      dataSession)
    (positive : 0 < sealed.data.length) (short : sealed.data.length ≤ 128)
    (room : used + 18 ≤ area.units) :
    ∃ ret reached, tpmUnseal device blob khSRK (parentSession.secret srkAuth) .zero ppAuth .one m =
        .ok ret reached ∧
      (Unlocks pcrs core sealed srkAuth ppAuth → ret.exception = .none) ∧
      (ret.exception = .none → ∃ next after, Unlocked pcrs core next sealed srkAuth ppAuth ∧
        Linked tpm area next (used + sealed.data.length / 8 + 2)
          (Function.update contents ret.value.data (some sealed.data)) after reached) := by
  obtain ⟨next, released, srkChecks, dataChecks⟩ :=
    answerUnseal_released made asked.parentFound asked.dataFound releases
  have answer := follows core _ asked.wellFormed
  rw [answer_unseal, released] at answer
  have grants : (tpm.exec core ((AuthorisedCommand.unsealBlob blob khSRK
      (parentSession.secret srkAuth) .zero ppAuth .one).request m).encode).1 =
      (TpmWire.Response.granted tagRspAuth2Command ordUnseal
        (be32 (UInt32.ofNat sealed.data.length) ++ sealed.data)
        [⟨parentSession.secret core.srkAuth, chip.random core.drawn,
            (m.sessionAt (m.sessions .zero)).nonceOdd, parent.continueAuthSession⟩,
          ⟨dataSession.secret sealed.auth, chip.random core.drawn,
            (m.sessionAt (m.sessions .one)).nonceOdd, entity.continueAuthSession⟩]).encode := by
    rw [asked.request, answer, unsealGranted, asked.parentNonce, asked.dataNonce]
    rfl
  obtain ⟨ret, reached, run, accepted, tracked⟩ := tpmUnseal_answered reliable linked
    asked.unsealable positive (by omega) (by omega) grants
  rw [asked.request, answer] at tracked
  refine ⟨ret, reached, run, fun unlocks => accepted ?_ ?_, fun none => ?_⟩
  · rw [unlocks.srkAuth]
  · rw [OpenSession.secret_plain asked.plain, unlocks.ppAuth]
  · obtain ⟨after, nextLinked⟩ := tracked none
    exact ⟨next, after, asked.unlocked releases srkChecks dataChecks, nextLinked⟩

theorem tpmUnseal_unseals (reliable : tpm.Reliable) (follows : tpm.Follows chip)
    (linked : Linked tpm area core used contents store m)
    (asked : UnsealAsked core m (bootPcrInfoBytes pcrs) encData parentSession dataSession blob
      srkAuth ppAuth parent entity)
    (made : chip.Made (bootPcrInfoBytes pcrs) encData sealed)
    (positive : 0 < sealed.data.length) (short : sealed.data.length ≤ 128)
    (room : used + 18 ≤ area.units) :
    ∃ ret reached, tpmUnseal device blob khSRK (parentSession.secret srkAuth) .zero ppAuth .one m =
        .ok ret reached ∧
      (Unlocks pcrs core sealed srkAuth ppAuth → ret.exception = .none) ∧
      (ret.exception = .none → ∃ next after, Unlocked pcrs core next sealed srkAuth ppAuth ∧
        Linked tpm area next (used + sealed.data.length / 8 + 2)
          (Function.update contents ret.value.data (some sealed.data)) after reached) := by
  by_cases releases : core.Releases (bootPcrInfoBytes pcrs) encData sealed parent entity
    parentSession dataSession
  · exact tpmUnseal_released reliable follows linked asked made releases positive short room
  have kept := answerUnseal_refused made asked.parentFound asked.dataFound releases
  have refused : resultOf (tpm.exec core ((AuthorisedCommand.unsealBlob blob khSRK
      (parentSession.secret srkAuth) .zero ppAuth .one).request m).encode).1 ≠ 0 := by
    rw [asked.request, follows core _ asked.wellFormed, answer_unseal, resultOf_encode]
    exact kept
  obtain ⟨error, reached, failed, run⟩ :=
    tpmUnseal_refused reliable linked asked.unsealable refused
  exact ⟨_, reached, run, fun unlocks => (releases (asked.releases unlocks)).elim,
    fun none => (failed none).elim⟩

end Answers

theorem unsealPassphrase_unseals (reliable : tpm.Reliable) (follows : tpm.Follows chip)
    (linked : Linked tpm area core used contents store m)
    (fresh : core.sessions = fun _ => none) {pcrs : Nat → Block 20} {sealed : SealedData}
    (blobTracked : BlobTracked contents (bootPcrInfoBytes pcrs) encData blob)
    (made : chip.Made (bootPcrInfoBytes pcrs) encData sealed) (encLength : encData.length = 256)
    (positive : 0 < sealed.data.length) (short : sealed.data.length ≤ 128)
    (room : used + 41 ≤ area.units) (srkAuth ppAuth : Block 20) :
    ∃ ret reached, unsealPassphrase device srkAuth ppAuth blob m = .ok ret reached ∧
      (Unlocks pcrs core sealed srkAuth ppAuth → ret.exception = .none) ∧
      (ret.exception = .none → ∃ next more blocks after, blocks ret.value = some sealed.data ∧
        Unlocked pcrs core next sealed srkAuth ppAuth ∧
        Linked tpm area next more blocks after reached) := by
  obtain ⟨parentSession, dataSession, opened, blocks, after, prepared, prepares, done,
    preparedLinked⟩ := unsealPassphrase_prepares reliable follows linked fresh (by omega) srkAuth
      ppAuth blob
  have undisturbed := done.undisturbed
  obtain ⟨parent, entity, asked⟩ := unsealBlob_asks preparedLinked (blobTracked.keeps done.keeps)
    (length_bootPcrInfoBytes pcrs) encLength done.parent done.data done.plain srkAuth ppAuth
  obtain ⟨ret, reached, run, accepted, tracked⟩ :=
    tpmUnseal_unseals reliable follows preparedLinked asked made positive short (by omega)
  have finish : unsealPassphrase device srkAuth ppAuth blob m = finishUnseal ret reached :=
    prepares.trans (Prog.bind_ok run _)
  rw [finishUnseal] at finish
  by_cases none : ret.exception = .none
  · rw [if_neg (not_not_intro none)] at finish
    refine ⟨_, reached, finish, fun _ => rfl, fun _ => ?_⟩
    obtain ⟨next, last, unlocked, nextLinked⟩ := tracked none
    obtain ⟨parentCheck, dataCheck, registers⟩ := unlocked
    rw [undisturbed.srkAuth] at parentCheck
    rw [undisturbed.pcrs] at registers
    exact ⟨next, _, _, last, Function.update_self .., ⟨parentCheck, dataCheck, registers⟩,
      nextLinked⟩
  · rw [if_pos none] at finish
    refine ⟨_, reached, finish, fun unlocks => (none (accepted ?_)).elim,
      fun success => (none success).elim⟩
    exact ⟨unlocks.srkAuth.trans undisturbed.srkAuth.symm, unlocks.ppAuth, by
      rw [undisturbed.pcrs, unlocks.registers]⟩

end Unsealing

section Output

/-- The bytes that an event shows. -/
def Event.output? : Event → Option (List UInt8)
  | .output bytes => some bytes
  | _ => none

/-- What has been shown. -/
def shown (log : List Event) : List (List UInt8) :=
  log.filterMap Event.output?

variable {σ α : Type} {m reached : Machine σ}

theorem silent_commandEvents : CommandEvents fun event => event.output? = none :=
  ⟨⟨fun _ _ _ => rfl, fun _ _ => rfl⟩, fun _ => rfl, fun _ _ => rfl, fun _ _ => rfl⟩

/-- A program that shows nothing. -/
theorem Respects.shown_eq {keep still : Prop} {program : Boot σ α} {value : α}
    (respects : Respects keep still (fun event => event.output? = none) program)
    (run : program m = .ok value reached) : shown reached.log = shown m.log := by
  obtain ⟨events, log, silent⟩ := (respects m).log
  rw [run, Outcome.state_ok] at log
  rw [log, shown, List.filterMap_append, List.filterMap_eq_nil_iff.mpr silent, List.append_nil]
  rfl

theorem shown_append (log : List Event) (bytes : List UInt8) :
    shown (log ++ [.output bytes]) = shown log ++ [bytes] := by
  rw [shown, List.filterMap_append]
  rfl

theorem shown_append_outputs (log : List Event) (outputs : List (List UInt8)) :
    shown (log ++ outputs.map .output) = shown log ++ outputs := by
  rw [shown, List.filterMap_append, List.filterMap_map]
  exact congrArg (shown log ++ ·) List.filterMap_some

/-- The end of the confirmation, which waits for the user. -/
def awaitYes : Boot σ Unit := do
  let yesString ← allocHeap 4
  let _ ← getStringAt yesString 4 true
  let m ← Prog.get
  if read m.mem yesString.toNat 3 ≠ text "YES" then Prog.halt .reboot
  else emit .confirmed

theorem confirmPassphrase_eq (passphrase : UInt32) :
    (confirmPassphrase passphrase : Boot σ Unit) = (do
      outString (text "Please confirm that the passphrase is correct:\n\n")
      let shown ← loadString passphrase
      outString shown
      outString (text "\n\nIf this is correct, please type YES in all capitals: ")
      awaitYes) :=
  rfl

/-- Waiting for the user does not involve the TPM. -/
theorem awaitYes_preserves : Prog.Preserves Machine.world (awaitYes : Boot σ Unit) := by
  have char : Prog.Preserves Machine.world (getchar : Boot σ UInt8) := by
    intro m
    unfold getchar
    cases m.keys with
    | nil => rfl
    | cons key keys => rfl
  have loop (fuel : Nat) (str : Mem) :
      Prog.Preserves Machine.world (getStringLoop 4 true fuel str 0 : Boot σ (Mem × Nat)) := by
    intro m
    have kept := getStringLoop_preserves 4 true fuel str 0 m
    dsimp only at kept
    have world := congrArg Machine.world kept
    exact world
  have line (str : Mem) :
      Prog.Preserves Machine.world (getString str 4 true : Boot σ (Mem × Nat)) := by
    refine char.bind fun _ => Prog.Preserves.bind (fun _ => rfl) fun m => ?_
    exact (loop _ _).bind fun _ _ => rfl
  have block : Prog.Preserves Machine.world (allocHeap 4 : Boot σ UInt32) := by
    intro m
    unfold allocHeap
    cases alloc m.heap 4 m.mem with
    | ok ptr mem => rfl
    | halt reason mem => rfl
  refine block.bind fun ptr => Prog.Preserves.bind ?_ fun _ =>
    Prog.Preserves.bind (fun _ => rfl) fun m => ?_
  · refine Prog.Preserves.bind (fun _ => rfl) fun m => (line _).bind fun _ => ?_
    exact Prog.Preserves.ite (fun _ => rfl) fun _ => rfl
  · exact Prog.Preserves.ite (fun _ => rfl) fun _ => rfl

/-- `alloc` writes nothing but its nodes. -/
theorem alloc_halts (heap size : UInt32) : Prog.Halts (· ≠ .overrun) (alloc heap size) := by
  unfold alloc
  refine Prog.Halts.ite (Prog.Halts.get.bind fun mem => ?_) (Prog.Halts.halt (by decide))
  dsimp only
  split
  · exact Prog.Halts.halt (by decide)
  · exact Prog.Halts.ite (Prog.Halts.ret 0) (Prog.Halts.modify.bind fun _ => Prog.Halts.ret _)

/-- Waiting for the user stays inside of the block for the answer. -/
theorem awaitYes_halts : Prog.Halts (· ≠ .overrun) (awaitYes : Boot σ Unit) := by
  have block : Prog.Halts (· ≠ .overrun) (allocHeap 4 : Boot σ UInt32) := by
    intro m reason reached run
    unfold allocHeap at run
    cases allocates : alloc m.heap 4 m.mem with
    | ok ptr mem =>
        rw [allocates] at run
        cases run
    | halt earlier mem =>
        rw [allocates] at run
        cases run
        exact alloc_halts m.heap 4 m.mem _ _ allocates
  have char : Prog.Halts (· ≠ .overrun) (getchar : Boot σ UInt8) := by
    intro m reason reached run
    unfold getchar at run
    split at run <;> cases run
    decide
  have put (c : UInt8) :
      Prog.Halts (· ≠ .overrun) (if true then outChar c else pure () : Boot σ Unit) :=
    Prog.Halts.modify
  have loop (fuel : Nat) (str : Mem) (i : Nat) :
      Prog.Halts (· ≠ .overrun) (getStringLoop 4 true fuel str i : Boot σ (Mem × Nat)) := by
    induction fuel generalizing str i with
    | zero => exact Prog.Halts.halt (by decide)
    | succ fuel ih =>
        refine Prog.Halts.ite (char.bind fun c => Prog.Halts.ite (Prog.Halts.ret _)
          (Prog.Halts.ite (Prog.Halts.ite ?_ (ih _ _)) (Prog.Halts.ite (ih _ _) ?_)))
          (Prog.Halts.ret _)
        · exact (put c).bind fun _ => ih _ _
        · exact (put c).bind fun _ => ih _ _
  have line (str : Mem) :
      Prog.Halts (· ≠ .overrun) (getString str 4 true : Boot σ (Mem × Nat)) :=
    char.bind fun _ => Prog.Halts.get.bind fun _ => (loop _ _ _).bind fun _ =>
      Prog.Halts.modify.bind fun _ => Prog.Halts.ret _
  refine block.bind fun ptr => Prog.Halts.bind ?_ fun _ => Prog.Halts.get.bind fun m => ?_
  · refine Prog.Halts.get.bind fun m => (line _).bind fun _ => ?_
    exact Prog.Halts.ite (Prog.Halts.halt (by decide))
      (Prog.Halts.modify.bind fun _ => Prog.Halts.ret _)
  · exact Prog.Halts.ite (Prog.Halts.halt (by decide)) Prog.Halts.modify

end Output

section Showing

variable {σ : Type} {device : TisDevice σ} {mmap : UInt32}
  {tpm : FifoTpm device mmap SealingState} {chip : SealingChip} {area : HeapArea}
  {core : SealingState} {used : Nat} {contents : UInt32 → Option (List UInt8)}
  {store : Store} {m : Machine σ} {encData : List UInt8}

/-- The passphrase is shown, with a question that waits for an answer. -/
def ShowsPassphrase (m : Machine σ) (passphrase : List UInt8)
    (outcome : Outcome Halt (Machine σ) (Result Unit)) : Prop :=
  ∃ asked : Machine σ, outcome = (do
      awaitYes
      return Result.ok ()) asked ∧
    shown asked.log = shown m.log ++ bootPrompts ++
      [text "Please confirm that the passphrase is correct:\n\n", passphrase,
        text "\n\nIf this is correct, please type YES in all capitals: "]

/-- Nothing but the prompts is shown, and there is an error. -/
def RefusesPassphrase (m : Machine σ) (outcome : Outcome Halt (Machine σ) (Result Unit)) :
    Prop :=
  ∃ error reached, error ≠ .none ∧ outcome = .ok (.error error ()) reached ∧
    shown reached.log = shown m.log ++ bootPrompts

/-- A passphrase in a tracked block is shown. -/
theorem confirmPassphrase_shows (linked : Linked tpm area core used contents store m)
    {ptr : UInt32} {passphrase : List UInt8} (tracked : contents ptr = some (passphrase ++ [0]))
    (clean : 0 ∉ passphrase) (short : passphrase.length < 2 ^ 32) :
    ∃ asked : Machine σ, confirmPassphrase ptr m = awaitYes asked ∧ asked.world = m.world ∧
      shown asked.log = shown m.log ++
        [text "Please confirm that the passphrase is correct:\n\n", passphrase,
          text "\n\nIf this is correct, please type YES in all capitals: "] := by
  have content := linked.tracks.read_eq tracked
  rw [List.length_append, List.length_singleton] at content
  let asking := m.showing (text "Please confirm that the passphrase is correct:\n\n")
  have loads : loadString ptr asking = .ok passphrase asking := loadString_eq short clean content
  have run : confirmPassphrase ptr m = awaitYes ((asking.showing passphrase).showing
      (text "\n\nIf this is correct, please type YES in all capitals: ")) := by
    rw [confirmPassphrase_eq, Prog.bind_ok (outString_eq _ _)]
    exact (Prog.bind_ok loads _).trans rfl
  refine ⟨_, run, rfl, ?_⟩
  simp only [asking, Machine.showing, shown_append]
  simp only [List.append_assoc, List.cons_append, List.nil_append]

/-- The steps of `trusted_boot` after the two authorisation strings. -/
def finishBoot (device : TisDevice σ) (srkAuth ppAuth : Block 20) (sealedPp : TpmStoredData12) :
    Boot σ (Result Unit) := do
  let passphrase ← unsealPassphrase device srkAuth ppAuth sealedPp
  if passphrase.exception ≠ .none then return .error passphrase.exception ()
  confirmPassphrase passphrase.value
  return .ok ()

/-- The blob is read, and the two strings are asked for. -/
theorem trustedBoot_reads (reliable : tpm.Reliable) (follows : tpm.Follows chip)
    (linked : Linked tpm area core used contents store m) {sealInfo : List UInt8}
    {index size : UInt32} (sealLength : sealInfo.length = 54) (encLength : encData.length = 256)
    (holds : HoldsBlob sealInfo encData size.toNat (core.spaces index).bytes)
    (short : 67 + size.toNat ≤ 1024) (room : used + 163 ≤ area.units) :
    ∃ blob more blocks fetched,
      trustedBoot device index size m = askAuthdata (fun srkAuth ppAuth =>
        finishBoot device srkAuth ppAuth blob) fetched ∧
      shown fetched.log = shown m.log ∧ more ≤ used + 163 ∧
      BlobTracked blocks sealInfo encData blob ∧
      Linked tpm area core more blocks store fetched := by
  obtain ⟨blob, more, blocks, fetched, reads, bound, blobTracked, fetchedLinked⟩ :=
    readPassphrase_reads reliable follows linked sealLength encLength holds short room
  have quiet := (readPassphrase_respects silent_commandEvents index size).shown_eq reads
  refine ⟨blob, more, blocks, fetched, ?_, quiet, bound, blobTracked, fetchedLinked⟩
  rw [trustedBoot, Prog.bind_ok reads, if_neg (by simp), Result.value_ok]
  rfl

/-- The blob is read, and the two strings are typed. -/
theorem trustedBoot_asks (reliable : tpm.Reliable) (follows : tpm.Follows chip)
    (linked : Linked tpm area core used contents store m) {ppLine srkLine sealInfo : List UInt8}
    (typed : typedLines [authdataStrSize, authdataStrSize] store.keys = some [ppLine, srkLine])
    (ppShort : ppLine.length < authdataStrSize) (srkShort : srkLine.length < authdataStrSize)
    {index size : UInt32} (sealLength : sealInfo.length = 54) (encLength : encData.length = 256)
    (holds : HoldsBlob sealInfo encData size.toNat (core.spaces index).bytes)
    (short : 67 + size.toNat ≤ 1024) (room : used + 163 ≤ area.units) :
    ∃ blob more blocks after asked,
      trustedBoot device index size m =
        finishBoot device (authOf srkLine) (authOf ppLine) blob asked ∧
      shown asked.log = shown m.log ++ bootPrompts ∧ more ≤ used + 163 ∧
      BlobTracked blocks sealInfo encData blob ∧
      Linked tpm area core more blocks after asked := by
  obtain ⟨blob, more, blocks, fetched, reads, quiet, bound, blobTracked, fetchedLinked⟩ :=
    trustedBoot_reads reliable follows linked sealLength encLength holds short room
  obtain ⟨keys, asked, asks, log, -, askedLinked⟩ :=
    askAuthdata_types (fun srkAuth ppAuth => finishBoot device srkAuth ppAuth blob) fetchedLinked
      typed ppShort srkShort
  refine ⟨blob, more, blocks, _, asked, reads.trans asks, ?_, bound, blobTracked, askedLinked⟩
  rw [log, shown_append_outputs, quiet]

/-- A string that fills its buffer ends `trusted_boot` before anything is unsealed. -/
theorem trustedBoot_overruns (reliable : tpm.Reliable) (follows : tpm.Follows chip)
    (linked : Linked tpm area core used contents store m) {ppLine srkLine sealInfo : List UInt8}
    (typed : typedLines [authdataStrSize, authdataStrSize] store.keys = some [ppLine, srkLine])
    (full : ¬ (ppLine.length < authdataStrSize ∧ srkLine.length < authdataStrSize))
    {index size : UInt32} (sealLength : sealInfo.length = 54) (encLength : encData.length = 256)
    (holds : HoldsBlob sealInfo encData size.toNat (core.spaces index).bytes)
    (short : 67 + size.toNat ≤ 1024) (room : used + 163 ≤ area.units) :
    ∃ reached, trustedBoot device index size m = .halt .overrun reached := by
  obtain ⟨blob, more, blocks, fetched, reads, -, -, -, fetchedLinked⟩ :=
    trustedBoot_reads reliable follows linked sealLength encLength holds short room
  obtain ⟨reached, overruns⟩ := askAuthdata_overruns
    (fun srkAuth ppAuth => finishBoot device srkAuth ppAuth blob) fetchedLinked typed full
  exact ⟨reached, reads.trans overruns⟩

/-- The passphrase is shown only to somebody who knows the secrets, while the registers have
the values that it is bound to. -/
theorem trustedBoot_unseals (reliable : tpm.Reliable) (follows : tpm.Follows chip)
    (linked : Linked tpm area core used contents store m)
    (fresh : core.sessions = fun _ => none) {ppLine srkLine passphrase : List UInt8}
    (typed : typedLines [authdataStrSize, authdataStrSize] store.keys = some [ppLine, srkLine])
    (ppShort : ppLine.length < authdataStrSize) (srkShort : srkLine.length < authdataStrSize)
    {pcrs : Nat → Block 20} {sealed : SealedData} {index size : UInt32}
    (made : chip.Made (bootPcrInfoBytes pcrs) encData sealed) (encLength : encData.length = 256)
    (holds : HoldsBlob (bootPcrInfoBytes pcrs) encData size.toNat (core.spaces index).bytes)
    (data : sealed.data = passphrase ++ [0]) (clean : 0 ∉ passphrase)
    (bounded : passphrase.length ≤ 127) (short : 67 + size.toNat ≤ 1024)
    (room : used + 256 ≤ area.units) :
    (ShowsPassphrase m passphrase (trustedBoot device index size m) ∧
      ∃ next, tpm.view (trustedBoot device index size m).state.world = FifoView.idle next ∧
        Unlocked pcrs core next sealed (authOf srkLine) (authOf ppLine)) ∨
    (RefusesPassphrase m (trustedBoot device index size m) ∧
      ¬ Unlocks pcrs core sealed (authOf srkLine) (authOf ppLine)) := by
  obtain ⟨blob, more, blocks, after, asked, asks, prompts, bound, blobTracked, askedLinked⟩ :=
    trustedBoot_asks reliable follows linked typed ppShort srkShort
      (length_bootPcrInfoBytes pcrs) encLength holds short (by omega)
  have count : sealed.data.length = passphrase.length + 1 := by simp [data]
  obtain ⟨ret, unsealed, unseals, accepted, tracked⟩ := unsealPassphrase_unseals reliable follows
    askedLinked fresh blobTracked made encLength (by omega) (by omega) (by omega) (authOf srkLine)
    (authOf ppLine)
  have silent := (unsealPassphrase_respects silent_commandEvents _ _ _).shown_eq unseals
  rw [asks, finishBoot, Prog.bind_ok unseals]
  by_cases none : ret.exception = .none
  swap
  · rw [if_pos none]
    exact .inr ⟨⟨ret.exception, unsealed, none, rfl, silent.trans prompts⟩,
      fun unlocks => none (accepted unlocks)⟩
  rw [if_neg (not_not_intro none)]
  obtain ⟨next, last, blocks, after, content, unlocked, nextLinked⟩ := tracked none
  rw [data] at content
  obtain ⟨asking, confirms, world, shows⟩ :=
    confirmPassphrase_shows nextLinked content clean (by omega)
  rw [Prog.bind_eq_bind confirms]
  refine .inl ⟨⟨asking, rfl, ?_⟩, next, ?_, unlocked⟩
  · rw [shows, silent, prompts]
  · have kept : Prog.Preserves Machine.world (do
        awaitYes
        return Result.ok () : Boot σ (Result Unit)) :=
      awaitYes_preserves.bind fun _ _ => rfl
    rw [kept asking, world, nextLinked.idle]

end Showing

section EndToEnd

variable {σ : Type} {device : TisDevice σ} {mmap : UInt32}
  {tpm : FifoTpm device mmap SealingState} {chip : SealingChip} {area space : HeapArea}
  {core later : SealingState} {used held : Nat} {contents blocks : UInt32 → Option (List UInt8)}
  {store objects : Store} {m configured reader : Machine σ} {index size : UInt32}
  {passphrase ppLine srkLine ppAgain srkAgain : List UInt8}

/-- The digests that are compared come from one value only: the keyed hashes that the TPM has
checked, the digests of the registers, and the secrets made of the authorisation strings. -/
structure CollisionFree (core configured later booted : SealingState)
    (ppLine srkLine ppAgain srkAgain : List UInt8) : Prop where
  sealing : ∀ check ∈ configured.srkChecks,
    check.mac (authOf srkLine) = check.mac core.srkAuth → authOf srkLine = core.srkAuth
  unsealing : ∀ check ∈ booted.srkChecks,
    check.mac (authOf srkAgain) = check.mac later.srkAuth → authOf srkAgain = later.srkAuth
  data : ∀ check ∈ booted.dataChecks,
    check.mac (authOf ppAgain) = check.mac (authOf ppLine) → authOf ppAgain = authOf ppLine
  registers : compositeDigest later.pcrs bootSelection = compositeDigest core.pcrs bootSelection →
    pcrComposite later.pcrs bootSelection = pcrComposite core.pcrs bootSelection
  srkLines : authOf srkAgain = authOf srkLine → srkAgain = srkLine
  ppLines : authOf ppAgain = authOf ppLine → ppAgain = ppLine

/-- The registers 18 and 19 and the two authorisation strings are those of the time when the
passphrase was sealed. -/
def SameSecrets (core later : SealingState) (ppLine srkLine ppAgain srkAgain : List UInt8) :
    Prop :=
  (later.pcrs 18 = core.pcrs 18 ∧ later.pcrs 19 = core.pcrs 19) ∧ srkAgain = srkLine ∧
    ppAgain = ppLine

theorem pcrComposite_boot_inj {pcrs others : Nat → Block 20}
    (same : pcrComposite pcrs bootSelection = pcrComposite others bootSelection) :
    pcrs 18 = others 18 ∧ pcrs 19 = others 19 := by
  rw [pcrComposite_bootSelection, pcrComposite_bootSelection] at same
  obtain ⟨first, second⟩ := List.append_inj (List.append_cancel_left same) (by simp)
  exact ⟨Block.ext_bytes first, Block.ext_bytes second⟩

theorem compositeDigest_boot {pcrs others : Nat → Block 20} (first : pcrs 18 = others 18)
    (second : pcrs 19 = others 19) :
    compositeDigest pcrs bootSelection = compositeDigest others bootSelection := by
  rw [compositeDigest, compositeDigest, pcrComposite_bootSelection, pcrComposite_bootSelection,
    first, second]

/-- The passphrase is shown if `same` holds, and nothing but an error is returned if not. -/
def GuardsPassphrase (m : Machine σ) (passphrase : List UInt8) (same : Prop)
    (outcome : Outcome Halt (Machine σ) (Result Unit)) : Prop :=
  (same → ShowsPassphrase m passphrase outcome) ∧ (¬ same → RefusesPassphrase m outcome)

/-- A run that leaves a buffer neither shows the passphrase nor refuses it. -/
theorem not_guards_of_overrun {same : Prop} (reached : Machine σ) :
    ¬ GuardsPassphrase m passphrase same (.halt .overrun reached) := by
  rintro ⟨shows, refuses⟩
  by_cases known : same
  · obtain ⟨asked, run, -⟩ := shows known
    have inside : Prog.Halts (· ≠ .overrun) (do
        awaitYes
        return Result.ok () : Boot σ (Result Unit)) :=
      awaitYes_halts.bind fun _ => Prog.Halts.ret _
    exact inside asked _ _ run.symm rfl
  · obtain ⟨error, other, -, run, -⟩ := refuses known
    cases run

/-- A passphrase that `configure` has stored is guarded by `trusted_boot` as long as the TPM
keeps the blob and the secret of the storage root key. -/
theorem Configured.guards (reliable : tpm.Reliable) (follows : tpm.Follows chip)
    {next : SealingState} {sealed : SealedData} {encData : List UInt8}
    (done : Configured chip core next index size passphrase ppLine srkLine sealed encData)
    (srkKept : later.srkAuth = next.srkAuth) (spacesKept : later.spaces = next.spaces)
    (fresh : later.sessions = fun _ => none)
    (clean : 0 ∉ passphrase) (bounded : passphrase.length ≤ 127) (short : 67 + size.toNat ≤ 1024)
    (laterLinked : Linked tpm space later held blocks objects reader)
    (laterRoom : held + 256 ≤ space.units)
    (laterTyped : typedLines [authdataStrSize, authdataStrSize] objects.keys =
      some [ppAgain, srkAgain])
    (ppShort : ppAgain.length < authdataStrSize) (srkShort : srkAgain.length < authdataStrSize)
    (collisionFree : CollisionFree core next later
      (tpm.view (trustedBoot device index size reader).state.world).core ppLine srkLine ppAgain
      srkAgain) :
    GuardsPassphrase reader passphrase (SameSecrets core later ppLine srkLine ppAgain srkAgain)
      (trustedBoot device index size reader) := by
  -- `configure` was given the secret of the storage root key
  obtain ⟨check, member, known⟩ := done.known
  have srkAuth : authOf srkLine = core.srkAuth := collisionFree.sealing check member known
  have ppAuth : sealed.auth = authOf ppLine := done.auth srkAuth
  have laterSrkAuth : later.srkAuth = authOf srkLine := by
    rw [srkKept, done.kept, srkAuth]
  have holds := done.holds
  rw [← spacesKept] at holds
  rcases trustedBoot_unseals reliable follows laterLinked fresh laterTyped ppShort srkShort
    done.made done.length holds done.data clean bounded short
    laterRoom with ⟨shows, last, lastIdle, unlocked⟩ | ⟨refuses, locked⟩
  · refine ⟨fun _ => shows, fun different => (different ?_).elim⟩
    rw [lastIdle] at collisionFree
    obtain ⟨parent, parentMember, parentKnown⟩ := unlocked.parent
    obtain ⟨entity, entityMember, entityKnown⟩ := unlocked.data
    rw [ppAuth] at entityKnown
    refine ⟨pcrComposite_boot_inj (collisionFree.registers unlocked.registers),
      collisionFree.srkLines ?_, collisionFree.ppLines ?_⟩
    · rw [← laterSrkAuth]
      exact collisionFree.unsealing parent parentMember parentKnown
    · exact collisionFree.data entity entityMember entityKnown
  · refine ⟨fun same => (locked ?_).elim, fun _ => refuses⟩
    obtain ⟨⟨first, second⟩, srkSame, ppSame⟩ := same
    exact ⟨by rw [srkSame, laterSrkAuth], by rw [ppSame, ppAuth],
      compositeDigest_boot first second⟩

/-- After a successful `configure`, `trusted_boot` in a later boot shows exactly the passphrase
that was typed if the registers and the authorisation strings are the same, and otherwise shows
nothing but its prompts and returns an error, exactly if the strings leave room for their
terminators. -/
theorem trustedBoot_guards_iff (reliable : tpm.Reliable) (follows : tpm.Follows chip)
    (linked : Linked tpm area core used contents store m) (room : used + 256 ≤ area.units)
    (typed : typedLines [127, authdataStrSize, authdataStrSize] m.keys =
      some [passphrase, ppLine, srkLine])
    (whole : 322 ≤ size.toNat) (short : 67 + size.toNat ≤ 1024)
    (configures : configure device index size m = .ok (.ok ()) configured)
    (restarted : Restarted (tpm.view configured.world).core later)
    (laterLinked : Linked tpm space later held blocks objects reader)
    (laterRoom : held + 256 ≤ space.units)
    (laterTyped : typedLines [authdataStrSize, authdataStrSize] reader.keys =
      some [ppAgain, srkAgain])
    (collisionFree : CollisionFree core (tpm.view configured.world).core later
      (tpm.view (trustedBoot device index size reader).state.world).core ppLine srkLine ppAgain
      srkAgain) :
    GuardsPassphrase reader passphrase (SameSecrets core later ppLine srkLine ppAgain srkAgain)
        (trustedBoot device index size reader) ↔
      ∀ line ∈ [ppLine, srkLine, ppAgain, srkAgain], line.length < authdataStrSize := by
  have keys : m.keys = store.keys := congrArg Store.keys linked.store_eq
  have laterKeys : reader.keys = objects.keys := congrArg Store.keys laterLinked.store_eq
  rw [keys] at typed
  rw [laterKeys] at laterTyped
  obtain ⟨next, sealed, encData, idle, done⟩ :=
    configure_seals reliable follows linked typed room whole short configures
  obtain ⟨ppFirst, srkFirst⟩ := configure_short linked typed (by omega) configures
  obtain ⟨_, rest, _, line, -, same⟩ := typedLines_cons typed
  cases same
  rw [idle] at restarted collisionFree
  dsimp only [FifoView.idle] at restarted collisionFree
  have lines : (∀ line ∈ [ppLine, srkLine, ppAgain, srkAgain], line.length < authdataStrSize) ↔
      ppAgain.length < authdataStrSize ∧ srkAgain.length < authdataStrSize := by
    simp [ppFirst, srkFirst]
  rw [lines]
  constructor
  · intro guards
    by_contra full
    have holds := done.holds
    rw [← restarted.spaces] at holds
    obtain ⟨reached, overruns⟩ := trustedBoot_overruns reliable follows laterLinked laterTyped full
      (length_bootPcrInfoBytes core.pcrs) done.length holds short (by omega)
    rw [overruns] at guards
    exact not_guards_of_overrun reached guards
  · rintro ⟨ppShort, srkShort⟩
    exact done.guards reliable follows restarted.srkAuth restarted.spaces restarted.sessions
      (zero_notMem_typedLine line) (length_typedLine line) short laterLinked laterRoom laterTyped
      ppShort srkShort collisionFree

end EndToEnd

section Example

/-- The plain text in a blob of a TPM that does not encrypt it. -/
def plainWrap (sealed : SealedData) : List UInt8 :=
  sealed.auth.bytes ++ sealed.storedDigest.bytes ++ [UInt8.ofNat sealed.data.length] ++
    sealed.data ++ List.replicate (215 - sealed.data.length) 0

def plainUnwrap (encData : List UInt8) : SealedData :=
  ⟨Block.ofList 20 (encData.take 20), Block.ofList 20 ((encData.drop 20).take 20),
    (encData.drop 41).take ((encData.drop 40).headD 0).toNat⟩

theorem plainUnwrap_plainWrap {sealed : SealedData} (short : sealed.data.length ≤ 128) :
    plainUnwrap (plainWrap sealed) = sealed := by
  obtain ⟨auth, digest, data⟩ := sealed
  have bounded : data.length ≤ 128 := short
  have whole : plainWrap ⟨auth, digest, data⟩ = auth.bytes ++ (digest.bytes ++
      (UInt8.ofNat data.length :: (data ++ List.replicate (215 - data.length) 0))) := by
    simp [plainWrap]
  have second : (plainWrap ⟨auth, digest, data⟩).drop 20 = digest.bytes ++
      (UInt8.ofNat data.length :: (data ++ List.replicate (215 - data.length) 0)) := by
    rw [whole, List.drop_left' auth.length_eq]
  have third : (plainWrap ⟨auth, digest, data⟩).drop 40 =
      UInt8.ofNat data.length :: (data ++ List.replicate (215 - data.length) 0) := by
    rw [← List.drop_drop (i := 20) (j := 20), second, List.drop_left' digest.length_eq]
  have last : (plainWrap ⟨auth, digest, data⟩).drop 41 =
      data ++ List.replicate (215 - data.length) 0 := by
    rw [← List.drop_drop (i := 1) (j := 40), third]
    rfl
  have count : (UInt8.ofNat data.length).toNat = data.length :=
    UInt8.toNat_ofNat_of_lt' (by simp only [UInt8.size]; omega)
  rw [plainUnwrap, second, third, last, whole, List.take_left' auth.length_eq,
    List.take_left' digest.length_eq, Block.ofList_bytes, Block.ofList_bytes, List.headD_cons,
    count, List.take_left' rfl]

/-- A TPM with three session handles whose random numbers are zeros. -/
def plainChip : SealingChip where
  random := fun _ => Block.zero 20
  freeHandle := fun sessions =>
    if (sessions 1).isNone then some 1 else if (sessions 2).isNone then some 2 else none
  wrap := fun _ sealed => if sealed.data.length ≤ 128 then some (plainWrap sealed) else none
  unwrap := fun encData => some (plainUnwrap encData)
  freeHandle_free := by
    intro sessions handle found
    split at found
    · cases found
      simpa using ‹(sessions 1).isNone›
    · split at found
      · cases found
        simpa using ‹(sessions 2).isNone›
      · cases found
  freeHandle_second := by
    intro sessions first others
    split
    · rfl
    · rename_i taken
      have second : sessions 2 = none := by
        refine others 2 fun same => taken ?_
        rw [others 1 (by rw [← same]; decide)]
        rfl
      rw [second]
      rfl
  length_wrap := by
    intro seed sealed encData wrapped
    split at wrapped
    · cases wrapped
      simp [plainWrap]
      omega
    · cases wrapped
  length_unwrap := by
    intro encData sealed unwrapped
    cases unwrapped
    have byte := ((encData.drop 40).headD 0).toNat_lt
    simp only [plainUnwrap, List.length_take]
    omega
  unwrap_wrap := by
    intro seed sealed encData wrapped
    split at wrapped
    · rename_i short
      cases wrapped
      rw [plainUnwrap_plainWrap short]
    · cases wrapped

/-- The TPM has no passwords and one area of 400 bytes at every index. -/
def plainState : SealingState where
  srkAuth := Block.zero 20
  pcrs := fun _ => Block.zero 20
  spaces := fun _ => ⟨Block.zero 20, List.replicate 400 0, by
    rw [List.length_replicate]
    decide⟩
  drawn := 0
  sessions := fun _ => none
  srkChecks := []
  dataChecks := []

/-- A machine with 512 units of heap, all of them free, and some keys that will be pressed. -/
def plainMachine (core : SealingState) (keys : List UInt8) : Machine (FifoView SealingState) :=
  { Machine.blank (FifoView.idle core) with
    mem := MemNode.store (fun _ => 0) 8 ⟨511, 0⟩
    keys := keys }

theorem plainMachine_linked (core : SealingState) (keys : List UInt8) :
    Linked (sealingTpm plainChip) startedArea core 0 (fun _ => none)
      (plainMachine core keys).store (plainMachine core keys) := by
  have fresh : initHeap 8 4096 (fun _ => 0) = .ok () (plainMachine core keys).mem := by
    have size : (4096 : UInt32) >>> 3 - 1 = 511 := by decide
    rw [initHeap, if_neg (by decide), if_neg (by decide), Prog.modify_apply, size]
    rfl
  have nonempty : 0 < startedArea.units := by decide
  exact ⟨rfl, rfl, rfl, Tracks.init nonempty fresh, rfl⟩

/-- The keys for the passphrase `go` and empty authorisation strings. -/
def plainKeys : List UInt8 :=
  [0, 0x67, 0x6F, 0x0D, 0, 0x0D, 0, 0x0D, 0, 0x0D]

/-- The TPM after a restart with the same registers. -/
def restartedState (core : SealingState) : SealingState :=
  { core with
    pcrs := plainState.pcrs
    sessions := fun _ => none
    srkChecks := []
    dataChecks := [] }

theorem plainChip_wraps (seed : Block 20) (sealed : SealedData) (short : sealed.data.length ≤ 128) :
    (plainChip.wrap seed sealed).isSome := by
  simp only [plainChip, if_pos short, Option.isSome_some]

theorem goLines_typed : typedLines [127, authdataStrSize, authdataStrSize, authdataStrSize]
    plainKeys = some [[0x67, 0x6F], [], [], []] := by
  decide

theorem plainState_inside : (400 : UInt32).toNat ≤ (plainState.spaces 1).bytes.length := by
  rw [plainState, List.length_replicate]
  decide

/-- The passphrase `go` is stored. -/
theorem plain_configures : ∃ configured next sealed encData,
    configure (steadyDevice (sealingExec plainChip)) 1 400 (plainMachine plainState plainKeys) =
      .ok (.ok ()) configured ∧
    configured.world = FifoView.idle next ∧
    Configured plainChip plainState next 1 400 [0x67, 0x6F] [] [] sealed encData := by
  have reliable := sealingTpm_reliable plainChip
  have follows := sealingTpm_follows plainChip
  have linked := plainMachine_linked plainState plainKeys
  obtain ⟨configured, configures⟩ := configure_succeeds reliable follows linked goLines_typed
    (by decide) (by decide) (by decide) rfl plainChip_wraps rfl rfl plainState_inside
  obtain ⟨next, sealed, encData, idle, done⟩ := configure_seals reliable follows linked
    (typedLines_take goLines_typed 3) (by decide) (by decide) (by decide) configures
  exact ⟨configured, next, sealed, encData, configures, idle, done⟩

/-- The passphrase `go` is shown in the next boot. -/
theorem trustedBoot_guards_go :
    ∃ configured,
      configure (steadyDevice (sealingExec plainChip)) 1 400 (plainMachine plainState plainKeys) =
        .ok (.ok ()) configured ∧
      ShowsPassphrase (plainMachine (restartedState configured.world.core) [0, 0x0D, 0, 0x0D])
        [0x67, 0x6F] (trustedBoot (steadyDevice (sealingExec plainChip)) 1 400
          (plainMachine (restartedState configured.world.core) [0, 0x0D, 0, 0x0D])) := by
  obtain ⟨configured, next, sealed, encData, configures, world, done⟩ := plain_configures
  have kept : authOf [] = configured.world.core.srkAuth := by
    rw [world]
    exact done.kept.symm
  let later := plainMachine (restartedState configured.world.core) [0, 0x0D, 0, 0x0D]
  have restarted : Restarted configured.world.core (restartedState configured.world.core) :=
    ⟨rfl, rfl, rfl, rfl, rfl⟩
  have laterLinked := plainMachine_linked (restartedState configured.world.core) [0, 0x0D, 0, 0x0D]
  have again : typedLines [authdataStrSize, authdataStrSize] later.keys = some [[], []] := by
    have keys : later.keys = [0, 0x0D, 0, 0x0D] := rfl
    rw [keys]
    decide
  have room : 0 + 256 ≤ startedArea.units := by decide
  have guards := (trustedBoot_guards_iff (sealingTpm_reliable plainChip)
    (sealingTpm_follows plainChip) (plainMachine_linked plainState plainKeys) room
    (typedLines_take goLines_typed 3) (by decide) (by decide) configures restarted laterLinked room
    again ⟨fun _ _ _ => rfl, fun _ _ _ => kept, fun _ _ _ => rfl, fun _ => rfl, fun _ => rfl,
      fun _ => rfl⟩).mpr (by decide)
  exact ⟨configured, configures, guards.1 ⟨⟨rfl, rfl⟩, rfl, rfl⟩⟩

/-- The keys for an authorisation string of 64 letters, and for an empty one. -/
def longKeys : List UInt8 :=
  0 :: List.replicate 64 0x61 ++ [0, 0x0D]

/-- In the next boot 64 letters are typed for the first string. -/
theorem trustedBoot_leaves_buffer :
    ∃ configured,
      configure (steadyDevice (sealingExec plainChip)) 1 400 (plainMachine plainState plainKeys) =
        .ok (.ok ()) configured ∧
      ¬ GuardsPassphrase (plainMachine (restartedState configured.world.core) longKeys)
        [0x67, 0x6F] (SameSecrets plainState (restartedState configured.world.core) [] []
          (List.replicate 64 0x61) [])
        (trustedBoot (steadyDevice (sealingExec plainChip)) 1 400
          (plainMachine (restartedState configured.world.core) longKeys)) := by
  obtain ⟨configured, next, sealed, encData, configures, world, done⟩ := plain_configures
  have typed : typedLines [authdataStrSize, authdataStrSize] longKeys =
      some [List.replicate 64 0x61, []] := by
    decide
  have spaces : (restartedState configured.world.core).spaces = next.spaces := by
    rw [world]
    rfl
  have holds := done.holds
  rw [← spaces] at holds
  have room : 0 + 163 ≤ startedArea.units := by decide
  obtain ⟨reached, overruns⟩ := trustedBoot_overruns (sealingTpm_reliable plainChip)
    (sealingTpm_follows plainChip)
    (plainMachine_linked (restartedState configured.world.core) longKeys) typed (by decide)
    (length_bootPcrInfoBytes plainState.pcrs) done.length holds (by decide) room
  refine ⟨configured, configures, ?_⟩
  rw [overruns]
  exact not_guards_of_overrun reached

end Example

end Sable
