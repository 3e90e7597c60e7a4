import Sable.SealingRuns

/-!
# Sealing a passphrase and unsealing it

`configure` seals the passphrase that is typed under the storage root key, to the
present values of the registers 18 and 19, and writes the blob to an NV area.  A
later `trusted_boot` shows it again exactly if the registers have these values
and the same authorisation strings are typed.
-/

namespace Sable

open ByteMemory BigEndian HaltingProgram

section Secrets

/-- The shared secret of a session. -/
theorem sharedSecretGen_eq (auth nonceEvenOSAP nonceOddOSAP : Block 20) :
    sharedSecretGen auth nonceEvenOSAP nonceOddOSAP =
      SecureHash.hmac auth.bytes (nonceEvenOSAP.bytes ++ nonceOddOSAP.bytes) := by
  obtain ⟨started, init, start⟩ := hmacInit_absorbed default
    (by simp : auth.bytes.length < 2 ^ 29)
  obtain ⟨once, first, one⟩ := HmacCall.run_absorbed (.hmac nonceEvenOSAP.bytes) start
    (by simp [HmacCall.data])
  obtain ⟨twice, second, two⟩ := HmacCall.run_absorbed (.hmac nonceOddOSAP.bytes) one
    (by simp [HmacCall.data])
  obtain ⟨finished, finish, digest⟩ := two.finish (by simp [HmacCall.data])
  rw [HmacCall.run] at first second
  rw [sharedSecretGen, init, Result.value_ok, first, Result.value_ok, second, Result.value_ok,
    finish, Result.value_ok, digest]
  rfl

/-- The pad that encrypts a secret is the digest of the shared secret and an even nonce. -/
theorem encAuthGen_eq (entityAuth sharedSecret nonceEven : Block 20) :
    encAuthGen entityAuth sharedSecret nonceEven =
      Block.xor entityAuth (SecureHash.sha1 (sharedSecret.bytes ++ nonceEven.bytes)) := by
  have start := Absorbed.init default
  have first := start.sha1_eq (by simp : [].length + sharedSecret.bytes.length < 2 ^ 29)
  have once := start.absorb sharedSecret.bytes
  rw [List.nil_append] at once
  have second := once.sha1_eq
    (by simp : sharedSecret.bytes.length + nonceEven.bytes.length < 2 ^ 29)
  have digest := (once.absorb nonceEven.bytes).finish (by simp)
  rw [encAuthGen]
  simp only [first, second, Result.value_ok, digest]

end Secrets

section Requests

/-- The sizes of the requests that seal some data and that ask for them. -/
theorem sealRequestOf_wellFormed {encAuth : Block 20} {info data : List UInt8}
    {trailer : TpmWire.RequestTrailer} (short : 87 + info.length + data.length ≤ 1024) :
    (sealRequestOf encAuth info data trailer).WellFormed := by
  have size : (sealRequestOf encAuth info data trailer).size = 87 + info.length + data.length := by
    simp [sealRequestOf, TpmWire.Request.size]
    omega
  exact ⟨rfl, rfl, by omega⟩

variable {σ : Type}

/-- The trailer of a request is made with the secret that is checked. -/
theorem requestTrailer_auth (request : TpmWire.Request) (session : OpenSession)
    (object : TpmSession) (even : object.nonceEven = session.nonceEven) (auth : Block 20) :
    (requestTrailer (session.secret auth) request.digest object).auth =
      (checkOf request session (requestTrailer (session.secret auth) request.digest object)).mac
        auth := by
  rw [requestTrailer, KeyedCheck.mac, checkOf, TpmWire.RequestTrailer.message, even]

/-- The bytes of the registers' description. -/
def bootPcrInfoBytes (pcrs : Nat → Block 20) : List UInt8 :=
  be16 tagPcrInfoLong ++ [locTwo] ++ [locTwo] ++ bootSelection ++ bootSelection ++
    (compositeDigest pcrs bootSelection).bytes ++ (compositeDigest pcrs bootSelection).bytes

theorem length_bootPcrInfoBytes (pcrs : Nat → Block 20) :
    (bootPcrInfoBytes pcrs).length = 54 := by
  simp [bootPcrInfoBytes, bootSelection]

theorem pcrInfoLongBytes_boot {m : Machine σ} {select : UInt32} {pcrs : Nat → Block 20}
    (selected : read m.mem select.toNat 3 = [0x00, 0x00, 0x0c]) :
    pcrInfoLongBytes m (bootPcrInfo select pcrs) = bootPcrInfoBytes pcrs := by
  have three : (3 : UInt16).toNat = 3 := rfl
  simp only [pcrInfoLongBytes, pcrSelectionBytes, bootPcrInfo, bootPcrInfoBytes, bootSelection,
    three, selected]

/-- The fields of the registers' description. -/
theorem ofBytes_bootPcrInfoBytes (pcrs : Nat → Block 20) :
    PcrInfoFields.ofBytes (bootPcrInfoBytes pcrs) =
      ⟨be16 tagPcrInfoLong ++ [locTwo] ++ [locTwo], bootSelection, bootSelection,
        (compositeDigest pcrs bootSelection).bytes⟩ := by
  have digest := (compositeDigest pcrs bootSelection).length_eq
  have front : (be16 tagPcrInfoLong ++ [locTwo] ++ [locTwo]).length = 4 := rfl
  have selection : bootSelection.length = 5 := rfl
  have whole : bootPcrInfoBytes pcrs = (be16 tagPcrInfoLong ++ [locTwo] ++ [locTwo]) ++
      (bootSelection ++ (bootSelection ++ ((compositeDigest pcrs bootSelection).bytes ++
        (compositeDigest pcrs bootSelection).bytes))) := by
    simp only [bootPcrInfoBytes, List.append_assoc]
  have behind : (bootPcrInfoBytes pcrs).drop 4 = bootSelection ++ (bootSelection ++
      ((compositeDigest pcrs bootSelection).bytes ++
        (compositeDigest pcrs bootSelection).bytes)) := by
    rw [whole, List.drop_left' front]
  have release : (bootPcrInfoBytes pcrs).drop 9 = bootSelection ++
      ((compositeDigest pcrs bootSelection).bytes ++
        (compositeDigest pcrs bootSelection).bytes) := by
    rw [← List.drop_drop (i := 5) (j := 4), behind, List.drop_left' selection]
  have digests : (bootPcrInfoBytes pcrs).drop 34 = (compositeDigest pcrs bootSelection).bytes := by
    rw [← List.drop_drop (i := 25) (j := 9), release, ← List.drop_drop (i := 20) (j := 5),
      List.drop_left' selection, List.drop_left' digest]
  rw [PcrInfoFields.ofBytes, behind, release, digests, whole, List.take_left' front,
    List.take_left' selection, List.take_left' selection, List.take_of_length_le digest.le]

/-- The TPM puts the present values into a blob that are the values for the release. -/
theorem sealInfoOf_boot (pcrs : Nat → Block 20) :
    sealInfoOf pcrs (bootPcrInfoBytes pcrs) = bootPcrInfoBytes pcrs := by
  rw [sealInfoOf, ofBytes_bootPcrInfoBytes]
  simp only [bootPcrInfoBytes]

/-- The request that seals a passphrase. -/
theorem request_sealData {m : Machine σ} {select passphrase size : UInt32}
    (pcrs : Nat → Block 20) {data : List UInt8}
    (selected : read m.mem select.toNat 3 = [0x00, 0x00, 0x0c])
    (content : read m.mem passphrase.toNat size.toNat = data) (encAuth secret : Block 20) :
    ∃ trailer : TpmWire.RequestTrailer,
      (AuthorisedCommand.sealData khSRK encAuth (bootPcrInfo select pcrs) passphrase size .zero
        secret).request m = sealRequestOf encAuth (bootPcrInfoBytes pcrs) data trailer ∧
      trailer = requestTrailer secret
        (sealRequestOf encAuth (bootPcrInfoBytes pcrs) data trailer).digest
        (m.sessionAt (m.sessions .zero)) := by
  have length := length_bootPcrInfoBytes pcrs
  have count : UInt32.ofNat data.length = size := by
    rw [← content, length_read, UInt32.ofNat_toNat]
  have params : sealParams m encAuth (bootPcrInfo select pcrs) passphrase size =
      encAuth.bytes ++ be32 (UInt32.ofNat (bootPcrInfoBytes pcrs).length) ++
        bootPcrInfoBytes pcrs ++ be32 (UInt32.ofNat data.length) ++ data := by
    rw [sealParams, pcrInfoLongBytes_boot selected, content, count, length]
    rfl
  refine ⟨requestTrailer secret (SecureHash.sha1 (be32 ordSeal ++ (encAuth.bytes ++
    be32 (UInt32.ofNat (bootPcrInfoBytes pcrs).length) ++ bootPcrInfoBytes pcrs ++
      be32 (UInt32.ofNat data.length) ++ data))) (m.sessionAt (m.sessions .zero)), ?_, rfl⟩
  rw [AuthorisedCommand.request, authorisedRequest, params]
  rfl

end Requests

section Sealing

variable {σ : Type} {device : TisDevice σ} {mmap : UInt32}
  {tpm : FifoTpm device mmap SealingState} {chip : SealingChip} {area : HeapArea}
  {core : SealingState} {used : Nat} {contents : UInt32 → Option (List UInt8)}
  {store : Store} {m reached : Machine σ}

/-- The TPM has drawn random numbers and opened sessions at most. -/
structure Undisturbed (before after : SealingState) : Prop where
  srkAuth : after.srkAuth = before.srkAuth
  pcrs : after.pcrs = before.pcrs
  spaces : after.spaces = before.spaces
  srkChecks : after.srkChecks = before.srkChecks
  dataChecks : after.dataChecks = before.dataChecks

theorem sessionSecret_shares (linked : Linked tpm area core used contents store m)
    {sessions : UInt32 → Option OpenSession} {session : OpenSession}
    {nonceEvenOSAP nonceOddOSAP : Block 20}
    (inSession : InSession sessions contents store .zero session)
    (shares : Shares store .zero ⟨nonceEvenOSAP, nonceOddOSAP⟩)
    (shared : session.sharedNonces = some (nonceEvenOSAP.bytes ++ nonceOddOSAP.bytes))
    (auth : Block 20) : sessionSecret auth m = .ok (session.secret auth) m := by
  have nonNull := inSession.nonNull linked
  have objects := linked.store_eq
  subst objects
  have filled : m.sessions .zero ≠ 0 := nonNull
  have extended : (m.sessionAt (m.sessions .zero)).osap ≠ 0 := shares.nonNull
  have slot : getSlot .zero m = .ok (m.sessions .zero) m := rfl
  have extension : m.osapAt (m.sessionAt (m.sessions .zero)).osap =
      ⟨nonceEvenOSAP, nonceOddOSAP⟩ := shares.extension
  have load : loadOsap (m.sessionAt (m.sessions .zero)).osap m =
      .ok ⟨nonceEvenOSAP, nonceOddOSAP⟩ m := by
    rw [loadOsap, if_neg extended, Prog.bind_get, extension, Prog.pure_apply]
  rw [sessionSecret, Prog.bind_ok slot, Prog.bind_ok (loadSession_eq filled m),
    Prog.bind_ok load, OpenSession.secret, shared, sharedSecretGen_eq, Prog.pure_apply]

/-- The state in which `seal_passphrase` calls `TPM_Seal`. -/
structure SealPrepared (core next : SealingState) (contents blocks : UInt32 → Option (List UInt8))
    (after : Store) (session : OpenSession) : Prop where
  undisturbed : Undisturbed core next
  shared : session.sharedNonces.isSome
  keeps : Keeps contents blocks
  inSession : InSession next.sessions blocks after .zero session
  ends : (after.objects (after.slots .zero)).continueAuthSession = 0
  others : ∀ other, other ≠ (after.objects (after.slots .zero)).authHandle →
    next.sessions other = core.sessions other

theorem sealPassphrase_prepares (reliable : tpm.Reliable) (follows : tpm.Follows chip)
    (linked : Linked tpm area core used contents store m) {handle : UInt32}
    (free : chip.freeHandle core.sessions = some handle) (room : used + 24 ≤ area.units)
    (srkAuth ppAuth : Block 20) (passphrase lenPassphrase : UInt32) :
    ∃ session select next blocks after prepared,
      sealPassphrase device srkAuth ppAuth passphrase lenPassphrase m =
        tpmSeal device khSRK
          (encAuthGen ppAuth (session.secret srkAuth) session.nonceEven)
          (bootPcrInfo select core.pcrs) passphrase lenPassphrase .zero
          (session.secret srkAuth) prepared ∧
      blocks select = some [0x00, 0x00, 0x0c] ∧
      SealPrepared core next contents blocks after session ∧ after.keys = store.keys ∧
      Linked tpm area next (used + 24) blocks after prepared := by
  let session : OpenSession := ⟨chip.random (core.drawn + 1),
    some ((chip.random (core.drawn + 1 + 1)).bytes ++ (chip.random core.drawn).bytes)⟩
  let opened : SealingState := { core with
    drawn := core.drawn + 1 + 2 + 1
    sessions := Function.update core.sessions handle (some session) }
  obtain ⟨first, drawFirst, -, firstLinked⟩ := getNonce_draws reliable follows linked
  obtain ⟨blocks, after, second, opens, keeps, secondLinked, inSession, shares, handleEq,
    keys⟩ := tpmOSAP_shares reliable follows firstLinked .zero (chip.random core.drawn) free
      (by omega)
  obtain ⟨third, drawSecond, -, thirdLinked⟩ := getNonce_draws reliable follows secondLinked
  have nonNull := inSession.nonNull thirdLinked
  obtain ⟨fourth, fifth, sets, ends, fifthLinked⟩ :=
    ready_runs .zero (chip.random (core.drawn + 1 + 2)) thirdLinked nonNull
  have inSession := inSession.ready .zero (chip.random (core.drawn + 1 + 2))
  have shares := shares.ready .zero (chip.random (core.drawn + 1 + 2))
  have secret := sessionSecret_shares fifthLinked inSession shares rfl srkAuth
  obtain ⟨select, more, sixth, describes, keepsNext, selected, sixthLinked⟩ :=
    getPcrInfo_linked reliable follows fifthLinked (by omega)
  have slot : getSlot .zero fifth = .ok (fifth.sessions .zero) fifth := rfl
  have objects := fifthLinked.store_eq
  have pointer : fifth.sessions .zero = after.slots .zero := by
    have same := congrArg (fun store : Store => store.slots .zero) objects
    exact same
  have even : (fifth.sessionAt (fifth.sessions .zero)).nonceEven =
      chip.random (core.drawn + 1) := by
    have same := inSession.nonceEven
    rw [← objects] at same
    exact same
  have load := loadSession_eq (pointer ▸ nonNull) fifth
  refine ⟨session, select, opened, more, _, sixth, ?_, selected,
    ⟨⟨rfl, rfl, rfl, rfl, rfl⟩, rfl, keeps.trans keepsNext, inSession.keeps keepsNext, ?_, ?_⟩,
    keys, sixthLinked⟩
  · rw [sealPassphrase, Prog.bind_ok drawFirst, if_neg (by simp), Result.value_ok,
      Prog.bind_ok opens, if_neg (by simp), Prog.bind_ok drawSecond, if_neg (by simp),
      Result.value_ok, Prog.bind_ok sets, Prog.bind_ok ends, Prog.bind_ok secret,
      Prog.bind_ok slot, Prog.bind_ok load, even, Prog.bind_ok describes, if_neg (by simp)]
    rfl
  · exact after.ready_continues ..
  · intro other different
    obtain ⟨same, -, -⟩ :=
      after.ready_objects .zero (chip.random (core.drawn + 1 + 2)) (after.slots .zero)
    have apart : other ≠ handle := fun here => different (by
      rw [here, ← handleEq]
      exact same.symm)
    simp only [opened, Function.update_of_ne apart]

/-- The strings of a blob, in tracked blocks. -/
structure BlobTracked (contents : UInt32 → Option (List UInt8)) (sealInfo encData : List UInt8)
    (blob : TpmStoredData12) : Prop where
  tag : blob.tag = 0x16
  et : blob.et = 0
  sealInfoSize : blob.sealInfoSize.toNat = sealInfo.length
  encDataSize : blob.encDataSize.toNat = encData.length
  sealInfo : contents blob.sealInfo = some sealInfo
  encData : contents blob.encData = some encData

section Blobs

variable {blocks : UInt32 → Option (List UInt8)} {blob : TpmStoredData12}
  {sealInfo encData : List UInt8}

theorem BlobTracked.keeps (tracked : BlobTracked contents sealInfo encData blob)
    (keeps : Keeps contents blocks) : BlobTracked blocks sealInfo encData blob :=
  ⟨tracked.tag, tracked.et, tracked.sealInfoSize, tracked.encDataSize,
    keeps _ _ tracked.sealInfo, keeps _ _ tracked.encData⟩

/-- The serialised form of a blob. -/
theorem BlobTracked.bytes_eq (blobTracked : BlobTracked contents sealInfo encData blob)
    (tracks : Tracks area used contents m.mem) :
    storedData12Bytes m blob = blobFields 0x16 0 sealInfo encData := by
  have info := tracks.read_eq blobTracked.sealInfo
  have enc := tracks.read_eq blobTracked.encData
  have sealSize : UInt32.ofNat sealInfo.length = blob.sealInfoSize := by
    rw [← blobTracked.sealInfoSize, UInt32.ofNat_toNat]
  have encSize : UInt32.ofNat encData.length = blob.encDataSize := by
    rw [← blobTracked.encDataSize, UInt32.ofNat_toNat]
  rw [storedData12Bytes, blobFields, blobTracked.sealInfoSize, blobTracked.encDataSize, info, enc,
    blobTracked.tag, blobTracked.et, sealSize, encSize]

theorem BlobTracked.stored (blobTracked : BlobTracked contents sealInfo encData blob)
    (tracks : Tracks area used contents m.mem) (sealPositive : 0 < sealInfo.length)
    (encPositive : 0 < encData.length) (small : 12 + sealInfo.length + encData.length ≤ 1024) :
    BlobStored area used contents blob m.mem := by
  have sealSize := blobTracked.sealInfoSize
  have encSize := blobTracked.encDataSize
  refine ⟨tracks, ⟨sealInfo, blobTracked.sealInfo, sealSize.symm⟩,
    ⟨encData, blobTracked.encData, encSize.symm⟩, ?_, ?_, by omega⟩
  · rw [UInt32.lt_iff_toNat_lt, sealSize]
    exact sealPositive
  · rw [UInt32.lt_iff_toNat_lt, encSize]
    exact encPositive

end Blobs

/-- What the TPM remembers when it has sealed some data for a caller with the secret
`srkAuth`. -/
structure SealDone (core next : SealingState) (srkAuth : Block 20) : Prop where
  kept : next.srkAuth = core.srkAuth
  spaces : next.spaces = core.spaces
  known : ∃ check : KeyedCheck, check.mac srkAuth = check.mac core.srkAuth ∧
    next.srkChecks = core.srkChecks ++ [check]
  closed : ∀ other, core.sessions other = none → next.sessions other = none

/-- The caller of `TPM_Seal` has a session, and its data and the selection of the registers
are in tracked blocks. -/
structure Sealable (core : SealingState) (contents : UInt32 → Option (List UInt8))
    (store : Store) (session : OpenSession) (select passphrase size : UInt32)
    (data : List UInt8) : Prop where
  inSession : InSession core.sessions contents store .zero session
  ends : (store.objects (store.slots .zero)).continueAuthSession = 0
  selected : contents select = some [0x00, 0x00, 0x0c]
  content : ∃ bytes, contents passphrase = some bytes ∧ size.toNat ≤ bytes.length ∧
    bytes.take size.toNat = data
  short : size.toNat ≤ 128

/-- The request of `seal_passphrase`. -/
structure SealAsked (core : SealingState) (m : Machine σ) (session : OpenSession)
    (command : AuthorisedCommand TpmStoredData12) (encAuth srkAuth : Block 20)
    (data : List UInt8) (trailer : TpmWire.RequestTrailer) : Prop where
  fits : command.frameSize ≤ 1024
  pointers : ∀ ptr ∈ command.pointers m, ptr ≠ 0
  request : command.request m = sealRequestOf encAuth (bootPcrInfoBytes core.pcrs) data trailer
  wellFormed : (sealRequestOf encAuth (bootPcrInfoBytes core.pcrs) data trailer).WellFormed
  handle : trailer.handle = (m.sessionAt (m.sessions .zero)).authHandle
  found : core.sessions trailer.handle = some session
  nonceOdd : trailer.nonceOdd = (m.sessionAt (m.sessions .zero)).nonceOdd
  continues : trailer.continueAuthSession = 0
  auth : trailer.auth = (checkOf (sealRequestOf encAuth (bootPcrInfoBytes core.pcrs) data trailer)
    session trailer).mac srkAuth

section Asking

variable {session : OpenSession} {select passphrase size : UInt32} {data : List UInt8}

theorem Sealable.asks (linked : Linked tpm area core used contents store m)
    (sealable : Sealable core contents store session select passphrase size data)
    (encAuth srkAuth : Block 20) :
    ∃ trailer, SealAsked core m session (.sealData khSRK encAuth (bootPcrInfo select core.pcrs)
      passphrase size .zero (session.secret srkAuth)) encAuth srkAuth data trailer := by
  obtain ⟨bytes, tracked, inside, content⟩ := sealable.content
  have short := sealable.short
  have length := length_bootPcrInfoBytes core.pcrs
  have count : data.length = size.toNat := by rw [← content, List.length_take_of_le inside]
  have selectRead := linked.tracks.read_eq sealable.selected
  have dataRead : read m.mem passphrase.toNat size.toNat = data := by
    rw [← take_read _ _ _ _ inside, linked.tracks.read_eq tracked, content]
  obtain ⟨trailer, request, made⟩ := request_sealData core.pcrs selectRead dataRead encAuth
    (session.secret srkAuth)
  have objects := linked.store_eq
  subst objects
  have nonNull : m.sessions .zero ≠ 0 := sealable.inSession.nonNull linked
  have auth := requestTrailer_auth
    (sealRequestOf encAuth (bootPcrInfoBytes core.pcrs) data trailer) session
    (m.sessionAt (m.sessions .zero)) sealable.inSession.nonceEven srkAuth
  rw [← made] at auth
  refine ⟨trailer, ?_, ?_, request, sealRequestOf_wellFormed (by omega), by rw [made]; rfl, ?_,
    by rw [made]; rfl, ?_, auth⟩
  · have info : (sizeofPcrInfoLong (bootPcrInfo select core.pcrs)).toNat = 54 := rfl
    simp only [AuthorisedCommand.frameSize]
    omega
  · simp [AuthorisedCommand.pointers, bootPcrInfo, nonNull,
      linked.tracks.nonNull sealable.selected, linked.tracks.nonNull tracked]
  · rw [made]
    exact sealable.inSession.found
  · rw [made]
    exact sealable.ends

/-- A blob that the TPM makes.  Its caller accepts it if he knows the secret of the storage
root key. -/
theorem tpmSeal_sealed (reliable : tpm.Reliable) (follows : tpm.Follows chip)
    (linked : Linked tpm area core used contents store m) {encAuth srkAuth : Block 20}
    {trailer : TpmWire.RequestTrailer} {encData : List UInt8}
    (asked : SealAsked core m session (.sealData khSRK encAuth (bootPcrInfo select core.pcrs)
      passphrase size .zero (session.secret srkAuth)) encAuth srkAuth data trailer)
    (seals : core.Seals chip session encAuth (bootPcrInfoBytes core.pcrs) data trailer encData)
    (room : used + 42 ≤ area.units) :
    ∃ ret next blocks after sealed,
      tpmSeal device khSRK encAuth (bootPcrInfo select core.pcrs) passphrase size .zero
        (session.secret srkAuth) m = .ok ret sealed ∧
      (srkAuth = core.srkAuth → ret.exception = .none) ∧ encData.length = 256 ∧
      chip.Made (bootPcrInfoBytes core.pcrs) encData
        (core.sealing session encAuth (bootPcrInfoBytes core.pcrs) data) ∧
      SealDone core next srkAuth ∧ next.sessions trailer.handle = none ∧
      BlobTracked blocks (bootPcrInfoBytes core.pcrs) encData ret.value ∧
      after.keys = store.keys ∧ Linked tpm area next (used + 42) blocks after sealed := by
  let pcrs := bootPcrInfoBytes core.pcrs
  have length : pcrs.length = 54 := length_bootPcrInfoBytes core.pcrs
  have answer := follows core _ asked.wellFormed
  rw [answer_seal, answerSeal_eq length asked.found seals] at answer
  have encLength := chip.length_wrap _ _ _ seals.wraps
  have grants : (tpm.exec core ((AuthorisedCommand.sealData khSRK encAuth
      (bootPcrInfo select core.pcrs) passphrase size .zero (session.secret srkAuth)).request
        m).encode).1 =
      (TpmWire.Response.granted tagRspAuth1Command ordSeal (blobFields 0x16 0 pcrs encData)
        [⟨session.secret core.srkAuth, chip.random (core.drawn + 1),
          (m.sessionAt (m.sessions .zero)).nonceOdd, 0⟩]).encode := by
    rw [asked.request, answer, sealInfoOf_boot, asked.nonceOdd, asked.continues]
  obtain ⟨ret, sealed, after, run, words, infoSize, encSize, different, tracksNext, keys,
    accepted⟩ := tpmSeal_answered reliable linked asked.fits asked.pointers (by omega) (by omega)
      (by omega) (by omega) grants
  rw [asked.request, answer, length, encLength] at tracksNext
  have closed : ({ core.checkedFor (sealRequestOf encAuth pcrs data trailer) session trailer with
      drawn := core.drawn + 2 }.roll trailer session
        (chip.random (core.drawn + 1))).sessions trailer.handle = none := by
    simp only [SealingState.roll, Function.update_self, asked.continues, if_true]
  refine ⟨ret, _, _, after, sealed, run, fun same => accepted (by rw [same]), encLength, ?_, ?_,
    closed, ?_, keys, tracksNext⟩
  · refine ⟨length.trans_lt (by decide), chip.unwrap_wrap _ _ _ seals.wraps, ?_⟩
    rw [SealingState.sealing, sealInfoOf_boot]
  · refine ⟨rfl, rfl, ⟨checkOf (sealRequestOf encAuth pcrs data trailer) session trailer,
      asked.auth.symm.trans seals.auth, rfl⟩, fun other free => ?_⟩
    by_cases here : other = trailer.handle
    · rw [here]
      exact closed
    · simp only [SealingState.roll, Function.update_of_ne here, SealingState.checkedFor, free]
  · refine ⟨words.1, words.2, infoSize, encSize, ?_, Function.update_self ..⟩
    exact (Function.update_of_ne different.symm ..).trans (Function.update_self ..)

/-- The blob that `seal_passphrase` returns. -/
theorem tpmSeal_seals (reliable : tpm.Reliable) (follows : tpm.Follows chip)
    (linked : Linked tpm area core used contents store m)
    (sealable : Sealable core contents store session select passphrase size data)
    (room : used + 42 ≤ area.units) {encAuth srkAuth : Block 20} {blob : TpmStoredData12}
    (run : tpmSeal device khSRK encAuth (bootPcrInfo select core.pcrs) passphrase size .zero
      (session.secret srkAuth) m = .ok (.ok blob) reached) :
    ∃ encData next blocks after, encData.length = 256 ∧
      chip.Made (bootPcrInfoBytes core.pcrs) encData
        (core.sealing session encAuth (bootPcrInfoBytes core.pcrs) data) ∧
      SealDone core next srkAuth ∧
      next.sessions (store.objects (store.slots .zero)).authHandle = none ∧
      BlobTracked blocks (bootPcrInfoBytes core.pcrs) encData blob ∧
      after.keys = store.keys ∧ Linked tpm area next (used + 42) blocks after reached := by
  obtain ⟨trailer, asked⟩ := sealable.asks linked encAuth srkAuth
  have granted := tpmSeal_result reliable linked asked.fits asked.pointers run
  rw [asked.request, follows core _ asked.wellFormed, resultOf_encode, answer_seal] at granted
  obtain ⟨encData, seals⟩ :=
    answerSeal_seals (length_bootPcrInfoBytes core.pcrs) asked.found granted
  obtain ⟨ret, next, blocks, after, sealed, runs, -, encLength, made, done, closed, blobTracked,
    keys, sealedLinked⟩ := tpmSeal_sealed reliable follows linked asked seals room
  rw [run] at runs
  cases runs
  have handle : (store.objects (store.slots .zero)).authHandle = trailer.handle := by
    rw [asked.handle, ← linked.store_eq]
    rfl
  exact ⟨encData, next, blocks, after, encLength, made, done, handle ▸ closed, blobTracked,
    keys, sealedLinked⟩

end Asking

/-- The first session is opened, or nothing is sealed. -/
theorem sealPassphrase_free (reliable : tpm.Reliable) (follows : tpm.Follows chip)
    (linked : Linked tpm area core used contents store m) {srkAuth ppAuth : Block 20}
    {passphrase size : UInt32} {blob : TpmStoredData12}
    (run : sealPassphrase device srkAuth ppAuth passphrase size m = .ok (.ok blob) reached) :
    ∃ handle, chip.freeHandle core.sessions = some handle := by
  rw [← Option.isSome_iff_exists]
  by_contra full
  obtain ⟨drawn, draws, -, drawnLinked⟩ := getNonce_draws reliable follows linked
  obtain ⟨ret, refused, opens, failed⟩ := tpmOSAP_refused reliable drawnLinked .zero
    (chip.random core.drawn) (follows.osap_full _ (Option.not_isSome_iff_eq_none.mp full))
  rw [sealPassphrase, Prog.bind_ok draws, if_neg (by simp), Result.value_ok, Prog.bind_ok opens,
    if_pos failed] at run
  injection run with same
  exact failed (congrArg Result.exception same)

section Callers

variable {srkAuth ppAuth : Block 20} {passphrase size : UInt32} {bytes data : List UInt8}
  {blob : TpmStoredData12}

theorem SealPrepared.sealable {opened : SealingState} {blocks : UInt32 → Option (List UInt8)}
    {after : Store} {session : OpenSession} {select : UInt32}
    (prepared : SealPrepared core opened contents blocks after session)
    (selected : blocks select = some [0x00, 0x00, 0x0c])
    (tracked : contents passphrase = some bytes) (content : bytes.take size.toNat = data)
    (inside : size.toNat ≤ bytes.length) (short : size.toNat ≤ 128) :
    Sealable opened blocks after session select passphrase size data :=
  ⟨prepared.inSession, prepared.ends, selected,
    ⟨bytes, prepared.keeps _ _ tracked, inside, content⟩, short⟩

/-- The session of the command was opened for it and is closed again. -/
theorem SealPrepared.done {opened next : SealingState}
    {blocks : UInt32 → Option (List UInt8)} {after : Store} {session : OpenSession}
    (prepared : SealPrepared core opened contents blocks after session)
    (done : SealDone opened next srkAuth)
    (closed : next.sessions (after.objects (after.slots .zero)).authHandle = none) :
    SealDone core next srkAuth := by
  have undisturbed := prepared.undisturbed
  obtain ⟨check, known, checks⟩ := done.known
  refine ⟨done.kept.trans undisturbed.srkAuth, done.spaces.trans undisturbed.spaces,
    ⟨check, ?_, ?_⟩, fun other free => ?_⟩
  · rw [known, undisturbed.srkAuth]
  · rw [checks, undisturbed.srkChecks]
  · by_cases here : other = (after.objects (after.slots .zero)).authHandle
    · rw [here]
      exact closed
    · exact done.closed other ((prepared.others other here).trans free)

/-- A passphrase is sealed for a caller who knows the secret of the storage root key. -/
theorem sealPassphrase_seals (reliable : tpm.Reliable) (follows : tpm.Follows chip)
    (linked : Linked tpm area core used contents store m)
    (tracked : contents passphrase = some bytes) (content : bytes.take size.toNat = data)
    (inside : size.toNat ≤ bytes.length) (short : size.toNat ≤ 128)
    (room : used + 66 ≤ area.units)
    (run : sealPassphrase device srkAuth ppAuth passphrase size m = .ok (.ok blob) reached) :
    ∃ sealed encData next blocks after,
      chip.Made (bootPcrInfoBytes core.pcrs) encData sealed ∧ sealed.data = data ∧
      (srkAuth = core.srkAuth → sealed.auth = ppAuth) ∧ encData.length = 256 ∧
      SealDone core next srkAuth ∧
      BlobTracked blocks (bootPcrInfoBytes core.pcrs) encData blob ∧
      after.keys = store.keys ∧ Linked tpm area next (used + 66) blocks after reached := by
  obtain ⟨handle, free⟩ := sealPassphrase_free reliable follows linked run
  obtain ⟨session, select, opened, blocks, after, started, prepares, selected, prepared, keys,
    preparedLinked⟩ := sealPassphrase_prepares reliable follows linked free (by omega) srkAuth
      ppAuth passphrase size
  have undisturbed := prepared.undisturbed
  rw [prepares, ← undisturbed.pcrs] at run
  obtain ⟨encData, next, last, lastStore, length, made, done, closed, blobTracked,
    keysNext, sealedLinked⟩ := tpmSeal_seals reliable follows preparedLinked
      (prepared.sealable selected tracked content inside short) (by omega) run
  rw [undisturbed.pcrs] at made blobTracked
  refine ⟨_, encData, next, last, lastStore, made, rfl, fun same => ?_, length,
    prepared.done done closed, blobTracked, keysNext.trans keys, sealedLinked⟩
  subst same
  rw [SealingState.sealing, SealingState.decrypt, encAuthGen_eq, undisturbed.srkAuth]
  exact Block.xor_xor_cancel ..

/-- The secret of the storage root key is enough to seal what can be encrypted. -/
theorem sealPassphrase_succeeds (ppAuth : Block 20) (reliable : tpm.Reliable)
    (follows : tpm.Follows chip)
    (linked : Linked tpm area core used contents store m)
    (tracked : contents passphrase = some bytes) (content : bytes.take size.toNat = data)
    (inside : size.toNat ≤ bytes.length) (short : size.toNat ≤ 128)
    (room : used + 66 ≤ area.units) {handle : UInt32}
    (free : chip.freeHandle core.sessions = some handle) (known : srkAuth = core.srkAuth)
    (wraps : ∀ seed sealed, sealed.data.length ≤ 128 → (chip.wrap seed sealed).isSome) :
    ∃ blob reached, sealPassphrase device srkAuth ppAuth passphrase size m =
      .ok (.ok blob) reached := by
  obtain ⟨session, select, opened, blocks, after, started, prepares, selected, prepared, -,
    preparedLinked⟩ := sealPassphrase_prepares reliable follows linked free (by omega) srkAuth
      ppAuth passphrase size
  have undisturbed := prepared.undisturbed
  rw [← undisturbed.pcrs] at prepares
  obtain ⟨trailer, asked⟩ := (prepared.sealable selected tracked content inside short).asks
    preparedLinked (encAuthGen ppAuth (session.secret srkAuth) session.nonceEven) srkAuth
  have count : data.length ≤ 128 := by
    rw [← content, List.length_take_of_le inside]
    exact short
  obtain ⟨encData, wrapped⟩ := Option.isSome_iff_exists.mp
    (wraps (chip.random opened.drawn) (opened.sealing session
      (encAuthGen ppAuth (session.secret srkAuth) session.nonceEven)
      (bootPcrInfoBytes opened.pcrs) data) count)
  rw [← undisturbed.srkAuth] at known
  have auth := asked.auth
  rw [known] at auth
  obtain ⟨ret, next, last, lastStore, sealed, run, accepted, -⟩ := tpmSeal_sealed reliable follows
    preparedLinked asked ⟨prepared.shared, by rw [known]; exact auth, wrapped⟩ (by omega)
  rw [Result.eq_ok (accepted known)] at run
  exact ⟨ret.value, sealed, prepares.trans run⟩

end Callers

end Sealing

section Writing

variable {σ : Type} {device : TisDevice σ} {mmap : UInt32}
  {tpm : FifoTpm device mmap SealingState} {chip : SealingChip} {area : HeapArea}
  {core : SealingState} {used : Nat} {contents : UInt32 → Option (List UInt8)}
  {store : Store} {m reached : Machine σ} {blob : TpmStoredData12} {sealInfo encData : List UInt8}
  {index size : UInt32}

/-- The area begins with the serialised blob. -/
def HoldsBlob (sealInfo encData : List UInt8) (size : Nat) (bytes : List UInt8) : Prop :=
  size ≤ bytes.length ∧ blobFields 0x16 0 sealInfo encData <+: bytes.take size

/-- Writing needs a session that the TPM has to open. -/
theorem prepareWrite_free (reliable : tpm.Reliable) (follows : tpm.Follows chip)
    (linked : Linked tpm area core used contents store m) {x : UInt32 × UInt32}
    (run : prepareWrite device blob m = .ok (.ok x) reached) :
    ∃ handle, chip.freeHandle core.sessions = some handle := by
  rw [← Option.isSome_iff_exists]
  by_contra full
  rw [prepareWrite] at run
  obtain ⟨oiapRet, opened, opens, run⟩ := Prog.bind_eq_ok.mp run
  split at run
  · rename_i failed
    injection run with same
    exact absurd (congrArg Result.exception same) failed
  · rename_i success
    obtain ⟨granted, -⟩ := tpmOIAP_granted reliable linked opens (Decidable.of_not_not success)
    exact follows.oiap_full (Option.not_isSome_iff_eq_none.mp full) granted

/-- The state in which the blob is written. -/
structure WritePrepared (core next : SealingState) (blocks : UInt32 → Option (List UInt8))
    (after : Store) (session : OpenSession) (ptr : UInt32) (bytes : List UInt8) : Prop where
  undisturbed : Undisturbed core next
  inSession : InSession next.sessions blocks after .zero session
  plain : session.sharedNonces = none
  content : blocks ptr = some bytes

theorem prepareWrite_opens (reliable : tpm.Reliable) (follows : tpm.Follows chip)
    (linked : Linked tpm area core used contents store m)
    (blobTracked : BlobTracked contents sealInfo encData blob)
    (sealLength : sealInfo.length = 54) (encLength : encData.length = 256)
    (room : used + 50 ≤ area.units) {handle : UInt32}
    (free : chip.freeHandle core.sessions = some handle) :
    ∃ session ptr next blocks after prepared,
      prepareWrite device blob m = .ok (.ok (ptr, sizeofStoredData12 blob)) prepared ∧
      WritePrepared core next blocks after session ptr (blobFields 0x16 0 sealInfo encData) ∧
      Linked tpm area next (used + 50) blocks after prepared := by
  obtain ⟨blocks, after, opened, opens, keeps, openedLinked, inSession, -⟩ :=
    tpmOIAP_session reliable follows linked .zero free (by omega)
  obtain ⟨drawn, draws, -, drawnLinked⟩ := getNonce_draws reliable follows openedLinked
  have nonNull := inSession.nonNull drawnLinked
  obtain ⟨set, ended, sets, ends, endedLinked⟩ :=
    ready_runs .zero (chip.random (core.drawn + 1)) drawnLinked nonNull
  have known := blobTracked.keeps keeps
  have stored := known.stored endedLinked.tracks (by omega) (by omega) (by omega)
  have sizes : (sizeofStoredData12 blob).toNat = 322 := by
    rw [toNat_sizeofStoredData12 (by have := stored.small; omega), known.sealInfoSize,
      known.encDataSize, sealLength, encLength]
  obtain ⟨ptr, prepared, extracts, -, fresh, preparedLinked⟩ :=
    extractStoredData12_runs endedLinked stored (by omega)
  rw [known.bytes_eq endedLinked.tracks, sizes] at preparedLinked
  have inSession := inSession.ready .zero (chip.random (core.drawn + 1))
  refine ⟨⟨chip.random core.drawn, none⟩, ptr, _, _, _, prepared, ?_, ?_, preparedLinked⟩
  · rw [prepareWrite, Prog.bind_ok opens, if_neg (by simp), Prog.bind_ok draws,
      if_neg (by simp), Result.value_ok, Prog.bind_ok sets, Prog.bind_ok ends,
      Prog.bind_ok extracts]
    rfl
  · exact ⟨⟨rfl, rfl, rfl, rfl, rfl⟩, inSession.keeps (.fresh fresh _), rfl,
      Function.update_self ..⟩

/-- What a write of the blob leaves behind. -/
theorem writePassphrase_writes (reliable : tpm.Reliable) (follows : tpm.Follows chip)
    (linked : Linked tpm area core used contents store m)
    (blobTracked : BlobTracked contents sealInfo encData blob)
    (sealLength : sealInfo.length = 54) (encLength : encData.length = 256)
    (room : used + 50 ≤ area.units) {nvAuth : Block 20} (whole : 322 ≤ size.toNat)
    (short : 67 + size.toNat ≤ 1024)
    (run : writePassphrase device nvAuth blob index size m = .ok (.ok ()) reached) :
    ∃ next, tpm.view reached.world = FifoView.idle next ∧ next.srkAuth = core.srkAuth ∧
      next.srkChecks = core.srkChecks ∧
      HoldsBlob sealInfo encData size.toNat (next.spaces index).bytes := by
  rw [writePassphrase_eq] at run
  obtain ⟨x, prepared, prepares, run⟩ := Prog.bind_eq_ok.mp run
  split at run
  · rename_i failed
    injection run with same
    exact absurd (congrArg Result.exception same) failed
  rename_i success
  rw [Result.eq_ok (Decidable.of_not_not success)] at prepares
  obtain ⟨handle, free⟩ := prepareWrite_free reliable follows linked prepares
  obtain ⟨session, ptr, next, blocks, after, _, opens, done, preparedLinked⟩ :=
    prepareWrite_opens reliable follows linked blobTracked sealLength encLength room free
  rw [prepares] at opens
  injection opens with value same
  subst same
  have place : x.value.1 = ptr := congrArg (fun ret => ret.value.1) value
  rw [place] at run
  obtain ⟨-, trailer, granted, idle⟩ :=
    tpmNvWriteValueAuth_written reliable preparedLinked (by omega) run
  have count : (read prepared.mem ptr.toNat size.toNat).length = size.toNat := length_read ..
  rw [follows next _ (nvWriteOf_wellFormed (by omega)), answer_nvWrite] at granted idle
  rw [resultOf_encode] at granted
  obtain ⟨inside, overwritten⟩ := answerNvWrite_stores granted
  rw [UInt32.toNat_zero] at inside overwritten
  obtain ⟨srkAuth, srkChecks⟩ := answerNvWrite_keeps chip next
    (nvWriteOf index 0 (read prepared.mem ptr.toNat size.toNat) trailer)
  have undisturbed := done.undisturbed
  refine ⟨_, idle, srkAuth.trans undisturbed.srkAuth, srkChecks.trans undisturbed.srkChecks, ?_⟩
  -- the bytes that are written begin with the blob
  have held := preparedLinked.tracks.read_eq done.content
  have length := length_blobFields 0x16 0 sealInfo encData
  rw [overwritten, HoldsBlob, take_overwriteBytes count, length_overwriteBytes inside, ← held,
    length]
  refine ⟨by simpa [count] using inside, ?_⟩
  rw [← take_read prepared.mem ptr.toNat size.toNat _ (by omega : 12 + _ + _ ≤ size.toNat)]
  exact List.take_prefix _ _

/-- The request that writes the blob. -/
theorem request_nvWrite (m : Machine σ) (ptr size index : UInt32) (nvAuth : Block 20) :
    ∃ trailer : TpmWire.RequestTrailer,
      (AuthorisedCommand.nvWriteValueAuth ptr size index 0 nvAuth .zero).request m =
        nvWriteOf index 0 (read m.mem ptr.toNat size.toNat) trailer ∧
      trailer = requestTrailer nvAuth
        (nvWriteOf index 0 (read m.mem ptr.toNat size.toNat) trailer).digest
        (m.sessionAt (m.sessions .zero)) := by
  have count : UInt32.ofNat (read m.mem ptr.toNat size.toNat).length = size := by
    rw [length_read, UInt32.ofNat_toNat]
  refine ⟨requestTrailer nvAuth (SecureHash.sha1 (be32 ordNvWriteValueAuth ++
    nvWriteParams m ptr size index 0)) (m.sessionAt (m.sessions .zero)), ?_, ?_⟩
  · rw [AuthorisedCommand.request, authorisedRequest, nvWriteOf, count]
    rfl
  · rw [TpmWire.Request.digest, nvWriteOf, count]
    rfl

/-- The secret of the area is enough to write as much as it holds. -/
theorem writePassphrase_succeeds (reliable : tpm.Reliable) (follows : tpm.Follows chip)
    (linked : Linked tpm area core used contents store m)
    (blobTracked : BlobTracked contents sealInfo encData blob)
    (sealLength : sealInfo.length = 54) (encLength : encData.length = 256)
    (room : used + 50 ≤ area.units) (short : 67 + size.toNat ≤ 1024) {handle : UInt32}
    (free : chip.freeHandle core.sessions = some handle)
    (inside : size.toNat ≤ (core.spaces index).bytes.length) :
    ∃ reached, writePassphrase device (core.spaces index).auth blob index size m =
      .ok (.ok ()) reached := by
  obtain ⟨session, ptr, next, blocks, after, prepared, prepares, done, preparedLinked⟩ :=
    prepareWrite_opens reliable follows linked blobTracked sealLength encLength room free
  obtain ⟨trailer, request, made⟩ :=
    request_nvWrite prepared ptr size index (core.spaces index).auth
  have objects := preparedLinked.store_eq
  subst objects
  have nonNull : prepared.sessions .zero ≠ 0 := done.inSession.nonNull preparedLinked
  have found : next.sessions trailer.handle = some session := by
    rw [made]
    exact done.inSession.found
  have plain (auth : Block 20) : session.secret auth = auth := by
    rw [OpenSession.secret, done.plain]
  have auth := requestTrailer_auth
    (nvWriteOf index 0 (read prepared.mem ptr.toNat size.toNat) trailer) session
    (prepared.sessionAt (prepared.sessions .zero)) done.inSession.nonceEven
    (core.spaces index).auth
  rw [plain, ← made, ← done.undisturbed.spaces] at auth
  have nonceOdd : trailer.nonceOdd = (prepared.sessionAt (prepared.sessions .zero)).nonceOdd := by
    rw [made]
    rfl
  have count : (read prepared.mem ptr.toNat size.toNat).length = size.toNat := length_read ..
  have wellFormed : (nvWriteOf index 0 (read prepared.mem ptr.toNat size.toNat)
      trailer).WellFormed := nvWriteOf_wellFormed (by omega)
  have fits : (0 : UInt32).toNat + (read prepared.mem ptr.toNat size.toNat).length ≤
      (next.spaces index).bytes.length := by
    rw [count, done.undisturbed.spaces, UInt32.toNat_zero]
    omega
  have grants : (tpm.exec next ((AuthorisedCommand.nvWriteValueAuth ptr size index 0
      (core.spaces index).auth .zero).request prepared).encode).1 =
      (TpmWire.Response.granted tagRspAuth1Command ordNvWriteValueAuth []
        [⟨(core.spaces index).auth, chip.random next.drawn,
          (prepared.sessionAt (prepared.sessions .zero)).nonceOdd,
          trailer.continueAuthSession⟩]).encode := by
    rw [request, follows next _ wellFormed, answer_nvWrite, answerNvWrite_granted found auth fits,
      nonceOdd, plain, done.undisturbed.spaces]
  obtain ⟨reached, writes⟩ := tpmNvWriteValueAuth_granted reliable preparedLinked (by omega)
    (preparedLinked.tracks.nonNull done.content) nonNull grants
  refine ⟨reached, ?_⟩
  rw [writePassphrase_eq, Prog.bind_ok prepares, if_neg (by simp)]
  exact writes

end Writing

section Configuring

variable {σ : Type} {device : TisDevice σ} {mmap : UInt32}
  {tpm : FifoTpm device mmap SealingState} {chip : SealingChip} {area : HeapArea}
  {core : SealingState} {used : Nat} {contents : UInt32 → Option (List UInt8)}
  {store : Store} {m reached : Machine σ} {index size : UInt32}
  {passphrase ppLine srkLine : List UInt8}

/-- What a successful `configure` leaves behind. -/
structure Configured (chip : SealingChip) (core next : SealingState) (index size : UInt32)
    (passphrase ppLine srkLine : List UInt8) (sealed : SealedData) (encData : List UInt8) :
    Prop where
  made : chip.Made (bootPcrInfoBytes core.pcrs) encData sealed
  data : sealed.data = passphrase ++ [0]
  auth : authOf srkLine = core.srkAuth → sealed.auth = authOf ppLine
  length : encData.length = 256
  kept : next.srkAuth = core.srkAuth
  known : ∃ check ∈ next.srkChecks,
    check.mac (authOf srkLine) = check.mac core.srkAuth
  holds : HoldsBlob (bootPcrInfoBytes core.pcrs) encData size.toNat (next.spaces index).bytes

/-- The output of `trusted_boot` up to the second authorisation string. -/
def bootPrompts : List (List UInt8) :=
  [text "Please enter the passPhraseAuthData (64 char max): ", [0x0A],
    text "Please enter the srkAuthData (64 char max): ", [0x0A]]

/-- The steps that `configure` and `trusted_boot` share: both authorisation strings are read. -/
def askAuthdata (rest : Block 20 → Block 20 → Boot σ (Result Unit)) : Boot σ (Result Unit) := do
  outString (text "Please enter the passPhraseAuthData (64 char max): ")
  let ppAuth ← getAuthdata
  if ppAuth.exception ≠ .none then return .error ppAuth.exception ()
  outString (text "Please enter the srkAuthData (64 char max): ")
  let srkAuth ← getAuthdata
  if srkAuth.exception ≠ .none then return .error srkAuth.exception ()
  rest srkAuth.value ppAuth.value

section AskAuthdata

variable {capacities : List Nat} {more : List (List UInt8)}
  (rest : Block 20 → Block 20 → Boot σ (Result Unit))

theorem askAuthdata_types (linked : Linked tpm area core used contents store m)
    (typed : typedLines (authdataStrSize :: authdataStrSize :: capacities) store.keys =
      some (ppLine :: srkLine :: more))
    (ppShort : ppLine.length < authdataStrSize) (srkShort : srkLine.length < authdataStrSize) :
    ∃ keys asked, askAuthdata rest m = rest (authOf srkLine) (authOf ppLine) asked ∧
      asked.log = m.log ++ bootPrompts.map .output ∧ typedLines capacities keys = some more ∧
      Linked tpm area core used contents { store with keys := keys } asked := by
  obtain ⟨_, ppRest, _, ppTyped, typed, same⟩ := typedLines_cons typed
  cases same
  obtain ⟨_, srkRest, _, srkTyped, typed, same⟩ := typedLines_cons typed
  cases same
  obtain ⟨ppRead, takesPp, ppLinked, ppLog⟩ := getAuthdata_types
    (linked.showing (text "Please enter the passPhraseAuthData (64 char max): ")) ppTyped ppShort
  obtain ⟨srkRead, takesSrk, srkLinked, srkLog⟩ := getAuthdata_types
    (ppLinked.showing (text "Please enter the srkAuthData (64 char max): ")) srkTyped srkShort
  refine ⟨srkRest, srkRead, ?_, ?_, typed, srkLinked⟩
  · rw [askAuthdata, Prog.bind_ok (outString_eq _ _), Prog.bind_ok takesPp, if_neg (by simp),
      Prog.bind_ok (outString_eq _ _), Prog.bind_ok takesSrk, if_neg (by simp), Result.value_ok,
      Result.value_ok]
  · rw [srkLog, Machine.showing, ppLog, Machine.showing, bootPrompts]
    simp only [List.append_assoc, List.cons_append, List.nil_append, List.map_cons, List.map_nil]

/-- A string that fills its buffer ends the run, whichever of the two it is. -/
theorem askAuthdata_overruns (linked : Linked tpm area core used contents store m)
    (typed : typedLines (authdataStrSize :: authdataStrSize :: capacities) store.keys =
      some (ppLine :: srkLine :: more))
    (full : ¬ (ppLine.length < authdataStrSize ∧ srkLine.length < authdataStrSize)) :
    ∃ reached, askAuthdata rest m = .halt .overrun reached := by
  obtain ⟨_, ppRest, _, ppTyped, typed, same⟩ := typedLines_cons typed
  cases same
  obtain ⟨_, srkRest, _, srkTyped, typed, same⟩ := typedLines_cons typed
  cases same
  have ppLinked := linked.showing (text "Please enter the passPhraseAuthData (64 char max): ")
  rw [askAuthdata, Prog.bind_ok (outString_eq _ _)]
  obtain ppShort | ppFull := Nat.lt_or_ge ppLine.length authdataStrSize
  · obtain ⟨ppRead, takesPp, srkLinked, -⟩ := getAuthdata_types ppLinked ppTyped ppShort
    obtain ⟨reached, overruns⟩ := getAuthdata_overruns
      (srkLinked.showing (text "Please enter the srkAuthData (64 char max): ")) srkTyped
      (Nat.le_of_not_lt fun srkShort => full ⟨ppShort, srkShort⟩)
    rw [Prog.bind_ok takesPp, if_neg (by simp), Prog.bind_ok (outString_eq _ _)]
    exact ⟨reached, Prog.bind_halt overruns _⟩
  · obtain ⟨reached, overruns⟩ := getAuthdata_overruns ppLinked ppTyped ppFull
    exact ⟨reached, Prog.bind_halt overruns _⟩

end AskAuthdata

/-- The steps of `configure` after the first three lines. -/
def finishConfigure (device : TisDevice σ) (srkAuth ppAuth : Block 20)
    (passphrase lenPassphrase index size : UInt32) : Boot σ (Result Unit) := do
  let sealedData ← sealPassphrase device srkAuth ppAuth passphrase lenPassphrase
  if sealedData.exception ≠ .none then return .error sealedData.exception ()
  outString (text "Please enter the nvAuthData (64 char max): ")
  let nvAuth ← getAuthdata
  if nvAuth.exception ≠ .none then return .error nvAuth.exception ()
  writePassphrase device nvAuth.value sealedData.value index size

/-- The passphrase is in a block of the heap, and the keyboard has the lines that follow. -/
structure PassphraseTyped (blocks : UInt32 → Option (List UInt8)) (keys : List UInt8)
    (capacities : List Nat) (passphrase : List UInt8) (more : List (List UInt8)) (ptr : UInt32) :
    Prop where
  content : ∃ bytes, blocks ptr = some bytes ∧ bytes.length = 128 ∧
    bytes.take (passphrase.length + 1) = passphrase ++ [0]
  bounded : passphrase.length ≤ 127
  typed : typedLines capacities keys = some more

/-- The passphrase is read into a block of the heap. -/
theorem configure_reads (linked : Linked tpm area core used contents store m)
    {capacities : List Nat} {more : List (List UInt8)}
    (typed : typedLines (127 :: capacities) store.keys = some (passphrase :: more))
    (room : used + 18 ≤ area.units) :
    ∃ ptr keys blocks read,
      configure device index size m =
        askAuthdata (fun srkAuth ppAuth => finishConfigure device srkAuth ppAuth ptr
          (UInt32.ofNat passphrase.length + 1) index size) read ∧
      PassphraseTyped blocks keys capacities passphrase more ptr ∧
      Linked tpm area core (used + 18) blocks { store with keys := keys } read := by
  obtain ⟨_, rest, _, line, typed, same⟩ := typedLines_cons typed
  cases same
  have units : passphraseStrSize.toNat = 128 := rfl
  obtain ⟨ptr, mem, allocates, -, -, first⟩ := linked.alloc passphraseStrSize (by decide)
    (by omega)
  obtain ⟨filled, lineRead, reads, content, filledLength, second⟩ :=
    getStringAt_types (first.showing (text "Please enter the passphrase (128 char max): "))
      (Function.update_self ..) (length_read ..) line true
  refine ⟨ptr, rest, _, lineRead, ?_, ⟨⟨filled, Function.update_self .., filledLength, content⟩,
    length_typedLine line, typed⟩, second⟩
  rw [configure, Prog.bind_ok (allocHeap_ok allocates), Prog.bind_ok (outString_eq _ _),
    Prog.bind_ok reads]
  rfl

theorem configure_asks (linked : Linked tpm area core used contents store m)
    {capacities : List Nat} {more : List (List UInt8)}
    (typed : typedLines (127 :: authdataStrSize :: authdataStrSize :: capacities) store.keys =
      some (passphrase :: ppLine :: srkLine :: more))
    (room : used + 18 ≤ area.units) (ppShort : ppLine.length < authdataStrSize)
    (srkShort : srkLine.length < authdataStrSize) :
    ∃ ptr keys blocks asked,
      configure device index size m = finishConfigure device (authOf srkLine) (authOf ppLine) ptr
        (UInt32.ofNat passphrase.length + 1) index size asked ∧
      PassphraseTyped blocks keys capacities passphrase more ptr ∧
      Linked tpm area core (used + 18) blocks { store with keys := keys } asked := by
  obtain ⟨ptr, rest, blocks, read, reads, line, readLinked⟩ := configure_reads linked typed room
  obtain ⟨keys, asked, asks, -, typed, askedLinked⟩ :=
    askAuthdata_types _ readLinked line.typed ppShort srkShort
  exact ⟨ptr, keys, blocks, asked, reads.trans asks, ⟨line.content, line.bounded, typed⟩,
    askedLinked⟩

/-- A run of `configure` that returns has got strings that leave room for their terminators. -/
theorem configure_short (linked : Linked tpm area core used contents store m)
    {capacities : List Nat} {more : List (List UInt8)}
    (typed : typedLines (127 :: authdataStrSize :: authdataStrSize :: capacities) store.keys =
      some (passphrase :: ppLine :: srkLine :: more))
    (room : used + 18 ≤ area.units) {ret : Result Unit}
    (run : configure device index size m = .ok ret reached) :
    ppLine.length < authdataStrSize ∧ srkLine.length < authdataStrSize := by
  obtain ⟨ptr, rest, blocks, read, reads, line, readLinked⟩ := configure_reads linked typed room
  by_contra full
  obtain ⟨state, overruns⟩ := askAuthdata_overruns (fun srkAuth ppAuth => finishConfigure device
    srkAuth ppAuth ptr (UInt32.ofNat passphrase.length + 1) index size) readLinked line.typed full
  rw [reads, overruns] at run
  cases run

/-- The size that is passed with the passphrase. -/
theorem toNat_lenPassphrase (bounded : passphrase.length ≤ 127) :
    (UInt32.ofNat passphrase.length + 1).toNat = passphrase.length + 1 := by
  have small : (UInt32.ofNat passphrase.length).toNat = passphrase.length :=
    toNat_ofNat_small (by omega)
  rw [toNat_add_one (by omega), small]

theorem configure_seals (reliable : tpm.Reliable) (follows : tpm.Follows chip)
    (linked : Linked tpm area core used contents store m)
    (typed : typedLines [127, authdataStrSize, authdataStrSize] store.keys =
      some [passphrase, ppLine, srkLine])
    (room : used + 256 ≤ area.units) (whole : 322 ≤ size.toNat) (short : 67 + size.toNat ≤ 1024)
    (run : configure device index size m = .ok (.ok ()) reached) :
    ∃ next sealed encData, tpm.view reached.world = FifoView.idle next ∧
      Configured chip core next index size passphrase ppLine srkLine sealed encData := by
  obtain ⟨ppShort, srkShort⟩ := configure_short linked typed (by omega) run
  obtain ⟨ptr, keys, blocks, asked, asks, line, askedLinked⟩ :=
    configure_asks linked typed (by omega) ppShort srkShort
  obtain ⟨bytes, tracked, length, content⟩ := line.content
  have bounded := line.bounded
  have count := toNat_lenPassphrase bounded
  rw [asks, finishConfigure] at run
  obtain ⟨blob, sealing, seals, run⟩ := Prog.bind_eq_ok.mp run
  split at run
  · rename_i failed
    injection run with same
    exact absurd (congrArg Result.exception same) failed
  rename_i success
  rw [Result.eq_ok (Decidable.of_not_not success)] at seals
  obtain ⟨sealed, encData, kept, last, after, made, data, auth, encLength, done, blobTracked, -,
    sealedLinked⟩ := sealPassphrase_seals reliable follows askedLinked tracked
      (by rw [count, content]) (by omega) (by omega) (by omega) seals
  -- the write of the blob
  rw [Prog.bind_ok (outString_eq _ _)] at run
  obtain ⟨nvAuth, nvRead, takesNv, run⟩ := Prog.bind_eq_ok.mp run
  obtain ⟨rest, nvLinked⟩ := getAuthdata_takes (sealedLinked.showing _) takesNv
  split at run
  · rename_i failed
    injection run with same
    exact absurd (congrArg Result.exception same) failed
  obtain ⟨next, idle, srkAuth, srkChecks, holds⟩ := writePassphrase_writes reliable follows
    nvLinked blobTracked (length_bootPcrInfoBytes _) encLength (by omega) whole short run
  obtain ⟨check, known, checks⟩ := done.known
  refine ⟨next, sealed, encData, idle, made, data, auth, encLength, srkAuth.trans done.kept,
    ⟨check, ?_, known⟩, holds⟩
  rw [srkChecks, checks]
  exact List.mem_append_right _ (List.mem_singleton_self _)

/-- With the secrets of the storage root key and of the area, `configure` succeeds if the TPM
has no session open, can encrypt the passphrase, and has room for the blob. -/
theorem configure_succeeds (reliable : tpm.Reliable) (follows : tpm.Follows chip)
    (linked : Linked tpm area core used contents store m) {nvLine : List UInt8}
    (typed : typedLines [127, authdataStrSize, authdataStrSize, authdataStrSize] store.keys =
      some [passphrase, ppLine, srkLine, nvLine])
    (shortLines : ∀ line ∈ [ppLine, srkLine, nvLine], line.length < authdataStrSize)
    (room : used + 256 ≤ area.units) (short : 67 + size.toNat ≤ 1024)
    (fresh : core.sessions = fun _ => none)
    (wraps : ∀ seed sealed, sealed.data.length ≤ 128 → (chip.wrap seed sealed).isSome)
    (srkAuth : authOf srkLine = core.srkAuth) (nvAuth : authOf nvLine = (core.spaces index).auth)
    (inside : size.toNat ≤ (core.spaces index).bytes.length) :
    ∃ reached, configure device index size m = .ok (.ok ()) reached := by
  have closed (handle : UInt32) : core.sessions handle = none := by rw [fresh]
  obtain ⟨handle, free⟩ := Option.isSome_iff_exists.mp
    (chip.freeHandle_second core.sessions 0 fun other _ => closed other)
  simp only [List.forall_mem_cons] at shortLines
  obtain ⟨ppShort, srkShort, nvShort, -⟩ := shortLines
  obtain ⟨ptr, keys, blocks, asked, asks, line, askedLinked⟩ :=
    configure_asks linked typed (by omega) ppShort srkShort
  obtain ⟨bytes, tracked, length, content⟩ := line.content
  have bounded := line.bounded
  have count := toNat_lenPassphrase bounded
  obtain ⟨blob, sealing, seals⟩ := sealPassphrase_succeeds (authOf ppLine) reliable follows
    askedLinked tracked (by rw [count, content]) (by omega) (by omega) (by omega) free
    srkAuth wraps
  obtain ⟨sealed, encData, kept, last, after, -, -, -, encLength, done, blobTracked, keysSame,
    sealedLinked⟩ := sealPassphrase_seals reliable follows askedLinked tracked
      (by rw [count, content]) (by omega) (by omega) (by omega) seals
  -- the write of the blob
  obtain ⟨_, rest, _, nvTyped, -, same⟩ := typedLines_cons line.typed
  cases same
  have nvKeys : after.keys = keys := keysSame
  rw [← nvKeys] at nvTyped
  obtain ⟨nvRead, takesNv, nvLinked, -⟩ := getAuthdata_types
    (sealedLinked.showing (text "Please enter the nvAuthData (64 char max): ")) nvTyped nvShort
  obtain ⟨second, freeSecond⟩ := Option.isSome_iff_exists.mp
    (chip.freeHandle_second kept.sessions 0 fun other _ => done.closed other (closed other))
  rw [← done.spaces] at inside
  obtain ⟨reached, writes⟩ := writePassphrase_succeeds reliable follows nvLinked blobTracked
    (length_bootPcrInfoBytes _) encLength (by omega) short freeSecond inside
  rw [done.spaces, ← nvAuth] at writes
  refine ⟨reached, ?_⟩
  rw [asks, finishConfigure, Prog.bind_ok seals, if_neg (by simp), Prog.bind_ok (outString_eq _ _),
    Prog.bind_ok takesNv, if_neg (by simp), Result.value_ok, Result.value_ok]
  exact writes

end Configuring

end Sable
