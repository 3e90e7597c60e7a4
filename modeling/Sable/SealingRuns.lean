import Sable.SealingTpm
import Sable.TypedLines

/-!
# Commands of the boot flow on a TPM that seals

The runs of the commands that seal and unseal a passphrase, on a machine that is
linked to a TPM and has room on its heap.  What a run leaves behind is told by
the tracked blocks, the session objects and the state of the TPM.
-/

namespace Sable

open ByteMemory BigEndian HaltingProgram

section Responses

variable {σ κ : Type} {device : TisDevice σ} {mmap : UInt32} {tpm : FifoTpm device mmap κ}
  {area : HeapArea} {core : κ} {used : Nat} {contents : UInt32 → Option (List UInt8)}
  {store : Store} {m : Machine σ}

/-- What was tracked still is. -/
def Keeps (contents blocks : UInt32 → Option (List UInt8)) : Prop :=
  ∀ ptr bytes, contents ptr = some bytes → blocks ptr = some bytes

theorem Keeps.refl (contents : UInt32 → Option (List UInt8)) : Keeps contents contents :=
  fun _ _ tracked => tracked

theorem Keeps.trans {first second third : UInt32 → Option (List UInt8)}
    (one : Keeps first second) (two : Keeps second third) : Keeps first third :=
  fun ptr bytes tracked => two ptr bytes (one ptr bytes tracked)

/-- A change of a block that was not tracked. -/
theorem Keeps.update {blocks : UInt32 → Option (List UInt8)} (keeps : Keeps contents blocks)
    {ptr : UInt32} (fresh : contents ptr = none) (bytes : List UInt8) :
    Keeps contents (Function.update blocks ptr (some bytes)) := by
  intro other content tracked
  rw [Function.update_of_ne, keeps other content tracked]
  rintro rfl
  rw [fresh] at tracked
  cases tracked

theorem Keeps.fresh {ptr : UInt32} (fresh : contents ptr = none) (bytes : List UInt8) :
    Keeps contents (Function.update contents ptr (some bytes)) :=
  (Keeps.refl contents).update fresh bytes

/-- The fields of a response without trailers. -/
theorem Replied.plain {mem : Mem} {params : List UInt8}
    (replied : Replied tpm area core used contents store mem
      (⟨tagRspCommand, 0, params, []⟩ : TpmWire.Response).encode m)
    (short : 10 + params.length ≤ 1024) :
    ofBe16 (read m.tisOut 0 2) = tagRspCommand ∧
      ofBe32 (read m.tisOut 2 4) = UInt32.ofNat (10 + params.length) ∧
      ofBe32 (read m.tisOut 6 4) = 0 ∧ read m.tisOut 10 params.length = params := by
  let response : TpmWire.Response := ⟨tagRspCommand, 0, params, []⟩
  have size : response.size = 10 + params.length := by
    simp [response, TpmWire.Response.size]
  have carries : (outputSource m).Carries response := replied.carries (size.le.trans short)
  have wellFormed : response.WellFormed := ⟨rfl, by omega⟩
  have inside : response.size ≤ (outputSource m).bytes.length := by
    rw [length_outputSource, size]
    exact short
  rw [← slice_outputSource m (by omega : 0 + 2 ≤ 1024),
    ← slice_outputSource m (by omega : 2 + 4 ≤ 1024),
    ← slice_outputSource m (by omega : 6 + 4 ≤ 1024),
    ← slice_outputSource m (by omega : 10 + params.length ≤ 1024), ← size]
  exact ⟨carries.tag_eq, carries.paramSize_eq, carries.result_eq wellFormed inside,
    carries.params_eq wellFormed inside⟩

/-- The value of a register is read. -/
theorem tpmPCRRead_linked (reliable : tpm.Reliable)
    (linked : Linked tpm area core used contents store m) {index : UInt32} {value : Block 20}
    {next : κ} (answers : tpm.exec core (pcrRequest index).encode =
      ((⟨tagRspCommand, 0, value.bytes, []⟩ : TpmWire.Response).encode, next)) :
    ∃ reached, tpmPCRRead device index m = .ok (.ok value) reached ∧ reached.mem = m.mem ∧
      Linked tpm area next used contents store reached := by
  let call : TpmCall (Block 20) := .pcrRead index
  have submits : Submits device { m with log := m.log ++ call.announced }
      (call.requestPart device m) (pcrRequest index) [] :=
    plainRequest_submits rfl (marshalBytes_given (by simp))
  obtain ⟨answered, replied, run⟩ := TpmCall.run_replied reliable linked submits (by
    rw [pcrRequest, plainRequestOf, TpmWire.Request.size]
    simp)
  rw [answers] at replied
  obtain ⟨tag, size, result, params⟩ := replied.plain (by simp)
  rw [value.length_eq] at size params
  have parse : (do
      let value ← unmarshalObject default .given .null
      return Result.ok value) (answered.readingAt 10) =
        .ok (.ok value) (answered.readingAt 30) := by
    have object : unmarshalObject default .given .null (answered.readingAt 10) =
        .ok (Block.ofList 20 (read answered.tisOut 10 20)) (answered.readingAt 30) := by
      with_unfolding_all rfl
    rw [Prog.bind_ok object, params, Block.ofList_bytes]
    rfl
  have accepted : answered.checked 30 (.ok value) = .ok value := by
    rw [Machine.checked, if_pos ⟨size.symm, tag⟩]
  have parses := plainResponse_eq default result parse
  rw [accepted] at parses
  exact ⟨_, run.trans (Prog.bind_ok parses _), replied.mem_eq, replied.toLinked.of_eq rfl⟩

end Responses

section Sessions

variable {σ : Type} {device : TisDevice σ} {mmap : UInt32}
  {tpm : FifoTpm device mmap SealingState} {chip : SealingChip} {area : HeapArea}
  {core : SealingState} {used : Nat} {contents blocks : UInt32 → Option (List UInt8)}
  {store : Store} {m reached : Machine σ} {slot : SessionSlot} {session : OpenSession}

/-- The slot has a tracked object for a session that the TPM has open. -/
structure InSession (sessions : UInt32 → Option OpenSession)
    (contents : UInt32 → Option (List UInt8)) (store : Store) (slot : SessionSlot)
    (session : OpenSession) : Prop where
  tracked : ∃ bytes, contents (store.slots slot) = some bytes
  found : sessions (store.objects (store.slots slot)).authHandle = some session
  nonceEven : (store.objects (store.slots slot)).nonceEven = session.nonceEven

theorem InSession.keeps {sessions : UInt32 → Option OpenSession}
    (inSession : InSession sessions contents store slot session) (keeps : Keeps contents blocks) :
    InSession sessions blocks store slot session :=
  ⟨inSession.tracked.imp fun bytes => keeps _ bytes, inSession.found, inSession.nonceEven⟩

theorem InSession.nonNull {sessions : UInt32 → Option OpenSession}
    (inSession : InSession sessions contents store slot session)
    (linked : Linked tpm area core used contents store m) : store.slots slot ≠ 0 := by
  obtain ⟨bytes, tracked⟩ := inSession.tracked
  exact linked.tracks.nonNull tracked

/-- The store after a caller has filled in the fields of a session for a last command. -/
def Store.ready (store : Store) (slot : SessionSlot) (nonceOdd : Block 20) : Store :=
  { store with
    objects := Function.update store.objects (store.slots slot)
      { store.objects (store.slots slot) with
        nonceOdd := nonceOdd
        continueAuthSession := 0 } }

section Ready

variable (store) (other : SessionSlot) (nonceOdd : Block 20)

/-- Every object keeps its handle, its even nonce and its extension. -/
theorem Store.ready_objects (ptr : UInt32) :
    ((store.ready other nonceOdd).objects ptr).authHandle = (store.objects ptr).authHandle ∧
      ((store.ready other nonceOdd).objects ptr).nonceEven = (store.objects ptr).nonceEven ∧
      ((store.ready other nonceOdd).objects ptr).osap = (store.objects ptr).osap := by
  by_cases here : ptr = store.slots other
  · simp only [Store.ready, here, Function.update_self, and_self]
  · simp only [Store.ready, Function.update_of_ne here, and_self]

theorem Store.ready_continues : ((store.ready other nonceOdd).objects
    ((store.ready other nonceOdd).slots other)).continueAuthSession = 0 := by
  simp only [Store.ready, Function.update_self]

variable {store}

theorem InSession.ready {sessions : UInt32 → Option OpenSession}
    (inSession : InSession sessions contents store slot session) :
    InSession sessions contents (store.ready other nonceOdd) slot session := by
  obtain ⟨handle, even, -⟩ := store.ready_objects other nonceOdd (store.slots slot)
  refine ⟨inSession.tracked, ?_, even.trans inSession.nonceEven⟩
  rw [← inSession.found]
  exact congrArg sessions handle

/-- The fields of a session are filled in. -/
theorem ready_runs (linked : Linked tpm area core used contents store m)
    (nonNull : store.slots other ≠ 0) :
    ∃ set reached, setNonceOdd other nonceOdd m = .ok () set ∧
      endAfterCommand other set = .ok () reached ∧
      Linked tpm area core used contents (store.ready other nonceOdd) reached := by
  obtain ⟨set, sets, -, setLinked⟩ := updateSlot_runs linked other
    (fun object => { object with nonceOdd := nonceOdd }) nonNull
  obtain ⟨reached, ends, -, endedLinked⟩ := updateSlot_runs setLinked other
    (fun object => { object with continueAuthSession := 0 }) nonNull
  simp only [Function.update_self, Function.update_idem] at endedLinked
  exact ⟨set, reached, sets, ends, endedLinked⟩

/-- Only the end of the session is filled in. -/
theorem end_runs (linked : Linked tpm area core used contents store m)
    (nonNull : store.slots other ≠ 0) :
    ∃ reached, endAfterCommand other m = .ok () reached ∧
      Linked tpm area core used contents
        (store.ready other (store.objects (store.slots other)).nonceOdd) reached := by
  obtain ⟨reached, ends, -, endedLinked⟩ := updateSlot_runs linked other
    (fun object => { object with continueAuthSession := 0 }) nonNull
  exact ⟨reached, ends, endedLinked⟩

end Ready

/-- Another session is opened, with its object in a new block. -/
theorem InSession.opened {sessions : UInt32 → Option OpenSession}
    (inSession : InSession sessions contents store slot session) {other : SessionSlot}
    (different : slot ≠ other) {ptr handle : UInt32} (fresh : contents ptr = none)
    (free : sessions handle = none) (object : TpmSession) (second : OpenSession)
    (extensions : UInt32 → TpmOsapExtension) :
    InSession (Function.update sessions handle (some second)) contents
      { store with
        objects := Function.update store.objects ptr object
        extensions := extensions
        slots := Function.update store.slots other ptr } slot session := by
  obtain ⟨bytes, tracked⟩ := inSession.tracked
  have apart : store.slots slot ≠ ptr := by
    intro same
    rw [same, fresh] at tracked
    cases tracked
  have known : (store.objects (store.slots slot)).authHandle ≠ handle := by
    intro same
    have found := inSession.found
    rw [same, free] at found
    cases found
  refine ⟨⟨bytes, ?_⟩, ?_, ?_⟩
  · simpa only [Function.update_of_ne different] using tracked
  · simpa only [Function.update_of_ne different, Function.update_of_ne apart,
      Function.update_of_ne known] using inSession.found
  · simpa only [Function.update_of_ne different, Function.update_of_ne apart] using
      inSession.nonceEven

/-- The object in the slot has an extension with these nonces. -/
structure Shares (store : Store) (slot : SessionSlot) (nonces : TpmOsapExtension) : Prop where
  nonNull : (store.objects (store.slots slot)).osap ≠ 0
  extension : store.extensions (store.objects (store.slots slot)).osap = nonces

theorem Shares.ready {nonces : TpmOsapExtension} (shares : Shares store slot nonces)
    (other : SessionSlot) (nonceOdd : Block 20) :
    Shares (store.ready other nonceOdd) slot nonces := by
  obtain ⟨-, -, same⟩ := store.ready_objects other nonceOdd (store.slots slot)
  refine ⟨fun null => shares.nonNull (same.symm.trans null), ?_⟩
  rw [← shares.extension]
  exact congrArg store.extensions same

/-- The fields of the response that opens a session with a shared secret. -/
theorem Replied.osap {mem : Mem} {handle : UInt32} {nonceEven nonceEvenOSAP : Block 20}
    (replied : Replied tpm area core used contents store mem
      (osapAnswer handle nonceEven nonceEvenOSAP).encode m) :
    ofBe16 (read m.tisOut 0 2) = tagRspCommand ∧ ofBe32 (read m.tisOut 2 4) = 54 ∧
      ofBe32 (read m.tisOut 6 4) = 0 ∧ ofBe32 (read m.tisOut 10 4) = handle ∧
      Block.ofList 20 (read m.tisOut 14 20) = nonceEven ∧
      Block.ofList 20 (read m.tisOut 34 20) = nonceEvenOSAP := by
  have length : (be32 handle ++ nonceEven.bytes ++ nonceEvenOSAP.bytes).length = 44 := by simp
  obtain ⟨tag, size, result, params⟩ := replied.plain (by rw [length]; decide)
  rw [length] at size params
  have cut : read m.tisOut 10 44 =
      read m.tisOut 10 4 ++ read m.tisOut 14 20 ++ read m.tisOut 34 20 := by
    rw [show 44 = 4 + 20 + 20 from rfl, read_add, read_add]
  rw [cut] at params
  obtain ⟨front, second⟩ := List.append_inj' params (by simp)
  obtain ⟨word, first⟩ := List.append_inj' front (by simp)
  exact ⟨tag, size, result, by rw [word, ofBe32_be32], by rw [first, Block.ofList_bytes],
    by rw [second, Block.ofList_bytes]⟩

/-- What `TPM_OSAP` does with the response. -/
def finishOSAP (nonceOddOSAP : Block 20) (slot : SessionSlot) : Boot σ (Result Unit) := do
  let ret ← plainResponse 0 (unmarshalOSAP nonceOddOSAP slot)
  if ret.exception ≠ .none then return .error ret.exception ()
  updateOsap ret.value fun extension => { extension with nonceOddOSAP := nonceOddOSAP }
  return .ok ()

theorem tpmOSAP_replied (reliable : tpm.Reliable)
    (linked : Linked tpm area core used contents store m) (slot : SessionSlot)
    (nonceOddOSAP : Block 20) :
    ∃ answered, Replied tpm area (tpm.exec core (osapRequest nonceOddOSAP).encode).2 used
        contents store m.mem (tpm.exec core (osapRequest nonceOddOSAP).encode).1 answered ∧
      tpmOSAP device etKeyhandle khSRK nonceOddOSAP slot m =
        TpmCall.logged ordOSAP (finishOSAP nonceOddOSAP slot) answered := by
  let call : TpmCall Unit := .osap etKeyhandle khSRK nonceOddOSAP slot
  have submits : Submits device { m with log := m.log ++ call.announced }
      (call.requestPart device m) (osapRequest nonceOddOSAP) [(0, nonceOddOSAP)] := by
    refine plainRequest_submits (by simp) ?_
    refine Prog.Returns.bind (marshalBytes_given (by simp)) fun _ => ?_
    refine Prog.Returns.bind (marshalBytes_given (by simp)) fun _ => ?_
    rw [← List.append_assoc, ← List.append_assoc]
    exact marshalBytes_given (by simp)
  exact TpmCall.run_replied reliable linked submits (by
    simp [osapRequest, plainRequestOf, TpmWire.Request.size])

/-- A session that is refused. -/
theorem tpmOSAP_refused (reliable : tpm.Reliable)
    (linked : Linked tpm area core used contents store m) (slot : SessionSlot)
    (nonceOddOSAP : Block 20)
    (refused : resultOf (tpm.exec core (osapRequest nonceOddOSAP).encode).1 ≠ 0) :
    ∃ ret reached, tpmOSAP device etKeyhandle khSRK nonceOddOSAP slot m = .ok ret reached ∧
      ret.exception ≠ .none := by
  obtain ⟨answered, replied, run⟩ := tpmOSAP_replied reliable linked slot nonceOddOSAP
  rw [← replied.result (tpm.framed _ _)] at refused
  have body : finishOSAP nonceOddOSAP slot answered =
      .ok (.error (tpmError (ofBe32 (read answered.tisOut 6 4))) ()) (answered.readingAt 10) := by
    rw [finishOSAP, Prog.bind_ok (plainResponse_failed refused), if_pos (by simp [tpmError])]
    rfl
  exact ⟨_, _, run.trans (Prog.bind_ok body _), by simp [tpmError]⟩

/-- A session with a shared secret, with its object and the extension in new blocks. -/
theorem tpmOSAP_linked (reliable : tpm.Reliable)
    (linked : Linked tpm area core used contents store m) (slot : SessionSlot)
    {nonceOddOSAP nonceEven nonceEvenOSAP : Block 20} {handle : UInt32} {next : SealingState}
    (opens : tpm.exec core (osapRequest nonceOddOSAP).encode =
      ((osapAnswer handle nonceEven nonceEvenOSAP).encode, next))
    (room : used + 15 ≤ area.units) :
    ∃ s osap object blocks reached,
      tpmOSAP device etKeyhandle khSRK nonceOddOSAP slot m = .ok (.ok ()) reached ∧
      contents s = none ∧ Keeps contents blocks ∧ (∃ bytes, blocks s = some bytes) ∧
      object.authHandle = handle ∧ object.nonceEven = nonceEven ∧ object.osap = osap ∧
      osap ≠ 0 ∧ Linked tpm area next (used + 15) blocks
        { store with
          objects := Function.update store.objects s object
          extensions := Function.update store.extensions osap ⟨nonceEvenOSAP, nonceOddOSAP⟩
          slots := Function.update store.slots slot s } reached := by
  obtain ⟨answered, replied, run⟩ := tpmOSAP_replied reliable linked slot nonceOddOSAP
  rw [opens] at replied
  obtain ⟨tag, size, result, word, even, evenOSAP⟩ := replied.osap
  obtain ⟨s, mem, allocates, nonNull, fresh, first⟩ := replied.alloc 49 (by decide) (by
    have units : (49 : UInt32).toNat = 49 := rfl
    omega)
  obtain ⟨osap, extended, allocatesNext, osapNonNull, osapFresh, second⟩ :=
    first.alloc 40 (by decide) (by
      have units : (49 : UInt32).toNat = 49 ∧ (40 : UInt32).toNat = 40 := ⟨rfl, rfl⟩
      omega)
  have kept : Keeps contents (Function.update contents s (some (read mem s.toNat 49))) :=
    .fresh fresh _
  have parses := plainResponse_eq 0 result
    (unmarshalOSAP_eq slot nonceOddOSAP allocates nonNull allocatesNext osapNonNull)
  have accepted : answered.checked 54 (.ok osap) = .ok osap := by
    rw [Machine.checked, if_pos ⟨size.symm, tag⟩]
  rw [accepted] at parses
  let opened (log : List Event) : Machine σ :=
    { answered.readingAt 54 with
      mem := extended
      sessionAt := Function.update answered.sessionAt s (osapSession mem answered.tisOut s osap)
      osapAt := Function.update answered.osapAt osap ⟨nonceEvenOSAP, nonceOddOSAP⟩
      sessions := Function.update answered.sessions slot s
      log := log }
  let events := answered.log ++ [.opened s (some nonceOddOSAP)]
  have body : finishOSAP nonceOddOSAP slot answered = .ok (.ok ()) (opened events) := by
    rw [finishOSAP, Prog.bind_ok parses, if_neg (by simp), Result.value_ok, updateOsap,
      if_neg osapNonNull, Prog.bind_modify, Prog.pure_apply]
    simp only [Machine.readingAt, opened, events, Function.update_self, Function.update_idem,
      evenOSAP]
  have tracked : Linked tpm area next (used + 15) _ _ (opened (events ++
      [.finished ordOSAP .none])) :=
    ⟨second.locality, second.idle, second.heap, second.tracks, rfl⟩
  have objects := replied.store_eq
  subst objects
  exact ⟨s, osap, osapSession mem answered.tisOut s osap, _, _,
    run.trans (Prog.bind_ok body _), fresh, kept.trans (.fresh osapFresh _),
    ⟨_, Keeps.fresh osapFresh _ _ _ (Function.update_self ..)⟩, word, even, rfl, osapNonNull,
    tracked⟩

/-- The TPM gives a nonce. -/
theorem getNonce_draws (reliable : tpm.Reliable) (follows : tpm.Follows chip)
    (linked : Linked tpm area core used contents store m) :
    ∃ reached, getNonce device m = .ok (.ok (chip.random core.drawn)) reached ∧
      reached.mem = m.mem ∧
      Linked tpm area { core with drawn := core.drawn + 1 } used contents store reached := by
  obtain ⟨answered, ret, reached, replied, drawn, memory, run, accepted, value⟩ :=
    getNonce_runs reliable linked
  rw [follows.nonce] at replied drawn
  obtain ⟨tag, size, result, count, bytes⟩ := replied.answer
  have none : ret.exception = .none := accepted.mpr ⟨result, count, size.symm, tag⟩
  have nonce : ret = .ok (chip.random core.drawn) := by
    rw [Result.eq_ok none, value none, bytes, Block.ofList_bytes]
  rw [nonce] at run
  exact ⟨reached, run, memory, drawn⟩

/-- The TPM opens a session that shares a secret of the storage root key. -/
theorem tpmOSAP_shares (reliable : tpm.Reliable) (follows : tpm.Follows chip)
    (linked : Linked tpm area core used contents store m) (slot : SessionSlot)
    (nonceOddOSAP : Block 20) {handle : UInt32}
    (free : chip.freeHandle core.sessions = some handle) (room : used + 15 ≤ area.units) :
    let nonceEvenOSAP := chip.random (core.drawn + 1)
    let session : OpenSession :=
      ⟨chip.random core.drawn, some (nonceEvenOSAP.bytes ++ nonceOddOSAP.bytes)⟩
    let sessions := Function.update core.sessions handle (some session)
    ∃ blocks after reached,
      tpmOSAP device etKeyhandle khSRK nonceOddOSAP slot m = .ok (.ok ()) reached ∧
      Keeps contents blocks ∧
      Linked tpm area { core with drawn := core.drawn + 2, sessions := sessions } (used + 15)
        blocks after reached ∧
      InSession sessions blocks after slot session ∧
      Shares after slot ⟨nonceEvenOSAP, nonceOddOSAP⟩ ∧
      (after.objects (after.slots slot)).authHandle = handle ∧ after.keys = store.keys := by
  obtain ⟨s, osap, object, blocks, reached, run, -, keeps, tracked, word, even, extension,
    nonNull, opened⟩ := tpmOSAP_linked reliable linked slot (follows.osap nonceOddOSAP free) room
  refine ⟨blocks, _, reached, run, keeps, opened, ⟨?_, ?_, ?_⟩, ⟨?_, ?_⟩, ?_, rfl⟩
  · simpa only [Function.update_self] using tracked
  · simp only [Function.update_self, word]
  · simp only [Function.update_self, even]
  · simpa only [Function.update_self, extension] using nonNull
  · simp only [Function.update_self, extension]
  · simp only [Function.update_self, word]

/-- The TPM opens a session without a shared secret; sessions in other slots stay open. -/
theorem tpmOIAP_session (reliable : tpm.Reliable) (follows : tpm.Follows chip)
    (linked : Linked tpm area core used contents store m) (slot : SessionSlot) {handle : UInt32}
    (free : chip.freeHandle core.sessions = some handle) (room : used + 8 ≤ area.units) :
    let session : OpenSession := ⟨chip.random core.drawn, none⟩
    let sessions := Function.update core.sessions handle (some session)
    ∃ blocks after reached, tpmOIAP device slot m = .ok (.ok ()) reached ∧
      Keeps contents blocks ∧
      Linked tpm area { core with drawn := core.drawn + 1, sessions := sessions } (used + 8)
        blocks after reached ∧
      InSession sessions blocks after slot session ∧
      ∀ other second, other ≠ slot → InSession core.sessions contents store other second →
        InSession sessions blocks after other second := by
  have granted : resultOf (tpm.exec core oiapRequest.encode).1 = 0 := by
    rw [follows.oiap free, resultOf_encode]
    rfl
  obtain ⟨answered, s, mem, reached, replied, -, fresh, opened, run⟩ :=
    tpmOIAP_linked reliable linked slot granted room
  rw [follows.oiap free] at replied opened
  obtain ⟨tag, size, -, word, nonce⟩ := replied.answer
  have accepted : answered.checked 34 (.ok ()) = .ok () := by
    rw [Machine.checked, if_pos ⟨size.symm, tag⟩]
  rw [accepted] at run
  have keeps : Keeps contents (Function.update contents s (some (read mem s.toNat 49))) :=
    .fresh fresh _
  refine ⟨_, _, reached, run, keeps, opened, ⟨?_, ?_, ?_⟩, fun other second different known => ?_⟩
  · exact ⟨read mem s.toNat 49, by simp only [Function.update_self]⟩
  · simp only [Function.update_self, oiapSession, word]
  · simp only [Function.update_self, oiapSession, nonce, Block.ofList_bytes]
  · exact (known.opened different fresh (chip.freeHandle_free _ _ free) _ _ _).keeps keeps

end Sessions

section Blobs

variable {σ κ : Type} {device : TisDevice σ} {mmap : UInt32} {tpm : FifoTpm device mmap κ}
  {area : HeapArea} {core : κ} {used : Nat} {contents : UInt32 → Option (List UInt8)}
  {store : Store} {m reached : Machine σ}

/-- A blob comes from a request that the TPM has granted. -/
theorem tpmSeal_result (reliable : tpm.Reliable)
    (linked : Linked tpm area core used contents store m) {keyHandleIn : UInt32}
    {encAuthIn sharedSecret : Block 20} {pcrInfoIn : TpmPcrInfoLong}
    {inDataIn inDataSizeIn : UInt32} {session : SessionSlot} {blob : TpmStoredData12}
    (fits : 87 + (sizeofPcrInfoLong pcrInfoIn).toNat + inDataSizeIn.toNat ≤ 1024)
    (nonNull : ∀ ptr ∈ (AuthorisedCommand.sealData keyHandleIn encAuthIn pcrInfoIn inDataIn
      inDataSizeIn session sharedSecret).pointers m, ptr ≠ 0)
    (run : tpmSeal device keyHandleIn encAuthIn pcrInfoIn inDataIn inDataSizeIn session
      sharedSecret m = .ok (.ok blob) reached) :
    resultOf (tpm.exec core ((AuthorisedCommand.sealData keyHandleIn encAuthIn pcrInfoIn inDataIn
      inDataSizeIn session sharedSecret).request m).encode).1 = 0 := by
  obtain ⟨answered, replied, -, whole⟩ := AuthorisedCommand.run_replied (.sealData keyHandleIn
    encAuthIn pcrInfoIn inDataIn inDataSizeIn session sharedSecret) fits nonNull reliable linked
  obtain ⟨ret, parsed, parses, finish⟩ := Prog.bind_eq_ok.mp (whole.symm.trans run)
  obtain ⟨_, _, emitted, finished⟩ := Prog.bind_eq_ok.mp finish
  cases emitted
  cases finished
  have post := (sealResponse_runs rfl (length_outputSource answered)
    fun free : ¬ True => (free trivial).elim).of_ok
      (AuthorisedCommand.receiving_start replied.heap replied.tracks) parses
  have result := replied.result (tpm.framed _ _)
  rw [← slice_outputSource answered (by omega), ← Source.result] at result
  rw [← result]
  by_contra failed
  cases post.1 failed

end Blobs

section Unsealing

variable {σ κ : Type} {device : TisDevice σ} {mmap : UInt32} {tpm : FifoTpm device mmap κ}
  {area : HeapArea} {core : κ} {used : Nat} {contents : UInt32 → Option (List UInt8)}
  {store : Store} {m : Machine σ} {blob : TpmStoredData12} {parentHandleIn : UInt32}
  {parentAuth dataAuth : Block 20} {parentSession dataSession : SessionSlot}

/-- The request of `TPM_Unseal` can be made. -/
structure Unsealable (blob : TpmStoredData12) (parentSession dataSession : SessionSlot)
    (m : Machine σ) : Prop where
  fits : 116 + blob.sealInfoSize.toNat + blob.encDataSize.toNat ≤ 1024
  sealInfo : blob.sealInfo ≠ 0
  encData : blob.encData ≠ 0
  parent : m.sessions parentSession ≠ 0
  data : m.sessions dataSession ≠ 0

theorem Unsealable.pointers (unsealable : Unsealable blob parentSession dataSession m) :
    ∀ ptr ∈ (AuthorisedCommand.unsealBlob blob parentHandleIn parentAuth parentSession dataAuth
      dataSession).pointers m, ptr ≠ 0 := by
  simp [AuthorisedCommand.pointers, unsealable.sealInfo, unsealable.encData, unsealable.parent,
    unsealable.data]

/-- A refused request for sealed data is an error. -/
theorem tpmUnseal_refused (reliable : tpm.Reliable)
    (linked : Linked tpm area core used contents store m)
    (unsealable : Unsealable blob parentSession dataSession m)
    (refused : resultOf (tpm.exec core ((AuthorisedCommand.unsealBlob blob parentHandleIn
      parentAuth parentSession dataAuth dataSession).request m).encode).1 ≠ 0) :
    ∃ error reached, error ≠ .none ∧
      tpmUnseal device blob parentHandleIn parentAuth parentSession dataAuth dataSession m =
        .ok (.error error ⟨0, 0⟩) reached := by
  obtain ⟨answered, replied, -, run⟩ := AuthorisedCommand.run_replied (.unsealBlob blob
    parentHandleIn parentAuth parentSession dataAuth dataSession) unsealable.fits
    unsealable.pointers reliable linked
  have result := replied.result (tpm.framed _ _)
  rw [← slice_outputSource answered (by omega), ← Source.result] at result
  rw [← result] at refused
  obtain ⟨ret, parsed, parses, post⟩ := (@unsealResponse_runs _ area answered
    (outputSource answered) ⟨used, contents, answered.sessionAt, 0⟩ False parentAuth dataAuth
    parentSession dataSession (m.sessions parentSession) (m.sessions dataSession) rfl
    (length_outputSource answered)
    fun _ => ⟨unsealable.parent, unsealable.data, fun zero => (refused zero).elim⟩).returns
      answered (AuthorisedCommand.receiving_start replied.heap replied.tracks)
  rw [post.1 refused] at parses
  exact ⟨_, _, by simp [tpmError], run.trans (Prog.bind_ok parses _)⟩

/-- Sealed data that the TPM gives back, in a new block.  The caller accepts them if the
response is made with its secrets. -/
theorem tpmUnseal_answered (reliable : tpm.Reliable)
    (linked : Linked tpm area core used contents store m)
    (unsealable : Unsealable blob parentSession dataSession m) {data : List UInt8}
    {parentSecret dataSecret parentEven dataEven : Block 20} {parentContinues dataContinues : UInt8}
    (positive : 0 < data.length) (short : 96 + data.length ≤ 1024)
    (room : used + data.length / 8 + 2 ≤ area.units)
    (grants : (tpm.exec core ((AuthorisedCommand.unsealBlob blob parentHandleIn parentAuth
        parentSession dataAuth dataSession).request m).encode).1 =
      (TpmWire.Response.granted tagRspAuth2Command ordUnseal
        (be32 (UInt32.ofNat data.length) ++ data)
        [⟨parentSecret, parentEven, (m.sessionAt (m.sessions parentSession)).nonceOdd,
            parentContinues⟩,
          ⟨dataSecret, dataEven, (m.sessionAt (m.sessions dataSession)).nonceOdd,
            dataContinues⟩]).encode) :
    ∃ ret reached,
      tpmUnseal device blob parentHandleIn parentAuth parentSession dataAuth dataSession m =
        .ok ret reached ∧
      (parentSecret = parentAuth → dataSecret = dataAuth → ret.exception = .none) ∧
      (ret.exception = .none → ∃ after,
        Linked tpm area (tpm.exec core ((AuthorisedCommand.unsealBlob blob parentHandleIn
            parentAuth parentSession dataAuth dataSession).request m).encode).2
          (used + data.length / 8 + 2) (Function.update contents ret.value.data (some data)) after
          reached) := by
  let command : AuthorisedCommand HeapData :=
    .unsealBlob blob parentHandleIn parentAuth parentSession dataAuth dataSession
  let response : TpmWire.Response := .granted tagRspAuth2Command ordUnseal
    (be32 (UInt32.ofNat data.length) ++ data)
    [⟨parentSecret, parentEven, (m.sessionAt (m.sessions parentSession)).nonceOdd,
        parentContinues⟩,
      ⟨dataSecret, dataEven, (m.sessionAt (m.sessions dataSession)).nonceOdd, dataContinues⟩]
  obtain ⟨answered, replied, objects, run⟩ := AuthorisedCommand.run_replied command
    unsealable.fits unsealable.pointers reliable linked
  rw [show (tpm.exec core (command.request m).encode).1 = response.encode from grants]
    at replied
  have params : response.params.length = 4 + data.length := by
    simp [response, TpmWire.Response.granted]
  have size : response.size = 96 + data.length := by
    rw [TpmWire.Response.size, params]
    simp [response, TpmWire.Response.granted]
    omega
  have length := length_outputSource answered
  have carries : (outputSource answered).Carries response := replied.carries (by omega)
  have wellFormed : response.WellFormed := ⟨rfl, by omega⟩
  have inside : response.size ≤ (outputSource answered).bytes.length := by omega
  have result : (outputSource answered).result = 0 := carries.result_eq wellFormed inside
  have bytes := carries.params_eq wellFormed inside
  rw [params, Source.slice_add] at bytes
  obtain ⟨word, dataBytes⟩ := List.append_inj bytes (by
    rw [Source.length_slice _ (by omega), length_be32])
  have count : ofBe32 ((outputSource answered).slice 10 4) = UInt32.ofNat data.length := by
    rw [word, ofBe32_be32]
  have countNat : (UInt32.ofNat data.length).toNat = data.length := toNat_ofNat_small (by omega)
  obtain ⟨ret, parsed, parses, post⟩ := (@unsealResponse_runs _ area answered
    (outputSource answered) ⟨used, contents, answered.sessionAt, 0⟩ False parentAuth dataAuth
    parentSession dataSession (m.sessions parentSession) (m.sessions dataSession) rfl length
    fun _ => ⟨unsealable.parent, unsealable.data, fun _ => by
      rw [count, UInt32.lt_iff_toNat_lt, countNat]
      exact ⟨positive, by omega, room⟩⟩).returns answered
        (AuthorisedCommand.receiving_start replied.heap replied.tracks)
  obtain ⟨dataSize, -, accepted, unpacked⟩ := post.2 result
  rw [count] at dataSize
  refine ⟨ret, _, run.trans (Prog.bind_ok parses _), fun sameParent sameData => ?_,
    fun none => ?_⟩
  · subst sameParent
    subst sameData
    refine accepted.mpr ?_
    rw [objects, dataSize, countNat, ← params]
    exact carries.accepted wellFormed inside (TpmWire.Response.granted_authentic ..)
  · obtain ⟨changed, unpacking⟩ := unpacked none
    have linkedNext := replied.unpacked unpacking.toReceiving
      (parsed.log ++ [.finished ordUnseal ret.exception])
    simp only [Progress.store, dataSize, countNat] at linkedNext
    rw [dataBytes] at linkedNext
    exact ⟨_, linkedNext⟩

end Unsealing

section Registers

variable {σ : Type} {device : TisDevice σ} {mmap : UInt32}
  {tpm : FifoTpm device mmap SealingState} {chip : SealingChip} {area : HeapArea}
  {core : SealingState} {used : Nat} {contents : UInt32 → Option (List UInt8)}
  {store : Store} {m : Machine σ}

theorem read_write_overwrite (mem : Mem) {addr offset len : Nat} {data : List UInt8}
    (inside : offset + data.length ≤ len) :
    read (write mem (addr + offset) data) addr len =
      overwriteBytes (read mem addr len) offset data := by
  obtain ⟨rest, rfl⟩ := Nat.exists_eq_add_of_le inside
  rw [read_add, read_add, read_write_self, overwriteBytes, take_read _ _ _ _ (by omega),
    drop_read _ _ _ _ (by omega), read_write_disjoint _ (.inl (by omega)),
    read_write_disjoint _ (.inr (by omega)), Nat.add_sub_cancel_left]

/-- Bytes that are stored in a tracked block. -/
theorem storeBytes_linked (linked : Linked tpm area core used contents store m)
    (ptr offset : UInt32) {bytes : List UInt8} (data : List UInt8)
    (tracked : contents ptr = some bytes)
    (inside : offset.toNat + data.length ≤ bytes.length) :
    ∃ reached, storeBytes ptr offset data m = .ok () reached ∧
      Linked tpm area core used
        (Function.update contents ptr (some (overwriteBytes bytes offset.toNat data))) store
        reached := by
  have nonNull := linked.tracks.nonNull tracked
  have content := linked.tracks.read_eq tracked
  have agree (a : Nat) (outside : a < ptr.toNat ∨ ptr.toNat + bytes.length ≤ a) :
      write m.mem (ptr.toNat + offset.toNat) data a = m.mem a :=
    write_outside m.mem (by omega)
  have changed := linked.tracks.change tracked agree
  rw [read_write_overwrite _ inside, content] at changed
  rw [storeBytes, if_neg nonNull, Prog.modify_apply]
  exact ⟨_, rfl, linked.locality, linked.idle, linked.heap, changed, linked.store_eq⟩

/-- The digest of some registers. -/
theorem getTpmCompositeHash_linked (linked : Linked tpm area core used contents store m)
    {select values : UInt32} {selection bytes : List UInt8}
    (selectTracked : contents select = some selection) (selectLength : selection.length = 3)
    (valuesTracked : contents values = some bytes) (valuesLength : bytes.length = 40) :
    ∃ reached, getTpmCompositeHash ⟨⟨3, select⟩, 40, values⟩ m =
        .ok (SecureHash.sha1 (be16 3 ++ selection ++ be32 40 ++ bytes)) reached ∧
      Linked tpm area core used contents store reached := by
  have selectNonNull := linked.tracks.nonNull selectTracked
  have valuesNonNull := linked.tracks.nonNull valuesTracked
  have selectRead := linked.tracks.read_eq selectTracked
  have valuesRead := linked.tracks.read_eq valuesTracked
  rw [selectLength] at selectRead
  rw [valuesLength] at valuesRead
  let part : Machine σ → Prop := fun reached => { reached with locals := m.locals } = m
  have hashed {params : List UInt8} (data : List UInt8)
      (bounded : params.length + data.length < 2 ^ 29) :
      Prog.Returns (Holding part fun sctx _ => Absorbed sctx params)
        (marshalBytes data .null .plain)
        (fun _ => Holding part fun sctx _ => Absorbed sctx (params ++ data)) :=
    Prog.Returns.bind (hashBytes_plain bounded) fun _ => Prog.Returns.ret fun _ holds => holds
  have array {params : List UInt8} {ptr size : UInt32} (nonNull : ptr ≠ 0)
      {data : List UInt8} (content : read m.mem ptr.toNat size.toNat = data)
      (bounded : params.length + data.length < 2 ^ 29) :
      Prog.Returns (Holding part fun sctx _ => Absorbed sctx params)
        (marshalArray ptr size .null .plain)
        (fun _ => Holding part fun sctx _ => Absorbed sctx (params ++ data)) := by
    intro reached holds
    have same : { reached with locals := m.locals } = m := holds.1
    have memory := congrArg Machine.mem same
    dsimp only at memory
    rw [marshalArray, assert, if_pos nonNull, Prog.bind_pure_apply, Prog.bind_get, memory,
      content]
    exact hashed data bounded reached holds
  have digest : Prog.Returns part (getTpmCompositeHash ⟨⟨3, select⟩, 40, values⟩)
      (fun value reached =>
        value = SecureHash.sha1 (be16 3 ++ selection ++ be32 40 ++ bytes) ∧ part reached) := by
    refine Prog.Returns.bind sha1InitLocal_holds fun _ => ?_
    refine Prog.Returns.bind (Prog.Returns.bind (hashed (be16 3) (by simp)) fun _ =>
      array selectNonNull selectRead (by simp [selectLength])) fun _ => ?_
    refine Prog.Returns.bind (hashed (be32 40) (by simp [selectLength])) fun _ => ?_
    refine Prog.Returns.bind (array valuesNonNull valuesRead
      (by simp [selectLength, valuesLength])) fun _ => ?_
    refine Prog.Returns.bind (sha1FinishLocal_holds
      (by simp [selectLength, valuesLength])) fun _ => ?_
    exact Prog.Runs.returns sctxHash_runs
  obtain ⟨value, reached, run, rfl, same⟩ := digest m rfl
  have kept : { reached with locals := m.locals } = m := same
  refine ⟨reached, run, linked.of_eq ?_⟩
  rw [← kept]

/-- The selection of the registers 18 and 19. -/
def bootSelection : List UInt8 :=
  be16 3 ++ [0x00, 0x00, 0x0c]

theorem pcrComposite_bootSelection (pcrs : Nat → Block 20) :
    pcrComposite pcrs bootSelection =
      bootSelection ++ be32 40 ++ ((pcrs 18).bytes ++ (pcrs 19).bytes) := by
  have selected : selectedPcrs bootSelection = [18, 19] := by decide
  have values : (((selectedPcrs bootSelection).map fun pcr => (pcrs pcr).bytes).flatten) =
      (pcrs 18).bytes ++ (pcrs 19).bytes := by
    rw [selected]
    simp
  have length : ((pcrs 18).bytes ++ (pcrs 19).bytes).length = 40 := by simp
  simp only [pcrComposite, values, length]
  rfl

/-- What `get_pcr_info` describes: the present values of the registers, also for the
release. -/
def bootPcrInfo (select : UInt32) (pcrs : Nat → Block 20) : TpmPcrInfoLong :=
  ⟨tagPcrInfoLong, locTwo, locTwo, ⟨3, select⟩, ⟨3, select⟩,
    compositeDigest pcrs bootSelection, compositeDigest pcrs bootSelection⟩

/-- The values of the registers are read and hashed. -/
theorem getPcrInfo_linked (reliable : tpm.Reliable) (follows : tpm.Follows chip)
    (linked : Linked tpm area core used contents store m) (room : used + 9 ≤ area.units) :
    ∃ select blocks reached,
      getPcrInfo device m = .ok (.ok (bootPcrInfo select core.pcrs)) reached ∧
      Keeps contents blocks ∧ blocks select = some [0x00, 0x00, 0x0c] ∧
      Linked tpm area core (used + 9) blocks store reached := by
  have units : (2 * 20 : UInt32).toNat = 40 ∧ (3 : UInt32).toNat = 3 := ⟨rfl, rfl⟩
  obtain ⟨values, mem, allocates, -, valuesFresh, first⟩ :=
    linked.alloc (2 * 20) (by decide) (by omega)
  obtain ⟨select, extended, allocatesNext, -, selectFresh, second⟩ :=
    first.alloc 3 (by decide) (by omega)
  have different : select ≠ values := by
    rintro rfl
    rw [Function.update_self] at selectFresh
    cases selectFresh
  rw [Function.update_of_ne different] at selectFresh
  obtain ⟨a, b, c, selectBytes⟩ := List.length_eq_three.mp (length_read extended select.toNat 3)
  rw [units.1, units.2, selectBytes] at second
  have valuesLength : (read mem values.toNat 40).length = 40 := length_read ..
  -- the three bytes of the selection
  obtain ⟨_, firstRun, third⟩ := storeBytes_linked second select 0 [0x00]
    (Function.update_self ..) (by simp)
  obtain ⟨_, secondRun, fourth⟩ := storeBytes_linked third select 1 [0x00]
    (Function.update_self ..) (by simp [overwriteBytes])
  obtain ⟨_, thirdRun, fifth⟩ := storeBytes_linked fourth select 2 [0x0c]
    (Function.update_self ..) (by simp [overwriteBytes])
  have selected : overwriteBytes (overwriteBytes (overwriteBytes [a, b, c] 0 [0x00]) 1 [0x00]) 2
      [0x0c] = [0x00, 0x00, 0x0c] := rfl
  simp only [Function.update_idem, UInt32.toNat_zero, UInt32.reduceToNat, selected] at fifth
  -- the two registers
  have pcr18 : (18 : UInt32).toNat = 18 := rfl
  have pcr19 : (19 : UInt32).toNat = 19 := rfl
  have valuesTracked : Function.update (Function.update (Function.update contents values
      (some (read mem values.toNat 40))) select (some [a, b, c])) select
        (some [0x00, 0x00, 0x0c]) values = some (read mem values.toNat 40) := by
    rw [Function.update_idem, Function.update_of_ne different.symm, Function.update_self]
  rw [Function.update_idem] at valuesTracked
  obtain ⟨_, readFirst, -, sixth⟩ :=
    tpmPCRRead_linked reliable fifth (follows.pcrRead pcr18 (by decide))
  obtain ⟨_, storeFirst, seventh⟩ := storeBytes_linked sixth values 0 (core.pcrs 18).bytes
    valuesTracked (by simp)
  obtain ⟨_, readSecond, -, eighth⟩ :=
    tpmPCRRead_linked reliable seventh (follows.pcrRead pcr19 (by decide))
  obtain ⟨_, storeSecond, ninth⟩ := storeBytes_linked eighth values 20 (core.pcrs 19).bytes
    (Function.update_self ..) (by simp [overwriteBytes])
  have both : overwriteBytes (overwriteBytes (read mem values.toNat 40) 0 (core.pcrs 18).bytes)
      20 (core.pcrs 19).bytes = (core.pcrs 18).bytes ++ (core.pcrs 19).bytes := by
    rw [overwriteBytes, overwriteBytes, List.take_zero, List.nil_append,
      List.take_left' (core.pcrs 18).length_eq]
    simp
  simp only [Function.update_idem, UInt32.toNat_zero, UInt32.reduceToNat, both] at ninth
  have selectTracked : Function.update (Function.update (Function.update contents values
      (some (read mem values.toNat 40))) select (some [0x00, 0x00, 0x0c])) values
        (some ((core.pcrs 18).bytes ++ (core.pcrs 19).bytes)) select =
          some [0x00, 0x00, 0x0c] := by
    rw [Function.update_of_ne different, Function.update_self]
  obtain ⟨reached, hashes, last⟩ := getTpmCompositeHash_linked ninth selectTracked rfl
    (Function.update_self ..) (by simp)
  have digest : SecureHash.sha1 (be16 3 ++ [0x00, 0x00, 0x0c] ++ be32 40 ++
      ((core.pcrs 18).bytes ++ (core.pcrs 19).bytes)) =
        compositeDigest core.pcrs bootSelection := by
    rw [compositeDigest, pcrComposite_bootSelection, bootSelection]
  rw [digest] at hashes
  refine ⟨select, _, reached, ?_, ?_, selectTracked, last⟩
  · rw [getPcrInfo, Prog.bind_ok (allocHeap_ok allocates),
      Prog.bind_ok (allocHeap_ok allocatesNext), Prog.bind_ok firstRun, Prog.bind_ok secondRun,
      Prog.bind_ok thirdRun, Prog.bind_ok readFirst, if_neg (by simp), Result.value_ok,
      Prog.bind_ok storeFirst, Prog.bind_ok readSecond, if_neg (by simp), Result.value_ok,
      Prog.bind_ok storeSecond]
    exact (Prog.bind_ok hashes _).trans rfl
  · exact (((Keeps.refl contents).update valuesFresh _).update selectFresh _).update valuesFresh _

end Registers

end Sable
