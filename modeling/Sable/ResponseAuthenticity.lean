import Mathlib.Data.List.Forall2
import Sable.CommandRuns

/-!
# Authenticity of responses

If an authorised command returns without an exception, the bytes its parser has
consumed are a response with the expected tag and size and with result zero,
the keyed hash of every trailer verifies under the secret of the caller, and
the values returned are the parameters of that response.
-/

namespace Sable

open ByteMemory BigEndian HaltingProgram

namespace AuthorisedCommand

variable {σ α : Type} (device : TisDevice σ)

/-- Packing and sending the request changes neither the memory nor the
sessions. -/
theorem requestPart_keeps (m : Machine σ) (command : AuthorisedCommand α) :
    Prog.Preserves (fun m => ((m.mem, m.heap), m.sessionAt, m.sessions))
      (command.requestPart device m) := by
  have events := bodyEvents_true
  have sessions : Respects True False (fun _ => True) (command.requestPart device m) := by
    cases command with
    | nvWriteValueAuth => exact nvWriteRequest_respects events _ _ _ _ _ _
    | nvReadValue =>
        exact assert_respects.bind fun _ => nvReadRequest_respects events _ _ _ _ _
    | unsealBlob => exact unsealRequest_respects events _ _ _ _ _ _
    | sealData => exact sealRequest_respects events _ _ _ _ _ _ _
  have memory : Prog.Preserves (fun m => (m.mem, m.heap))
      (command.requestPart device m) := by
    have init : Prog.Preserves (fun m : Machine σ => (m.mem, m.heap)) sha1InitLocal :=
      fun _ => rfl
    cases command with
    | nvWriteValueAuth =>
        refine init.bind fun _ => marshalHeader_keeps_memory fun _ => ?_
        unfold marshalUINT32
        repeat' first
          | with_reducible intro _
          | with_reducible apply Respects.bind
          | with_reducible apply Respects.ite
        all_goals grind
    | nvReadValue =>
        refine Prog.Preserves.bind (fun start => ?_) fun _ => init.bind fun _ =>
          marshalHeader_keeps_memory fun _ => ?_
        · rw [assert]
          split <;> rfl
        unfold marshalUINT32
        repeat' first
          | with_reducible intro _
          | with_reducible apply Respects.bind
          | with_reducible apply Respects.ite
        all_goals grind
    | unsealBlob =>
        refine init.bind fun _ => marshalHeader_keeps_memory fun _ => ?_
        unfold marshalUINT32
        repeat' first
          | with_reducible intro _
          | with_reducible apply Respects.bind
          | with_reducible apply Respects.ite
        all_goals grind
    | sealData =>
        refine init.bind fun _ => marshalHeader_keeps_memory fun _ => ?_
        unfold marshalUINT32 marshalObject
        repeat' first
          | with_reducible intro _
          | with_reducible apply Respects.bind
          | with_reducible apply Respects.ite
        all_goals grind
  intro start
  obtain ⟨objects, slots⟩ := (sessions start).sessions trivial
  exact Prod.ext (memory start) (Prod.ext objects slots)

/-- The tag of a response to the command. -/
def responseTag : AuthorisedCommand α → UInt16
  | nvWriteValueAuth .. => tagRspAuth1Command
  | nvReadValue .. => tagRspAuth1Command
  | unsealBlob .. => tagRspAuth2Command
  | sealData .. => tagRspAuth1Command

/-- The bytes of the value returned to the caller, as they lie in memory. -/
def outputs (m : Machine σ) (command : AuthorisedCommand α) (value : α) : List UInt8 :=
  match command, value with
  | nvWriteValueAuth .., () => []
  | nvReadValue .., value =>
      be32 value.dataSize ++ read m.mem value.data.toNat value.dataSize.toNat
  | unsealBlob .., value =>
      be32 value.dataSize ++ read m.mem value.data.toNat value.dataSize.toNat
  | sealData .., value => storedData12Bytes m value

/-- The secrets with the odd nonces of their sessions. -/
def checks (m : Machine σ) (command : AuthorisedCommand α) : List (Block 20 × Block 20) :=
  (command.credentials m).map fun credential =>
    (credential.1, (m.sessionAt credential.2).nonceOdd)

/-- What the parser of a response has established when it returns without an
exception. -/
structure Parsed (m : Machine σ) (command : AuthorisedCommand α) (source : Source)
    (value : α) (reached : Machine σ) : Prop where
  result : source.result = 0
  accepted : source.Accepted command.responseTag command.ordinal
    (command.outputs reached value).length (command.checks m)
  params : source.slice 10 (command.outputs reached value).length =
    command.outputs reached value
  consumed : reached.locals.uctx.bytesUnpacked = UInt32.ofNat
    (10 + (command.outputs reached value).length + 41 * (command.checks m).length)
  inside : 10 + (command.outputs reached value).length +
    41 * (command.checks m).length ≤ 1024
  tisOut : read reached.tisOut 0 1024 = source.bytes

theorem tisOut_of_unpacking {area : HeapArea} {base m : Machine σ} {source : Source}
    {progress : Progress} (unpacking : Unpacking area base source progress m) :
    m.tisOut = base.tisOut := by
  have same := congrArg Machine.tisOut unpacking.rest
  exact same

/-- The state in which the parser of a response starts. -/
theorem receiving_start {area : HeapArea} {base : Machine σ} {used : Nat}
    {contents : UInt32 → Option (List UInt8)} (heap : base.heap = area.heap)
    (tracks : Tracks area used contents base.mem) :
    Receiving area base (outputSource base) ⟨used, contents, base.sessionAt, 0⟩ base := by
  refine ⟨rfl, heap, tracks, rfl, ?_, Nat.zero_le _, ?_⟩
  · simp [Source.Available, outputSource]
  · simp [outputSource]

/-- The bytes behind the pointer of a returned block are those of the response. -/
theorem heapData_eq {area : HeapArea} {base reached : Machine σ} {source : Source}
    {progress : Progress} {value : HeapData}
    (dataSize : value.dataSize = ofBe32 (source.slice 10 4))
    (unpacking : Unpacking area base source progress reached)
    (tracked : progress.contents value.data =
      some (source.slice 14 value.dataSize.toNat))
    (inside : 14 + value.dataSize.toNat ≤ source.bytes.length) :
    source.slice 10 (4 + value.dataSize.toNat) =
      be32 value.dataSize ++ read reached.mem value.data.toNat value.dataSize.toNat := by
  have content := unpacking.tracks.read_eq tracked
  rw [source.length_slice inside] at content
  rw [content, Source.slice_add, dataSize, be32_ofBe32 (source.length_slice (by omega))]

/-- The serialised form of a returned record is that of the response. -/
theorem storedData12Bytes_eq {area : HeapArea} {base reached : Machine σ}
    {source : Source} {before : UInt32 → Option (List UInt8)} {pos : Nat}
    {progress : Progress} {value : TpmStoredData12}
    (blob : source.BlobAt before pos value)
    (unpacking : Unpacking area base source progress reached)
    (info : progress.contents value.sealInfo =
      some (source.slice (pos + 8) value.sealInfoSize.toNat))
    (enc : progress.contents value.encData = some (source.slice
      (pos + 8 + value.sealInfoSize.toNat + 4) value.encDataSize.toNat)) :
    storedData12Bytes reached value = source.slice pos (source.blobLength pos) := by
  obtain ⟨tag, et, sealInfoSize, encDataSize, -, -, -, inside⟩ := blob
  rw [Source.blobLength] at inside
  have infoBytes := unpacking.tracks.read_eq info
  have encBytes := unpacking.tracks.read_eq enc
  rw [source.length_slice (by rw [sealInfoSize]; omega)] at infoBytes
  rw [source.length_slice (by rw [sealInfoSize, encDataSize]; omega)] at encBytes
  have infoField : be32 (source.sealInfoSizeAt pos) = source.slice (pos + 4) 4 :=
    be32_ofBe32 (source.length_slice (by omega))
  have encField : be32 (source.encDataSizeAt pos) =
      source.slice (pos + 8 + (source.sealInfoSizeAt pos).toNat) 4 :=
    be32_ofBe32 (source.length_slice (by omega))
  rw [storedData12Bytes, infoBytes, encBytes, Source.slice_blob, tag, et,
    be16_ofBe16 (source.length_slice (by omega)),
    be16_ofBe16 (source.length_slice (by omega)), sealInfoSize, encDataSize,
    infoField, encField]

/-- A response whose parser has come to its end, right behind the last trailer. -/
theorem Parsed.of_unpacking {m base reached : Machine σ} {command : AuthorisedCommand α}
    {area : HeapArea} {progress : Progress} {value : α} {count : Nat}
    (unpacking : Unpacking area base (outputSource base) progress reached)
    (result : (outputSource base).result = 0)
    (length : (command.outputs reached value).length = count)
    (accepted : (outputSource base).Accepted command.responseTag command.ordinal count
      (command.checks m))
    (params : (outputSource base).slice 10 count = command.outputs reached value)
    (position : progress.pos = 10 + count + 41 * (command.checks m).length) :
    command.Parsed m (outputSource base) value reached := by
  subst length
  refine ⟨result, accepted, params, ?_, ?_, ?_⟩
  · rw [unpacking.context, position]
  · rw [← position, ← length_outputSource base]
    exact unpacking.bound
  · rw [tisOut_of_unpacking unpacking, outputSource]

/-- A parser that returns without an exception has read the result zero. -/
theorem result_of_ok {source : Source} {value other : α}
    (failed : source.result ≠ 0 → Result.ok value = .error (tpmError source.result) other) :
    source.result = 0 := by
  by_contra nonzero
  cases failed nonzero

theorem responsePart_parsed {m base reached : Machine σ} {command : AuthorisedCommand α}
    {area : HeapArea} {blocks : List Allocation} {value : α}
    (heap : base.heap = area.heap) (layout : Layout area base.mem blocks)
    (objects : base.sessionAt = m.sessionAt)
    (nonNull : ∀ ptr ∈ command.pointers m, ptr ≠ 0)
    (run : command.responsePart m base = .ok (.ok value) reached) :
    command.Parsed m (outputSource base) value reached := by
  have tracks : Tracks area (endUnit 0 blocks) (fun _ => none) base.mem :=
    ⟨blocks, layout, rfl, by simp⟩
  have start := receiving_start heap tracks
  have length := length_outputSource base
  cases command with
  | nvWriteValueAuth dataIn dataSizeIn nvIndexIn offsetIn nvAuth session =>
      have post := (nvWriteResponse_runs rfl length
        fun free : ¬ True => (free trivial).elim).of_ok start run
      have result := result_of_ok post.1
      obtain ⟨unpacking, accepted⟩ := post.2 result
      have good := accepted.mp rfl
      rw [objects] at good
      exact Parsed.of_unpacking unpacking result rfl good rfl rfl
  | nvReadValue nvIndexIn offsetIn dataSizeIn ownerAuthIn session =>
      simp only [pointers, List.forall_mem_cons] at nonNull
      have post := (nvReadResponse_runs rfl length nonNull.1
        fun free : ¬ True => (free trivial).elim).of_ok start run
      have result := result_of_ok post.1
      obtain ⟨dataSize, -, unpacking, accepted⟩ := post.2 result
      have bound : 14 + value.dataSize.toNat + 21 + 20 ≤ 1024 := by
        rw [← length]
        exact unpacking.bound
      have good := accepted.mp rfl
      rw [objects] at good
      have params : (outputSource base).slice 10 (4 + value.dataSize.toNat) =
          be32 value.dataSize ++ read reached.mem value.data.toNat value.dataSize.toNat := by
        refine heapData_eq dataSize unpacking ?_ (by omega)
        simp only [Progress.advance, Progress.receive, Progress.store, Result.value_ok,
          Function.update_self]
      refine Parsed.of_unpacking unpacking result (by simp [outputs]) good params ?_
      simp only [Progress.advance, Progress.receive, Progress.store, checks, credentials]
      simp
      omega
  | unsealBlob inDataIn parentHandleIn parentAuth parentSession dataAuth dataSession =>
      have post := (unsealResponse_runs rfl length
        fun free : ¬ True => (free trivial).elim).of_ok start run
      have result := result_of_ok post.1
      obtain ⟨dataSize, -, accepted, finished⟩ := post.2 result
      obtain ⟨_, unpacking⟩ := finished rfl
      have bound : 14 + value.dataSize.toNat + 21 + 20 + 21 + 20 ≤ 1024 := by
        rw [← length]
        exact unpacking.bound
      have good := accepted.mp rfl
      rw [objects] at good
      have params : (outputSource base).slice 10 (4 + value.dataSize.toNat) =
          be32 value.dataSize ++ read reached.mem value.data.toNat value.dataSize.toNat := by
        refine heapData_eq dataSize unpacking ?_ (by omega)
        simp only [Progress.store, Result.value_ok, Function.update_self]
      refine Parsed.of_unpacking unpacking result (by simp [outputs]) good params ?_
      simp only [checks, credentials]
      simp
      omega
  | sealData keyHandleIn encAuthIn pcrInfoIn inDataIn inDataSizeIn session sharedSecret =>
      have post := (sealResponse_runs rfl length
        fun free : ¬ True => (free trivial).elim).of_ok start run
      have result := result_of_ok post.1
      obtain ⟨blob, unpacking, accepted⟩ := post.2 result
      have different : value.encData ≠ value.sealInfo := blob.different
      have params : storedData12Bytes reached value =
          (outputSource base).slice 10 ((outputSource base).blobLength 10) := by
        refine storedData12Bytes_eq blob unpacking ?_ ?_
        · simp only [Progress.advance, Progress.receive, Progress.store,
            Progress.storeBlob, Result.value_ok, Function.update_self,
            Function.update_of_ne different.symm]
        · simp only [Progress.advance, Progress.receive, Progress.store,
            Progress.storeBlob, Result.value_ok, Function.update_self]
      have size : (outputs reached (sealData keyHandleIn encAuthIn pcrInfoIn inDataIn
          inDataSizeIn session sharedSecret) value).length =
            (outputSource base).blobLength 10 := by
        have inside := blob.inside
        simp only [outputs, params]
        exact Source.length_slice _ inside
      have position : 10 + 8 + value.sealInfoSize.toNat + 4 + value.encDataSize.toNat =
          10 + (outputSource base).blobLength 10 := by
        have info : value.sealInfoSize = _ := blob.sealInfoSize
        have enc : value.encDataSize = _ := blob.encDataSize
        rw [info, enc, Source.blobLength]
        omega
      have good := (accepted.mp rfl).1
      rw [objects] at good
      refine Parsed.of_unpacking unpacking result size good params.symm ?_
      simp only [Progress.advance, Progress.receive, Progress.store,
        Progress.storeBlob, Result.value_ok, checks, credentials]
      rw [position]
      simp

/-- The heap of the machine has been initialised and the headers of its nodes
are intact. -/
def HeapReady (m : Machine σ) : Prop :=
  ∃ area blocks, m.heap = HeapArea.heap area ∧ Layout area m.mem blocks

/-- A command that succeeds has parsed its response in a state that differs from the first
one in neither the memory nor the session objects. -/
theorem run_received {command : AuthorisedCommand α} {m reached : Machine σ} {value : α}
    (run : command.run device m = .ok (.ok value) reached) :
    ∃ base parsed : Machine σ, base.mem = m.mem ∧ base.heap = m.heap ∧
      base.sessionAt = m.sessionAt ∧ (∀ ptr ∈ command.pointers m, ptr ≠ 0) ∧
      command.responsePart m base = .ok (.ok value) parsed ∧
      reached = { parsed with log := parsed.log ++ [.finished command.ordinal .none] } := by
  rw [run_eq] at run
  obtain ⟨transmitRet, base, sent, run⟩ := Prog.bind_eq_ok.mp run
  obtain ⟨ret, parsed, received, run⟩ := Prog.bind_eq_ok.mp run
  obtain ⟨_, logged, emitted, finished⟩ := Prog.bind_eq_ok.mp run
  cases emitted
  cases finished
  have kept := (requestPart_keeps device m command).eq_of_ok sent
  have nonNull : ∀ ptr ∈ command.pointers m, ptr ≠ 0 := by
    intro ptr member null
    have stops := (requestPart_stops device ⟨ptr, member, null⟩ (command.issuedAt m)).1
    rw [sent] at stops
    cases stops
  have transmitted : transmitRet.exception = .none := by
    by_contra failed
    rw [afterRequest, if_pos failed] at received
    have same : Result.error transmitRet.exception command.noValue = .ok value := by
      injection received
    exact failed (congrArg Result.exception same)
  rw [afterRequest, if_neg (by simpa using transmitted)] at received
  exact ⟨base, parsed, congrArg (fun part => part.1.1) kept,
    congrArg (fun part => part.1.2) kept, congrArg (fun part => part.2.1) kept, nonNull,
    received, rfl⟩

/-- A command that returns without an exception has parsed an authentic
response. -/
theorem run_parsed {command : AuthorisedCommand α} {m reached : Machine σ} {value : α}
    (ready : HeapReady m) (run : command.run device m = .ok (.ok value) reached) :
    ∃ base : Machine σ, command.Parsed m (outputSource base) value reached := by
  obtain ⟨area, blocks, heap, layout⟩ := ready
  obtain ⟨base, parsed, memory, heapKept, objects, nonNull, received, rfl⟩ :=
    run_received device run
  rw [← memory] at layout
  obtain ⟨result, accepted, params, consumed, inside, tisOut⟩ :=
    responsePart_parsed (heapKept.trans heap) layout objects nonNull received
  exact ⟨base, result, accepted, params, consumed, inside, tisOut⟩

theorem trailerCount_responseTag (m : Machine σ) (command : AuthorisedCommand α) :
    TpmWire.trailerCount command.responseTag = (command.checks m).length := by
  cases command <;> rfl

/-- Success of an authorised command: the bytes that the parser consumed are a
response of the right size with the expected tag and result zero, the trailers
verify under the caller's secrets and the nonces of the request, and the bytes
returned are the parameters under the digest. -/
theorem responses_authentic (command : AuthorisedCommand α) {m reached : Machine σ}
    {value : α} (ready : HeapReady m)
    (run : command.run device m = .ok (.ok value) reached) :
    ∃ response,
      TpmWire.Response.decode
        (read reached.tisOut 0 reached.locals.uctx.bytesUnpacked.toNat) =
          some response ∧
      ofBe32 (read reached.tisOut 2 4) = reached.locals.uctx.bytesUnpacked ∧
      response.tag = command.responseTag ∧ response.result = 0 ∧
      response.params = command.outputs reached value ∧
      List.Forall₂ (fun trailer credential =>
          response.Authentic command.ordinal trailer
            (m.sessionAt credential.2).nonceOdd credential.1)
        response.trailers (command.credentials m) := by
  obtain ⟨base, result, accepted, params, consumed, inside, tisOut⟩ :=
    run_parsed device ready run
  set count := (command.checks m).length with countEq
  set paramsLength := (command.outputs reached value).length with paramsLengthEq
  have length := length_outputSource base
  have consumedNat : reached.locals.uctx.bytesUnpacked.toNat =
      10 + paramsLength + 41 * count := by
    rw [consumed]
    exact toNat_ofNat_of_le inside
  have window (pos len : Nat) (fits : pos + len ≤ 1024) :
      read reached.tisOut pos len = (outputSource base).slice pos len := by
    rw [Source.slice, ← tisOut, drop_read _ _ _ _ (by omega), Nat.zero_add,
      take_read _ _ _ _ (by omega)]
  have decoded := Source.decode_slice length inside
    (trailerCount_responseTag m command) accepted
  obtain ⟨tag, size, trailers⟩ := accepted
  refine ⟨(outputSource base).response paramsLength count, ?_, ?_, tag, result, params, ?_⟩
  · rw [consumedNat, window _ _ (by omega)]
    exact decoded
  · rw [window _ _ (by omega), consumed]
    exact size
  · rw [checks, List.forall₂_map_right_iff] at trailers
    exact trailers

section Example

/-- The response of a TPM that grants a write. -/
def writtenResponse : TpmWire.Response :=
  .granted tagRspAuth1Command ordNvWriteValueAuth []
    [⟨Block.zero 20, Block.zero 20, Block.zero 20, 0⟩]

theorem writtenResponse_framed : Framed writtenResponse.encode :=
  framed_response (by decide)

def writtenExec : Unit → List UInt8 → List UInt8 × Unit :=
  fun core _ => (writtenResponse.encode, core)

/-- A machine with a heap of eight units and a session. -/
def writingMachine : Machine (FifoView Unit) :=
  { Machine.blank (FifoView.idle ()) with
    mem := MemNode.store (fun _ => 0) 8 ⟨7, 0⟩
    sessions := fun _ => 0x100 }

theorem writingMachine_ready :
    Layout ⟨8, 64, by decide, by decide⟩ writingMachine.mem [] := by
  have fresh : initHeap 8 64 (fun _ => 0) = .ok () writingMachine.mem := by
    have size : (64 : UInt32) >>> 3 - 1 = 7 := by decide
    rw [initHeap, if_neg (by decide), if_neg (by decide), Prog.modify_apply, size]
    rfl
  exact initHeap_layout (by decide) fresh

/-- The write of one byte. -/
def writeByte : AuthorisedCommand Unit :=
  nvWriteValueAuth 0x200 1 0 0 (Block.zero 20) .zero

theorem writeByte_succeeds :
    ∃ reached, writeByte.run (steadyDevice writtenExec) writingMachine =
      .ok (.ok ()) reached := by
  obtain ⟨answered, sent, run⟩ := run_answered (by decide : writeByte.frameSize ≤ 1024)
    (by simp [writeByte, pointers, writingMachine])
    (steadyTpm_reliable writtenExec 0 fun _ _ => writtenResponse_framed) rfl
    (rfl : (steadyTpm writtenExec 0 _).view writingMachine.world = FifoView.idle ())
  have length := length_outputSource answered
  have carries : (outputSource answered).Carries writtenResponse :=
    sent.carries (by decide)
  have wellFormed : writtenResponse.WellFormed := ⟨rfl, by decide⟩
  have inside : writtenResponse.size ≤ (outputSource answered).bytes.length := by
    rw [length]
    decide
  have tracks : Tracks ⟨8, 64, by decide, by decide⟩ 0 (fun _ => none) answered.mem := by
    rw [sent.mem_eq]
    exact ⟨[], writingMachine_ready, rfl, by simp⟩
  obtain ⟨ret, parsed, response, post⟩ :=
    (@nvWriteResponse_runs _ _ _ _ _ False (Block.zero 20) .zero 0x100 rfl length
      fun _ => by decide).returns answered (receiving_start sent.heap_eq tracks)
  have result : (outputSource answered).result = 0 := carries.result_eq wellFormed inside
  have accepted := carries.accepted wellFormed inside
    (TpmWire.Response.granted_authentic tagRspAuth1Command ordNvWriteValueAuth []
      [⟨Block.zero 20, Block.zero 20, Block.zero 20, 0⟩])
  have none : ret.exception = .none := by
    apply (post.2 result).2.mpr
    simp only [sent.sessionAt_eq]
    exact accepted
  have ok : ret = .ok () := Result.eq_ok none
  have parse : writeByte.responsePart writingMachine answered = .ok ret parsed := response
  rw [run, Prog.bind_ok parse, ok]
  exact ⟨_, rfl⟩

theorem responses_authentic_nvWrite :
    ∃ reached response, writeByte.run (steadyDevice writtenExec) writingMachine =
        .ok (.ok ()) reached ∧
      TpmWire.Response.decode
        (read reached.tisOut 0 reached.locals.uctx.bytesUnpacked.toNat) =
          some response ∧
      response.tag = tagRspAuth1Command ∧ response.result = 0 ∧
      List.Forall₂ (fun trailer credential =>
          response.Authentic ordNvWriteValueAuth trailer
            (writingMachine.sessionAt credential.2).nonceOdd credential.1)
        response.trailers [(Block.zero 20, 0x100)] := by
  obtain ⟨reached, run⟩ := writeByte_succeeds
  obtain ⟨response, decoded, -, tag, result, -, trailers⟩ :=
    responses_authentic (steadyDevice writtenExec) writeByte
      ⟨_, _, rfl, writingMachine_ready⟩ run
  exact ⟨reached, response, run, decoded, tag, result, trailers⟩

end Example

end AuthorisedCommand

end Sable
