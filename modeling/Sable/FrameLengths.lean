import Sable.CommandRuns
import Sable.ResponseDelivery

/-!
# The length field of a request

Every command computes the length of its frame by hand before it packs it, and
asserts it afterwards.  For every command and all arguments whose frame fits the
input buffer, the assertion holds, and the length field in the frame that the
command sends is the length of this frame.
-/

namespace Sable

open ByteMemory BigEndian HaltingProgram

namespace TpmCall

variable {σ α : Type}

/-- The number of bytes of the frame. -/
def frameSize : TpmCall α → Nat
  | startup _ => 12
  | getRandom _ _ => 14
  | pcrRead _ => 14
  | extend _ _ => 34
  | oiap _ => 10
  | osap _ _ _ _ => 36
  | nvWriteValueAuth _ dataSizeIn _ _ _ _ => 67 + dataSizeIn.toNat
  | nvReadValue _ _ _ ownerAuthIn _ => if ownerAuthIn.isSome then 67 else 22
  | unsealBlob inDataIn _ _ _ _ _ =>
      116 + inDataIn.sealInfoSize.toNat + inDataIn.encDataSize.toNat
  | sealData _ _ pcrInfoIn _ inDataSizeIn _ _ =>
      135 + pcrInfoIn.creationPCRSelection.sizeOfSelect.toNat +
        pcrInfoIn.releasePCRSelection.sizeOfSelect.toNat + inDataSizeIn.toNat

/-- The pointer of an optional session. -/
def optionalPointer (m : Machine σ) : Option SessionSlot → UInt32
  | none => 0
  | some slot => m.sessions slot

/-- The call has the pointers that it reads its parameters and sessions from. -/
def Given (m : Machine σ) : TpmCall α → Prop
  | nvWriteValueAuth dataIn _ _ _ _ session => dataIn ≠ 0 ∧ m.sessions session ≠ 0
  | nvReadValue _ _ _ ownerAuthIn session =>
      ownerAuthIn.isSome ↔ optionalPointer m session ≠ 0
  | unsealBlob inDataIn _ _ parentSession _ dataSession =>
      inDataIn.sealInfo ≠ 0 ∧ inDataIn.encData ≠ 0 ∧ m.sessions parentSession ≠ 0 ∧
        m.sessions dataSession ≠ 0
  | sealData _ _ pcrInfoIn inDataIn _ session _ =>
      pcrInfoIn.creationPCRSelection.pcrSelect ≠ 0 ∧
        pcrInfoIn.releasePCRSelection.pcrSelect ≠ 0 ∧ inDataIn ≠ 0 ∧
        m.sessions session ≠ 0
  | _ => True

/-- The length field of a frame. -/
def lengthField (frame : List UInt8) : UInt32 :=
  ofBe32 ((frame.drop 2).take 4)

theorem lengthField_encode {request : TpmWire.Request} (small : request.size ≤ 1024) :
    (lengthField request.encode).toNat = request.encode.length := by
  have field : lengthField request.encode = UInt32.ofNat request.size := by
    rw [lengthField, TpmWire.Request.encode]
    simp only [List.append_assoc]
    rw [List.drop_left' (length_be16 _), List.take_left' (length_be32 _), ofBe32_be32]
  rw [field, toNat_ofNat_of_le small, TpmWire.Request.length_encode]

/-- The request part of a call, with the session pointers of `m`. -/
def requestPart (device : TisDevice σ) (m : Machine σ) : TpmCall α → Boot σ (Result Unit)
  | startup startupTypeIn =>
      plainRequest device ordStartup (2 + 4 + 4 + 2) [] (marshalUINT16 startupTypeIn .given .null)
  | getRandom _ bytesRequestedIn =>
      plainRequest device ordGetRandom (2 + 4 + 4 + 4) []
        (marshalUINT32 bytesRequestedIn .given .null)
  | pcrRead pcrIndexIn =>
      plainRequest device ordPcrRead (2 + 4 + 4 + 4) [] (marshalUINT32 pcrIndexIn .given .null)
  | extend pcrNumIn inDigestIn =>
      plainRequest device ordExtend (2 + 4 + 4 + 4 + 20) [] do
        marshalUINT32 pcrNumIn .given .null
        marshalObject inDigestIn .given .null
  | oiap _ => plainRequest device ordOIAP (2 + 4 + 4) [] (pure ())
  | osap entityTypeIn entityValueIn nonceOddOSAP _ =>
      plainRequest device ordOSAP (2 + 4 + 4 + 2 + 4 + 20) [(0, nonceOddOSAP)] do
        marshalUINT16 entityTypeIn .given .null
        marshalUINT32 entityValueIn .given .null
        marshalObject nonceOddOSAP .given .null
  | nvWriteValueAuth dataIn dataSizeIn nvIndexIn offsetIn nvAuth session =>
      nvWriteRequest device dataIn dataSizeIn nvIndexIn offsetIn nvAuth (m.sessions session)
  | nvReadValue nvIndexIn offsetIn dataSizeIn ownerAuthIn session => do
      assert (ownerAuthIn.isSome = true ∧ optionalPointer m session ≠ 0 ∨
        ownerAuthIn.isSome = false ∧ optionalPointer m session = 0)
      nvReadRequest device nvIndexIn offsetIn dataSizeIn (ownerAuthIn.getD default)
        (optionalPointer m session)
  | unsealBlob inDataIn parentHandleIn parentAuth parentSession dataAuth dataSession =>
      unsealRequest device inDataIn parentHandleIn parentAuth (m.sessions parentSession)
        dataAuth (m.sessions dataSession)
  | sealData keyHandleIn encAuthIn pcrInfoIn inDataIn inDataSizeIn session sharedSecret =>
      sealRequest device keyHandleIn encAuthIn pcrInfoIn inDataIn inDataSizeIn
        (m.sessions session) sharedSecret

/-- The events of a call before it packs its frame. -/
def announced : TpmCall α → List Event
  | startup _ => [.issued ordStartup]
  | getRandom _ _ => [.issued ordGetRandom]
  | pcrRead _ => [.issued ordPcrRead]
  | extend pcrNumIn inDigestIn => [.extend pcrNumIn inDigestIn, .issued ordExtend]
  | oiap _ => [.issued ordOIAP]
  | osap _ _ _ _ => [.issued ordOSAP]
  | nvWriteValueAuth _ _ _ _ _ _ => [.issued ordNvWriteValueAuth]
  | nvReadValue _ _ _ _ _ => [.issued ordNvReadValue]
  | unsealBlob _ _ _ _ _ _ => [.issued ordUnseal]
  | sealData _ _ _ _ _ _ _ => [.issued ordSeal]

/-- The session pointers of a call. -/
def slots (m : Machine σ) : TpmCall α → UInt32 × UInt32
  | nvWriteValueAuth _ _ _ _ _ session => (m.sessions session, 0)
  | nvReadValue _ _ _ _ session => (optionalPointer m session, 0)
  | unsealBlob _ _ _ parentSession _ dataSession =>
      (m.sessions parentSession, m.sessions dataSession)
  | sealData _ _ _ _ _ session _ => (m.sessions session, 0)
  | _ => (0, 0)

/-- The run of a call, split behind its request. -/
theorem run_split (device : TisDevice σ) (call : TpmCall α) (m : Machine σ) :
    call.run device m =
      (call.requestPart device m >>= fun ret => call.rest (call.slots m) ret)
        { m with log := m.log ++ call.announced } := by
  cases call with
  | nvReadValue nvIndexIn offsetIn dataSizeIn ownerAuthIn session =>
      have pointer (start : Machine σ) (same : start.sessions = m.sessions) :
          optionalSession session start = .ok (optionalPointer m session) start := by
        cases session with
        | none => rfl
        | some slot =>
            rw [optionalSession, getSlot, Prog.bind_get, same]
            rfl
      simp only [run, tpmNvReadValue, command, emit, Prog.bind_modify, bind_assoc,
        requestPart, rest, slots, afterExchange, logged, announced]
      exact Prog.bind_ok (pointer { m with log := m.log ++ [.issued ordNvReadValue] } rfl) _
  | extend pcrNumIn inDigestIn =>
      simp only [run, tpmExtend, plainCommand, command, emit, Prog.bind_modify, bind_assoc,
        requestPart, rest, afterExchange, logged, announced, List.append_assoc,
        List.singleton_append]
  | _ =>
      simp only [run, tpmStartup, tpmGetRandom, tpmPCRRead, tpmOIAP, tpmOSAP,
        tpmNvWriteValueAuth, tpmUnseal, tpmSeal, plainCommand, command, emit,
        Prog.bind_modify, getSlot, bind_assoc, Prog.bind_get, pure_bind, requestPart, rest,
        slots, afterExchange, logged, announced]

/-- The request of an unauthorised `TPM_NV_ReadValue`. -/
theorem nvReadRequest_plain_submits {device : TisDevice σ} {base : Machine σ}
    {nvIndexIn offsetIn dataSizeIn : UInt32} {ownerAuth : Block 20} :
    Submits device base (nvReadRequest device nvIndexIn offsetIn dataSizeIn ownerAuth 0)
      (plainRequestOf ordNvReadValue (nvReadParams nvIndexIn offsetIn dataSizeIn)) [] := by
  unfold Submits nvReadRequest
  simp only [ne_eq, not_true_eq_false, if_false, if_true]
  refine Prog.Leads.bind sha1InitLocal_starts fun _ => ?_
  refine Prog.Leads.bind (marshalHeader_packs _ _) fun _ => ?_
  refine Prog.Leads.bind (marshalBytes_plain (by simp) (by simp)) fun _ => ?_
  refine Prog.Leads.bind (marshalBytes_plain (by simp) (by simp)) fun _ => ?_
  refine Prog.Leads.bind (marshalBytes_plain (by simp) (by simp)) fun _ => ?_
  refine Prog.Leads.bind (marshalBytes_plain (by simp) (by simp)) fun _ => ?_
  refine Prog.Leads.bind (sha1FinishLocal_holds (by simp)) fun _ => ?_
  refine Prog.Leads.last.weaken fun m holds => ?_
  simpa [plainRequestOf, nvReadParams, TpmWire.Request.encode, TpmWire.Request.size]
    using holds.1

/-- The calls that carry authorisation trailers. -/
def authorised : TpmCall α → Option (AuthorisedCommand α)
  | nvWriteValueAuth dataIn dataSizeIn nvIndexIn offsetIn nvAuth session =>
      some (.nvWriteValueAuth dataIn dataSizeIn nvIndexIn offsetIn nvAuth session)
  | nvReadValue nvIndexIn offsetIn dataSizeIn (some ownerAuth) (some session) =>
      some (.nvReadValue nvIndexIn offsetIn dataSizeIn ownerAuth session)
  | unsealBlob inDataIn parentHandleIn parentAuth parentSession dataAuth dataSession =>
      some (.unsealBlob inDataIn parentHandleIn parentAuth parentSession dataAuth dataSession)
  | sealData keyHandleIn encAuthIn pcrInfoIn inDataIn inDataSizeIn session sharedSecret =>
      some (.sealData keyHandleIn encAuthIn pcrInfoIn inDataIn inDataSizeIn session
        sharedSecret)
  | _ => none

/-- An authorised call is the command of the same name. -/
structure IsCommand (device : TisDevice σ) (m : Machine σ) (call : TpmCall α)
    (command : AuthorisedCommand α) : Prop where
  size : command.frameSize = call.frameSize
  issued : { m with log := m.log ++ call.announced } = command.issuedAt m
  part : call.requestPart device m = command.requestPart device m
  given : call.Given m ↔ ∀ ptr ∈ command.pointers m, ptr ≠ 0

theorem isCommand (device : TisDevice σ) (m : Machine σ) {call : TpmCall α}
    {command : AuthorisedCommand α} (same : call.authorised = some command) :
    IsCommand device m call command := by
  cases call with
  | nvWriteValueAuth dataIn dataSizeIn nvIndexIn offsetIn nvAuth session =>
      injection same with same
      subst same
      exact ⟨rfl, rfl, rfl, by simp [Given, AuthorisedCommand.pointers]⟩
  | nvReadValue nvIndexIn offsetIn dataSizeIn ownerAuthIn session =>
      cases ownerAuthIn with
      | none => cases same
      | some ownerAuth =>
          cases session with
          | none => cases same
          | some slot =>
              injection same with same
              subst same
              refine ⟨rfl, rfl, ?_, by simp [Given, optionalPointer, AuthorisedCommand.pointers]⟩
              rw [requestPart, AuthorisedCommand.requestPart]
              exact congrArg (· >>= fun _ => _) (AuthorisedCommand.assert_congr (by
                simp [optionalPointer]))
  | unsealBlob inDataIn parentHandleIn parentAuth parentSession dataAuth dataSession =>
      injection same with same
      subst same
      exact ⟨rfl, rfl, rfl, by simp [Given, AuthorisedCommand.pointers]⟩
  | sealData keyHandleIn encAuthIn pcrInfoIn inDataIn inDataSizeIn session sharedSecret =>
      injection same with same
      subst same
      refine ⟨?_, rfl, rfl, by simp [Given, AuthorisedCommand.pointers]⟩
      simp only [AuthorisedCommand.frameSize, frameSize, toNat_sizeofPcrInfoLong]
      omega
  | _ => cases same

theorem IsCommand.hands {device : TisDevice σ} {m : Machine σ} {call : TpmCall α}
    {command : AuthorisedCommand α} (isCommand : IsCommand device m call command)
    (fits : call.frameSize ≤ 1024) (given : call.Given m) :
    ∃ request uses, request.size = call.frameSize ∧
      Submits device { m with log := m.log ++ call.announced } (call.requestPart device m)
        request uses := by
  refine ⟨command.request m, authUses m (command.credentials m), ?_, ?_⟩
  · rw [AuthorisedCommand.size_request, isCommand.size]
  · rw [isCommand.issued, isCommand.part]
    exact AuthorisedCommand.requestPart_submits device (isCommand.size ▸ fits)
      (isCommand.given.mp given)

/-- With the pointers it needs, a call hands a frame of its own size to the driver. -/
theorem requestPart_hands (device : TisDevice σ) {call : TpmCall α} {m : Machine σ}
    (fits : call.frameSize ≤ 1024) (given : call.Given m) :
    ∃ request uses, request.size = call.frameSize ∧
      Submits device { m with log := m.log ++ call.announced } (call.requestPart device m)
        request uses := by
  cases call with
  | startup startupTypeIn =>
      refine ⟨plainRequestOf ordStartup (be16 startupTypeIn), [], rfl, ?_⟩
      exact plainRequest_submits rfl (marshalBytes_given (by simp))
  | getRandom buffer bytesRequestedIn =>
      refine ⟨plainRequestOf ordGetRandom (be32 bytesRequestedIn), [], rfl, ?_⟩
      exact plainRequest_submits rfl (marshalBytes_given (by simp))
  | pcrRead pcrIndexIn =>
      refine ⟨plainRequestOf ordPcrRead (be32 pcrIndexIn), [], rfl, ?_⟩
      exact plainRequest_submits rfl (marshalBytes_given (by simp))
  | extend pcrNumIn inDigestIn =>
      refine ⟨plainRequestOf ordExtend (be32 pcrNumIn ++ inDigestIn.bytes), [], ?_, ?_⟩
      · simp [plainRequestOf, TpmWire.Request.size, frameSize]
      · refine plainRequest_submits (by simp) ?_
        refine Prog.Returns.bind (marshalBytes_given (by simp)) fun _ => ?_
        rw [← List.append_assoc]
        exact marshalBytes_given (by simp)
  | oiap session =>
      refine ⟨plainRequestOf ordOIAP [], [], rfl, ?_⟩
      refine plainRequest_submits rfl ?_
      rw [List.append_nil]
      exact Prog.Returns.ret fun _ holds => holds
  | osap entityTypeIn entityValueIn nonceOddOSAP session =>
      refine ⟨plainRequestOf ordOSAP
        (be16 entityTypeIn ++ be32 entityValueIn ++ nonceOddOSAP.bytes),
        [(0, nonceOddOSAP)], ?_, ?_⟩
      · simp [plainRequestOf, TpmWire.Request.size, frameSize]
      · refine plainRequest_submits (by simp) ?_
        refine Prog.Returns.bind (marshalBytes_given (by simp)) fun _ => ?_
        refine Prog.Returns.bind (marshalBytes_given (by simp)) fun _ => ?_
        rw [← List.append_assoc, ← List.append_assoc]
        exact marshalBytes_given (by simp)
  | nvReadValue nvIndexIn offsetIn dataSizeIn ownerAuthIn session =>
      cases ownerAuthIn with
      | none =>
          have null : optionalPointer m session = 0 := by simpa [Given] using given
          refine ⟨plainRequestOf ordNvReadValue
            (nvReadParams nvIndexIn offsetIn dataSizeIn), [], rfl, ?_⟩
          refine Prog.Leads.bind_read () (fun _ _ => ?_) ?_
          · rw [assert, if_pos (.inr ⟨rfl, null⟩), Prog.pure_apply]
          · rw [null]
            exact nvReadRequest_plain_submits
      | some ownerAuth =>
          have nonNull : optionalPointer m session ≠ 0 := by simpa [Given] using given
          cases session with
          | none => exact (nonNull rfl).elim
          | some slot => exact (isCommand device m rfl).hands fits given
  | _ => exact (isCommand device m rfl).hands fits given

/-- Without a pointer it needs, a call stops before it sends anything. -/
theorem requestPart_stops (device : TisDevice σ) {call : TpmCall α} {m : Machine σ}
    (missing : ¬ call.Given m) : Stops (call.requestPart device m) := by
  cases same : call.authorised with
  | some command =>
      have equal := isCommand device m same
      rw [equal.part]
      apply AuthorisedCommand.requestPart_stops device
      simpa [equal.given] using missing
  | none =>
      cases call with
      | nvReadValue nvIndexIn offsetIn dataSizeIn ownerAuthIn session =>
          refine Stops.bind_first (fun _ => ?_) _
          rw [assert, if_neg]
          · exact ⟨rfl, rfl⟩
          · rintro (⟨given, pointer⟩ | ⟨given, pointer⟩)
            · exact missing (iff_of_true given pointer)
            · exact missing (iff_of_false (by simp [given]) (not_not_intro pointer))
      | nvWriteValueAuth => cases same
      | unsealBlob => cases same
      | sealData => cases same
      | _ => exact (missing trivial).elim

theorem logged_notSent {ordinal : UInt32} {body : Boot σ (Result α)}
    (silent : Respects False False AuthorisedCommand.NotSent body) :
    Respects False False AuthorisedCommand.NotSent (logged ordinal body) := by
  refine silent.bind fun ret => ?_
  exact (emit_respects (by simp [AuthorisedCommand.NotSent])).bind fun _ => Respects.ret _

theorem afterExchange_notSent {initial : α} {response : Boot σ (Result α)} {ret : Result Unit}
    (silent : Respects False False AuthorisedCommand.NotSent response) :
    Respects False False AuthorisedCommand.NotSent (afterExchange initial response ret) :=
  Respects.ite (Respects.ret _) silent

/-- The rest of a call sends no frame. -/
theorem rest_respects (call : TpmCall α) (s : UInt32 × UInt32) (ret : Result Unit) :
    Respects False False AuthorisedCommand.NotSent (call.rest s ret : Boot σ (Result α)) := by
  cases call with
  | startup startupTypeIn =>
      refine logged_notSent (afterExchange_notSent (plainResponse_respects ?_))
      exact Respects.ret _
  | getRandom buffer bytesRequestedIn =>
      refine Respects.bind (logged_notSent (afterExchange_notSent (plainResponse_respects ?_)))
        fun ret => (emit_respects (by simp [AuthorisedCommand.NotSent])).bind fun _ =>
          Respects.ret _
      refine (unmarshalUINT32_respects _ _ _).bind fun size => ?_
      refine Respects.ite (Respects.ret _) ?_
      exact (unmarshalArray_respects _ _ _ _).bind fun _ => Respects.ret _
  | pcrRead pcrIndexIn =>
      refine logged_notSent (afterExchange_notSent (plainResponse_respects ?_))
      exact (unmarshalObject_respects _ _ _).bind fun _ => Respects.ret _
  | extend pcrNumIn inDigestIn =>
      refine logged_notSent (afterExchange_notSent (plainResponse_respects ?_))
      exact (unmarshalObject_respects _ _ _).bind fun _ => Respects.ret _
  | oiap session =>
      refine logged_notSent (afterExchange_notSent (plainResponse_respects ?_))
      exact unmarshalOIAP_respects (by simp [AuthorisedCommand.NotSent]) session
  | osap entityTypeIn entityValueIn nonceOddOSAP session =>
      refine logged_notSent (Respects.bind
        (afterExchange_notSent (plainResponse_respects ?_)) fun ret => ?_)
      · exact unmarshalOSAP_respects (by simp [AuthorisedCommand.NotSent]) nonceOddOSAP session
      · exact Respects.ite (Respects.ret _)
          ((updateOsap_respects _ _).bind fun _ => Respects.ret _)
  | nvWriteValueAuth dataIn dataSizeIn nvIndexIn offsetIn nvAuth session =>
      exact logged_notSent (afterExchange_notSent (nvWriteResponse_respects _ _ _))
  | nvReadValue nvIndexIn offsetIn dataSizeIn ownerAuthIn session =>
      exact logged_notSent (afterExchange_notSent (nvReadResponse_respects _ _ _))
  | unsealBlob inDataIn parentHandleIn parentAuth parentSession dataAuth dataSession =>
      exact logged_notSent (afterExchange_notSent (unsealResponse_respects _ _ _ _ _ _))
  | sealData keyHandleIn encAuthIn pcrInfoIn inDataIn inDataSizeIn session sharedSecret =>
      exact logged_notSent (afterExchange_notSent (sealResponse_respects _ _ _))

/-- Every frame that a call sends has the size of the call and carries it in its length
field, and the call sends one if it has the pointers that it needs. -/
theorem frames_measure (device : TisDevice σ) (call : TpmCall α) (m : Machine σ)
    (fits : call.frameSize ≤ 1024) :
    ∃ events, (call.run device m).state.log = m.log ++ events ∧
      (∀ ordinal uses frame, Event.sent ordinal uses frame ∈ events →
        frame.length = call.frameSize ∧ (lengthField frame).toNat = frame.length) ∧
      (call.Given m → ∃ ordinal uses frame, Event.sent ordinal uses frame ∈ events) := by
  have quiet : ∀ ordinal uses frame, Event.sent ordinal uses frame ∉ call.announced := by
    cases call <;> simp [announced]
  by_cases given : call.Given m
  · obtain ⟨request, uses, size, submits⟩ := requestPart_hands device fits given
    have small : request.size ≤ 1024 := size ▸ fits
    obtain ⟨packed, packing, same⟩ := submits _ rfl
    have length : (UInt32.ofNat request.size).toNat = request.encode.length := by
      rw [TpmWire.Request.length_encode, toNat_ofNat_of_le small]
    rw [transmit_packed device packing length] at same
    have rest : Respects False False AuthorisedCommand.NotSent (do
        let ret ← tisTransmit device
        call.rest (call.slots m) ret) :=
      tisTransmit_respects.bind fun ret => rest_respects call (call.slots m) ret
    obtain ⟨events, log, notSent⟩ := rest.log_eq
      { packed with log := m.log ++ call.announced ++
        [.sent request.ordinal uses request.encode] }
    refine ⟨call.announced ++ .sent request.ordinal uses request.encode :: events, ?_, ?_, ?_⟩
    · rw [run_split, Prog.bind_eq_bind same, log]
      simp
    · intro ordinal otherUses frame member
      rcases List.mem_append.mp member with early | late
      · exact (quiet _ _ _ early).elim
      · rcases List.mem_cons.mp late with here | later
        · cases here
          exact ⟨(TpmWire.Request.length_encode request).trans size, lengthField_encode small⟩
        · exact (notSent _ later ordinal otherUses frame rfl).elim
    · intro _
      exact ⟨_, _, _, List.mem_append_right _ List.mem_cons_self⟩
  · refine ⟨call.announced, ?_, fun _ _ _ member => (quiet _ _ _ member).elim,
      fun present => (given present).elim⟩
    rw [run_split]
    exact (Stops.bind_first (requestPart_stops device given) _ _).2

/-- Sealing sixteen bytes to two selections of three bytes. -/
theorem frames_measure_seal :
    ∃ events,
      ((sealData khSRK (Block.zero 20)
        ⟨6, 4, 4, ⟨3, 0x200⟩, ⟨3, 0x210⟩, Block.zero 20, Block.zero 20⟩ 0x300 16 .zero
        (Block.zero 20)).run TisDevice.absent
          { Machine.blank () with sessions := fun _ => 0x100 }).state.log = events ∧
      (∀ ordinal uses frame, Event.sent ordinal uses frame ∈ events →
        frame.length = 157 ∧ (lengthField frame).toNat = frame.length) ∧
      ∃ ordinal uses frame, Event.sent ordinal uses frame ∈ events := by
  obtain ⟨events, log, measured, sends⟩ := frames_measure TisDevice.absent
    (sealData khSRK (Block.zero 20)
      ⟨6, 4, 4, ⟨3, 0x200⟩, ⟨3, 0x210⟩, Block.zero 20, Block.zero 20⟩ 0x300 16 .zero
      (Block.zero 20))
    { Machine.blank () with sessions := fun _ => 0x100 } (by decide)
  exact ⟨events, log, measured, sends (by simp [Given])⟩

end TpmCall

end Sable
