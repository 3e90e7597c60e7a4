import Sable.AuthorisedCommands

/-!
# Authorisation of requests

Whatever frame an authorised command hands to the TPM, a verifier that parses
the frame and recomputes the keyed hashes finds every trailer authorised by the
session and the secret of the caller.  A command sends no frame at all if one of
its pointers is null.
-/

namespace Sable

open ByteMemory BigEndian HaltingProgram

section Stopping

variable {σ α β : Type}

/-- The program halts and leaves the log alone. -/
def Stops (program : Boot σ α) : Prop :=
  ∀ m, (program m).value? = none ∧ (program m).state.log = m.log

theorem Stops.bind_first {program : Boot σ α} (stops : Stops program)
    (next : α → Boot σ β) : Stops (program >>= next) := by
  intro m
  obtain ⟨none, log⟩ := stops m
  rw [Prog.bind_apply]
  cases run : program m with
  | ok value reached => simp [run] at none
  | halt reason reached =>
      rw [run] at log
      exact ⟨rfl, log⟩

theorem Stops.bind_next {program : Boot σ α} {next : α → Boot σ β}
    (silent : Respects False False (fun _ => False) program)
    (stops : ∀ value, Stops (next value)) : Stops (program >>= next) := by
  intro m
  have unchanged := silent.log_eq m
  rw [Prog.bind_apply]
  cases run : program m with
  | ok value reached =>
      rw [run] at unchanged
      obtain ⟨events, log, none⟩ := unchanged
      obtain ⟨halts, same⟩ := stops value reached
      cases events with
      | nil => exact ⟨halts, same.trans (by simpa using log)⟩
      | cons event events => exact (none event List.mem_cons_self).elim
  | halt reason reached =>
      rw [run] at unchanged
      obtain ⟨events, log, none⟩ := unchanged
      cases events with
      | nil => exact ⟨rfl, by simpa using log⟩
      | cons event events => exact (none event List.mem_cons_self).elim

theorem marshalArray_null_stops (size : UInt32) (ctx : ContextPtr) (sctx : HashPtr) :
    Stops (marshalArray 0 size ctx sctx : Boot σ Unit) :=
  fun _ => ⟨rfl, rfl⟩

theorem marshalAuth_null_stops (secret : Block 20) :
    Stops (marshalAuth secret 0 : Boot σ Unit) := by
  refine Stops.bind_next (hmacInitLocal_respects _) fun _ => ?_
  refine Stops.bind_next sctxHash_respects fun _ => ?_
  refine Stops.bind_next (marshalBytes_respects _ _ _) fun _ => ?_
  exact Stops.bind_first (fun _ => ⟨rfl, rfl⟩) _

theorem marshalStoredData12_null_stops {data : TpmStoredData12} (ctx : ContextPtr)
    (sctx : HashPtr) (null : data.sealInfo = 0 ∨ data.encData = 0) :
    Stops (marshalStoredData12 data ctx sctx : Boot σ Unit) := by
  refine Stops.bind_next (marshalBytes_respects _ _ _) fun _ => ?_
  refine Stops.bind_next (marshalBytes_respects _ _ _) fun _ => ?_
  refine Stops.bind_next (marshalBytes_respects _ _ _) fun _ => ?_
  rcases null with null | null
  · rw [null]
    exact Stops.bind_first (marshalArray_null_stops _ _ _) _
  · rw [null]
    refine Stops.bind_next (marshalArray_respects _ _ _ _) fun _ => ?_
    refine Stops.bind_next (marshalBytes_respects _ _ _) fun _ => ?_
    exact marshalArray_null_stops _ _ _

theorem marshalPcrInfoLong_null_stops {pcrInfo : TpmPcrInfoLong} (ctx : ContextPtr)
    (sctx : HashPtr) (null : pcrInfo.creationPCRSelection.pcrSelect = 0 ∨
      pcrInfo.releasePCRSelection.pcrSelect = 0) :
    Stops (marshalPcrInfoLong pcrInfo ctx sctx : Boot σ Unit) := by
  have selection {select : TpmPcrSelection} (null : select.pcrSelect = 0) :
      Stops (marshalPcrSelection select ctx sctx : Boot σ Unit) := by
    refine Stops.bind_next (marshalBytes_respects _ _ _) fun _ => ?_
    rw [null]
    exact marshalArray_null_stops _ _ _
  refine Stops.bind_next (marshalBytes_respects _ _ _) fun _ => ?_
  refine Stops.bind_next (marshalBytes_respects _ _ _) fun _ => ?_
  refine Stops.bind_next (marshalBytes_respects _ _ _) fun _ => ?_
  rcases null with null | null
  · exact Stops.bind_first (selection null) _
  · refine Stops.bind_next (marshalPcrSelection_respects _ _ _) fun _ => ?_
    exact Stops.bind_first (selection null) _

end Stopping

namespace AuthorisedCommand

variable {σ α : Type} (device : TisDevice σ)

theorem requestPart_submits {m : Machine σ} {command : AuthorisedCommand α}
    (fits : command.frameSize ≤ 1024) (nonNull : ∀ ptr ∈ command.pointers m, ptr ≠ 0) :
    Submits device (command.issuedAt m) (command.requestPart device m)
      (command.request m) (authUses m (command.credentials m)) := by
  cases command with
  | nvWriteValueAuth dataIn dataSizeIn nvIndexIn offsetIn nvAuth session =>
      simp only [pointers, List.forall_mem_cons] at nonNull
      exact nvWriteRequest_submits nonNull.2.1 nonNull.1 fits
  | nvReadValue nvIndexIn offsetIn dataSizeIn ownerAuthIn session =>
      simp only [pointers, List.forall_mem_cons] at nonNull
      refine Prog.Leads.bind_read () (fun _ _ => ?_)
        (nvReadRequest_submits nonNull.1)
      rw [assert, if_pos nonNull.1, Prog.pure_apply]
  | unsealBlob inDataIn parentHandleIn parentAuth parentSession dataAuth dataSession =>
      simp only [pointers, List.forall_mem_cons] at nonNull
      obtain ⟨sealInfo, encData, parent, data, -⟩ := nonNull
      exact unsealRequest_submits parent data sealInfo encData fits
  | sealData keyHandleIn encAuthIn pcrInfoIn inDataIn inDataSizeIn session sharedSecret =>
      simp only [pointers, List.forall_mem_cons] at nonNull
      obtain ⟨creation, release, data, slot, -⟩ := nonNull
      exact sealRequest_submits slot data creation release fits

/-- The run of a request whose parameters need a null pointer. -/
theorem requestPart_stops {m : Machine σ} {command : AuthorisedCommand α}
    (null : ∃ ptr ∈ command.pointers m, ptr = 0) :
    Stops (command.requestPart device m) := by
  cases command with
  | nvWriteValueAuth dataIn dataSizeIn nvIndexIn offsetIn nvAuth session =>
      simp only [pointers, List.exists_mem_cons_iff, List.not_mem_nil] at null
      refine Stops.bind_next sha1InitLocal_respects fun _ => ?_
      refine Stops.bind_next (marshalHeader_respects _ _) fun _ => ?_
      refine Stops.bind_next (marshalBytes_respects _ _ _) fun _ => ?_
      refine Stops.bind_next (marshalBytes_respects _ _ _) fun _ => ?_
      refine Stops.bind_next (marshalBytes_respects _ _ _) fun _ => ?_
      refine Stops.bind_next (marshalBytes_respects _ _ _) fun _ => ?_
      rcases null with null | null | null
      · rw [null]
        exact Stops.bind_first (marshalArray_null_stops _ _ _) _
      · rw [null]
        refine Stops.bind_next (marshalArray_respects _ _ _ _) fun _ => ?_
        refine Stops.bind_next sha1FinishLocal_respects fun _ => ?_
        exact Stops.bind_first (marshalAuth_null_stops _) _
      · simp at null
  | nvReadValue nvIndexIn offsetIn dataSizeIn ownerAuthIn session =>
      simp only [pointers, List.mem_singleton, exists_eq_left] at null
      refine Stops.bind_first (fun _ => ?_) _
      rw [assert, if_neg (by simpa using null)]
      exact ⟨rfl, rfl⟩
  | unsealBlob inDataIn parentHandleIn parentAuth parentSession dataAuth dataSession =>
      simp only [pointers, List.exists_mem_cons_iff, List.not_mem_nil] at null
      refine Stops.bind_next sha1InitLocal_respects fun _ => ?_
      refine Stops.bind_next (marshalHeader_respects _ _) fun _ => ?_
      refine Stops.bind_next (marshalBytes_respects _ _ _) fun _ => ?_
      refine Stops.bind_next (marshalBytes_respects _ _ _) fun _ => ?_
      rcases null with null | null | null | null | null
      · exact Stops.bind_first (marshalStoredData12_null_stops _ _ (.inl null)) _
      · exact Stops.bind_first (marshalStoredData12_null_stops _ _ (.inr null)) _
      · rw [null]
        refine Stops.bind_next (marshalStoredData12_respects _ _ _) fun _ => ?_
        refine Stops.bind_next sha1FinishLocal_respects fun _ => ?_
        exact Stops.bind_first (marshalAuth_null_stops _) _
      · rw [null]
        refine Stops.bind_next (marshalStoredData12_respects _ _ _) fun _ => ?_
        refine Stops.bind_next sha1FinishLocal_respects fun _ => ?_
        refine Stops.bind_next (marshalAuth_respects _ _) fun _ => ?_
        exact Stops.bind_first (marshalAuth_null_stops _) _
      · simp at null
  | sealData keyHandleIn encAuthIn pcrInfoIn inDataIn inDataSizeIn session sharedSecret =>
      simp only [pointers, List.exists_mem_cons_iff, List.not_mem_nil] at null
      refine Stops.bind_next sha1InitLocal_respects fun _ => ?_
      refine Stops.bind_next (marshalHeader_respects _ _) fun _ => ?_
      refine Stops.bind_next (marshalBytes_respects _ _ _) fun _ => ?_
      refine Stops.bind_next (marshalBytes_respects _ _ _) fun _ => ?_
      refine Stops.bind_next (marshalBytes_respects _ _ _) fun _ => ?_
      refine Stops.bind_next (marshalBytes_respects _ _ _) fun _ => ?_
      rcases null with null | null | null | null | null
      · exact Stops.bind_first (marshalPcrInfoLong_null_stops _ _ (.inl null)) _
      · exact Stops.bind_first (marshalPcrInfoLong_null_stops _ _ (.inr null)) _
      · rw [null]
        refine Stops.bind_next (marshalPcrInfoLong_respects _ _ _) fun _ => ?_
        refine Stops.bind_next (marshalBytes_respects _ _ _) fun _ => ?_
        exact Stops.bind_first (marshalArray_null_stops _ _ _) _
      · rw [null]
        refine Stops.bind_next (marshalPcrInfoLong_respects _ _ _) fun _ => ?_
        refine Stops.bind_next (marshalBytes_respects _ _ _) fun _ => ?_
        refine Stops.bind_next (marshalArray_respects _ _ _ _) fun _ => ?_
        refine Stops.bind_next sha1FinishLocal_respects fun _ => ?_
        exact Stops.bind_first (marshalAuth_null_stops _) _
      · simp at null

theorem size_request (m : Machine σ) (command : AuthorisedCommand α) :
    (command.request m).size = command.frameSize := by
  cases command with
  | nvWriteValueAuth dataIn dataSizeIn nvIndexIn offsetIn nvAuth session =>
      simp [request, authorisedRequest, TpmWire.Request.size, nvWriteParams, credentials,
        frameSize]
      omega
  | nvReadValue nvIndexIn offsetIn dataSizeIn ownerAuthIn session =>
      simp [request, authorisedRequest, TpmWire.Request.size, nvReadParams, credentials,
        frameSize]
  | unsealBlob inDataIn parentHandleIn parentAuth parentSession dataAuth dataSession =>
      simp [request, authorisedRequest, TpmWire.Request.size, storedData12Bytes,
        credentials, frameSize]
      omega
  | sealData keyHandleIn encAuthIn pcrInfoIn inDataIn inDataSizeIn session sharedSecret =>
      simp [request, authorisedRequest, TpmWire.Request.size, sealParams, credentials,
        frameSize, length_pcrInfoLongBytes, toNat_sizeofPcrInfoLong]
      omega

theorem ordinal_request (m : Machine σ) (command : AuthorisedCommand α) :
    (command.request m).ordinal = command.ordinal := by
  cases command <;> rfl

theorem wellFormed_request (m : Machine σ) {command : AuthorisedCommand α}
    (fits : command.frameSize ≤ 1024) : (command.request m).WellFormed := by
  have small : (command.request m).size < 2 ^ 32 := by
    rw [size_request]
    omega
  cases command with
  | nvWriteValueAuth => exact ⟨rfl, rfl, small⟩
  | nvReadValue => exact ⟨rfl, rfl, small⟩
  | unsealBlob => exact ⟨rfl, rfl, small⟩
  | sealData => exact ⟨rfl, rfl, small⟩

/-- A verifier that knows the sessions and the secrets parses the frame and
finds all its trailers authorised. -/
def Verifies (m : Machine σ) (command : AuthorisedCommand α) (frame : List UInt8) :
    Prop :=
  ∃ parsed, TpmWire.Request.decode frame = some parsed ∧
    parsed.ordinal = command.ordinal ∧
    List.Forall₂ (fun trailer credential =>
        parsed.Authorises trailer (m.sessionAt credential.2).authHandle
          (m.sessionAt credential.2).nonceEven credential.1)
      parsed.trailers (command.credentials m)

theorem verifies_request (m : Machine σ) {command : AuthorisedCommand α}
    (fits : command.frameSize ≤ 1024) :
    command.Verifies m (command.request m).encode := by
  refine ⟨command.request m, TpmWire.Request.decode_encode (wellFormed_request m fits),
    ordinal_request m command, ?_⟩
  cases command with
  | nvWriteValueAuth => exact .cons ⟨rfl, rfl⟩ .nil
  | nvReadValue => exact .cons ⟨rfl, rfl⟩ .nil
  | unsealBlob => exact .cons ⟨rfl, rfl⟩ (.cons ⟨rfl, rfl⟩ .nil)
  | sealData => exact .cons ⟨rfl, rfl⟩ .nil

/-- Events that hand no frame to the TPM. -/
def NotSent (event : Event) : Prop :=
  ∀ ordinal uses frame, event ≠ .sent ordinal uses frame

theorem afterRequest_respects {allowed : Event → Prop} (m : Machine σ)
    (command : AuthorisedCommand α) (transmitRet : Result Unit) :
    Respects False False allowed (command.afterRequest m transmitRet) := by
  refine Respects.ite (Respects.ret _) ?_
  cases command with
  | nvWriteValueAuth => exact nvWriteResponse_respects _ _ _
  | nvReadValue => exact nvReadResponse_respects _ _ _
  | unsealBlob => exact unsealResponse_respects _ _ _ _ _ _
  | sealData => exact sealResponse_respects _ _ _

/-- With usable pointers, the command sends the frame of its request and no
other one. -/
theorem log_of_nonNull {m : Machine σ} {command : AuthorisedCommand α}
    (fits : command.frameSize ≤ 1024) (nonNull : ∀ ptr ∈ command.pointers m, ptr ≠ 0) :
    ∃ events, (command.run device m).state.log = m.log ++ .issued command.ordinal ::
        .sent command.ordinal (authUses m (command.credentials m))
          (command.request m).encode :: events ∧
      ∀ event ∈ events, NotSent event := by
  obtain ⟨reached, packing, same⟩ :=
    requestPart_submits device fits nonNull (command.issuedAt m) rfl
  have size : (UInt32.ofNat (command.request m).size).toNat =
      (command.request m).encode.length := by
    rw [TpmWire.Request.length_encode, UInt32.toNat_ofNat_of_lt'
      (wellFormed_request m fits).small]
  rw [transmit_packed device packing size] at same
  rw [run_eq, Prog.bind_eq_bind same]
  have rest : Respects False False NotSent (do
      let transmitRet ← tisTransmit device
      let ret ← command.afterRequest m transmitRet
      emit (.finished command.ordinal ret.exception)
      return ret) := by
    refine tisTransmit_respects.bind fun transmitRet => ?_
    refine (afterRequest_respects m command transmitRet).bind fun ret => ?_
    refine (emit_respects ?_).bind fun _ => Respects.ret _
    simp [NotSent]
  obtain ⟨events, log, notSent⟩ := rest.log_eq _
  refine ⟨events, ?_, notSent⟩
  rw [log, ordinal_request]
  simp [issuedAt]

/-- With a null pointer, the command stops before it sends anything. -/
theorem log_of_null {m : Machine σ} {command : AuthorisedCommand α}
    (null : ∃ ptr ∈ command.pointers m, ptr = 0) :
    (command.run device m).state.log = m.log ++ [.issued command.ordinal] := by
  rw [run_eq]
  exact (Stops.bind_first (requestPart_stops device null) _ _).2

/-- Every frame that an authorised command sends is accepted by the verifier,
and the command sends one unless a pointer it needs is null. -/
theorem requests_verify (command : AuthorisedCommand α) (m : Machine σ)
    (fits : command.frameSize ≤ 1024) :
    ∃ events, (command.run device m).state.log = m.log ++ events ∧
      (∀ ordinal uses frame, Event.sent ordinal uses frame ∈ events →
        frame.length = command.frameSize ∧ command.Verifies m frame) ∧
      ((∀ ptr ∈ command.pointers m, ptr ≠ 0) →
        ∃ uses frame, Event.sent command.ordinal uses frame ∈ events) := by
  by_cases nonNull : ∀ ptr ∈ command.pointers m, ptr ≠ 0
  · obtain ⟨events, log, notSent⟩ := log_of_nonNull device fits nonNull
    refine ⟨_, log, ?_, fun _ => ⟨_, _, .tail _ (.head _)⟩⟩
    intro ordinal uses frame member
    simp only [List.mem_cons, reduceCtorEq, false_or] at member
    rcases member with same | late
    · cases same
      rw [TpmWire.Request.length_encode, size_request]
      exact ⟨rfl, verifies_request m fits⟩
    · exact (notSent _ late ordinal uses frame rfl).elim
  · have null : ∃ ptr ∈ command.pointers m, ptr = 0 := by simpa using nonNull
    refine ⟨_, log_of_null device null, ?_, fun usable => (nonNull usable).elim⟩
    simp

/-- Unsealing a small blob with two sessions. -/
theorem requests_verify_unseal :
    ∃ events,
      ((unsealBlob ⟨0x16, 0, 3, 0x200, 5, 0x300⟩ khSRK (Block.zero 20) .zero
        (Block.zero 20) .one).run TisDevice.absent
          { Machine.blank () with sessions := fun _ => 0x100 }).state.log = events ∧
      (∀ ordinal uses frame, Event.sent ordinal uses frame ∈ events →
        frame.length = 124 ∧
        (unsealBlob ⟨0x16, 0, 3, 0x200, 5, 0x300⟩ khSRK (Block.zero 20) .zero
          (Block.zero 20) .one).Verifies
            { Machine.blank () with sessions := fun _ => 0x100 } frame) ∧
      ∃ uses frame, Event.sent ordUnseal uses frame ∈ events := by
  obtain ⟨events, log, verifies, sends⟩ := requests_verify TisDevice.absent
    (unsealBlob ⟨0x16, 0, 3, 0x200, 5, 0x300⟩ khSRK (Block.zero 20) .zero
      (Block.zero 20) .one)
    { Machine.blank () with sessions := fun _ => 0x100 } (by decide)
  exact ⟨events, log, verifies, sends (by simp [pointers])⟩

end AuthorisedCommand

end Sable
