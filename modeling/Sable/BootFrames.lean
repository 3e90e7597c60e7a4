import Sable.Frames

/-!
# Frame conditions of the boot flow

Which events the functions of `sable.c` record, and which of them leave the
sessions alone.
-/

namespace Sable

open ByteMemory BigEndian HaltingProgram

variable {σ : Type} {device : TisDevice σ} {keep still : Prop} {allowed : Event → Prop}

section Console

variable (output : ∀ bytes, allowed (.output bytes))

include output

theorem outString_respects (value : List UInt8) :
    Respects keep still allowed (outString value : Boot σ Unit) :=
  emit_respects (output value)

theorem outChar_respects (value : UInt8) :
    Respects keep still allowed (outChar value : Boot σ Unit) :=
  emit_respects (output [value])

omit output in
theorem getchar_respects : Respects keep still allowed (getchar : Boot σ UInt8) := by
  intro m
  unfold getchar
  cases m.keys with
  | nil => exact Machine.Evolves.refl m
  | cons key keys =>
      exact Machine.Evolves.of_eq rfl (fun _ => ⟨rfl, rfl⟩) fun _ packing => ⟨rfl, rfl, packing⟩

theorem getStringLoop_respects (strSize : Nat) (shown : Bool) (fuel : Nat) (str : Mem)
    (i : Nat) :
    Respects keep still allowed (getStringLoop strSize shown fuel str i : Boot σ _) := by
  induction fuel generalizing str i with
  | zero => exact Respects.halt _
  | succ fuel ih =>
      have char (value : UInt8) : Respects keep still allowed
          (if shown then outChar value else pure () : Boot σ Unit) :=
        Respects.ite (outChar_respects output value) (Respects.ret _)
      refine Respects.ite (getchar_respects.bind fun c => ?_) (Respects.ret _)
      refine Respects.ite (Respects.ret _) (Respects.ite ?_ ?_)
      · refine Respects.ite ?_ (ih _ _)
        exact Respects.ite ((outChar_respects output c).bind fun _ => ih _ _) (ih _ _)
      · refine Respects.ite (ih _ _) ?_
        exact Respects.ite ((outChar_respects output c).bind fun _ => ih _ _) (ih _ _)

theorem getString_respects (str : Mem) (strSize : Nat) (shown : Bool) :
    Respects keep still allowed (getString str strSize shown : Boot σ (Mem × Nat)) := by
  refine getchar_respects.bind fun _ => Respects.get.bind fun m => ?_
  refine (getStringLoop_respects output _ _ _ _ _).bind fun line => ?_
  exact (outChar_respects output _).bind fun _ => Respects.ret _

theorem getStringAt_respects (ptr : UInt32) (strSize : Nat) (shown : Bool) :
    Respects keep False allowed (getStringAt ptr strSize shown : Boot σ Nat) := by
  refine Respects.get.bind fun m => ?_
  refine (getString_respects output _ _ _).bind fun line => ?_
  refine Respects.ite (Respects.halt _) ?_
  exact Respects.bind (Respects.modify (fun _ => rfl) (fun _ _ => ⟨rfl, rfl⟩) False.elim)
    fun _ => Respects.ret _

theorem getAuthdata_respects :
    Respects keep still allowed (getAuthdata : Boot σ (Result (Block 20))) := by
  have line (str : Mem) (strSize : Nat) (shown : Bool) :
      Respects keep still allowed (getString str strSize shown : Boot σ (Mem × Nat)) :=
    getString_respects output str strSize shown
  unfold getAuthdata
  repeat' first
    | with_reducible intro _
    | with_reducible apply Respects.bind
    | with_reducible apply Respects.ite
  all_goals grind

end Console

theorem loadString_respects (ptr : UInt32) :
    Respects keep still allowed (loadString ptr : Boot σ (List UInt8)) := by
  refine Respects.get.bind fun m => ?_
  cases cstring m.mem ptr with
  | none => exact Respects.halt _
  | some bytes => exact Respects.ret _

theorem setNonceOdd_respects (slot : SessionSlot) (nonceOdd : Block 20) :
    Respects False still allowed (setNonceOdd slot nonceOdd : Boot σ Unit) :=
  (getSlot_respects slot).bind fun _ => updateSession_respects _ _

theorem endAfterCommand_respects (slot : SessionSlot) :
    Respects False still allowed (endAfterCommand slot : Boot σ Unit) :=
  (getSlot_respects slot).bind fun _ => updateSession_respects _ _

theorem sessionSecret_respects (srkAuth : Block 20) :
    Respects keep still allowed (sessionSecret srkAuth : Boot σ (Block 20)) :=
  (getSlot_respects _).bind fun _ => (loadSession_respects _).bind fun _ =>
    (loadOsap_respects _).bind fun _ => Respects.ret _

theorem confirmPassphrase_respects (output : ∀ bytes, allowed (.output bytes))
    (confirmed : allowed .confirmed) (passphrase : UInt32) :
    Respects keep False allowed (confirmPassphrase passphrase : Boot σ Unit) := by
  refine (outString_respects output _).bind fun _ => (loadString_respects _).bind fun _ => ?_
  refine (outString_respects output _).bind fun _ => (outString_respects output _).bind fun _ => ?_
  refine (allocHeap_respects _).bind fun _ => ?_
  refine (getStringAt_respects output _ _ _).bind fun _ => Respects.get.bind fun m => ?_
  exact Respects.ite (Respects.halt _) (emit_respects confirmed)

section Records

variable {α : Type} {start : List Event}

/-- The events that a run of the operation adds to the log. -/
def eventsOf {σ α : Type} (operation : Boot σ α) (m : Machine σ) : List Event :=
  (operation m).state.log.drop m.log.length

/-- The events recorded since `start`. -/
def Recorded (start : List Event) (holds : List Event → Prop) (m : Machine σ) : Prop :=
  ∃ events, m.log = start ++ events ∧ holds events

/-- A property of the events that further allowed ones do not change. -/
theorem Respects.recorded {program : Boot σ α}
    (respects : Respects False False allowed program) {holds : List Event → Prop}
    (stable : ∀ events more, holds events → (∀ event ∈ more, allowed event) →
      holds (events ++ more)) :
    Prog.Ends (Recorded start holds) program (fun _ => Recorded start holds)
      (Recorded start holds) := by
  refine Prog.Steps.ends respects ?_
  rintro m reached ⟨events, log, property⟩ evolves
  obtain ⟨more, appended, known⟩ := evolves.log
  refine ⟨events ++ more, ?_, stable events more property known⟩
  rw [appended, log, List.append_assoc]

theorem emit_recorded {event : Event} {holds known : List Event → Prop}
    {stop : Machine σ → Prop}
    (appended : ∀ events, holds events → known (events ++ [event])) :
    Prog.Ends (Recorded start holds) (emit event : Boot σ Unit)
      (fun _ => Recorded start known) stop := by
  rintro m ⟨events, log, property⟩
  refine ⟨events ++ [event], ?_, appended events property⟩
  change m.log ++ [event] = _
  rw [log, List.append_assoc]

theorem Recorded.eventsOf {operation : Boot σ α} {holds : List Event → Prop}
    {m : Machine σ} (recorded : Recorded m.log holds (operation m).state) :
    holds (eventsOf operation m) := by
  obtain ⟨events, log, known⟩ := recorded
  rw [Sable.eventsOf, log, List.drop_left]
  exact known

end Records

section Operations

/-- The part of `TPM_GetRandom` in front of its last log entry. -/
theorem randomCommand_isCommand (buffer : List UInt8) (bytesRequestedIn : UInt32) :
    IsCommand keep still ordGetRandom (command ordGetRandom <|
      plainCommand device ordGetRandom (2 + 4 + 4 + 4) []
        (marshalUINT32 bytesRequestedIn .given .null) buffer
        (do
          let randomBytesSizeOut ← unmarshalUINT32 0 .given .null
          if bytesRequestedIn ≠ randomBytesSizeOut then
            return .error .tpmBadOutputParam buffer
          let bytes ← unmarshalArray (some buffer) randomBytesSizeOut .given .null
          return .ok (bytes.getD []))) := by
  refine plainCommand_isCommand (fun _ => marshalBytes_respects _ _ _) fun _ _ => ?_
  refine (unmarshalUINT32_respects _ _ _).bind fun _ => Respects.ite (Respects.ret _) ?_
  exact (unmarshalArray_respects _ _ _ _).bind fun _ => Respects.ret _

variable (events : CommandEvents allowed)

include events

theorem getNonce_respects : Respects keep still allowed (getNonce device) := by
  refine Respects.bind ?_ fun _ => Respects.ite (Respects.ret _) (Respects.ret _)
  refine ((randomCommand_isCommand _ _).respects events).bind fun _ => ?_
  exact (emit_respects (events.random _ _)).bind fun _ => Respects.ret _

theorem getPcrInfo_respects : Respects keep False allowed (getPcrInfo device) := by
  refine (allocHeap_respects _).bind fun _ => (allocHeap_respects _).bind fun _ => ?_
  refine (storeBytes_respects _ _ _).bind fun _ => (storeBytes_respects _ _ _).bind fun _ => ?_
  refine (storeBytes_respects _ _ _).bind fun _ => ?_
  refine ((tpmPCRRead_isCommand 18).respects events).bind fun _ => ?_
  refine Respects.ite (Respects.ret _) ((storeBytes_respects _ _ _).bind fun _ => ?_)
  refine ((tpmPCRRead_isCommand 19).respects events).bind fun _ => ?_
  refine Respects.ite (Respects.ret _) ((storeBytes_respects _ _ _).bind fun _ => ?_)
  exact (getTpmCompositeHash_respects _).bind fun _ => Respects.ret _

theorem sealPassphrase_respects (srkAuth ppAuth : Block 20)
    (passphrase lenPassphrase : UInt32) :
    Respects False False allowed
      (sealPassphrase device srkAuth ppAuth passphrase lenPassphrase) := by
  refine (getNonce_respects events).bind fun _ => Respects.ite (Respects.ret _) ?_
  refine ((tpmOSAP_isCommand _ _ _ _).respects events).bind fun _ => ?_
  refine Respects.ite (Respects.ret _) ((getNonce_respects events).bind fun _ => ?_)
  refine Respects.ite (Respects.ret _) ((setNonceOdd_respects _ _).bind fun _ => ?_)
  refine (endAfterCommand_respects _).bind fun _ => (sessionSecret_respects _).bind fun _ => ?_
  refine (getSlot_respects _).bind fun _ => (loadSession_respects _).bind fun _ => ?_
  refine (getPcrInfo_respects events).bind fun _ => Respects.ite (Respects.ret _) ?_
  exact (tpmSeal_isCommand _ _ _ _ _ _ _).respects events

theorem writePassphrase_respects (nvAuth : Block 20) (sealedData : TpmStoredData12)
    (index size : UInt32) :
    Respects False False allowed (writePassphrase device nvAuth sealedData index size) := by
  refine ((tpmOIAP_isCommand _).respects events).bind fun _ => Respects.ite (Respects.ret _) ?_
  refine (getNonce_respects events).bind fun _ => Respects.ite (Respects.ret _) ?_
  refine (setNonceOdd_respects _ _).bind fun _ => (endAfterCommand_respects _).bind fun _ => ?_
  refine (extractStoredData12_respects _).bind fun _ => ?_
  exact (tpmNvWriteValueAuth_isCommand _ _ _ _ _ _).respects events

theorem configure_respects (output : ∀ bytes, allowed (.output bytes)) (index size : UInt32) :
    Respects False False allowed (configure device index size) := by
  refine (allocHeap_respects _).bind fun _ => (outString_respects output _).bind fun _ => ?_
  refine (getStringAt_respects output _ _ _).bind fun _ => ?_
  refine (outString_respects output _).bind fun _ => (getAuthdata_respects output).bind fun _ => ?_
  refine Respects.ite (Respects.ret _) ((outString_respects output _).bind fun _ => ?_)
  refine (getAuthdata_respects output).bind fun _ => Respects.ite (Respects.ret _) ?_
  refine (sealPassphrase_respects events _ _ _ _).bind fun _ => Respects.ite (Respects.ret _) ?_
  refine (outString_respects output _).bind fun _ => (getAuthdata_respects output).bind fun _ => ?_
  exact Respects.ite (Respects.ret _) (writePassphrase_respects events _ _ _ _)

theorem readPassphrase_respects (index size : UInt32) :
    Respects False False allowed (readPassphrase device index size) := by
  refine ((tpmNvReadValue_isCommand _ _ _ _ _).respects events).bind fun _ => ?_
  refine Respects.ite (Respects.ret _) ((unpackStoredData12_respects _ _).bind fun _ => ?_)
  exact Respects.ret _

theorem unsealPassphrase_respects (srkAuth ppAuth : Block 20) (sealedPp : TpmStoredData12) :
    Respects False False allowed (unsealPassphrase device srkAuth ppAuth sealedPp) := by
  refine (getNonce_respects events).bind fun _ => ?_
  refine ((tpmOSAP_isCommand _ _ _ _).respects events).bind fun _ => ?_
  refine Respects.ite (Respects.ret _) ((endAfterCommand_respects _).bind fun _ => ?_)
  refine (sessionSecret_respects _).bind fun _ => ?_
  refine ((tpmOIAP_isCommand _).respects events).bind fun _ => Respects.ite (Respects.ret _) ?_
  refine (getNonce_respects events).bind fun _ => Respects.ite (Respects.ret _) ?_
  refine (setNonceOdd_respects _ _).bind fun _ => (endAfterCommand_respects _).bind fun _ => ?_
  refine ((tpmUnseal_isCommand _ _ _ _ _ _).respects events).bind fun _ => ?_
  exact Respects.ite (Respects.ret _) (Respects.ret _)

section Measurement

variable (extend : ∀ pcr digest, allowed (.extend pcr digest))

include extend

theorem tpmExtend_respects (pcrNumIn : UInt32) (inDigestIn : Block 20) :
    Respects keep still allowed (tpmExtend device pcrNumIn inDigestIn) :=
  (emit_respects (extend _ _)).bind fun _ => (extendCommand_isCommand _ _).respects events

theorem extendDigest_respects (bytes : List UInt8) :
    Respects keep still allowed (extendDigest device bytes) := by
  refine sha1InitLocal_respects.bind fun _ => (sha1Local_respects _).bind fun _ => ?_
  refine sha1FinishLocal_respects.bind fun _ => sctxHash_respects.bind fun _ => ?_
  exact tpmExtend_respects events extend _ _

theorem hashModule_respects (entry : UInt32) :
    Respects keep still allowed (hashModule device entry) := by
  refine sha1InitLocal_respects.bind fun _ => Respects.get.bind fun m => ?_
  refine Respects.ite (Respects.ret _) ((sha1Local_respects _).bind fun _ => ?_)
  refine Respects.ite (Respects.ret _) (sha1FinishLocal_respects.bind fun _ => ?_)
  refine sctxHash_respects.bind fun _ => (tpmExtend_respects events extend _ _).bind fun _ => ?_
  refine Respects.ite (Respects.ret _) (Respects.get.bind fun m => ?_)
  refine (loadString_respects _).bind fun _ => Respects.ite (Respects.ret _) ?_
  refine (extendDigest_respects events extend _).bind fun _ => ?_
  exact Respects.ite (Respects.ret _) (Respects.ret _)

theorem hashModules_respects (count : Nat) (entry : UInt32) :
    Respects keep still allowed (hashModules device count entry) := by
  induction count generalizing entry with
  | zero => exact Respects.ret _
  | succ count ih =>
      refine (hashModule_respects events extend entry).bind fun _ => ?_
      exact Respects.ite (Respects.ret _) (ih _)

theorem mbiCalcHash_respects (output : ∀ bytes, allowed (.output bytes)) (mbi : UInt32) :
    Respects keep still allowed (mbiCalcHash device mbi) := by
  have cmdline : Respects keep still allowed (hashCmdline device mbi) := by
    refine Respects.get.bind fun m => Respects.ite (Respects.ret _) ?_
    refine (loadString_respects _).bind fun _ => ?_
    refine (extendDigest_respects events extend _).bind fun _ => ?_
    exact Respects.ite (Respects.ret _) (Respects.ret _)
  refine cmdline.bind fun _ => Respects.ite (Respects.ret _) (Respects.get.bind fun m => ?_)
  refine Respects.ite (Respects.ret _) (Respects.ite (Respects.ret _) ?_)
  exact (emit_respects (output _)).bind fun _ => hashModules_respects events extend _ _

end Measurement

end Operations

end Sable
