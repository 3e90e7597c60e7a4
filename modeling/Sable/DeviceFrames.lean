import Sable.AuthorisedCommands

/-!
# Responses are parsed without the device

Once a response has been received, the device is not used again: a parser changes buffers,
hash contexts and session objects only, also when it halts.
-/

namespace Sable

open ByteMemory BigEndian HaltingProgram

/-- The registers of the device stay as they are. -/
abbrev KeepsDevice {σ α : Type} (program : Boot σ α) : Prop :=
  Prog.Preserves Machine.world program

/-- The registers after a sequence whose second part leaves them alone. -/
theorem KeepsDevice.world_bind {σ α β : Type} {next : α → Boot σ β}
    (keeps : ∀ value, KeepsDevice (next value)) (program : Boot σ α) (m : Machine σ) :
    ((program >>= next) m).state.world = (program m).state.world := by
  cases run : program m with
  | ok value reached =>
      rw [Prog.bind_ok run]
      exact keeps value reached
  | halt reason reached => rw [Prog.bind_halt run]; rfl

section Fields

variable {σ : Type}

theorem assert_keepsDevice {condition : Prop} [Decidable condition] :
    KeepsDevice (assert condition : Boot σ Unit) :=
  Prog.Preserves.ite (fun _ => rfl) fun _ => rfl

theorem hashBytes_keepsDevice (bytes : List UInt8) (sctx : HashPtr) :
    KeepsDevice (hashBytes bytes sctx : Boot σ Unit) :=
  Prog.Preserves.bind (fun _ => rfl) fun _ => Prog.Preserves.ite (fun _ => rfl) fun _ => rfl

theorem checkUnpackOverflow_keepsDevice (size : UInt32) :
    KeepsDevice (checkUnpackOverflow size : Boot σ Unit) :=
  Prog.Preserves.bind (fun _ => rfl) fun _ => assert_keepsDevice

theorem unpackBytes_keepsDevice (size : UInt32) :
    KeepsDevice (unpackBytes size : Boot σ (List UInt8)) :=
  (checkUnpackOverflow_keepsDevice size).bind fun _ =>
    Prog.Preserves.bind (fun _ => rfl) fun _ => Prog.Preserves.bind (fun _ => rfl) fun _ _ => rfl

theorem allocHeap_keepsDevice (size : UInt32) :
    KeepsDevice (allocHeap size : Boot σ UInt32) := by
  intro m
  unfold allocHeap
  cases alloc m.heap size m.mem with
  | ok ptr mem => rfl
  | halt reason mem => rfl

theorem unmarshalBYTE_keepsDevice (val : UInt8) (ctx : ContextPtr) (sctx : HashPtr) :
    KeepsDevice (unmarshalBYTE val ctx sctx : Boot σ UInt8) := by
  refine assert_keepsDevice.bind fun _ => Prog.Preserves.ite ?_ ?_
  · exact (hashBytes_keepsDevice _ _).bind fun _ _ => rfl
  · exact (unpackBytes_keepsDevice 1).bind fun _ =>
      (hashBytes_keepsDevice _ _).bind fun _ _ => rfl

theorem unmarshalUINT16_keepsDevice (val : UInt16) (ctx : ContextPtr) (sctx : HashPtr) :
    KeepsDevice (unmarshalUINT16 val ctx sctx : Boot σ UInt16) := by
  refine assert_keepsDevice.bind fun _ => Prog.Preserves.ite ?_ ?_
  · exact (hashBytes_keepsDevice _ _).bind fun _ _ => rfl
  · exact (unpackBytes_keepsDevice 2).bind fun _ =>
      (hashBytes_keepsDevice _ _).bind fun _ _ => rfl

theorem unmarshalUINT32_keepsDevice (val : UInt32) (ctx : ContextPtr) (sctx : HashPtr) :
    KeepsDevice (unmarshalUINT32 val ctx sctx : Boot σ UInt32) := by
  refine assert_keepsDevice.bind fun _ => Prog.Preserves.ite ?_ ?_
  · exact (hashBytes_keepsDevice _ _).bind fun _ _ => rfl
  · exact (unpackBytes_keepsDevice 4).bind fun _ =>
      (hashBytes_keepsDevice _ _).bind fun _ _ => rfl

theorem unmarshalArray_keepsDevice (data : Option (List UInt8)) (size : UInt32)
    (ctx : ContextPtr) (sctx : HashPtr) :
    KeepsDevice (unmarshalArray data size ctx sctx : Boot σ (Option (List UInt8))) := by
  refine assert_keepsDevice.bind fun _ => Prog.Preserves.ite ?_ ?_
  · exact Prog.Preserves.bind (fun _ => rfl) fun _ =>
      (hashBytes_keepsDevice _ _).bind fun _ _ => rfl
  · exact (unpackBytes_keepsDevice size).bind fun _ => Prog.Preserves.bind (fun _ => rfl) fun _ =>
      (hashBytes_keepsDevice _ _).bind fun _ _ => rfl

theorem unmarshalObject_keepsDevice (data : Block 20) (ctx : ContextPtr) (sctx : HashPtr) :
    KeepsDevice (unmarshalObject data ctx sctx : Boot σ (Block 20)) :=
  (unmarshalArray_keepsDevice _ _ _ _).bind fun _ _ => rfl

theorem unmarshalPtr_keepsDevice (size : UInt32) (ctx : ContextPtr) (sctx : HashPtr) :
    KeepsDevice (unmarshalPtr size ctx sctx : Boot σ UInt32) := by
  refine assert_keepsDevice.bind fun _ => (checkUnpackOverflow_keepsDevice size).bind fun _ =>
    (allocHeap_keepsDevice size).bind fun _ => assert_keepsDevice.bind fun _ => ?_
  refine Prog.Preserves.bind (fun _ => rfl) fun _ => Prog.Preserves.bind (fun _ => rfl) fun _ =>
    Prog.Preserves.bind (fun _ => rfl) fun _ => Prog.Preserves.bind (fun _ => rfl) fun _ => ?_
  exact (hashBytes_keepsDevice _ _).bind fun _ _ => rfl

end Fields

section Responses

variable {σ : Type}

theorem unmarshalHeader_keepsDevice (sctx : HashPtr) :
    KeepsDevice (unmarshalHeader sctx : Boot σ ResponseHeader) :=
  Prog.Preserves.bind (fun _ => rfl) fun _ => (unmarshalUINT16_keepsDevice _ _ _).bind fun _ =>
    (unmarshalUINT32_keepsDevice _ _ _).bind fun _ =>
      (unmarshalUINT32_keepsDevice _ _ _).bind fun _ _ => rfl

theorem unmarshalStoredData12_keepsDevice (ctx : ContextPtr) (sctx : HashPtr) :
    KeepsDevice (unmarshalStoredData12 ctx sctx : Boot σ TpmStoredData12) := by
  refine (unmarshalUINT16_keepsDevice _ _ _).bind fun _ => (unmarshalUINT16_keepsDevice _ _ _).bind
    fun _ => (unmarshalUINT32_keepsDevice _ _ _).bind fun _ => ?_
  exact (unmarshalPtr_keepsDevice _ _ _).bind fun _ => (unmarshalUINT32_keepsDevice _ _ _).bind
    fun _ => (unmarshalPtr_keepsDevice _ _ _).bind fun _ _ => rfl

theorem unmarshalHeapData_keepsDevice (ordinalIn : UInt32) :
    KeepsDevice (unmarshalHeapData ordinalIn : Boot σ HeapData) :=
  (unmarshalUINT32_keepsDevice _ _ _).bind fun _ => (unmarshalUINT32_keepsDevice _ _ _).bind
    fun _ => (unmarshalPtr_keepsDevice _ _ _).bind fun _ =>
      Prog.Preserves.bind (fun _ => rfl) fun _ _ => rfl

theorem loadSession_keepsDevice (s : UInt32) :
    KeepsDevice (loadSession s : Boot σ TpmSession) :=
  Prog.Preserves.ite (fun _ => rfl) (Prog.Preserves.bind (fun _ => rfl) fun _ _ => rfl)

theorem updateSession_keepsDevice (s : UInt32) (update : TpmSession → TpmSession) :
    KeepsDevice (updateSession s update : Boot σ Unit) :=
  Prog.Preserves.ite (fun _ => rfl) fun _ => rfl

theorem unmarshalAuth_keepsDevice (secret : Block 20) (s : UInt32) :
    KeepsDevice (unmarshalAuth secret s : Boot σ Unit) := by
  refine Prog.Preserves.bind (fun _ => rfl) fun _ => Prog.Preserves.bind (fun _ => rfl) fun _ => ?_
  refine (unmarshalObject_keepsDevice _ _ _).bind fun _ => (loadSession_keepsDevice s).bind
    fun _ => (unmarshalObject_keepsDevice _ _ _).bind fun _ => ?_
  refine (updateSession_keepsDevice _ _).bind fun _ => (unmarshalObject_keepsDevice _ _ _).bind
    fun _ => (unmarshalBYTE_keepsDevice _ _ _).bind fun _ => ?_
  exact updateSession_keepsDevice _ _

theorem unmarshalResAuth_keepsDevice :
    KeepsDevice (unmarshalResAuth : Boot σ (Block 20 × Block 20)) :=
  (unmarshalObject_keepsDevice _ _ _).bind fun _ => Prog.Preserves.bind (fun _ => rfl) fun _ =>
    Prog.Preserves.bind (fun _ => rfl) fun _ _ => rfl

theorem closeSession_keepsDevice (session : SessionSlot) (s : UInt32) :
    KeepsDevice (closeSession session s : Boot σ Unit) :=
  (loadSession_keepsDevice s).bind fun _ => Prog.Preserves.ite (fun _ => rfl) fun _ => rfl

theorem nvWriteResponse_keepsDevice (nvAuth : Block 20) (session : SessionSlot) (s : UInt32) :
    KeepsDevice (nvWriteResponse nvAuth session s : Boot σ (Result Unit)) := by
  refine Prog.Preserves.bind (fun _ => rfl) fun _ => (unmarshalHeader_keepsDevice _).bind
    fun _ => Prog.Preserves.ite (fun _ => rfl) ?_
  refine (unmarshalUINT32_keepsDevice _ _ _).bind fun _ => Prog.Preserves.bind (fun _ => rfl)
    fun _ => (unmarshalAuth_keepsDevice _ _).bind fun _ => unmarshalResAuth_keepsDevice.bind
      fun _ => Prog.Preserves.bind (fun _ => rfl) fun _ => ?_
  refine Prog.Preserves.ite (fun _ => rfl) (Prog.Preserves.ite (fun _ => rfl) ?_)
  exact (closeSession_keepsDevice _ _).bind fun _ =>
    Prog.Preserves.ite (fun _ => rfl) fun _ => rfl

theorem nvReadResponse_keepsDevice (ownerAuth : Block 20) (session : SessionSlot) (s : UInt32) :
    KeepsDevice (nvReadResponse ownerAuth (some session) s : Boot σ (Result HeapData)) := by
  refine Prog.Preserves.bind (fun _ => rfl) fun _ => (unmarshalHeader_keepsDevice _).bind
    fun _ => Prog.Preserves.ite (fun _ => rfl) ?_
  refine (unmarshalHeapData_keepsDevice _).bind fun _ => Prog.Preserves.ite ?_ ?_
  · exact Prog.Preserves.bind (fun _ => rfl) fun _ => Prog.Preserves.ite (fun _ => rfl)
      (Prog.Preserves.ite (fun _ => rfl) fun _ => rfl)
  refine (unmarshalAuth_keepsDevice _ _).bind fun _ => Prog.Preserves.bind (fun _ => rfl)
    fun _ => Prog.Preserves.bind (fun _ => rfl) fun _ => ?_
  refine (unmarshalObject_keepsDevice _ _ _).bind fun _ => (closeSession_keepsDevice _ _).bind
    fun _ => Prog.Preserves.bind (fun _ => rfl) fun _ => ?_
  exact Prog.Preserves.ite (fun _ => rfl) (Prog.Preserves.ite (fun _ => rfl)
    (Prog.Preserves.ite (fun _ => rfl) fun _ => rfl))

theorem sealResponse_keepsDevice (session : SessionSlot) (s : UInt32) (sharedSecret : Block 20) :
    KeepsDevice (sealResponse session s sharedSecret : Boot σ (Result TpmStoredData12)) := by
  refine Prog.Preserves.bind (fun _ => rfl) fun _ => (unmarshalHeader_keepsDevice _).bind
    fun _ => Prog.Preserves.ite (fun _ => rfl) ?_
  refine (unmarshalUINT32_keepsDevice _ _ _).bind fun _ =>
    (unmarshalStoredData12_keepsDevice _ _).bind fun _ => Prog.Preserves.bind (fun _ => rfl)
      fun _ => (unmarshalAuth_keepsDevice _ _).bind fun _ => ?_
  refine unmarshalResAuth_keepsDevice.bind fun _ => Prog.Preserves.bind (fun _ => rfl) fun _ => ?_
  refine Prog.Preserves.ite (fun _ => rfl) (Prog.Preserves.ite (fun _ => rfl)
    (Prog.Preserves.ite (fun _ => rfl) ?_))
  refine (loadSession_keepsDevice s).bind fun _ => Prog.Preserves.ite (fun _ => rfl) ?_
  exact Prog.Preserves.bind (fun _ => rfl) fun _ _ => rfl

theorem unsealResponse_keepsDevice (parentAuth : Block 20) (parentSession : SessionSlot)
    (parentS : UInt32) (dataAuth : Block 20) (dataSession : SessionSlot) (dataS : UInt32) :
    KeepsDevice (unsealResponse parentAuth parentSession parentS dataAuth dataSession dataS :
      Boot σ (Result HeapData)) := by
  refine Prog.Preserves.bind (fun _ => rfl) fun _ => (unmarshalHeader_keepsDevice _).bind
    fun _ => Prog.Preserves.ite (fun _ => rfl) ?_
  refine (unmarshalHeapData_keepsDevice _).bind fun _ => (unmarshalAuth_keepsDevice _ _).bind
    fun _ => unmarshalResAuth_keepsDevice.bind fun _ => ?_
  refine (closeSession_keepsDevice _ _).bind fun _ => Prog.Preserves.ite (fun _ => rfl) ?_
  refine (unmarshalAuth_keepsDevice _ _).bind fun _ => unmarshalResAuth_keepsDevice.bind
    fun _ => Prog.Preserves.bind (fun _ => rfl) fun _ => ?_
  refine Prog.Preserves.ite (fun _ => rfl) (Prog.Preserves.ite (fun _ => rfl)
    (Prog.Preserves.ite (fun _ => rfl) ?_))
  exact (closeSession_keepsDevice _ _).bind fun _ _ => rfl

theorem AuthorisedCommand.responsePart_keepsDevice {α : Type} (command : AuthorisedCommand α)
    (m : Machine σ) : KeepsDevice (command.responsePart m) := by
  cases command with
  | nvWriteValueAuth => exact nvWriteResponse_keepsDevice _ _ _
  | nvReadValue => exact nvReadResponse_keepsDevice _ _ _
  | unsealBlob => exact unsealResponse_keepsDevice _ _ _ _ _ _
  | sealData => exact sealResponse_keepsDevice _ _ _

end Responses

end Sable
