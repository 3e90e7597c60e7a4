import Sable.Boot

/-!
# Frame conditions

What a function can do to the log and to the sessions.  Most functions leave
the log alone and the others append events of a few kinds; only some functions
touch the session objects.  The lemmas are stated for any set of allowed events
that contains the right kinds and are tagged for `grind`, which closes the
goals that remain once a body is taken apart along its calls.
-/

namespace Sable

open ByteMemory BigEndian HaltingProgram

variable {σ : Type}

/-- While packing goes to the input buffer, the memory does not change. -/
def Machine.MemoryKept (m reached : Machine σ) : Prop :=
  m.locals.pctx.packBuffer = .tisIn →
    reached.mem = m.mem ∧ reached.heap = m.heap ∧
      reached.locals.pctx.packBuffer = .tisIn

/-- The log has grown by allowed events.  If `keep` holds, the session slots and
the objects behind them are unchanged, and if `still` holds, so is the memory. -/
structure Machine.Evolves (keep still : Prop) (allowed : Event → Prop)
    (m reached : Machine σ) : Prop where
  log : ∃ events, reached.log = m.log ++ events ∧ ∀ event ∈ events, allowed event
  sessions : keep → reached.sessionAt = m.sessionAt ∧ reached.sessions = m.sessions
  memory : still → m.MemoryKept reached

/-- The program changes the machine only in the way `Machine.Evolves` says. -/
def Respects {α : Type} (keep still : Prop) (allowed : Event → Prop)
    (program : Boot σ α) : Prop :=
  Prog.Steps (Machine.Evolves keep still allowed) program

section Rules

variable {α β : Type} {keep still : Prop} {allowed : Event → Prop}

theorem Machine.Evolves.of_eq {m reached : Machine σ} (log : reached.log = m.log)
    (sessions : keep → reached.sessionAt = m.sessionAt ∧ reached.sessions = m.sessions)
    (memory : still → m.MemoryKept reached) :
    Machine.Evolves keep still allowed m reached :=
  ⟨⟨[], by simpa using log, by simp⟩, sessions, memory⟩

theorem Machine.Evolves.refl (m : Machine σ) : Machine.Evolves keep still allowed m m :=
  Machine.Evolves.of_eq rfl (fun _ => ⟨rfl, rfl⟩) fun _ packing => ⟨rfl, rfl, packing⟩

theorem Machine.Evolves.trans {m middle reached : Machine σ}
    (first : Machine.Evolves keep still allowed m middle)
    (second : Machine.Evolves keep still allowed middle reached) :
    Machine.Evolves keep still allowed m reached := by
  obtain ⟨before, appended, known⟩ := first.log
  obtain ⟨after, appendedNext, knownNext⟩ := second.log
  refine ⟨⟨before ++ after, ?_, ?_⟩, fun kept => ?_, fun kept packing => ?_⟩
  · rw [appendedNext, appended, List.append_assoc]
  · intro event member
    rcases List.mem_append.mp member with early | late
    · exact known event early
    · exact knownNext event late
  · obtain ⟨objects, slots⟩ := first.sessions kept
    obtain ⟨objectsNext, slotsNext⟩ := second.sessions kept
    exact ⟨objectsNext.trans objects, slotsNext.trans slots⟩
  · obtain ⟨mem, heap, buffer⟩ := first.memory kept packing
    obtain ⟨memNext, heapNext, bufferNext⟩ := second.memory kept buffer
    exact ⟨memNext.trans mem, heapNext.trans heap, bufferNext⟩

@[grind ←]
theorem Respects.ret (value : α) : Respects keep still allowed (pure value : Boot σ α) :=
  Prog.Steps.ret Machine.Evolves.refl value

@[grind ←]
theorem Respects.halt (reason : Halt) :
    Respects keep still allowed (Prog.halt reason : Boot σ α) :=
  Prog.Steps.halt Machine.Evolves.refl reason

@[grind ←]
theorem Respects.get : Respects keep still allowed (Prog.get : Boot σ (Machine σ)) :=
  Prog.Steps.get Machine.Evolves.refl

theorem Respects.bind {program : Boot σ α} {next : α → Boot σ β}
    (first : Respects keep still allowed program)
    (second : ∀ value, Respects keep still allowed (next value)) :
    Respects keep still allowed (program >>= next) :=
  Prog.Steps.bind Machine.Evolves.trans first second

theorem Respects.ite {condition : Prop} [Decidable condition] {yes no : Boot σ α}
    (first : Respects keep still allowed yes) (second : Respects keep still allowed no) :
    Respects keep still allowed (if condition then yes else no) :=
  Prog.Steps.ite first second

theorem Respects.modify {update : Machine σ → Machine σ}
    (log : ∀ m, (update m).log = m.log)
    (sessions : keep → ∀ m, (update m).sessionAt = m.sessionAt ∧
      (update m).sessions = m.sessions)
    (memory : still → ∀ m, Machine.MemoryKept m (update m)) :
    Respects keep still allowed (Prog.modify update : Boot σ Unit) :=
  Prog.Steps.modify fun m => Machine.Evolves.of_eq (log m)
    (fun kept => sessions kept m) fun kept => memory kept m

/-- The machine outside of the driver and the contexts is the same. -/
def Machine.RestKept (m reached : Machine σ) : Prop :=
  reached.log = m.log ∧ reached.sessionAt = m.sessionAt ∧
    reached.sessions = m.sessions ∧ reached.mem = m.mem ∧ reached.heap = m.heap

theorem Respects.step {transform : Machine σ → α × Machine σ}
    (rest : ∀ m, Machine.RestKept m (transform m).2)
    (buffer : ∀ m, m.locals.pctx.packBuffer = .tisIn →
      (transform m).2.locals.pctx.packBuffer = .tisIn) :
    Respects keep still allowed (Prog.step transform : Boot σ α) := by
  refine Prog.Steps.step fun m => ?_
  obtain ⟨log, objects, slots, mem, heap⟩ := rest m
  exact Machine.Evolves.of_eq log (fun _ => ⟨objects, slots⟩)
    fun _ packing => ⟨mem, heap, buffer m packing⟩

theorem Respects.modify_locals {update : Machine σ → Machine σ}
    (rest : ∀ m, Machine.RestKept m (update m))
    (buffer : ∀ m, m.locals.pctx.packBuffer = .tisIn →
      (update m).locals.pctx.packBuffer = .tisIn) :
    Respects keep still allowed (Prog.modify update : Boot σ Unit) := by
  refine Prog.Steps.modify fun m => ?_
  obtain ⟨log, objects, slots, mem, heap⟩ := rest m
  exact Machine.Evolves.of_eq log (fun _ => ⟨objects, slots⟩)
    fun _ packing => ⟨mem, heap, buffer m packing⟩

/-- The events that a program respecting `allowed` adds to the log. -/
theorem Respects.log_eq {program : Boot σ α} (respects : Respects keep still allowed program)
    (m : Machine σ) : ∃ events, (program m).state.log = m.log ++ events ∧
      ∀ event ∈ events, allowed event :=
  (respects m).log

end Rules

section Machine

variable {keep still : Prop} {allowed : Event → Prop}

@[grind ←]
theorem emit_respects {event : Event} (permitted : allowed event) :
    Respects keep still allowed (emit event : Boot σ Unit) := by
  intro m
  exact ⟨⟨[event], rfl, by simpa using permitted⟩, fun _ => ⟨rfl, rfl⟩,
    fun _ packing => ⟨rfl, rfl, packing⟩⟩

@[grind ←]
theorem assert_respects {condition : Prop} [Decidable condition] :
    Respects keep still allowed (assert condition : Boot σ Unit) :=
  Respects.ite (Respects.ret _) (Respects.halt _)

@[grind ←]
theorem allocHeap_respects (size : UInt32) :
    Respects keep False allowed (allocHeap size : Boot σ UInt32) := by
  intro m
  unfold allocHeap
  cases alloc m.heap size m.mem
  · exact Machine.Evolves.of_eq rfl (fun _ => ⟨rfl, rfl⟩) False.elim
  · exact Machine.Evolves.of_eq rfl (fun _ => ⟨rfl, rfl⟩) False.elim

@[grind ←]
theorem storeBytes_respects (ptr offset : UInt32) (bytes : List UInt8) :
    Respects keep False allowed (storeBytes ptr offset bytes : Boot σ Unit) :=
  Respects.ite (Respects.halt _)
    (Respects.modify (fun _ => rfl) (fun _ _ => ⟨rfl, rfl⟩) False.elim)

@[grind ←]
theorem loadSession_respects (ptr : UInt32) :
    Respects keep still allowed (loadSession ptr : Boot σ TpmSession) :=
  Respects.ite (Respects.halt _) (Respects.get.bind fun _ => Respects.ret _)

@[grind ←]
theorem loadOsap_respects (ptr : UInt32) :
    Respects keep still allowed (loadOsap ptr : Boot σ TpmOsapExtension) :=
  Respects.ite (Respects.halt _) (Respects.get.bind fun _ => Respects.ret _)

@[grind ←]
theorem updateOsap_respects (ptr : UInt32)
    (update : TpmOsapExtension → TpmOsapExtension) :
    Respects keep still allowed (updateOsap ptr update : Boot σ Unit) :=
  Respects.ite (Respects.halt _)
    (Respects.modify_locals (fun _ => ⟨rfl, rfl, rfl, rfl, rfl⟩) fun _ packing => packing)

@[grind ←]
theorem getSlot_respects (slot : SessionSlot) :
    Respects keep still allowed (getSlot slot : Boot σ UInt32) :=
  Respects.get.bind fun _ => Respects.ret _

@[grind ←]
theorem allocOsap_respects : Respects keep False allowed (allocOsap : Boot σ UInt32) :=
  (allocHeap_respects 40).bind fun ptr => Respects.bind
    (Respects.modify (fun _ => rfl) (fun _ _ => ⟨rfl, rfl⟩) False.elim)
    fun _ => Respects.ret ptr

@[grind ←]
theorem updateSession_respects (ptr : UInt32) (update : TpmSession → TpmSession) :
    Respects False still allowed (updateSession ptr update : Boot σ Unit) :=
  Respects.ite (Respects.halt _) (Respects.modify (fun _ => rfl) (fun kept => kept.elim)
    fun _ _ packing => ⟨rfl, rfl, packing⟩)

@[grind ←]
theorem setSlot_respects (slot : SessionSlot) (ptr : UInt32) :
    Respects False still allowed (setSlot slot ptr : Boot σ Unit) :=
  Respects.modify (fun _ => rfl) (fun kept => kept.elim)
    fun _ _ packing => ⟨rfl, rfl, packing⟩

@[grind ←]
theorem allocSession_respects :
    Respects False False allowed (allocSession : Boot σ UInt32) :=
  (allocHeap_respects 49).bind fun ptr => Respects.bind
    (Respects.modify (fun _ => rfl) (fun kept => kept.elim) False.elim)
    fun _ => Respects.ret ptr

end Machine

section Driver

variable {device : TisDevice σ} {keep still : Prop} {allowed : Event → Prop}

@[grind ←]
theorem readReg_respects {α : Type} (register : σ → α × σ) :
    Respects keep still allowed (readReg register) :=
  Respects.step (fun _ => ⟨rfl, rfl, rfl, rfl, rfl⟩) fun _ packing => packing

@[grind ←]
theorem writeReg_respects (register : σ → σ) :
    Respects keep still allowed (writeReg register) :=
  Respects.modify_locals (fun _ => ⟨rfl, rfl, rfl, rfl, rfl⟩) fun _ packing => packing

@[grind ←]
theorem waitState_respects (mmap : UInt32) (state : UInt8) (polls : Nat) :
    Respects keep still allowed (waitState device mmap state polls) := by
  induction polls with
  | zero => exact Respects.ret _
  | succ polls ih =>
      exact (readReg_respects _).bind fun sts => Respects.ite (Respects.ret _) ih

@[grind ←]
theorem writeFifoLoop_respects (mmap : UInt32) (bytes : List UInt8) :
    Respects keep still allowed (writeFifoLoop device mmap bytes) := by
  induction bytes with
  | nil => exact Respects.ret _
  | cons byte bytes ih => exact (writeReg_respects _).bind fun _ => ih

@[grind ←]
theorem readFifoLoop_respects (mmap : UInt32) (count value : Nat) :
    Respects keep still allowed (readFifoLoop device mmap count value) := by
  induction count generalizing value with
  | zero => exact Respects.ret _
  | succ count ih =>
      refine (readReg_respects _).bind fun sts => Respects.ite (Respects.ret _) ?_
      refine (readReg_respects _).bind fun byte => Respects.ite ?_ (Respects.halt _)
      exact Respects.bind
        (Respects.modify_locals (fun _ => ⟨rfl, rfl, rfl, rfl, rfl⟩) fun _ packing => packing)
        fun _ => ih (value + 1)

@[grind ←]
theorem tisTransmit_respects : Respects keep still allowed (tisTransmit device) := by
  unfold tisTransmit tisWrite tisRead tisReady
  repeat' first
    | with_reducible intro _
    | with_reducible apply Respects.bind
    | with_reducible apply Respects.ite
  all_goals grind

@[grind ←]
theorem tisDeactivateAll_respects :
    Respects keep still allowed (tisDeactivateAll device) := by
  unfold tisDeactivateAll tisDeactivate
  repeat' first
    | with_reducible intro _
    | with_reducible apply Respects.bind
    | with_reducible apply Respects.ite
  all_goals grind

end Driver

section Marshalling

variable {keep still : Prop} {allowed : Event → Prop}

@[grind ←]
theorem hashBytes_respects (bytes : List UInt8) (sctx : HashPtr) :
    Respects keep still allowed (hashBytes bytes sctx : Boot σ Unit) := by
  refine Respects.get.bind fun m => Respects.ite ?_ (Respects.halt _)
  refine Respects.modify_locals (fun _ => ⟨rfl, rfl, rfl, rfl, rfl⟩) fun _ packing => ?_
  cases sctx with
  | null => exact packing
  | plain => exact packing
  | keyed => exact packing

@[grind ←]
theorem packBytes_respects (bytes : List UInt8) :
    Respects keep still allowed (packBytes bytes : Boot σ Unit) := by
  intro m
  rw [packBytes, Prog.bind_get]
  split
  · split
    · exact Machine.Evolves.refl m
    · cases buffer : m.locals.pctx.packBuffer with
      | tisIn =>
          exact Machine.Evolves.of_eq rfl (fun _ => ⟨rfl, rfl⟩)
            fun _ _ => ⟨rfl, rfl, rfl⟩
      | tisOut =>
          refine Machine.Evolves.of_eq rfl (fun _ => ⟨rfl, rfl⟩) fun _ packing => ?_
          rw [buffer] at packing
          cases packing
      | mem addr =>
          refine Machine.Evolves.of_eq rfl (fun _ => ⟨rfl, rfl⟩) fun _ packing => ?_
          rw [buffer] at packing
          cases packing
  · exact Machine.Evolves.refl m

@[grind ←]
theorem sha1InitLocal_respects :
    Respects keep still allowed (sha1InitLocal : Boot σ Unit) :=
  Respects.modify_locals (fun _ => ⟨rfl, rfl, rfl, rfl, rfl⟩) fun _ packing => packing

@[grind ←]
theorem sha1Local_respects (bytes : List UInt8) :
    Respects keep still allowed (sha1Local bytes : Boot σ Error) :=
  Respects.step (fun _ => ⟨rfl, rfl, rfl, rfl, rfl⟩) fun _ packing => packing

@[grind ←]
theorem sha1FinishLocal_respects :
    Respects keep still allowed (sha1FinishLocal : Boot σ Unit) :=
  Respects.modify_locals (fun _ => ⟨rfl, rfl, rfl, rfl, rfl⟩) fun _ packing => packing

@[grind ←]
theorem hmacInitLocal_respects (key : List UInt8) :
    Respects keep still allowed (hmacInitLocal key : Boot σ Unit) :=
  Respects.modify_locals (fun _ => ⟨rfl, rfl, rfl, rfl, rfl⟩) fun _ packing => packing

@[grind ←]
theorem hmacFinishLocal_respects :
    Respects keep still allowed (hmacFinishLocal : Boot σ Unit) :=
  Respects.modify_locals (fun _ => ⟨rfl, rfl, rfl, rfl, rfl⟩) fun _ packing => packing

@[grind ←]
theorem packInit_respects (buffer : BufferPtr) (size : UInt32) :
    Respects keep False allowed (packInit buffer size : Boot σ Unit) :=
  Respects.modify (fun _ => rfl) (fun _ _ => ⟨rfl, rfl⟩) False.elim

@[grind ←]
theorem packInit_tisIn_respects (size : UInt32) :
    Respects keep still allowed (packInit .tisIn size : Boot σ Unit) :=
  Respects.modify (fun _ => rfl) (fun _ _ => ⟨rfl, rfl⟩) fun _ _ _ => ⟨rfl, rfl, rfl⟩

@[grind ←]
theorem unpackInit_respects (buffer : BufferPtr) (size : UInt32) :
    Respects keep still allowed (unpackInit buffer size : Boot σ Unit) :=
  Respects.modify_locals (fun _ => ⟨rfl, rfl, rfl, rfl, rfl⟩) fun _ packing => packing

@[grind ←]
theorem advance_respects (size : UInt32) :
    Respects keep still allowed (advance size : Boot σ Unit) :=
  Respects.modify_locals (fun _ => ⟨rfl, rfl, rfl, rfl, rfl⟩) fun _ packing => packing

@[grind ←]
theorem sctxHash_respects :
    Respects keep still allowed (sctxHash : Boot σ (Block 20)) :=
  Respects.get.bind fun _ => Respects.ret _

@[grind ←]
theorem hctxHash_respects :
    Respects keep still allowed (hctxHash : Boot σ (Block 20)) :=
  Respects.get.bind fun _ => Respects.ret _

@[grind ←]
theorem packFinish_respects :
    Respects keep still allowed (packFinish : Boot σ UInt32) :=
  Respects.get.bind fun _ => Respects.ret _

@[grind ←]
theorem unpackFinish_respects :
    Respects keep still allowed (unpackFinish : Boot σ UInt32) :=
  Respects.get.bind fun _ => Respects.ret _

@[grind ←]
theorem unpackBytes_respects (size : UInt32) :
    Respects keep still allowed (unpackBytes size : Boot σ (List UInt8)) := by
  unfold unpackBytes checkUnpackOverflow peekBytes
  repeat' first
    | with_reducible intro _
    | with_reducible apply Respects.bind
    | with_reducible apply Respects.ite
  all_goals grind

@[grind ←]
theorem marshalBytes_respects (bytes : List UInt8) (ctx : ContextPtr) (sctx : HashPtr) :
    Respects keep still allowed (marshalBytes bytes ctx sctx : Boot σ Unit) := by
  refine (hashBytes_respects bytes sctx).bind fun _ => ?_
  cases ctx with
  | null => exact Respects.ret _
  | given => exact packBytes_respects bytes

@[grind ←]
theorem marshalArray_respects (data size : UInt32) (ctx : ContextPtr) (sctx : HashPtr) :
    Respects keep still allowed (marshalArray data size ctx sctx : Boot σ Unit) := by
  unfold marshalArray
  repeat' first
    | with_reducible intro _
    | with_reducible apply Respects.bind
    | with_reducible apply Respects.ite
  all_goals grind

@[grind ←]
theorem marshalPcrSelection_respects (select : TpmPcrSelection) (ctx : ContextPtr)
    (sctx : HashPtr) :
    Respects keep still allowed (marshalPcrSelection select ctx sctx : Boot σ Unit) := by
  unfold marshalPcrSelection marshalUINT16
  repeat' first
    | with_reducible intro _
    | with_reducible apply Respects.bind
    | with_reducible apply Respects.ite
  all_goals grind

@[grind ←]
theorem marshalPcrInfoLong_respects (pcrInfo : TpmPcrInfoLong) (ctx : ContextPtr)
    (sctx : HashPtr) :
    Respects keep still allowed (marshalPcrInfoLong pcrInfo ctx sctx : Boot σ Unit) := by
  unfold marshalPcrInfoLong marshalUINT16 marshalBYTE marshalObject
  repeat' first
    | with_reducible intro _
    | with_reducible apply Respects.bind
    | with_reducible apply Respects.ite
  all_goals grind

@[grind ←]
theorem marshalStoredData12_respects (data : TpmStoredData12) (ctx : ContextPtr)
    (sctx : HashPtr) :
    Respects keep still allowed (marshalStoredData12 data ctx sctx : Boot σ Unit) := by
  unfold marshalStoredData12 marshalUINT16 marshalUINT32
  repeat' first
    | with_reducible intro _
    | with_reducible apply Respects.bind
    | with_reducible apply Respects.ite
  all_goals grind

@[grind ←]
theorem unmarshalBYTE_respects (val : UInt8) (ctx : ContextPtr) (sctx : HashPtr) :
    Respects keep still allowed (unmarshalBYTE val ctx sctx : Boot σ UInt8) := by
  unfold unmarshalBYTE
  repeat' first
    | with_reducible intro _
    | with_reducible apply Respects.bind
    | with_reducible apply Respects.ite
  all_goals grind

@[grind ←]
theorem unmarshalUINT16_respects (val : UInt16) (ctx : ContextPtr) (sctx : HashPtr) :
    Respects keep still allowed (unmarshalUINT16 val ctx sctx : Boot σ UInt16) := by
  unfold unmarshalUINT16
  repeat' first
    | with_reducible intro _
    | with_reducible apply Respects.bind
    | with_reducible apply Respects.ite
  all_goals grind

@[grind ←]
theorem unmarshalUINT32_respects (val : UInt32) (ctx : ContextPtr) (sctx : HashPtr) :
    Respects keep still allowed (unmarshalUINT32 val ctx sctx : Boot σ UInt32) := by
  unfold unmarshalUINT32
  repeat' first
    | with_reducible intro _
    | with_reducible apply Respects.bind
    | with_reducible apply Respects.ite
  all_goals grind

@[grind ←]
theorem unmarshalArray_respects (data : Option (List UInt8)) (size : UInt32)
    (ctx : ContextPtr) (sctx : HashPtr) :
    Respects keep still allowed
      (unmarshalArray data size ctx sctx : Boot σ (Option (List UInt8))) := by
  unfold unmarshalArray
  repeat' first
    | with_reducible intro _
    | with_reducible apply Respects.bind
    | with_reducible apply Respects.ite
  all_goals grind

@[grind ←]
theorem unmarshalObject_respects (data : Block 20) (ctx : ContextPtr) (sctx : HashPtr) :
    Respects keep still allowed (unmarshalObject data ctx sctx : Boot σ (Block 20)) := by
  unfold unmarshalObject
  repeat' first
    | with_reducible intro _
    | with_reducible apply Respects.bind
    | with_reducible apply Respects.ite
  all_goals grind

@[grind ←]
theorem unmarshalPtr_respects (size : UInt32) (ctx : ContextPtr) (sctx : HashPtr) :
    Respects keep False allowed (unmarshalPtr size ctx sctx : Boot σ UInt32) := by
  have store (ptr : UInt32) (bytes : List UInt8) : Respects keep False allowed
      (Prog.modify fun m => { m with mem := write m.mem ptr.toNat bytes } :
        Boot σ Unit) :=
    Respects.modify (fun _ => rfl) (fun _ _ => ⟨rfl, rfl⟩) False.elim
  unfold unmarshalPtr checkUnpackOverflow peekBytes
  repeat' first
    | with_reducible intro _
    | with_reducible apply Respects.bind
    | with_reducible apply Respects.ite
  all_goals first | exact store _ _ | grind

@[grind ←]
theorem unmarshalStoredData12_respects (ctx : ContextPtr) (sctx : HashPtr) :
    Respects keep False allowed (unmarshalStoredData12 ctx sctx : Boot σ TpmStoredData12) := by
  unfold unmarshalStoredData12
  repeat' first
    | with_reducible intro _
    | with_reducible apply Respects.bind
    | with_reducible apply Respects.ite
  all_goals grind

@[grind ←]
theorem getTpmCompositeHash_respects (comp : TpmPcrComposite) :
    Respects keep still allowed (getTpmCompositeHash comp : Boot σ (Block 20)) := by
  unfold getTpmCompositeHash marshalUINT32
  repeat' first
    | with_reducible intro _
    | with_reducible apply Respects.bind
    | with_reducible apply Respects.ite
  all_goals grind

@[grind ←]
theorem extractStoredData12_respects (storedData : TpmStoredData12) :
    Respects keep False allowed (extractStoredData12 storedData : Boot σ (UInt32 × UInt32)) := by
  unfold extractStoredData12 packStoredData12
  repeat' first
    | with_reducible intro _
    | with_reducible apply Respects.bind
    | with_reducible apply Respects.ite
  all_goals grind

@[grind ←]
theorem unpackStoredData12_respects (data dataSize : UInt32) :
    Respects keep False allowed (unpackStoredData12 data dataSize : Boot σ TpmStoredData12) := by
  unfold unpackStoredData12
  repeat' first
    | with_reducible intro _
    | with_reducible apply Respects.bind
    | with_reducible apply Respects.ite
  all_goals grind

end Marshalling

section Commands

variable {device : TisDevice σ} {keep still : Prop} {allowed : Event → Prop}

/-- The events recorded inside a TPM command. -/
structure BodyEvents (allowed : Event → Prop) : Prop where
  sent : ∀ ordinal uses frame, allowed (.sent ordinal uses frame)
  opened : ∀ session nonce, allowed (.opened session nonce)

/-- The events recorded by TPM commands other than `TPM_Extend`. -/
structure CommandEvents (allowed : Event → Prop) : Prop extends
    BodyEvents allowed where
  issued : ∀ ordinal, allowed (.issued ordinal)
  finished : ∀ ordinal exception, allowed (.finished ordinal exception)
  random : ∀ exception bytes, allowed (.random exception bytes)

attribute [grind →] CommandEvents.toBodyEvents

theorem bodyEvents_true : BodyEvents fun _ => True :=
  ⟨fun _ _ _ => trivial, fun _ _ => trivial⟩

@[grind ←]
theorem transmit_respects (events : BodyEvents allowed) (ordinalIn paramSizeIn : UInt32)
    (uses : List (UInt32 × Block 20)) :
    Respects keep still allowed (transmit device ordinalIn paramSizeIn uses) := by
  have sent := events.sent
  unfold transmit
  repeat' first
    | with_reducible intro _
    | with_reducible apply Respects.bind
    | with_reducible apply Respects.ite
  all_goals grind

@[grind ←]
theorem marshalHeader_respects (tagIn : UInt16) (paramSizeIn : UInt32) :
    Respects keep still allowed (marshalHeader tagIn paramSizeIn : Boot σ Unit) := by
  unfold marshalHeader marshalUINT16 marshalUINT32
  repeat' first
    | with_reducible intro _
    | with_reducible apply Respects.bind
    | with_reducible apply Respects.ite
  all_goals grind

/-- A program that starts to pack into the input buffer keeps the memory. -/
theorem marshalHeader_keeps_memory {α : Type} {tagIn : UInt16} {paramSizeIn : UInt32}
    {next : Unit → Boot σ α}
    (respects : ∀ value, Respects False True (fun _ => True) (next value)) :
    Prog.Preserves (fun m => (m.mem, m.heap)) (marshalHeader tagIn paramSizeIn >>= next) := by
  intro m
  have rest : Respects False True (fun _ => True) (do
      marshalUINT16 tagIn .given .null
      marshalUINT32 paramSizeIn .given .null
      next ()) :=
    (marshalBytes_respects _ _ _).bind fun _ =>
      (marshalBytes_respects _ _ _).bind fun _ => respects ()
  rw [marshalHeader, packInit]
  simp only [bind_assoc, Prog.bind_modify]
  obtain ⟨mem, heap, -⟩ := (rest { m with
    locals := { m.locals with pctx := ⟨.tisIn, 0, 1024⟩ } }).memory trivial rfl
  exact Prod.ext mem heap

@[grind ←]
theorem unmarshalHeader_respects (sctx : HashPtr) :
    Respects keep still allowed (unmarshalHeader sctx : Boot σ ResponseHeader) := by
  unfold unmarshalHeader
  repeat' first
    | with_reducible intro _
    | with_reducible apply Respects.bind
    | with_reducible apply Respects.ite
  all_goals grind

theorem plainResponse_respects {α : Type} {initial : α} {params : Boot σ (Result α)}
    (respects : Respects keep still allowed params) :
    Respects keep still allowed (plainResponse initial params) := by
  unfold plainResponse
  repeat' first
    | with_reducible intro _
    | with_reducible apply Respects.bind
    | with_reducible apply Respects.ite
  all_goals grind

theorem plainCommand_respects {α : Type} (events : BodyEvents allowed)
    {ordinalIn paramSizeIn : UInt32} {uses : List (UInt32 × Block 20)}
    {request : Boot σ Unit} {initial : α} {response : Boot σ (Result α)}
    (requestRespects : Respects keep still allowed request)
    (responseRespects : Respects keep still allowed response) :
    Respects keep still allowed
      (plainCommand device ordinalIn paramSizeIn uses request initial response) := by
  have rest : Respects keep still allowed (plainResponse initial response) :=
    plainResponse_respects responseRespects
  unfold plainCommand plainRequest marshalUINT32
  repeat' first
    | with_reducible intro _
    | with_reducible apply Respects.bind
    | with_reducible apply Respects.ite
  all_goals grind

/-- A command without sessions keeps the memory if its two parts do. -/
theorem plainCommand_keeps_memory {α : Type} {ordinalIn paramSizeIn : UInt32}
    {uses : List (UInt32 × Block 20)} {request : Boot σ Unit} {initial : α}
    {response : Boot σ (Result α)}
    (requestRespects : Respects False True (fun _ => True) request)
    (responseRespects : Respects False True (fun _ => True) response) :
    Prog.Preserves (fun m => (m.mem, m.heap))
      (plainCommand device ordinalIn paramSizeIn uses request initial response) := by
  have events := bodyEvents_true
  have rest : Respects False True (fun _ => True) (plainResponse initial response) :=
    plainResponse_respects responseRespects
  rw [plainCommand, plainRequest, bind_assoc]
  refine marshalHeader_keeps_memory fun _ => ?_
  unfold marshalUINT32
  repeat' first
    | with_reducible intro _
    | with_reducible apply Respects.bind
    | with_reducible apply Respects.ite
  all_goals grind

/-- The program is a TPM command around a body that records only the events of
a body. -/
def IsCommand {α : Type} (keep still : Prop) (ordinal : UInt32)
    (program : Boot σ (Result α)) : Prop :=
  ∃ body, program = command ordinal body ∧
    ∀ allowed, BodyEvents allowed → Respects keep still allowed body

theorem IsCommand.respects {α : Type} {ordinal : UInt32} {program : Boot σ (Result α)}
    (isCommand : IsCommand keep still ordinal program) (events : CommandEvents allowed) :
    Respects keep still allowed program := by
  obtain ⟨body, rfl, respects⟩ := isCommand
  refine (emit_respects (events.issued _)).bind fun _ => ?_
  refine (respects allowed events.toBodyEvents).bind fun _ => ?_
  exact (emit_respects (events.finished _ _)).bind fun _ => Respects.ret _

theorem plainCommand_isCommand {α : Type} {ordinalIn paramSizeIn : UInt32}
    {uses : List (UInt32 × Block 20)} {request : Boot σ Unit} {initial : α}
    {response : Boot σ (Result α)}
    (requestRespects : ∀ allowed, Respects keep still allowed request)
    (responseRespects : ∀ allowed, BodyEvents allowed → Respects keep still allowed response) :
    IsCommand keep still ordinalIn (command ordinalIn
      (plainCommand device ordinalIn paramSizeIn uses request initial response)) :=
  ⟨_, rfl, fun allowed events => plainCommand_respects events
    (requestRespects allowed) (responseRespects allowed events)⟩

theorem tpmPCRRead_isCommand (pcrIndexIn : UInt32) :
    IsCommand keep still ordPcrRead (tpmPCRRead device pcrIndexIn) :=
  plainCommand_isCommand (fun _ => marshalBytes_respects _ _ _)
    fun _ _ => (unmarshalObject_respects _ _ _).bind fun _ => Respects.ret _

/-- The part of `TPM_Extend` behind its first log entry. -/
theorem extendCommand_isCommand (pcrNumIn : UInt32) (inDigestIn : Block 20) :
    IsCommand keep still ordExtend (command ordExtend <|
      plainCommand device ordExtend (2 + 4 + 4 + 4 + 20) []
        (do
          marshalUINT32 pcrNumIn .given .null
          marshalObject inDigestIn .given .null) default
        (do
          let value ← unmarshalObject default .given .null
          return .ok value)) :=
  plainCommand_isCommand
    (fun _ => (marshalBytes_respects _ _ _).bind fun _ => marshalBytes_respects _ _ _)
    fun _ _ => (unmarshalObject_respects _ _ _).bind fun _ => Respects.ret _

theorem tpmExtend_keeps_memory (pcrNumIn : UInt32) (inDigestIn : Block 20) :
    Prog.Preserves (fun m => (m.mem, m.heap)) (tpmExtend device pcrNumIn inDigestIn) := by
  refine Prog.Preserves.bind (fun _ => rfl) fun _ => ?_
  refine Prog.Preserves.bind (fun _ => rfl) fun _ => ?_
  refine Prog.Preserves.bind (plainCommand_keeps_memory ?_ ?_) fun _ => fun _ => rfl
  · exact (marshalBytes_respects _ _ _).bind fun _ => marshalBytes_respects _ _ _
  · exact (unmarshalObject_respects _ _ _).bind fun _ => Respects.ret _

theorem unmarshalOIAP_respects (opened : ∀ session nonce, allowed (.opened session nonce))
    (session : SessionSlot) :
    Respects False False allowed (unmarshalOIAP session : Boot σ (Result Unit)) := by
  unfold unmarshalOIAP
  repeat' first
    | with_reducible intro _
    | with_reducible apply Respects.bind
    | with_reducible apply Respects.ite
  all_goals grind

theorem tpmOIAP_isCommand (session : SessionSlot) :
    IsCommand False False ordOIAP (tpmOIAP device session) :=
  plainCommand_isCommand (fun _ => Respects.ret _)
    fun _ events => unmarshalOIAP_respects events.opened session

theorem unmarshalOSAP_respects (opened : ∀ session nonce, allowed (.opened session nonce))
    (nonceOddOSAP : Block 20) (session : SessionSlot) :
    Respects False False allowed
      (unmarshalOSAP nonceOddOSAP session : Boot σ (Result UInt32)) := by
  unfold unmarshalOSAP
  repeat' first
    | with_reducible intro _
    | with_reducible apply Respects.bind
    | with_reducible apply Respects.ite
  all_goals grind

theorem tpmOSAP_isCommand (entityTypeIn : UInt16) (entityValueIn : UInt32)
    (nonceOddOSAP : Block 20) (session : SessionSlot) :
    IsCommand False False ordOSAP
      (tpmOSAP device entityTypeIn entityValueIn nonceOddOSAP session) := by
  refine ⟨_, rfl, fun allowed events => ?_⟩
  refine (plainCommand_respects events ?_
    (unmarshalOSAP_respects events.opened nonceOddOSAP session)).bind fun ret => ?_
  · unfold marshalUINT16 marshalUINT32 marshalObject
    repeat' first
      | with_reducible intro _
      | with_reducible apply Respects.bind
      | with_reducible apply Respects.ite
    all_goals grind
  · exact Respects.ite (Respects.ret _)
      ((updateOsap_respects _ _).bind fun _ => Respects.ret _)

@[grind ←]
theorem marshalAuth_respects (secret : Block 20) (s : UInt32) :
    Respects keep still allowed (marshalAuth secret s : Boot σ Unit) := by
  unfold marshalAuth marshalUINT32 marshalObject marshalBYTE
  repeat' first
    | with_reducible intro _
    | with_reducible apply Respects.bind
    | with_reducible apply Respects.ite
  all_goals grind

@[grind ←]
theorem authUse_respects (s : UInt32) :
    Respects keep still allowed (authUse s : Boot σ (UInt32 × Block 20)) :=
  (loadSession_respects s).bind fun _ => Respects.ret _

@[grind ←]
theorem unmarshalAuth_respects (secret : Block 20) (s : UInt32) :
    Respects False still allowed (unmarshalAuth secret s : Boot σ Unit) := by
  unfold unmarshalAuth
  repeat' first
    | with_reducible intro _
    | with_reducible apply Respects.bind
    | with_reducible apply Respects.ite
  all_goals grind

@[grind ←]
theorem unmarshalResAuth_respects :
    Respects keep still allowed (unmarshalResAuth : Boot σ (Block 20 × Block 20)) := by
  unfold unmarshalResAuth
  repeat' first
    | with_reducible intro _
    | with_reducible apply Respects.bind
    | with_reducible apply Respects.ite
  all_goals grind

@[grind ←]
theorem closeSession_respects (session : SessionSlot) (s : UInt32) :
    Respects False still allowed (closeSession session s : Boot σ Unit) := by
  unfold closeSession
  repeat' first
    | with_reducible intro _
    | with_reducible apply Respects.bind
    | with_reducible apply Respects.ite
  all_goals grind

@[grind ←]
theorem unmarshalHeapData_respects (ordinalIn : UInt32) :
    Respects keep False allowed (unmarshalHeapData ordinalIn : Boot σ HeapData) := by
  unfold unmarshalHeapData
  repeat' first
    | with_reducible intro _
    | with_reducible apply Respects.bind
    | with_reducible apply Respects.ite
  all_goals grind

theorem nvWriteRequest_respects (events : BodyEvents allowed)
    (dataIn dataSizeIn nvIndexIn offsetIn : UInt32) (nvAuth : Block 20) (s : UInt32) :
    Respects keep still allowed
      (nvWriteRequest device dataIn dataSizeIn nvIndexIn offsetIn nvAuth s) := by
  unfold nvWriteRequest marshalUINT32
  repeat' first
    | with_reducible intro _
    | with_reducible apply Respects.bind
    | with_reducible apply Respects.ite
  all_goals grind

theorem nvWriteResponse_respects (nvAuth : Block 20) (session : SessionSlot)
    (s : UInt32) :
    Respects False still allowed (nvWriteResponse nvAuth session s : Boot σ (Result Unit)) := by
  unfold nvWriteResponse
  repeat' first
    | with_reducible intro _
    | with_reducible apply Respects.bind
    | with_reducible apply Respects.ite
  all_goals grind

theorem tpmNvWriteValueAuth_isCommand (dataIn dataSizeIn nvIndexIn offsetIn : UInt32)
    (nvAuth : Block 20) (session : SessionSlot) :
    IsCommand False False ordNvWriteValueAuth (tpmNvWriteValueAuth device dataIn dataSizeIn
      nvIndexIn offsetIn nvAuth session) := by
  refine ⟨_, rfl, fun allowed events => ?_⟩
  refine (getSlot_respects session).bind fun s => ?_
  refine (nvWriteRequest_respects events _ _ _ _ _ _).bind fun ret => ?_
  exact Respects.ite (Respects.ret _) (nvWriteResponse_respects _ _ _)

theorem nvReadRequest_respects (events : BodyEvents allowed)
    (nvIndexIn offsetIn dataSizeIn : UInt32) (ownerAuth : Block 20) (s : UInt32) :
    Respects keep still allowed
      (nvReadRequest device nvIndexIn offsetIn dataSizeIn ownerAuth s) := by
  unfold nvReadRequest marshalUINT32
  repeat' first
    | with_reducible intro _
    | with_reducible apply Respects.bind
    | with_reducible apply Respects.ite
  all_goals grind

theorem nvReadResponse_respects (ownerAuth : Block 20) (session : Option SessionSlot)
    (s : UInt32) :
    Respects False False allowed
      (nvReadResponse ownerAuth session s : Boot σ (Result HeapData)) := by
  have close (s : UInt32) : Respects False False allowed
      (session.forM fun slot => (closeSession slot s : Boot σ Unit)) := by
    cases session with
    | none => exact Respects.ret _
    | some slot => exact closeSession_respects slot s
  unfold nvReadResponse
  repeat' first
    | with_reducible intro _
    | with_reducible apply Respects.bind
    | with_reducible apply Respects.ite
  all_goals first | exact close _ | grind

theorem tpmNvReadValue_isCommand (nvIndexIn offsetIn dataSizeIn : UInt32)
    (ownerAuthIn : Option (Block 20)) (session : Option SessionSlot) :
    IsCommand False False ordNvReadValue (tpmNvReadValue device nvIndexIn offsetIn dataSizeIn
      ownerAuthIn session) := by
  refine ⟨_, rfl, fun allowed events => ?_⟩
  have lookup : Respects False False allowed (optionalSession session : Boot σ UInt32) := by
    cases session with
    | none => exact Respects.ret _
    | some slot => exact getSlot_respects slot
  refine lookup.bind fun s => assert_respects.bind fun _ => ?_
  refine (nvReadRequest_respects events _ _ _ _ _).bind fun ret => ?_
  exact Respects.ite (Respects.ret _) (nvReadResponse_respects _ _ _)

theorem unsealRequest_respects (events : BodyEvents allowed)
    (inDataIn : TpmStoredData12) (parentHandleIn : UInt32) (parentAuth : Block 20)
    (parentS : UInt32) (dataAuth : Block 20) (dataS : UInt32) :
    Respects keep still allowed (unsealRequest device inDataIn parentHandleIn parentAuth
      parentS dataAuth dataS) := by
  unfold unsealRequest marshalUINT32
  repeat' first
    | with_reducible intro _
    | with_reducible apply Respects.bind
    | with_reducible apply Respects.ite
  all_goals grind

theorem unsealResponse_respects (parentAuth : Block 20) (parentSession : SessionSlot)
    (parentS : UInt32) (dataAuth : Block 20) (dataSession : SessionSlot)
    (dataS : UInt32) :
    Respects False False allowed (unsealResponse parentAuth parentSession parentS dataAuth
      dataSession dataS : Boot σ (Result HeapData)) := by
  unfold unsealResponse
  repeat' first
    | with_reducible intro _
    | with_reducible apply Respects.bind
    | with_reducible apply Respects.ite
  all_goals grind

theorem tpmUnseal_isCommand (inDataIn : TpmStoredData12) (parentHandleIn : UInt32)
    (parentAuth : Block 20) (parentSession : SessionSlot) (dataAuth : Block 20)
    (dataSession : SessionSlot) :
    IsCommand False False ordUnseal (tpmUnseal device inDataIn parentHandleIn parentAuth
      parentSession dataAuth dataSession) := by
  refine ⟨_, rfl, fun allowed events => ?_⟩
  refine (getSlot_respects _).bind fun parentS => (getSlot_respects _).bind fun dataS => ?_
  refine (unsealRequest_respects events _ _ _ _ _ _).bind fun ret => ?_
  exact Respects.ite (Respects.ret _) (unsealResponse_respects _ _ _ _ _ _)

theorem sealRequest_respects (events : BodyEvents allowed) (keyHandleIn : UInt32)
    (encAuthIn : Block 20) (pcrInfoIn : TpmPcrInfoLong) (inDataIn inDataSizeIn : UInt32)
    (s : UInt32) (sharedSecret : Block 20) :
    Respects keep still allowed (sealRequest device keyHandleIn encAuthIn pcrInfoIn inDataIn
      inDataSizeIn s sharedSecret) := by
  unfold sealRequest marshalUINT32 marshalObject
  repeat' first
    | with_reducible intro _
    | with_reducible apply Respects.bind
    | with_reducible apply Respects.ite
  all_goals grind

theorem sealResponse_respects (session : SessionSlot) (s : UInt32)
    (sharedSecret : Block 20) :
    Respects False False allowed
      (sealResponse session s sharedSecret : Boot σ (Result TpmStoredData12)) := by
  unfold sealResponse
  repeat' first
    | with_reducible intro _
    | with_reducible apply Respects.bind
    | with_reducible apply Respects.ite
  all_goals grind

theorem tpmSeal_isCommand (keyHandleIn : UInt32) (encAuthIn : Block 20)
    (pcrInfoIn : TpmPcrInfoLong) (inDataIn inDataSizeIn : UInt32)
    (session : SessionSlot) (sharedSecret : Block 20) :
    IsCommand False False ordSeal (tpmSeal device keyHandleIn encAuthIn pcrInfoIn inDataIn
      inDataSizeIn session sharedSecret) := by
  refine ⟨_, rfl, fun allowed events => ?_⟩
  refine (getSlot_respects session).bind fun s => ?_
  refine (sealRequest_respects events _ _ _ _ _ _ _).bind fun ret => ?_
  exact Respects.ite (Respects.ret _) (sealResponse_respects _ _ _)

end Commands

end Sable
