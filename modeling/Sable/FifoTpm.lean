import Sable.Tis
import Sable.TpmWire

/-!
# A TPM behind the FIFO interface

What the driver relies on when it exchanges a frame for a response: bytes go
into an input queue, `TIS_STS_TPM_GO` executes them as a command, and the bytes
of the response come out of an output queue.  Status registers may otherwise
show anything, so that the driver can give up at any point; it then has executed
the command at most once.
-/

namespace Sable

open ByteMemory BigEndian HaltingProgram

/-- A frame that fits the buffers and whose size field is its length. -/
structure Framed (bytes : List UInt8) : Prop where
  long : 10 ≤ bytes.length
  short : bytes.length ≤ 1024
  size : ofBe32 ((bytes.drop 2).take 4) = UInt32.ofNat bytes.length

theorem Framed.count {bytes : List UInt8} (framed : Framed bytes) :
    signedBound (ofBe32 ((bytes.drop 2).take 4)) = bytes.length := by
  have short := framed.short
  rw [framed.size, signedBound,
    UInt32.toNat_ofNat_of_lt' (by simp only [UInt32.size]; omega), if_pos (by omega)]

/-- What is known about a TPM: the state behind its commands and the bytes
waiting in the two queues. -/
structure FifoView (κ : Type) where
  core : κ
  input : List UInt8
  output : List UInt8

/-- No command and no response is under way. -/
def FifoView.idle {κ : Type} (core : κ) : FifoView κ :=
  ⟨core, [], []⟩

/-- The registers at `mmap` are the interface of a TPM that executes commands
by `exec`. -/
structure FifoTpm {σ : Type} (device : TisDevice σ) (mmap : UInt32) (κ : Type) where
  view : σ → FifoView κ
  exec : κ → List UInt8 → List UInt8 × κ
  framed : ∀ core frame, Framed (exec core frame).1
  readSts : ∀ world, view (device.readSts mmap world).2 = view world
  dataAvail : ∀ world, (device.readSts mmap world).1 &&& tisStsDataAvail ≠ 0 ↔
    (view world).output ≠ []
  writeFifo : ∀ byte world, view (device.writeFifo mmap byte world) =
    { view world with input := (view world).input ++ [byte] }
  readFifo : ∀ world byte rest, (view world).output = byte :: rest →
    (device.readFifo mmap world).1 = byte ∧
      view (device.readFifo mmap world).2 = { view world with output := rest }
  cmdReady : ∀ world, view (device.writeSts mmap tisStsCmdReady world) =
    FifoView.idle (view world).core
  tpmGo : ∀ world, view (device.writeSts mmap tisStsTpmGo world) =
    { core := (exec (view world).core (view world).input).2
      input := []
      output := (exec (view world).core (view world).input).1 }

namespace FifoTpm

variable {σ κ : Type} {device : TisDevice σ} {mmap : UInt32}
  (tpm : FifoTpm device mmap κ)

/-- The status register never makes the driver give up. -/
structure Reliable : Prop where
  valid : ∀ world, (device.readSts mmap world).1 &&& tisStsValid ≠ 0
  ready : ∀ world core, tpm.view world = FifoView.idle core →
    (device.readSts mmap world).1 &&& tisStsCmdReady ≠ 0
  complete : ∀ world, Framed (tpm.view world).input →
    (device.readSts mmap world).1 &&& tisStsExpect = 0

/-- Since the state `base` only the TPM and the output buffer have changed, and
the buffer starts with the bytes received. -/
structure Attached (base : Machine σ) (view : FifoView κ) (received : List UInt8)
    (m : Machine σ) : Prop where
  rest : { m with world := base.world, tisOut := base.tisOut } = base
  view_eq : tpm.view m.world = view
  received_eq : read m.tisOut 0 received.length = received

variable {tpm} {base : Machine σ} {view : FifoView κ} {received frame : List UInt8}
  {core : κ}

theorem Attached.tisLocality_eq {m : Machine σ}
    (attached : tpm.Attached base view received m) : m.tisLocality = base.tisLocality := by
  have same := congrArg Machine.tisLocality attached.rest
  exact same

theorem Attached.tisIn_eq {m : Machine σ}
    (attached : tpm.Attached base view received m) : m.tisIn = base.tisIn := by
  have same := congrArg Machine.tisIn attached.rest
  exact same

/-- What a read of the status register shows. -/
def Shows (tpm : FifoTpm device mmap κ) (view : FifoView κ) (sts : UInt8) : Prop :=
  (sts &&& tisStsDataAvail ≠ 0 ↔ view.output ≠ []) ∧
    (tpm.Reliable → sts &&& tisStsValid ≠ 0 ∧
      (∀ core, view = FifoView.idle core → sts &&& tisStsCmdReady ≠ 0) ∧
      (Framed view.input → sts &&& tisStsExpect = 0))

theorem readSts_runs :
    Prog.Runs False (tpm.Attached base view received) (readReg (device.readSts mmap))
      (fun sts m => tpm.Shows view sts ∧ tpm.Attached base view received m) := by
  rintro m ⟨rest, viewEq, receivedEq⟩
  refine ⟨⟨?_, fun reliable => ⟨reliable.valid _, ?_, ?_⟩⟩, rest, ?_, receivedEq⟩
  · rw [← viewEq]
    exact tpm.dataAvail m.world
  · intro core idle
    exact reliable.ready m.world core (viewEq.trans idle)
  · rw [← viewEq]
    exact reliable.complete m.world
  · exact (tpm.readSts m.world).trans viewEq

theorem waitState_runs (state : UInt8) (polls : Nat) :
    Prog.Runs False (tpm.Attached base view received) (waitState device mmap state polls)
      (fun _ => tpm.Attached base view received) := by
  induction polls with
  | zero => exact Prog.Runs.ret fun m holds => holds
  | succ polls ih =>
      refine Prog.Runs.bind readSts_runs fun sts => Prog.Runs.assume fun _ => ?_
      exact Prog.Runs.ite (fun _ => Prog.Runs.ret fun m holds => holds) fun _ => ih

theorem writeFifoLoop_runs (bytes : List UInt8) :
    Prog.Runs False (tpm.Attached base view received) (writeFifoLoop device mmap bytes)
      (fun _ => tpm.Attached base { view with input := view.input ++ bytes } received) := by
  induction bytes generalizing view with
  | nil =>
      refine Prog.Runs.ret fun m holds => ?_
      rw [List.append_nil]
      exact holds
  | cons byte bytes ih =>
      have first : Prog.Runs False (tpm.Attached base view received)
          (writeReg (device.writeFifo mmap byte))
          (fun _ => tpm.Attached base { view with input := view.input ++ [byte] }
            received) := by
        apply Prog.Runs.modify
        rintro m ⟨rest, viewEq, receivedEq⟩
        refine ⟨rest, ?_, receivedEq⟩
        rw [tpm.writeFifo, viewEq]
      refine Prog.Runs.bind first fun _ => ?_
      refine Prog.Runs.mono ih (fun m holds => holds) fun _ m holds => ?_
      simpa using holds

theorem cmdReady_runs :
    Prog.Runs False (tpm.Attached base view received)
      (writeReg (device.writeSts mmap tisStsCmdReady))
      (fun _ => tpm.Attached base (FifoView.idle view.core) received) := by
  apply Prog.Runs.modify
  rintro m ⟨rest, viewEq, receivedEq⟩
  refine ⟨rest, ?_, receivedEq⟩
  rw [tpm.cmdReady, viewEq]

theorem tpmGo_runs :
    Prog.Runs False (tpm.Attached base view received)
      (writeReg (device.writeSts mmap tisStsTpmGo))
      (fun _ => tpm.Attached base
        ⟨(tpm.exec view.core view.input).2, [], (tpm.exec view.core view.input).1⟩
        received) := by
  apply Prog.Runs.modify
  rintro m ⟨rest, viewEq, receivedEq⟩
  refine ⟨rest, ?_, receivedEq⟩
  rw [tpm.tpmGo, viewEq]

theorem readFifoLoop_runs {rest bytes : List UInt8} (output : view.output = bytes ++ rest)
    (fits : received.length + bytes.length ≤ tisBufferSize) :
    Prog.Runs False (tpm.Attached base view received)
      (readFifoLoop device mmap bytes.length received.length)
      (fun value m => value = received.length + bytes.length ∧
        tpm.Attached base { view with output := rest } (received ++ bytes) m) := by
  induction bytes generalizing view received with
  | nil =>
      refine Prog.Runs.ret fun m holds => ⟨rfl, ?_⟩
      rw [List.append_nil, ← List.nil_append rest, ← output]
      exact holds
  | cons byte bytes ih =>
      refine Prog.Runs.bind readSts_runs fun sts => Prog.Runs.assume fun shows => ?_
      refine Prog.Runs.ite (fun empty => ?_) fun _ => ?_
      · exact (shows.1.mpr (by simp [output]) empty).elim
      have pop : Prog.Runs False (tpm.Attached base view received)
          (readReg (device.readFifo mmap))
          (fun value m => value = byte ∧
            tpm.Attached base { view with output := bytes ++ rest } received m) := by
        rintro m ⟨unchanged, viewEq, receivedEq⟩
        obtain ⟨value, popped⟩ := tpm.readFifo m.world byte (bytes ++ rest)
          (by rw [viewEq, output, List.cons_append])
        refine ⟨value, unchanged, ?_, receivedEq⟩
        rw [← viewEq]
        exact popped
      refine Prog.Runs.bind_value pop ?_
      rw [List.length_cons] at fits
      rw [if_pos (by omega)]
      have push : Prog.Runs False
          (tpm.Attached base { view with output := bytes ++ rest } received)
          (Prog.modify fun m =>
            { m with tisOut := write m.tisOut received.length [byte] } : Boot σ Unit)
          (fun _ => tpm.Attached base { view with output := bytes ++ rest }
            (received ++ [byte])) := by
        apply Prog.Runs.modify
        rintro m ⟨unchanged, viewEq, receivedEq⟩
        refine ⟨unchanged, viewEq, ?_⟩
        have stored : read (write m.tisOut received.length [byte]) received.length 1 =
            [byte] :=
          read_write_self m.tisOut received.length [byte]
        rw [List.length_append, List.length_singleton, read_add, Nat.zero_add, stored,
          read_write_disjoint _ (by omega), receivedEq]
      refine Prog.Runs.bind push fun _ => ?_
      have loop := @ih { view with output := bytes ++ rest } (received ++ [byte]) rfl
        (by rw [List.length_append, List.length_singleton]; omega)
      rw [List.length_append, List.length_singleton] at loop
      refine Prog.Runs.mono loop (fun m holds => holds) ?_
      rintro value m ⟨count, attached⟩
      refine ⟨by rw [count, List.length_cons]; omega, ?_⟩
      rw [List.append_assoc, List.singleton_append] at attached
      exact attached

/-- The command is in the input queue and has been started, or the driver has
given up before. -/
def Written (tpm : FifoTpm device mmap κ) (base : Machine σ) (core : κ)
    (frame : List UInt8) (ret : Result Unit) (m : Machine σ) : Prop :=
  (tpm.Reliable → ret.exception = .none) ∧
    (ret.exception = .none → tpm.Attached base
      ⟨(tpm.exec core frame).2, [], (tpm.exec core frame).1⟩ [] m) ∧
    (ret.exception ≠ .none → ∃ input output, tpm.Attached base ⟨core, input, output⟩ [] m)

theorem tisReady_runs :
    Prog.Runs False (tpm.Attached base (FifoView.idle core) [])
      (tisReady device mmap) (fun _ => tpm.Attached base (FifoView.idle core) []) := by
  refine Prog.Runs.bind readSts_runs fun sts => Prog.Runs.assume fun _ => ?_
  refine Prog.Runs.ite (fun _ => ?_) fun _ => Prog.Runs.ret fun m holds => holds
  exact Prog.Runs.bind cmdReady_runs fun _ => waitState_runs _ _

theorem tisWrite_runs (framed : Framed frame) (locality : base.tisLocality = mmap)
    (packed : read base.tisIn 0 frame.length = frame) :
    Prog.Runs False (tpm.Attached base (FifoView.idle core) []) (tisWrite device)
      (tpm.Written base core frame) := by
  have sizeField : read base.tisIn 2 4 = (frame.drop 2).take 4 := by
    have long := framed.long
    have tail := drop_read base.tisIn 0 frame.length 2 (by omega)
    rw [packed] at tail
    rw [tail, take_read _ _ _ _ (by omega)]
  have count : signedBound (ofBe32 (read base.tisIn 2 4)) = frame.length := by
    rw [sizeField, framed.count]
  intro m attached
  rw [tisWrite, Prog.bind_get]
  simp only [attached.tisLocality_eq, locality, attached.tisIn_eq, count, packed]
  revert m
  refine Prog.Runs.bind tisReady_runs fun _ => ?_
  refine Prog.Runs.bind readSts_runs fun sts => Prog.Runs.assume fun shows => ?_
  refine Prog.Runs.ite (fun busy => ?_) fun _ => ?_
  · refine Prog.Runs.ret fun m holds => ⟨fun reliable => ?_, by simp, fun _ => ?_⟩
    · exact ((shows.2 reliable).2.1 core rfl busy).elim
    · exact ⟨_, _, holds⟩
  refine Prog.Runs.bind (writeFifoLoop_runs frame) fun _ => ?_
  refine Prog.Runs.bind (waitState_runs _ _) fun _ => ?_
  refine Prog.Runs.bind readSts_runs fun sts => Prog.Runs.assume fun shows => ?_
  refine Prog.Runs.ite (fun expects => ?_) fun _ => ?_
  · refine Prog.Runs.ret fun m holds => ⟨fun reliable => ?_, by simp, fun _ => ?_⟩
    · exact (expects ((shows.2 reliable).2.2 framed)).elim
    · exact ⟨_, _, holds⟩
  refine Prog.Runs.bind tpmGo_runs fun _ => ?_
  exact Prog.Runs.ret fun m holds => ⟨fun _ => rfl, fun _ => holds, by simp⟩

/-- The response has been read, or the driver has given up before. -/
def Answered (tpm : FifoTpm device mmap κ) (base : Machine σ) (core : κ)
    (response : List UInt8) (ret : Result Unit) (m : Machine σ) : Prop :=
  (tpm.Reliable → ret.exception = .none) ∧
    (ret.exception = .none → tpm.Attached base (FifoView.idle core) response m) ∧
    ∃ view, view.core = core ∧ tpm.Attached base view [] m

theorem Attached.forget {m : Machine σ} (attached : tpm.Attached base view received m) :
    tpm.Attached base view [] m :=
  ⟨attached.rest, attached.view_eq, rfl⟩

theorem tisRead_runs {response : List UInt8} (framed : Framed response)
    (locality : base.tisLocality = mmap) :
    Prog.Runs False (tpm.Attached base ⟨core, [], response⟩ []) (tisRead device)
      (tpm.Answered base core response) := by
  have long := framed.long
  intro m attached
  rw [tisRead, Prog.bind_get]
  simp only [attached.tisLocality_eq, locality]
  revert m
  refine Prog.Runs.bind (waitState_runs _ _) fun _ => ?_
  refine Prog.Runs.bind readSts_runs fun sts => Prog.Runs.assume fun shows => ?_
  refine Prog.Runs.ite (fun invalid => ?_) fun _ => ?_
  · refine Prog.Runs.ret fun m holds => ⟨fun reliable => ?_, by simp, ⟨_, rfl, holds⟩⟩
    exact ((shows.2 reliable).1 invalid).elim
  have first : Prog.Runs False (tpm.Attached base ⟨core, [], response⟩ [])
      (readFifoLoop device mmap 6 0)
      (fun value m => value = 6 ∧
        tpm.Attached base ⟨core, [], response.drop 6⟩ (response.take 6) m) := by
    have loop : Prog.Runs False (tpm.Attached base ⟨core, [], response⟩ [])
        (readFifoLoop device mmap (response.take 6).length 0) _ :=
      readFifoLoop_runs (List.take_append_drop 6 response).symm (by
        rw [List.length_nil, List.length_take_of_le (by omega), tisBufferSize]
        omega)
    rw [List.length_take_of_le (by omega)] at loop
    exact Prog.Runs.mono loop (fun m holds => holds) fun value m holds => holds
  refine Prog.Runs.bind_value first ?_
  intro m attached
  have sizeField : read m.tisOut 2 4 = (response.drop 2).take 4 := by
    have start := attached.received_eq
    rw [List.length_take_of_le (by omega)] at start
    have tail := drop_read m.tisOut 0 6 2 (by omega)
    rw [start] at tail
    rw [← tail, List.drop_take]
  rw [Prog.bind_get, sizeField, framed.count]
  clear sizeField
  revert m
  have second : Prog.Runs False
      (tpm.Attached base ⟨core, [], response.drop 6⟩ (response.take 6))
      (readFifoLoop device mmap (response.length - 6) 6)
      (fun _ => tpm.Attached base ⟨core, [], []⟩ response) := by
    have loop : Prog.Runs False
        (tpm.Attached base ⟨core, [], response.drop 6⟩ (response.take 6))
        (readFifoLoop device mmap (response.drop 6).length (response.take 6).length) _ :=
      readFifoLoop_runs (List.append_nil _).symm (by
        rw [List.length_take_of_le (by omega), List.length_drop, tisBufferSize]
        have short := framed.short
        omega)
    rw [List.length_take_of_le (by omega), List.length_drop] at loop
    refine Prog.Runs.mono loop (fun m holds => holds) ?_
    rintro value m ⟨-, holds⟩
    rw [List.take_append_drop] at holds
    exact holds
  refine Prog.Runs.bind second fun _ => ?_
  refine Prog.Runs.bind readSts_runs fun sts => Prog.Runs.assume fun shows => ?_
  refine Prog.Runs.ite (fun pending => ?_) fun _ => ?_
  · exact (shows.1.mp pending rfl).elim
  refine Prog.Runs.bind cmdReady_runs fun _ => ?_
  exact Prog.Runs.ret fun m holds =>
    ⟨fun _ => rfl, fun _ => holds, ⟨_, rfl, holds.forget⟩⟩

/-- The outcome of a transmission: the response to the frame has been received,
or the driver has given up and the command has been executed at most once. -/
structure Exchanged (tpm : FifoTpm device mmap κ) (base : Machine σ) (core : κ)
    (frame : List UInt8) (ret : Result Unit) (m : Machine σ) : Prop where
  reliable : tpm.Reliable → ret.exception = .none
  answered : ret.exception = .none →
    tpm.Attached base (FifoView.idle (tpm.exec core frame).2) (tpm.exec core frame).1 m
  once : ∃ view, (view.core = core ∨ view.core = (tpm.exec core frame).2) ∧
    tpm.Attached base view [] m

theorem tisTransmit_runs (framed : Framed frame) (locality : base.tisLocality = mmap)
    (packed : read base.tisIn 0 frame.length = frame) :
    Prog.Runs False (tpm.Attached base (FifoView.idle core) []) (tisTransmit device)
      (tpm.Exchanged base core frame) := by
  refine Prog.Runs.bind (tisWrite_runs framed locality packed) fun res => ?_
  refine Prog.Runs.ite (fun failed => ?_) fun written => ?_
  · refine Prog.Runs.ret ?_
    rintro m ⟨reliable, -, idle⟩
    obtain ⟨input, output, attached⟩ := idle failed
    exact ⟨fun steady => reliable steady, fun none => (failed none).elim,
      ⟨_, .inl rfl, attached⟩⟩
  have written : res.exception = .none := Decidable.of_not_not written
  refine Prog.Runs.bind (Prog.Runs.mono
    (tisRead_runs (tpm.framed core frame) locality)
    (fun m holds => holds.2.1 written) fun _ _ holds => holds) fun res => ?_
  refine Prog.Runs.ite (fun failed => ?_) fun answered => ?_
  · refine Prog.Runs.ret ?_
    rintro m ⟨reliable, -, view, sameCore, attached⟩
    exact ⟨fun steady => reliable steady, fun none => (failed none).elim,
      ⟨view, .inr sameCore, attached⟩⟩
  · refine Prog.Runs.ret ?_
    rintro m ⟨-, attached, -⟩
    have attached := attached (Decidable.of_not_not answered)
    exact ⟨fun _ => rfl, fun _ => attached, ⟨_, .inr rfl, attached.forget⟩⟩

end FifoTpm

section Steady

variable {κ : Type} (exec : κ → List UInt8 → List UInt8 × κ)

/-- The registers of a TPM that is never busy and whose status is always right. -/
def steadyDevice : TisDevice (FifoView κ) where
  readAccess := fun _ view => (tisAccessValid, view)
  writeAccess := fun _ _ view => view
  readIntfCapability := fun _ view => (0, view)
  readSts := fun _ view => (if view.output = [] then 0xc0 else 0xd0, view)
  writeSts := fun _ value view =>
    if value = tisStsTpmGo then
      ⟨(exec view.core view.input).2, [], (exec view.core view.input).1⟩
    else FifoView.idle view.core
  readFifo := fun _ view => (view.output.headD 0xff, { view with output := view.output.tail })
  writeFifo := fun _ byte view => { view with input := view.input ++ [byte] }
  readDidVid := fun view => (0x10001, view)
  readRid := fun view => (0, view)

/-- The interface of the steady device. -/
def steadyTpm (mmap : UInt32) (framed : ∀ core frame, Framed (exec core frame).1) :
    FifoTpm (steadyDevice exec) mmap κ where
  view := id
  exec := exec
  framed := framed
  readSts := fun _ => rfl
  dataAvail := by
    intro world
    by_cases empty : world.output = []
    · simp only [steadyDevice, if_pos empty, id]
      exact iff_of_false (by decide) (not_not_intro empty)
    · simp only [steadyDevice, if_neg empty, id]
      exact iff_of_true (by decide) empty
  writeFifo := fun _ _ => rfl
  readFifo := by
    intro world byte rest output
    simp only [steadyDevice, id] at output ⊢
    rw [output]
    exact ⟨rfl, rfl⟩
  cmdReady := fun _ => rfl
  tpmGo := fun _ => rfl

theorem steadyTpm_reliable (mmap : UInt32)
    (framed : ∀ core frame, Framed (exec core frame).1) :
    (steadyTpm exec mmap framed).Reliable := by
  have valid : ∀ view : FifoView κ,
      ((steadyDevice exec).readSts mmap view).1 &&& tisStsValid ≠ 0 := by
    intro view
    simp only [steadyDevice]
    split <;> decide
  refine ⟨valid, ?_, ?_⟩
  · intro view core idle
    simp only [steadyDevice]
    split <;> decide
  · intro view framedInput
    simp only [steadyDevice]
    split <;> decide

end Steady

end Sable
