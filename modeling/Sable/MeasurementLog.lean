import Sable.CommandRuns
import Sable.Measurement

/-!
# The measurement log in PCR 19

With a TPM that extends PCR 19 whenever it reports success, `mbi_calc_hash`
leaves in PCR 19 the fold of the digests of the boot configuration, and after an
error the fold of some of the first ones.  Nothing is assumed about when the
driver or the TPM fails.
-/

namespace Sable

open ByteMemory BigEndian HaltingProgram

/-- The value of a PCR after an extension. -/
def extendPcr (pcr digest : Block 20) : Block 20 :=
  SecureHash.sha1 (pcr.bytes ++ digest.bytes)

/-- The request that extends PCR 19. -/
def extendRequest (digest : Block 20) : TpmWire.Request :=
  plainRequestOf ordExtend (be32 19 ++ digest.bytes)

/-- The result field of a response. -/
def resultOf (response : List UInt8) : UInt32 :=
  ofBe32 ((response.drop 6).take 4)

theorem resultOf_encode (response : TpmWire.Response) :
    resultOf response.encode = response.result := by
  have front : (be16 response.tag ++ be32 (UInt32.ofNat response.size)).length = 6 := by
    simp
  rw [resultOf, TpmWire.Response.encode]
  simp only [List.append_assoc]
  rw [← List.append_assoc (be16 _), List.drop_left' front,
    List.take_left' (length_be32 _), ofBe32_be32]

section Extension

variable {σ κ : Type} {device : TisDevice σ} {mmap : UInt32}
  (tpm : FifoTpm device mmap κ)

/-- The TPM extends PCR 19 if it reports success, and only then. -/
structure FifoTpm.HonestExtend (pcr19 : κ → Block 20) : Prop where
  success : ∀ core digest,
    resultOf (tpm.exec core (extendRequest digest).encode).1 = 0 →
      pcr19 (tpm.exec core (extendRequest digest).encode).2 =
        extendPcr (pcr19 core) digest
  failure : ∀ core digest,
    resultOf (tpm.exec core (extendRequest digest).encode).1 ≠ 0 →
      pcr19 (tpm.exec core (extendRequest digest).encode).2 = pcr19 core

/-- The driver never gives up and the TPM grants every extension. -/
def FifoTpm.Grants : Prop :=
  tpm.Reliable ∧ ∀ core digest, ∃ value : Block 20,
    (tpm.exec core (extendRequest digest).encode).1 =
      (⟨tagRspCommand, 0, value.bytes, []⟩ : TpmWire.Response).encode

variable {tpm}

theorem unmarshalHeader_eq (m : Machine σ) :
    unmarshalHeader .null m =
      .ok ⟨ofBe16 (read m.tisOut 0 2), ofBe32 (read m.tisOut 2 4),
          ofBe32 (read m.tisOut 6 4)⟩
        { m with locals := { m.locals with uctx := ⟨.tisOut, 10, 1024⟩ } } := by
  with_unfolding_all rfl

theorem unmarshalObject_eq {m : Machine σ}
    (context : m.locals.uctx = ⟨.tisOut, 10, 1024⟩) :
    unmarshalObject default .given .null m =
      .ok (Block.ofList 20 (read m.tisOut 10 20))
        { m with locals := { m.locals with uctx := ⟨.tisOut, 30, 1024⟩ } } := by
  obtain ⟨_, _, _, _, _, _, _, _, _, _, ⟨_, _, _, _⟩, _⟩ := m
  cases context
  with_unfolding_all rfl

/-- The parser of a response with one digest. -/
theorem digestResponse_eq (m : Machine σ) :
    ∃ ret locals, plainResponse default (do
        let value ← unmarshalObject default .given .null
        return .ok value) m = .ok ret { m with locals := locals } ∧
      (ret.exception = .none ↔ ofBe32 (read m.tisOut 6 4) = 0 ∧
        ofBe32 (read m.tisOut 2 4) = 30 ∧ ofBe16 (read m.tisOut 0 2) = tagRspCommand) ∧
      (ret.exception = .none → ret.value = Block.ofList 20 (read m.tisOut 10 20)) := by
  rw [plainResponse, Prog.bind_ok (unmarshalHeader_eq m)]
  by_cases result : ofBe32 (read m.tisOut 6 4) = 0
  swap
  · rw [if_pos result]
    exact ⟨_, _, rfl, iff_of_false (by simp [tpmError]) fun good => result good.1,
      by simp [tpmError]⟩
  rw [if_neg (not_not_intro result), bind_assoc, Prog.bind_ok (unmarshalObject_eq rfl),
    pure_bind]
  rw [if_neg (by simp), unpackFinish, bind_assoc, Prog.bind_get, pure_bind]
  by_cases size : ofBe32 (read m.tisOut 2 4) = 30
  swap
  · rw [if_pos (Ne.symm size)]
    exact ⟨_, _, rfl, iff_of_false (by simp) fun good => size good.2.1, by simp⟩
  rw [if_neg (not_not_intro size.symm)]
  by_cases tag : ofBe16 (read m.tisOut 0 2) = tagRspCommand
  · rw [if_neg (not_not_intro tag)]
    exact ⟨_, _, rfl, iff_of_true rfl ⟨result, size, tag⟩, fun _ => rfl⟩
  · rw [if_pos tag]
    exact ⟨_, _, rfl, iff_of_false (by simp) fun good => tag good.2.2, by simp⟩

theorem extendRequest_submits (base : Machine σ) (digest : Block 20) :
    Submits device base
      (plainRequest device ordExtend (2 + 4 + 4 + 4 + 20) [] do
        marshalUINT32 19 .given .null
        marshalObject digest .given .null)
      (extendRequest digest) [] := by
  refine plainRequest_submits (by simp) ?_
  refine Prog.Returns.bind (marshalBytes_given (by simp)) fun _ => ?_
  rw [← List.append_assoc]
  exact marshalBytes_given (by simp)

/-- The fields of a response that has been received. -/
theorem Sent.field {base m : Machine σ} {events : List Event} {view : FifoView κ}
    {received : List UInt8} (sent : Sent tpm base events view received m)
    {pos len : Nat} (inside : pos + len ≤ received.length) :
    read m.tisOut pos len = (received.drop pos).take len := by
  have tail := drop_read m.tisOut 0 received.length pos (by omega)
  rw [sent.received_eq] at tail
  rw [tail, take_read _ _ _ _ (by omega), Nat.zero_add]

/-- An extension: either the TPM has executed it and its response is accepted,
or there is an exception and the TPM has executed it at most once. -/
theorem tpmExtend_outcome {m : Machine σ} {core : κ} {digest : Block 20}
    (locality : m.tisLocality = mmap) (idle : tpm.view m.world = FifoView.idle core) :
    ∃ ret reached, tpmExtend device 19 digest m = .ok ret reached ∧
      reached.mem = m.mem ∧ reached.tisLocality = m.tisLocality ∧
      (tpm.Grants → ret.exception = .none) ∧
      (ret.exception = .none →
        resultOf (tpm.exec core (extendRequest digest).encode).1 = 0 ∧
        tpm.view reached.world =
          FifoView.idle (tpm.exec core (extendRequest digest).encode).2) ∧
      ((tpm.view reached.world).core = core ∨
        (tpm.view reached.world).core = (tpm.exec core (extendRequest digest).encode).2) := by
  let base : Machine σ :=
    { m with log := m.log ++ [.extend 19 digest] ++ [.issued ordExtend] }
  obtain ⟨transmitRet, answered, run, outcome⟩ :=
    (extendRequest_submits base digest).outcome
      (by simp [extendRequest, plainRequestOf, TpmWire.Request.size]) locality idle
  have start : tpmExtend device 19 digest m =
      (do
        let ret ← afterPlainRequest default (do
          let value ← unmarshalObject default .given .null
          return .ok value) transmitRet
        emit (.finished ordExtend ret.exception)
        return ret) answered := by
    rw [tpmExtend, emit, Prog.bind_modify, command, emit, Prog.bind_modify,
      plainCommand_eq, bind_assoc]
    exact Prog.bind_ok run _
  have framed := tpm.framed core (extendRequest digest).encode
  have long := framed.long
  obtain ⟨view, executed, sent⟩ := outcome.once
  have memory := sent.mem_eq
  have place : answered.tisLocality = m.tisLocality := by
    have same := congrArg Machine.tisLocality sent.rest
    exact same
  by_cases failed : transmitRet.exception = .none
  swap
  · rw [afterPlainRequest, if_pos failed] at start
    refine ⟨_, _, start, memory, place, fun grants => ?_, fun none => (failed none).elim, ?_⟩
    · exact (failed (outcome.reliable grants.1)).elim
    · have same : tpm.view answered.world = view := sent.view_eq
      simpa [same] using executed
  have answer := outcome.answered failed
  rw [afterPlainRequest, if_neg (not_not_intro failed)] at start
  obtain ⟨ret, locals, parse, accepted, -⟩ := digestResponse_eq answered
  rw [Prog.bind_ok parse] at start
  have result : read answered.tisOut 6 4 = _ := answer.field (by omega)
  refine ⟨_, _, start, memory, place, fun grants => ?_, fun success => ?_, .inr ?_⟩
  · obtain ⟨value, response⟩ := grants.2 core digest
    have carries : (outputSource answered).Carries ⟨tagRspCommand, 0, value.bytes, []⟩ := by
      rw [response] at answer
      exact answer.carries (by simp [TpmWire.Response.size])
    have size := carries.paramSize_eq
    have result := carries.result_eq ⟨rfl, by simp [TpmWire.Response.size]⟩
      (by simp [TpmWire.Response.size])
    have tag := carries.tag_eq
    rw [Source.paramSize, slice_outputSource _ (by omega)] at size
    rw [Source.result, slice_outputSource _ (by omega)] at result
    rw [Source.tag, slice_outputSource _ (by omega)] at tag
    refine accepted.mpr ⟨result, ?_, tag⟩
    rw [size]
    simp [TpmWire.Response.size]
  · rw [result] at accepted
    exact ⟨(accepted.mp success).1, answer.view_eq⟩
  · exact congrArg FifoView.core answer.view_eq

variable (tpm) (pcr19 : κ → Block 20) (mem : Mem) (initial : Block 20) {mbi : UInt32}

/-- The extensions of `done` have succeeded and the TPM is idle. -/
def Logged (done : List (Block 20)) (m : Machine σ) : Prop :=
  m.mem = mem ∧ m.tisLocality = mmap ∧ ∃ core, tpm.view m.world = FifoView.idle core ∧
    pcr19 core = done.foldl extendPcr initial

/-- PCR 19 holds the extensions of `done`, whatever state the TPM is in. -/
def LogStopped (done : List (Block 20)) (m : Machine σ) : Prop :=
  pcr19 (tpm.view m.world).core = done.foldl extendPcr initial

variable {tpm pcr19}

theorem extending_logged (honest : tpm.HonestExtend pcr19) :
    Extending device (tpm.Grants ∧ Measurable mem mbi) mem
      (Logged tpm pcr19 mem initial) (LogStopped tpm pcr19 initial) where
  mem_eq := fun _ _ holds => holds.1
  locals := fun _ _ _ holds => holds
  output := fun _ _ _ holds => holds
  stop := by
    rintro done m ⟨-, -, core, idle, value⟩
    rw [LogStopped, idle]
    exact value
  extend := by
    rintro done digest m ⟨memory, locality, core, idle, value⟩
    obtain ⟨ret, reached, run, memKept, place, grants, success, executed⟩ :=
      tpmExtend_outcome locality idle
    rw [run]
    refine ⟨fun free => grants free.1, fun none => ?_, fun failed => ?_⟩
    · obtain ⟨result, after⟩ := success none
      refine ⟨memKept.trans memory, place.trans locality, _, after, ?_⟩
      rw [honest.success core digest result, value, List.foldl_append]
      rfl
    · have unchanged (same : pcr19 (tpm.view reached.world).core = pcr19 core) :
          ∃ early, early <+: [digest] ∧
            LogStopped tpm pcr19 initial (done ++ early) reached := by
        refine ⟨[], List.nil_prefix, ?_⟩
        rw [List.append_nil, LogStopped, same, value]
      rcases executed with before | after
      · exact unchanged (congrArg pcr19 before)
      by_cases result : resultOf (tpm.exec core (extendRequest digest).encode).1 = 0
      · refine ⟨[digest], List.prefix_rfl, ?_⟩
        rw [LogStopped, after, honest.success core digest result, value,
          List.foldl_append]
        rfl
      · exact unchanged (by rw [after, honest.failure core digest result])

/-- The start of `mbi_calc_hash` on an idle TPM. -/
theorem logged_start {m : Machine σ} {core : κ} (locality : m.tisLocality = mmap)
    (idle : tpm.view m.world = FifoView.idle core) :
    Logged tpm pcr19 m.mem (pcr19 core) [] m :=
  ⟨rfl, locality, core, idle, rfl⟩

/-- If the TPM grants every extension and the multiboot information is well
formed, `mbi_calc_hash` succeeds. -/
theorem mbiCalcHash_succeeds (honest : tpm.HonestExtend pcr19) (grants : tpm.Grants)
    {m : Machine σ} {core : κ} (locality : m.tisLocality = mmap)
    (idle : tpm.view m.world = FifoView.idle core) (measurable : Measurable m.mem mbi)
    (bounded : (configurationAt m.mem mbi).Bounded) :
    ∃ reached, mbiCalcHash device mbi m = .ok (.ok ()) reached := by
  have post := (extending_logged m.mem (pcr19 core) honest).mbiCalcHash_runs bounded
    (fun ideal => ideal.2) m (logged_start locality idle)
  cases run : mbiCalcHash device mbi m with
  | ok ret reached =>
      rw [run] at post
      rw [Result.eq_ok (post.1 ⟨grants, measurable⟩)]
      exact ⟨reached, rfl⟩
  | halt reason reached =>
      rw [run] at post
      exact (post ⟨grants, measurable⟩).elim

/-- PCR 19 after `mbi_calc_hash`: the fold of all digests of the configuration
if it succeeds, and of some of the first ones if it returns an error. -/
theorem mbiCalcHash_measures (honest : tpm.HonestExtend pcr19) {m reached : Machine σ}
    {core : κ} {mbi : UInt32} {ret : Result Unit} (locality : m.tisLocality = mmap)
    (idle : tpm.view m.world = FifoView.idle core)
    (bounded : ∀ item ∈ (configurationAt m.mem mbi).items, item.length < 2 ^ 29)
    (run : mbiCalcHash device mbi m = .ok ret reached) :
    (ret.exception = .none →
      pcr19 (tpm.view reached.world).core =
        (configurationAt m.mem mbi).digests.foldl extendPcr (pcr19 core)) ∧
    (ret.exception ≠ .none → ∃ early, early <+: (configurationAt m.mem mbi).digests ∧
      pcr19 (tpm.view reached.world).core = early.foldl extendPcr (pcr19 core)) := by
  obtain ⟨-, all, early⟩ := ((extending_logged m.mem (pcr19 core) honest).mbiCalcHash_runs
    (Configuration.bounded_of_items bounded) fun ideal => ideal.2).of_ok
      (logged_start locality idle) run
  refine ⟨fun none => ?_, early⟩
  obtain ⟨-, -, final, idleAfter, value⟩ := all none
  rw [idleAfter]
  exact value

end Extension

section Example

/-- A TPM with nothing but PCR 19. -/
def pcrExec (pcr : Block 20) (frame : List UInt8) : List UInt8 × Block 20 :=
  match TpmWire.Request.decode frame with
  | some request =>
      if request.ordinal = ordExtend then
        let value := extendPcr pcr (Block.ofList 20 (request.params.drop 4))
        ((⟨tagRspCommand, 0, value.bytes, []⟩ : TpmWire.Response).encode, value)
      else ((⟨tagRspCommand, 0x0a, [], []⟩ : TpmWire.Response).encode, pcr)
  | none => ((⟨tagRspCommand, 0x19, [], []⟩ : TpmWire.Response).encode, pcr)

theorem pcrExec_framed (pcr : Block 20) (frame : List UInt8) :
    Framed (pcrExec pcr frame).1 := by
  unfold pcrExec
  split
  · split
    · exact framed_response (by simp [TpmWire.Response.size])
    · exact framed_response (by decide)
  · exact framed_response (by decide)

def pcrTpm : FifoTpm (steadyDevice pcrExec) 0 (Block 20) :=
  steadyTpm pcrExec 0 pcrExec_framed

theorem pcrExec_extendRequest (pcr digest : Block 20) :
    pcrExec pcr (extendRequest digest).encode =
      ((⟨tagRspCommand, 0, (extendPcr pcr digest).bytes, []⟩ : TpmWire.Response).encode,
        extendPcr pcr digest) := by
  have decoded : TpmWire.Request.decode (extendRequest digest).encode =
      some (extendRequest digest) :=
    TpmWire.Request.decode_encode ⟨rfl, rfl, by
      simp [extendRequest, plainRequestOf, TpmWire.Request.size]⟩
  have params : Block.ofList 20 ((extendRequest digest).params.drop 4) = digest := by
    rw [extendRequest, plainRequestOf, List.drop_left' (length_be32 _), Block.ofList_bytes]
  simp only [pcrExec, decoded, params]
  exact if_pos rfl

theorem pcrTpm_honest : pcrTpm.HonestExtend id := by
  constructor
  · intro core digest _
    exact congrArg Prod.snd (pcrExec_extendRequest core digest)
  · intro core digest failed
    have response : (pcrTpm.exec core (extendRequest digest).encode).1 = _ :=
      congrArg Prod.fst (pcrExec_extendRequest core digest)
    rw [response, resultOf_encode] at failed
    exact (failed rfl).elim

theorem pcrTpm_grants : pcrTpm.Grants :=
  ⟨steadyTpm_reliable pcrExec 0 pcrExec_framed, fun core digest =>
    ⟨_, congrArg Prod.fst (pcrExec_extendRequest core digest)⟩⟩

/-- Multiboot information at `0x1000` with the command line `AB` and a module at
`0x2000` with the contents `AB` and the string `B`. -/
def measuredMachine : Machine (FifoView (Block 20)) :=
  { Machine.blank (FifoView.idle (Block.zero 20)) with
    mem := memoryOf [(0x1000, 0x0c), (0x1011, 0x30), (0x1014, 1), (0x1019, 0x20),
      (0x2001, 0x30), (0x2004, 2), (0x2005, 0x30), (0x2008, 1), (0x2009, 0x30),
      (0x3000, 0x41), (0x3001, 0x42)] }

theorem configurationAt_measuredMachine :
    configurationAt measuredMachine.mem 0x1000 =
      ⟨some [0x41, 0x42], [⟨[0x41, 0x42], [0x42]⟩]⟩ := by
  decide

theorem measurable_measuredMachine : Measurable measuredMachine.mem 0x1000 := by
  refine ⟨by decide, by decide, fun _ => by decide, ?_⟩
  have entries : entriesAt measuredMachine.mem 0x1000 = [0x2000] := by decide
  rw [entries, List.forall_mem_singleton]
  exact ⟨by decide, by decide, by decide⟩

/-- One command line and one module with a string. -/
theorem mbiCalcHash_measures_one_module :
    ∃ reached, mbiCalcHash (steadyDevice pcrExec) 0x1000 measuredMachine =
        .ok (.ok ()) reached ∧
      reached.world.core =
        [SecureHash.sha1 [0x41, 0x42], SecureHash.sha1 [0x41, 0x42],
          SecureHash.sha1 [0x42]].foldl extendPcr (Block.zero 20) := by
  have bounded : ∀ item ∈ (configurationAt measuredMachine.mem 0x1000).items,
      item.length < 2 ^ 29 := by
    rw [configurationAt_measuredMachine]
    decide
  have idle : pcrTpm.view measuredMachine.world = FifoView.idle (Block.zero 20) := rfl
  obtain ⟨reached, run⟩ := mbiCalcHash_succeeds pcrTpm_honest pcrTpm_grants rfl idle
    measurable_measuredMachine (Configuration.bounded_of_items bounded)
  refine ⟨reached, run, ?_⟩
  have value := (mbiCalcHash_measures pcrTpm_honest rfl idle bounded run).1 rfl
  rw [configurationAt_measuredMachine] at value
  exact value

end Example

end Sable
