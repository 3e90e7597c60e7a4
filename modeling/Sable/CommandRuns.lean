import Sable.RequestAuthorisation
import Sable.Exchanges

/-!
# Commands executed by a TPM

The run of a command against a TPM behind the FIFO interface: its request
reaches the TPM, which executes it at most once, and what is left of the run is
the parser of the response.
-/

namespace Sable

open ByteMemory BigEndian HaltingProgram

section Requests

variable {σ κ : Type} {device : TisDevice σ} {mmap : UInt32}
  {tpm : FifoTpm device mmap κ} {base : Machine σ} {core : κ}

/-- The machine after an exchange: apart from the driver, the contexts of the
command and the log it is as in `base`. -/
structure Sent (tpm : FifoTpm device mmap κ) (base : Machine σ) (events : List Event)
    (view : FifoView κ) (received : List UInt8) (m : Machine σ) : Prop where
  rest : { m with
    world := base.world
    tisIn := base.tisIn
    tisOut := base.tisOut
    locals := base.locals
    log := base.log } = base
  log_eq : m.log = base.log ++ events
  view_eq : tpm.view m.world = view
  received_eq : read m.tisOut 0 received.length = received

section Fields

variable {events : List Event} {view : FifoView κ} {received : List UInt8} {m : Machine σ}

theorem Sent.mem_eq (sent : Sent tpm base events view received m) : m.mem = base.mem := by
  have same := congrArg Machine.mem sent.rest
  exact same

theorem Sent.heap_eq (sent : Sent tpm base events view received m) :
    m.heap = base.heap := by
  have same := congrArg Machine.heap sent.rest
  exact same

theorem Sent.sessionAt_eq (sent : Sent tpm base events view received m) :
    m.sessionAt = base.sessionAt := by
  have same := congrArg Machine.sessionAt sent.rest
  exact same

theorem Sent.carries {response : TpmWire.Response} (fits : response.size ≤ 1024)
    (sent : Sent tpm base events view response.encode m) :
    (outputSource m).Carries response := by
  have received := sent.received_eq
  rw [TpmWire.Response.length_encode] at received
  rw [Source.Carries, Source.slice, List.drop_zero, outputSource,
    take_read _ _ _ _ fits, received]

end Fields

theorem FifoTpm.Attached.sent {request : TpmWire.Request}
    {uses : List (UInt32 × Block 20)} {packed m : Machine σ} {view : FifoView κ}
    {received : List UInt8} (packs : Packed base request uses packed)
    (attached : tpm.Attached packed view received m) :
    Sent tpm base [.sent request.ordinal uses request.encode] view received m := by
  refine ⟨?_, ?_, attached.view_eq, attached.received_eq⟩
  · rw [← packs.rest]
    have kept := attached.rest
    rw [← kept]
  · have kept := congrArg Machine.log attached.rest
    exact kept.trans packs.log

/-- The outcome of a request: the response has been received, or the driver has
given up and the TPM has executed the request at most once. -/
structure Submitted (tpm : FifoTpm device mmap κ) (base : Machine σ)
    (request : TpmWire.Request) (uses : List (UInt32 × Block 20)) (core : κ)
    (ret : Result Unit) (m : Machine σ) : Prop where
  reliable : tpm.Reliable → ret.exception = .none
  answered : ret.exception = .none →
    Sent tpm base [.sent request.ordinal uses request.encode]
      (FifoView.idle (tpm.exec core request.encode).2) (tpm.exec core request.encode).1 m
  once : ∃ view, (view.core = core ∨ view.core = (tpm.exec core request.encode).2) ∧
    Sent tpm base [.sent request.ordinal uses request.encode] view [] m

theorem Submits.outcome {program : Boot σ (Result Unit)} {request : TpmWire.Request}
    {uses : List (UInt32 × Block 20)}
    (submits : Submits device base program request uses) (fits : request.size ≤ 1024)
    (locality : base.tisLocality = mmap)
    (idle : tpm.view base.world = FifoView.idle core) :
    ∃ ret reached, program base = .ok ret reached ∧
      Submitted tpm base request uses core ret reached := by
  obtain ⟨packed, packs, ret, reached, run, exchanged⟩ :=
    submits.exchanges fits locality idle
  refine ⟨ret, reached, run, exchanged.reliable,
    fun success => (exchanged.answered success).sent packs, ?_⟩
  obtain ⟨view, executed, attached⟩ := exchanged.once
  exact ⟨view, executed, attached.sent packs⟩

/-- The request of a command without sessions. -/
def plainRequestOf (ordinal : UInt32) (params : List UInt8) : TpmWire.Request :=
  ⟨tagRquCommand, ordinal, [], params, []⟩

theorem plainRequest_submits {ordinalIn paramSizeIn : UInt32}
    {uses : List (UInt32 × Block 20)} {params : Boot σ Unit} {bytes : List UInt8}
    (size : paramSizeIn.toNat = 10 + bytes.length)
    (packs : Prog.Returns
      (PackingWith base (be16 tagRquCommand ++ be32 paramSizeIn ++ be32 ordinalIn)
        fun _ _ => True) params
      (fun _ => PackingWith base
        (be16 tagRquCommand ++ be32 paramSizeIn ++ be32 ordinalIn ++ bytes)
        fun _ _ => True)) :
    Submits device base (plainRequest device ordinalIn paramSizeIn uses params)
      (plainRequestOf ordinalIn bytes) uses := by
  have sizeEq : UInt32.ofNat (plainRequestOf ordinalIn bytes).size = paramSizeIn := by
    rw [← UInt32.ofNat_toNat (x := paramSizeIn), size]
    simp [plainRequestOf, TpmWire.Request.size]
  unfold Submits plainRequest
  have starting : ∀ m, m = base → Starting base (fun _ => True) m := by
    rintro m rfl
    exact ⟨rfl, trivial⟩
  refine Prog.Leads.weaken (Prog.Leads.bind (marshalHeader_packs _ _) fun _ => ?_) starting
  refine Prog.Leads.bind (marshalBytes_given (by simp)) fun _ => ?_
  refine Prog.Leads.bind packs fun _ => ?_
  rw [sizeEq]
  refine Prog.Leads.last.weaken fun m holds => ?_
  rw [TpmWire.Request.encode, sizeEq]
  simpa [plainRequestOf] using holds.1

/-- What follows the request in a command without sessions. -/
def afterPlainRequest {α : Type} (initial : α) (response : Boot σ (Result α))
    (transmitRet : Result Unit) : Boot σ (Result α) :=
  if transmitRet.exception ≠ .none then pure (.error transmitRet.exception initial)
  else plainResponse initial response

theorem plainCommand_eq {α : Type} {ordinalIn paramSizeIn : UInt32}
    {uses : List (UInt32 × Block 20)} {request : Boot σ Unit} {initial : α}
    {response : Boot σ (Result α)} :
    plainCommand device ordinalIn paramSizeIn uses request initial response =
      plainRequest device ordinalIn paramSizeIn uses request >>=
        afterPlainRequest initial response :=
  rfl

end Requests

namespace AuthorisedCommand

variable {σ κ α : Type} {device : TisDevice σ} {mmap : UInt32}
  {tpm : FifoTpm device mmap κ} {m : Machine σ} {core : κ}

/-- With a reliable TPM, the run of a command is the parser of its response. -/
theorem run_answered {command : AuthorisedCommand α} (fits : command.frameSize ≤ 1024)
    (nonNull : ∀ ptr ∈ command.pointers m, ptr ≠ 0) (reliable : tpm.Reliable)
    (locality : m.tisLocality = mmap) (idle : tpm.view m.world = FifoView.idle core) :
    ∃ answered,
      Sent tpm m [.issued command.ordinal,
          .sent command.ordinal (authUses m (command.credentials m))
            (command.request m).encode]
        (FifoView.idle (tpm.exec core (command.request m).encode).2)
        (tpm.exec core (command.request m).encode).1 answered ∧
      command.run device m = (do
        let ret ← command.responsePart m
        emit (.finished command.ordinal ret.exception)
        return ret) answered := by
  obtain ⟨ret, answered, run, outcome⟩ :=
    (requestPart_submits device fits nonNull).outcome
      (by rw [size_request]; exact fits) locality idle
  have success := outcome.reliable reliable
  obtain ⟨rest, log, view, received⟩ := outcome.answered success
  refine ⟨answered, ⟨?_, ?_, view, received⟩, ?_⟩
  · have kept := congrArg (fun reached : Machine σ => { reached with log := m.log }) rest
    exact kept
  · rw [log, ordinal_request]
    simp [issuedAt]
  · rw [run_eq, Prog.bind_ok run, afterRequest, if_neg (not_not_intro success)]

end AuthorisedCommand

end Sable
