import Sable.FrameLengths
import Sable.MeasurementLog

/-!
# Machines linked to a TPM

A machine whose registers lead to an idle TPM runs a command by having the TPM
execute its request; what is left of the run is the parser of the response.  The
parsers of the commands without authorisation are run here on whatever bytes the
response has.
-/

namespace Sable

open ByteMemory BigEndian HaltingProgram

/-- The typed objects of a machine: the session objects, their extensions, the session
slots, and the keys that have not been read yet. -/
structure Store where
  objects : UInt32 → TpmSession
  extensions : UInt32 → TpmOsapExtension
  slots : SessionSlot → UInt32
  keys : List UInt8

def Machine.store {σ : Type} (m : Machine σ) : Store :=
  ⟨m.sessionAt, m.osapAt, m.sessions, m.keys⟩

section Links

variable {σ κ α : Type} {device : TisDevice σ} {mmap : UInt32}

/-- The machine reaches an idle TPM, and its heap holds the tracked blocks. -/
structure Linked (tpm : FifoTpm device mmap κ) (area : HeapArea) (core : κ) (used : Nat)
    (contents : UInt32 → Option (List UInt8)) (store : Store) (m : Machine σ) : Prop where
  locality : m.tisLocality = mmap
  idle : tpm.view m.world = FifoView.idle core
  heap : m.heap = area.heap
  tracks : Tracks area used contents m.mem
  store_eq : m.store = store

variable {tpm : FifoTpm device mmap κ} {area : HeapArea} {core : κ} {used : Nat}
  {contents : UInt32 → Option (List UInt8)} {store : Store} {m : Machine σ}

/-- The log and the contexts of a command do not matter. -/
theorem Linked.of_eq (linked : Linked tpm area core used contents store m) {other : Machine σ}
    (same : { other with
      tisIn := m.tisIn
      tisOut := m.tisOut
      locals := m.locals
      log := m.log } = m) :
    Linked tpm area core used contents store other := by
  have locality := congrArg Machine.tisLocality same
  have world := congrArg Machine.world same
  have heap := congrArg Machine.heap same
  have mem := congrArg Machine.mem same
  have objects := congrArg Machine.store same
  dsimp only at locality world heap mem
  exact ⟨locality.trans linked.locality, by rw [world, linked.idle], heap.trans linked.heap,
    by rw [mem]; exact linked.tracks, Eq.trans objects linked.store_eq⟩

theorem Linked.withLog (linked : Linked tpm area core used contents store m)
    (log : List Event) : Linked tpm area core used contents store { m with log := log } :=
  linked.of_eq rfl

/-- The machine after the exchange of a request for its response. -/
structure Replied (tpm : FifoTpm device mmap κ) (area : HeapArea) (core : κ) (used : Nat)
    (contents : UInt32 → Option (List UInt8)) (store : Store) (mem : Mem)
    (received : List UInt8) (m : Machine σ) : Prop extends
    Linked tpm area core used contents store m where
  mem_eq : m.mem = mem
  received_eq : read m.tisOut 0 received.length = received

theorem Sent.replied {base : Machine σ} {events : List Event} {next : κ}
    {received : List UInt8} (linked : Linked tpm area core used contents store base)
    (sent : Sent tpm base events (FifoView.idle next) received m) :
    Replied tpm area next used contents store base.mem received m := by
  have locality := congrArg Machine.tisLocality sent.rest
  have objects := congrArg Machine.store sent.rest
  dsimp only at locality
  refine ⟨⟨locality.trans linked.locality, sent.view_eq, sent.heap_eq.trans linked.heap, ?_,
    Eq.trans objects linked.store_eq⟩, sent.mem_eq, sent.received_eq⟩
  rw [sent.mem_eq]
  exact linked.tracks

/-- With a reliable TPM, the run of a call is the parser of its response. -/
theorem TpmCall.run_replied {call : TpmCall α} {request : TpmWire.Request}
    {uses : List (UInt32 × Block 20)} (reliable : tpm.Reliable)
    (linked : Linked tpm area core used contents store m)
    (submits : Submits device { m with log := m.log ++ call.announced }
      (call.requestPart device m) request uses) (fits : request.size ≤ 1024) :
    ∃ answered, Replied tpm area (tpm.exec core request.encode).2 used contents store m.mem
        (tpm.exec core request.encode).1 answered ∧
      call.run device m = call.rest (call.slots m) (.ok ()) answered := by
  obtain ⟨ret, answered, run, outcome⟩ := submits.outcome fits linked.locality linked.idle
  have success := outcome.reliable reliable
  have sent := (outcome.answered success).replied (linked.withLog _)
  have value : ret = .ok () := by
    obtain ⟨exception, value⟩ := ret
    cases success
    rfl
  refine ⟨answered, sent, ?_⟩
  rw [run_split, Prog.bind_ok run, value]

end Links

section Parsers

variable {σ α : Type}

/-- The machine while a response is unpacked, before the given position. -/
def Machine.readingAt (m : Machine σ) (pos : UInt32) : Machine σ :=
  { m with locals := { m.locals with uctx := ⟨.tisOut, pos, 1024⟩ } }

/-- A response that has been parsed as far as `pos`: the tests at its end. -/
def Machine.checked (m : Machine σ) (pos : UInt32) (ret : Result α) : Result α :=
  if pos = ofBe32 (read m.tisOut 2 4) ∧ ofBe16 (read m.tisOut 0 2) = tagRspCommand then ret
  else .error .tpmBadOutputParam ret.value

theorem plainResponse_failed {initial : α} {params : Boot σ (Result α)} {m : Machine σ}
    (failed : ofBe32 (read m.tisOut 6 4) ≠ 0) :
    plainResponse initial params m =
      .ok (.error (tpmError (ofBe32 (read m.tisOut 6 4))) initial) (m.readingAt 10) := by
  rw [plainResponse, Prog.bind_ok (unmarshalHeader_eq m), if_pos failed]
  rfl

theorem plainResponse_eq (initial : α) {value : α} {params : Boot σ (Result α)}
    {m reached : Machine σ} {pos : UInt32} (success : ofBe32 (read m.tisOut 6 4) = 0)
    (run : params (m.readingAt 10) = .ok (.ok value) (reached.readingAt pos)) :
    plainResponse initial params m = .ok (m.checked pos (.ok value)) (reached.readingAt pos) := by
  have parse : params { m with locals := { m.locals with uctx := ⟨.tisOut, 10, 1024⟩ } } =
      .ok (.ok value) (reached.readingAt pos) := run
  have finish : unpackFinish (reached.readingAt pos) = .ok pos (reached.readingAt pos) := rfl
  rw [plainResponse, Prog.bind_ok (unmarshalHeader_eq m), if_neg (not_not_intro success),
    Prog.bind_ok parse, if_neg (by simp), Prog.bind_ok finish, Machine.checked]
  by_cases size : pos = ofBe32 (read m.tisOut 2 4)
  swap
  · rw [if_pos size, if_neg fun good => size good.1]
    rfl
  rw [if_neg (not_not_intro size)]
  by_cases tag : ofBe16 (read m.tisOut 0 2) = tagRspCommand
  · rw [if_neg (not_not_intro tag), if_pos ⟨size, tag⟩]
    rfl
  · rw [if_pos tag, if_neg fun good => tag good.2]
    rfl

/-- The session object that a new block is taken for. -/
def leftoverSession (mem : Mem) (ptr : UInt32) : TpmSession where
  authHandle := load32 mem ptr.toNat
  nonceEven := Block.ofList 20 (read mem (ptr.toNat + 4) 20)
  nonceOdd := Block.ofList 20 (read mem (ptr.toNat + 24) 20)
  continueAuthSession := mem (ptr.toNat + 44)
  osap := load32 mem (ptr.toNat + 45)

/-- The session that an `OIAP` response opens. -/
def oiapSession (mem tisOut : Mem) (s : UInt32) : TpmSession :=
  { leftoverSession mem s with
    authHandle := ofBe32 (read tisOut 10 4)
    nonceEven := Block.ofList 20 (read tisOut 14 20)
    osap := 0 }

theorem unmarshalOIAP_eq {m : Machine σ} (slot : SessionSlot) {s : UInt32} {mem : Mem}
    (allocates : alloc m.heap 49 m.mem = .ok s mem) (nonNull : s ≠ 0) :
    unmarshalOIAP slot (m.readingAt 10) = .ok (.ok ()) (Machine.readingAt { m with
      mem := mem
      sessionAt := Function.update m.sessionAt s (oiapSession mem m.tisOut s)
      sessions := Function.update m.sessions slot s
      log := m.log ++ [.opened s none] } 34) := by
  have block : allocHeap 49 (m.readingAt 10) = .ok s { m.readingAt 10 with mem := mem } :=
    allocHeap_ok allocates
  let opened : Machine σ :=
    { m with
      mem := mem
      sessionAt := Function.update m.sessionAt s (leftoverSession mem s)
      sessions := Function.update m.sessions slot s
      log := m.log ++ [.opened s none] }
  have handle : unmarshalUINT32 0 .given .null (opened.readingAt 10) =
      .ok (ofBe32 (read m.tisOut 10 4)) (opened.readingAt 14) := by with_unfolding_all rfl
  have nonce : unmarshalObject default .given .null (opened.readingAt 14) =
      .ok (Block.ofList 20 (read m.tisOut 14 20)) (opened.readingAt 34) := by with_unfolding_all rfl
  have start : unmarshalOIAP slot (m.readingAt 10) = (do
      let authHandle ← unmarshalUINT32 0 .given .null
      let nonceEven ← unmarshalObject default .given .null
      updateSession s fun object =>
        { object with authHandle := authHandle, nonceEven := nonceEven, osap := 0 }
      return Result.ok ()) (opened.readingAt 10) := by
    rw [unmarshalOIAP, allocSession, bind_assoc, Prog.bind_ok block, bind_assoc,
      Prog.bind_modify, pure_bind, setSlot, Prog.bind_modify, emit, Prog.bind_modify,
      Prog.bind_ok (assert_ok nonNull _)]
    rfl
  rw [start, Prog.bind_ok handle, Prog.bind_ok nonce, updateSession, if_neg nonNull,
    Prog.bind_modify, Prog.pure_apply]
  simp only [Machine.readingAt, opened, Function.update_self, Function.update_idem]
  rfl

/-- The extension that a new block is taken for, and the session that an `OSAP` response
opens. -/
def leftoverExtension (mem : Mem) (ptr : UInt32) : TpmOsapExtension where
  nonceEvenOSAP := Block.ofList 20 (read mem ptr.toNat 20)
  nonceOddOSAP := Block.ofList 20 (read mem (ptr.toNat + 20) 20)

def osapSession (mem tisOut : Mem) (s osap : UInt32) : TpmSession :=
  { leftoverSession mem s with
    authHandle := ofBe32 (read tisOut 10 4)
    nonceEven := Block.ofList 20 (read tisOut 14 20)
    osap := osap }

theorem unmarshalOSAP_eq {m : Machine σ} (slot : SessionSlot) (nonceOddOSAP : Block 20)
    {s osap : UInt32} {mem extended : Mem} (allocates : alloc m.heap 49 m.mem = .ok s mem)
    (nonNull : s ≠ 0) (allocatesNext : alloc m.heap 40 mem = .ok osap extended)
    (osapNonNull : osap ≠ 0) :
    unmarshalOSAP nonceOddOSAP slot (m.readingAt 10) = .ok (.ok osap) (Machine.readingAt { m with
      mem := extended
      sessionAt := Function.update m.sessionAt s (osapSession mem m.tisOut s osap)
      osapAt := Function.update m.osapAt osap { leftoverExtension extended osap with
        nonceEvenOSAP := Block.ofList 20 (read m.tisOut 34 20) }
      sessions := Function.update m.sessions slot s
      log := m.log ++ [.opened s (some nonceOddOSAP)] } 54) := by
  have block : allocHeap 49 (m.readingAt 10) = .ok s { m.readingAt 10 with mem := mem } :=
    allocHeap_ok allocates
  let opened : Machine σ :=
    { m with
      mem := mem
      sessionAt := Function.update m.sessionAt s (leftoverSession mem s)
      sessions := Function.update m.sessions slot s
      log := m.log ++ [.opened s (some nonceOddOSAP)] }
  have blockNext : allocHeap 40 (opened.readingAt 10) =
      .ok osap { opened.readingAt 10 with mem := extended } :=
    allocHeap_ok allocatesNext
  let linked : Machine σ :=
    { opened with
      mem := extended
      sessionAt := Function.update m.sessionAt s { leftoverSession mem s with osap := osap }
      osapAt := Function.update m.osapAt osap (leftoverExtension extended osap) }
  have handle : unmarshalUINT32 0 .given .null (linked.readingAt 10) =
      .ok (ofBe32 (read m.tisOut 10 4)) (linked.readingAt 14) := by with_unfolding_all rfl
  have nonce : unmarshalObject default .given .null (linked.readingAt 14) =
      .ok (Block.ofList 20 (read m.tisOut 14 20)) (linked.readingAt 34) := by with_unfolding_all rfl
  let filled : Machine σ :=
    { linked with
      sessionAt := Function.update m.sessionAt s (osapSession mem m.tisOut s osap) }
  have second : unmarshalObject default .given .null (filled.readingAt 34) =
      .ok (Block.ofList 20 (read m.tisOut 34 20)) (filled.readingAt 54) := by with_unfolding_all rfl
  have start : unmarshalOSAP nonceOddOSAP slot (m.readingAt 10) = (do
      let authHandle ← unmarshalUINT32 0 .given .null
      let nonceEven ← unmarshalObject default .given .null
      updateSession s fun object =>
        { object with authHandle := authHandle, nonceEven := nonceEven }
      if osap = 0 then
        let _ ← unmarshalArray none 20 .given .null
        return Result.ok osap
      let nonceEvenOSAP ← unmarshalObject default .given .null
      updateOsap osap fun extension => { extension with nonceEvenOSAP := nonceEvenOSAP }
      return Result.ok osap) (linked.readingAt 10) := by
    rw [unmarshalOSAP, allocSession, bind_assoc, Prog.bind_ok block, bind_assoc,
      Prog.bind_modify, pure_bind, setSlot, Prog.bind_modify, emit, Prog.bind_modify,
      allocOsap, bind_assoc]
    refine (Prog.bind_ok blockNext _).trans ?_
    rw [bind_assoc, Prog.bind_modify, pure_bind, updateSession, if_neg nonNull,
      Prog.bind_modify]
    simp only [Machine.readingAt, opened, linked, Function.update_self, Function.update_idem]
    rfl
  rw [start, Prog.bind_ok handle, Prog.bind_ok nonce, updateSession, if_neg nonNull,
    Prog.bind_modify, if_neg osapNonNull]
  have same : { linked.readingAt 34 with
      sessionAt := Function.update (linked.readingAt 34).sessionAt s
        { (linked.readingAt 34).sessionAt s with
          authHandle := ofBe32 (read m.tisOut 10 4)
          nonceEven := Block.ofList 20 (read m.tisOut 14 20) } } = filled.readingAt 34 := by
    simp only [Machine.readingAt, linked, filled, Function.update_self, Function.update_idem]
    rfl
  rw [same, Prog.bind_ok second, updateOsap, if_neg osapNonNull, Prog.bind_modify,
    Prog.pure_apply]
  simp only [Machine.readingAt, filled, linked, opened, Function.update_self,
    Function.update_idem]

/-- The response to the request of a nonce is accepted. -/
def Machine.NonceAccepted (m : Machine σ) : Prop :=
  ofBe32 (read m.tisOut 6 4) = 0 ∧ ofBe32 (read m.tisOut 10 4) = 20 ∧
    34 = ofBe32 (read m.tisOut 2 4) ∧ ofBe16 (read m.tisOut 0 2) = tagRspCommand

/-- The parameters of a response with random bytes. -/
def randomBytes (buffer : List UInt8) : Boot σ (Result (List UInt8)) := do
  let randomBytesSizeOut ← unmarshalUINT32 0 .given .null
  if (20 : UInt32) ≠ randomBytesSizeOut then
    return .error .tpmBadOutputParam buffer
  let bytes ← unmarshalArray (some buffer) randomBytesSizeOut .given .null
  return .ok (bytes.getD [])

theorem randomResponse_eq (m : Machine σ) (buffer : List UInt8) :
    ∃ ret pos, plainResponse buffer (randomBytes buffer) m = .ok ret (m.readingAt pos) ∧
      (ret.exception = .none ↔ m.NonceAccepted) ∧
      (ret.exception = .none → ret.value = read m.tisOut 14 20) := by
  by_cases granted : ofBe32 (read m.tisOut 6 4) = 0
  swap
  · exact ⟨_, _, plainResponse_failed granted,
      iff_of_false (by simp [tpmError]) fun good => granted good.1, by simp [tpmError]⟩
  have size : unmarshalUINT32 0 .given .null (m.readingAt 10) =
      .ok (ofBe32 (read m.tisOut 10 4)) (m.readingAt 14) := by with_unfolding_all rfl
  by_cases count : ofBe32 (read m.tisOut 10 4) = 20
  swap
  · have parse : randomBytes buffer
        { m with locals := { m.locals with uctx := ⟨.tisOut, 10, 1024⟩ } } =
          .ok (.error .tpmBadOutputParam buffer) (m.readingAt 14) := by
      refine (Prog.bind_ok size _).trans ?_
      rw [if_pos fun same => count same.symm]
      rfl
    refine ⟨.error .tpmBadOutputParam buffer, 14, ?_,
      iff_of_false (by simp) fun good => count good.2.1, by simp⟩
    rw [plainResponse, Prog.bind_ok (unmarshalHeader_eq m), if_neg (not_not_intro granted),
      Prog.bind_ok parse, if_pos (by simp)]
    rfl
  have parse : randomBytes buffer (m.readingAt 10) =
      .ok (.ok (read m.tisOut 14 20)) (m.readingAt 34) := by
    refine (Prog.bind_ok size _).trans ?_
    rw [count, if_neg (by simp)]
    with_unfolding_all rfl
  refine ⟨_, _, plainResponse_eq buffer granted parse, ?_, ?_⟩
  · rw [Machine.checked]
    split
    · rename_i good
      exact iff_of_true rfl ⟨granted, count, good⟩
    · rename_i bad
      exact iff_of_false (by simp) fun good => bad good.2.2
  · rw [Machine.checked]
    split
    · exact fun _ => rfl
    · simp

end Parsers

section Blocks

variable {σ κ : Type} {device : TisDevice σ} {mmap : UInt32} {tpm : FifoTpm device mmap κ}
  {area : HeapArea} {core : κ} {used : Nat} {contents : UInt32 → Option (List UInt8)}
  {store : Store} {m : Machine σ}

/-- Allocating a block of a linked machine. -/
theorem Linked.alloc (linked : Linked tpm area core used contents store m) (size : UInt32)
    (positive : 0 < size) (room : used + size.toNat / 8 + 2 ≤ area.units) :
    ∃ ptr mem, Sable.alloc m.heap size m.mem = .ok ptr mem ∧ ptr ≠ 0 ∧
      contents ptr = none ∧
      Linked tpm area core (used + size.toNat / 8 + 2)
        (Function.update contents ptr (some (read mem ptr.toNat size.toNat))) store
        { m with mem := mem } := by
  obtain ⟨ptr, mem, run, fresh, tracks⟩ := linked.tracks.alloc positive room
  rw [← linked.heap] at run
  refine ⟨ptr, mem, run, tracks.nonNull (Function.update_self ..), fresh, ?_⟩
  exact ⟨linked.locality, linked.idle, linked.heap, tracks, linked.store_eq⟩

theorem Linked.alloc_full (linked : Linked tpm area core used contents store m) (size : UInt32)
    (positive : 0 < size) (full : ¬ used + size.toNat / 8 + 2 ≤ area.units) :
    Sable.alloc m.heap size m.mem = .ok 0 m.mem := by
  rw [linked.heap]
  exact linked.tracks.alloc_full positive full

end Blocks

section Commands

variable {σ κ : Type} {device : TisDevice σ} {mmap : UInt32} {tpm : FifoTpm device mmap κ}
  {area : HeapArea} {core : κ} {used : Nat} {contents : UInt32 → Option (List UInt8)}
  {store : Store} {m : Machine σ}

theorem Replied.field {mem : Mem} {received : List UInt8}
    (replied : Replied tpm area core used contents store mem received m) {pos len : Nat}
    (inside : pos + len ≤ received.length) :
    read m.tisOut pos len = (received.drop pos).take len := by
  have tail := drop_read m.tisOut 0 received.length pos (by omega)
  rw [replied.received_eq] at tail
  rw [tail, take_read _ _ _ _ (by omega), Nat.zero_add]

/-- The result field of a framed response. -/
theorem Replied.result {mem : Mem} {received : List UInt8}
    (replied : Replied tpm area core used contents store mem received m)
    (framed : Framed received) : ofBe32 (read m.tisOut 6 4) = resultOf received := by
  have long := framed.long
  rw [replied.field (by omega), resultOf]

theorem Replied.carries {mem : Mem} {response : TpmWire.Response}
    (replied : Replied tpm area core used contents store mem response.encode m)
    (fits : response.size ≤ 1024) : (outputSource m).Carries response := by
  have received := replied.received_eq
  rw [TpmWire.Response.length_encode] at received
  rw [Source.Carries, Source.slice, List.drop_zero, outputSource, take_read _ _ _ _ fits,
    received]

/-- The request of a new session without a shared secret. -/
def oiapRequest : TpmWire.Request :=
  plainRequestOf ordOIAP []

theorem tpmOIAP_replied (reliable : tpm.Reliable)
    (linked : Linked tpm area core used contents store m) (slot : SessionSlot) :
    ∃ answered, Replied tpm area (tpm.exec core oiapRequest.encode).2 used contents store
        m.mem (tpm.exec core oiapRequest.encode).1 answered ∧
      tpmOIAP device slot m =
        TpmCall.logged ordOIAP (plainResponse () (unmarshalOIAP slot)) answered := by
  have submits : Submits device { m with log := m.log ++ (TpmCall.oiap slot).announced }
      ((TpmCall.oiap slot).requestPart device m) oiapRequest [] := by
    refine plainRequest_submits rfl ?_
    rw [List.append_nil]
    exact Prog.Returns.ret fun _ holds => holds
  exact TpmCall.run_replied reliable linked submits (by decide)

/-- A response with an error opens no session. -/
theorem tpmOIAP_refused (reliable : tpm.Reliable)
    (linked : Linked tpm area core used contents store m) (slot : SessionSlot)
    (refused : resultOf (tpm.exec core oiapRequest.encode).1 ≠ 0) :
    ∃ ret reached, tpmOIAP device slot m = .ok ret reached ∧ ret.exception ≠ .none := by
  obtain ⟨answered, replied, run⟩ := tpmOIAP_replied reliable linked slot
  rw [← replied.result (tpm.framed _ _)] at refused
  refine ⟨_, _, run.trans (Prog.bind_ok (plainResponse_failed refused) _), ?_⟩
  simp [tpmError]

/-- Without room for the session object the machine stops. -/
theorem tpmOIAP_stops (reliable : tpm.Reliable)
    (linked : Linked tpm area core used contents store m) (slot : SessionSlot)
    (granted : resultOf (tpm.exec core oiapRequest.encode).1 = 0)
    (full : ¬ used + 8 ≤ area.units) :
    ∃ reached, tpmOIAP device slot m = .halt .exit reached := by
  obtain ⟨answered, replied, run⟩ := tpmOIAP_replied reliable linked slot
  rw [← replied.result (tpm.framed _ _)] at granted
  have null : allocHeap 49 (answered.readingAt 10) = .ok 0 (answered.readingAt 10) :=
    allocHeap_ok (replied.alloc_full 49 (by decide) full)
  have stops : ∃ reached, unmarshalOIAP slot (answered.readingAt 10) = .halt .exit reached := by
    rw [unmarshalOIAP, allocSession, bind_assoc, Prog.bind_ok null, bind_assoc,
      Prog.bind_modify, pure_bind, setSlot, Prog.bind_modify, emit, Prog.bind_modify]
    exact ⟨_, Prog.bind_halt (assert_halt (by simp) _) _⟩
  obtain ⟨reached, stops⟩ := stops
  refine ⟨reached, run.trans (Prog.bind_halt ?_ _)⟩
  rw [plainResponse, Prog.bind_ok (unmarshalHeader_eq answered),
    if_neg (not_not_intro granted)]
  exact Prog.bind_halt stops _

/-- A session that the TPM opens, with its object in a new block. -/
theorem tpmOIAP_linked (reliable : tpm.Reliable)
    (linked : Linked tpm area core used contents store m) (slot : SessionSlot)
    (granted : resultOf (tpm.exec core oiapRequest.encode).1 = 0)
    (room : used + 8 ≤ area.units) :
    ∃ answered s mem reached,
      Replied tpm area (tpm.exec core oiapRequest.encode).2 used contents store m.mem
        (tpm.exec core oiapRequest.encode).1 answered ∧
      s ≠ 0 ∧ contents s = none ∧
      Linked tpm area (tpm.exec core oiapRequest.encode).2 (used + 8)
        (Function.update contents s (some (read mem s.toNat 49)))
        { store with
          objects := Function.update store.objects s (oiapSession mem answered.tisOut s)
          slots := Function.update store.slots slot s } reached ∧
      tpmOIAP device slot m = .ok (answered.checked 34 (.ok ())) reached := by
  obtain ⟨answered, replied, run⟩ := tpmOIAP_replied reliable linked slot
  rw [← replied.result (tpm.framed _ _)] at granted
  obtain ⟨s, mem, allocates, nonNull, fresh, tracked⟩ := replied.alloc 49 (by decide) room
  have parses := plainResponse_eq () granted (unmarshalOIAP_eq slot allocates nonNull)
  refine ⟨answered, s, mem, _, replied, nonNull, fresh, ?_,
    run.trans (Prog.bind_ok parses _)⟩
  have objects := replied.store_eq
  subst objects
  exact ⟨tracked.locality, tracked.idle, tracked.heap, tracked.tracks, rfl⟩

theorem tpmOIAP_granted (reliable : tpm.Reliable)
    (linked : Linked tpm area core used contents store m) {slot : SessionSlot}
    {ret : Result Unit} {reached : Machine σ} (run : tpmOIAP device slot m = .ok ret reached)
    (success : ret.exception = .none) :
    resultOf (tpm.exec core oiapRequest.encode).1 = 0 ∧ used + 8 ≤ area.units := by
  have granted : resultOf (tpm.exec core oiapRequest.encode).1 = 0 := by
    by_contra refused
    obtain ⟨other, state, failed, exception⟩ := tpmOIAP_refused reliable linked slot refused
    rw [run] at failed
    cases failed
    exact exception success
  refine ⟨granted, ?_⟩
  by_contra full
  obtain ⟨state, stops⟩ := tpmOIAP_stops reliable linked slot granted full
  rw [run] at stops
  cases stops

/-- The request of a nonce. -/
def nonceRequest : TpmWire.Request :=
  plainRequestOf ordGetRandom (be32 20)

/-- Drawing a nonce changes nothing but the state of the TPM. -/
theorem getNonce_runs (reliable : tpm.Reliable)
    (linked : Linked tpm area core used contents store m) :
    ∃ answered ret reached,
      Replied tpm area (tpm.exec core nonceRequest.encode).2 used contents store m.mem
        (tpm.exec core nonceRequest.encode).1 answered ∧
      Linked tpm area (tpm.exec core nonceRequest.encode).2 used contents store reached ∧
      reached.mem = m.mem ∧ getNonce device m = .ok ret reached ∧
      (ret.exception = .none ↔ answered.NonceAccepted) ∧
      (ret.exception = .none → ret.value = Block.ofList 20 (read answered.tisOut 14 20)) := by
  let buffer : List UInt8 := List.replicate 20 0
  let call : TpmCall (List UInt8) := .getRandom buffer 20
  have submits : Submits device { m with log := m.log ++ call.announced }
      (call.requestPart device m) nonceRequest [] :=
    plainRequest_submits rfl (marshalBytes_given (by simp))
  obtain ⟨answered, replied, run⟩ := TpmCall.run_replied reliable linked submits (by decide)
  obtain ⟨ret, pos, parse, accepted, value⟩ := randomResponse_eq answered buffer
  let reached : Machine σ := { answered.readingAt pos with
    log := answered.log ++ [.finished ordGetRandom ret.exception] ++
      [.random ret.exception ret.value] }
  have body : TpmCall.logged ordGetRandom (plainResponse buffer (randomBytes buffer)) answered =
      .ok ret { answered.readingAt pos with
        log := answered.log ++ [.finished ordGetRandom ret.exception] } :=
    (Prog.bind_ok parse _).trans rfl
  have random : tpmGetRandom device buffer 20 m = .ok ret reached :=
    run.trans ((Prog.bind_ok body _).trans rfl)
  have kept : Linked tpm area (tpm.exec core nonceRequest.encode).2 used contents store
      reached := replied.toLinked.of_eq rfl
  by_cases success : ret.exception = .none
  · refine ⟨answered, .ok (Block.ofList 20 ret.value), reached, replied, kept, replied.mem_eq,
      ?_, iff_of_true rfl (accepted.mp success), fun _ => ?_⟩
    · refine (Prog.bind_ok random _).trans ?_
      rw [if_neg (not_not_intro success)]
      rfl
    · exact congrArg (Block.ofList 20) (value success)
  · refine ⟨answered, .error ret.exception (Block.ofList 20 ret.value), reached, replied, kept,
      replied.mem_eq, ?_, iff_of_false success fun good => success (accepted.mpr good),
      fun none => (success none).elim⟩
    refine (Prog.bind_ok random _).trans ?_
    rw [if_pos success]
    rfl

end Commands

end Sable
