import Mathlib.Data.List.Forall2
import Sable.FifoTpm
import Sable.RequestFrames
import Sable.ResponseFrames

/-!
# Exchanging requests for responses

A request that has been packed reaches the TPM as the frame it describes, and
what the parser of the response finds in the output buffer are the fields of
the response that the TPM gave.
-/

namespace Sable

open ByteMemory BigEndian HaltingProgram

namespace Source

variable {source : Source}

theorem encode_trailerAt {pos : Nat} (inside : pos + 41 ≤ source.bytes.length) :
    (source.trailerAt pos).encode = source.slice pos 41 := by
  have flag : source.slice (pos + 20) 1 =
      [(source.slice (pos + 20) 1).getD 0 0] := by
    have length : (source.slice (pos + 20) 1).length = 1 :=
      source.length_slice (by omega)
    obtain ⟨value, single⟩ := List.length_eq_one_iff.mp length
    rw [single]
    rfl
  have whole : source.slice pos 41 = source.slice pos 20 ++
      source.slice (pos + 20) 1 ++ source.slice (pos + 21) 20 := by
    rw [show 41 = 20 + 1 + 20 from rfl, slice_add, slice_add]
  rw [TpmWire.ResponseTrailer.encode, trailerAt,
    Block.bytes_ofList (source.length_slice (by omega)),
    Block.bytes_ofList (source.length_slice (by omega)), ← flag, whole]

theorem encode_trailers (pos count : Nat)
    (inside : pos + 41 * count ≤ source.bytes.length) :
    (((List.range count).map fun index => source.trailerAt (pos + 41 * index)).map
      TpmWire.ResponseTrailer.encode).flatten = source.slice pos (41 * count) := by
  induction count with
  | zero => rfl
  | succ count ih =>
      rw [List.range_succ, List.map_append, List.map_append, List.flatten_append,
        ih (by omega), Nat.mul_succ, slice_add]
      simp [encode_trailerAt (by omega : pos + 41 * count + 41 ≤ source.bytes.length)]

/-- A response whose size field is right is what the source starts with. -/
theorem encode_response {paramsLength count : Nat}
    (inside : 10 + paramsLength + 41 * count ≤ source.bytes.length)
    (size : source.paramSize = UInt32.ofNat (10 + paramsLength + 41 * count)) :
    (source.response paramsLength count).encode =
      source.slice 0 (10 + paramsLength + 41 * count) := by
  have paramsSize : (source.slice 10 paramsLength).length = paramsLength :=
    source.length_slice (by omega)
  have total : (source.response paramsLength count).size =
      10 + paramsLength + 41 * count := by
    simp [response, TpmWire.Response.size, paramsSize]
  have tagBytes : be16 source.tag = source.slice 0 2 :=
    be16_ofBe16 (source.length_slice (by omega))
  have sizeBytes : be32 source.paramSize = source.slice 2 4 :=
    be32_ofBe32 (source.length_slice (by omega))
  have resultBytes : be32 source.result = source.slice 6 4 :=
    be32_ofBe32 (source.length_slice (by omega))
  have whole : source.slice 0 (10 + paramsLength + 41 * count) =
      source.slice 0 2 ++ source.slice 2 4 ++ source.slice 6 4 ++
        source.slice 10 paramsLength ++
        source.slice (10 + paramsLength) (41 * count) := by
    have header : source.slice 0 10 =
        source.slice 0 2 ++ source.slice 2 4 ++ source.slice 6 4 := by
      rw [show 10 = 2 + 4 + 4 from rfl, slice_add, slice_add]
    rw [slice_add, slice_add, header, Nat.zero_add, Nat.zero_add]
  rw [TpmWire.Response.encode, total, ← size, whole, ← tagBytes, ← sizeBytes,
    ← resultBytes, ← encode_trailers _ _ inside]
  rfl

theorem decode_slice {tag : UInt16} {ordinal : UInt32} {paramsLength : Nat}
    {checks : List (Block 20 × Block 20)} (length : source.bytes.length = 1024)
    (inside : 10 + paramsLength + 41 * checks.length ≤ 1024)
    (trailers : TpmWire.trailerCount tag = checks.length)
    (accepted : source.Accepted tag ordinal paramsLength checks) :
    TpmWire.Response.decode
        (source.slice 0 (10 + paramsLength + 41 * checks.length)) =
      some (source.response paramsLength checks.length) := by
  obtain ⟨tagEq, size, -⟩ := accepted
  rw [← encode_response (by omega) size]
  apply TpmWire.Response.decode_encode
  constructor
  · rw [response, tagEq, trailers]
    simp
  · rw [← TpmWire.Response.length_encode, encode_response (by omega) size,
      source.length_slice (by omega)]
    omega

/-- The source starts with an encoded response. -/
def Carries (source : Source) (response : TpmWire.Response) : Prop :=
  source.slice 0 response.size = response.encode

variable {response : TpmWire.Response}

theorem Carries.slice_eq (carries : source.Carries response) {pos len : Nat}
    (inside : pos + len ≤ response.size) :
    source.slice pos len = (response.encode.drop pos).take len := by
  rw [← carries, slice, slice, List.drop_zero, List.drop_take, List.take_take,
    Nat.min_eq_left (by omega)]

theorem Carries.tag_eq (carries : source.Carries response) :
    source.tag = response.tag := by
  rw [tag, carries.slice_eq (by rw [TpmWire.Response.size]; omega), List.drop_zero,
    TpmWire.Response.encode]
  simp only [List.append_assoc]
  rw [List.take_left' (length_be16 _), ofBe16_be16]

theorem Carries.paramSize_eq (carries : source.Carries response) :
    source.paramSize = UInt32.ofNat response.size := by
  rw [paramSize, carries.slice_eq (by rw [TpmWire.Response.size]; omega),
    TpmWire.Response.encode]
  simp only [List.append_assoc]
  rw [List.drop_left' (length_be16 _), List.take_left' (length_be32 _), ofBe32_be32]

/-- The fields that the parser finds are those of the response. -/
theorem Carries.response_eq (carries : source.Carries response)
    (wellFormed : response.WellFormed) (inside : response.size ≤ source.bytes.length) :
    source.response response.params.length response.trailers.length = response := by
  have same : (source.response response.params.length response.trailers.length).encode =
      response.encode :=
    (encode_response inside carries.paramSize_eq).trans carries
  have size : (source.response response.params.length response.trailers.length).size =
      response.size := by
    rw [← TpmWire.Response.length_encode, same, TpmWire.Response.length_encode]
  have decoded : TpmWire.Response.decode (source.response response.params.length
      response.trailers.length).encode = _ :=
    TpmWire.Response.decode_encode ⟨by
      rw [Source.response, carries.tag_eq, ← wellFormed.trailers_eq]
      simp, by rw [size]; exact wellFormed.small⟩
  rw [same, TpmWire.Response.decode_encode wellFormed] at decoded
  exact (Option.some.inj decoded).symm

theorem Carries.result_eq (carries : source.Carries response)
    (wellFormed : response.WellFormed) (inside : response.size ≤ source.bytes.length) :
    source.result = response.result := by
  have same := congrArg TpmWire.Response.result (carries.response_eq wellFormed inside)
  exact same

theorem Carries.params_eq (carries : source.Carries response)
    (wellFormed : response.WellFormed) (inside : response.size ≤ source.bytes.length) :
    source.slice 10 response.params.length = response.params := by
  have same := congrArg TpmWire.Response.params (carries.response_eq wellFormed inside)
  exact same

/-- A response that a caller accepts. -/
theorem Carries.accepted (carries : source.Carries response)
    (wellFormed : response.WellFormed) (inside : response.size ≤ source.bytes.length)
    {ordinal : UInt32} {checks : List (Block 20 × Block 20)}
    (authentic : List.Forall₂ (fun trailer check =>
      response.Authentic ordinal trailer check.2 check.1) response.trailers checks) :
    source.Accepted response.tag ordinal response.params.length checks := by
  have count : response.trailers.length = checks.length := authentic.length_eq
  refine ⟨carries.tag_eq, ?_, ?_⟩
  · rw [← count]
    exact carries.paramSize_eq
  · rw [← count, carries.response_eq wellFormed inside]
    exact authentic

end Source

theorem framed_request {request : TpmWire.Request} (fits : request.size ≤ 1024) :
    Framed request.encode := by
  have length := TpmWire.Request.length_encode request
  refine ⟨?_, by omega, ?_⟩
  · rw [length, TpmWire.Request.size]
    omega
  · rw [length, TpmWire.Request.encode]
    simp only [List.append_assoc]
    rw [List.drop_left' (length_be16 _), List.take_left' (length_be32 _), ofBe32_be32]

theorem framed_response {response : TpmWire.Response} (fits : response.size ≤ 1024) :
    Framed response.encode := by
  have length := TpmWire.Response.length_encode response
  refine ⟨?_, by omega, ?_⟩
  · rw [length, TpmWire.Response.size]
    omega
  · rw [length, TpmWire.Response.encode]
    simp only [List.append_assoc]
    rw [List.drop_left' (length_be16 _), List.take_left' (length_be32 _), ofBe32_be32]

section Transmission

variable {σ κ : Type} {device : TisDevice σ} {mmap : UInt32}
  {tpm : FifoTpm device mmap κ} {base : Machine σ} {core : κ}

/-- The state in which a packed request is handed to the driver. -/
structure Packed (base : Machine σ) (request : TpmWire.Request)
    (uses : List (UInt32 × Block 20)) (m : Machine σ) : Prop where
  rest : { m with tisIn := base.tisIn, locals := base.locals, log := base.log } = base
  log : m.log = base.log ++ [.sent request.ordinal uses request.encode]
  buffer : read m.tisIn 0 request.encode.length = request.encode

/-- Handing a request to a TPM. -/
theorem Submits.exchanges {program : Boot σ (Result Unit)} {request : TpmWire.Request}
    {uses : List (UInt32 × Block 20)}
    (submits : Submits device base program request uses) (fits : request.size ≤ 1024)
    (locality : base.tisLocality = mmap)
    (idle : tpm.view base.world = FifoView.idle core) :
    ∃ packed, Packed base request uses packed ∧
      ∃ ret reached, program base = .ok ret reached ∧
        tpm.Exchanged packed core request.encode ret reached := by
  obtain ⟨packed, packing, same⟩ := submits base rfl
  have size : (UInt32.ofNat request.size).toNat = request.encode.length := by
    rw [TpmWire.Request.length_encode, toNat_ofNat_of_le fits]
  rw [transmit_packed device packing size] at same
  set sent : Machine σ :=
    { packed with log := base.log ++ [.sent request.ordinal uses request.encode] }
  have rest : { sent with
      tisIn := base.tisIn, locals := base.locals, log := base.log } = base := by
    have kept := packing.rest
    have log := congrArg Machine.log kept
    rw [← kept]
  have here : sent.tisLocality = mmap := by
    have kept := congrArg Machine.tisLocality rest
    exact kept.trans locality
  have attached : tpm.Attached sent (FifoView.idle core) [] sent := by
    have kept := congrArg Machine.world rest
    have world : sent.world = base.world := kept
    exact ⟨rfl, by rw [world, idle], rfl⟩
  obtain ⟨ret, reached, run, exchanged⟩ := (FifoTpm.tisTransmit_runs
    (framed_request fits) here packing.buffer).returns sent attached
  exact ⟨sent, ⟨rest, rfl, packing.buffer⟩, ret, reached, same.trans run, exchanged⟩

end Transmission

end Sable
