import Sable.BlobWrites
import Sable.GrantedCommands

/-!
# A sealed blob in the NV area

The size on the command line says how many bytes `write_passphrase` writes and
how many `read_passphrase` reads; the size of the blob is used by neither.  With
a TPM that stores what is written, a later `read_passphrase` gets the blob back
exactly if the size on the command line is not smaller than the serialised blob.
-/

namespace Sable

open ByteMemory BigEndian HaltingProgram

section Parser

variable {σ : Type} {area : HeapArea} {base : Machine σ} {source : Source}
  {progress : Progress} {stuck : Prop}

/-- The response of `TPM_NV_ReadValue` without a session. -/
theorem nvReadResponse_plain_runs {ownerAuth : Block 20} {session : Option SessionSlot}
    (place : source.buffer = .tisOut) (length : source.bytes.length = 1024)
    (room : ¬ stuck → source.result = 0 → 0 < ofBe32 (source.slice 10 4) ∧
      10 + 4 + (ofBe32 (source.slice 10 4)).toNat ≤ 1024 ∧
      progress.used + (ofBe32 (source.slice 10 4)).toNat / 8 + 2 ≤ area.units) :
    Prog.Runs stuck (Receiving area base source progress)
      (nvReadResponse ownerAuth session 0)
      (fun ret m =>
        (source.result ≠ 0 → ret = .error (tpmError source.result) ⟨0, 0⟩) ∧
        (source.result = 0 →
          ret.value.dataSize = ofBe32 (source.slice 10 4) ∧
          progress.contents ret.value.data = none ∧
          Unpacking area base source
            ((Progress.advance { progress with pos := 10 } 4).store source
              ret.value.data ret.value.dataSize) m ∧
          (ret.exception = .none ↔ source.tag = tagRspCommand ∧
            source.paramSize = UInt32.ofNat (10 + 4 + ret.value.dataSize.toNat)))) := by
  refine Prog.Runs.bind sha1InitLocal_holds.runs fun _ => ?_
  refine Prog.Runs.bind_value (unmarshalHeader_runs place length
    (hashBytes_plain source.result_short)) ?_
  refine Prog.Runs.ite (fun failed => ?_) fun success => ?_
  · exact Prog.Runs.ret fun m _ => ⟨fun _ => rfl, fun zero => (failed zero).elim⟩
  have success : source.result = 0 := Decidable.of_not_not success
  refine Prog.Runs.bind (unmarshalHeapData_runs (by omega) source.header_short fun free => ?_)
    fun value => Prog.Runs.assume fun facts => ?_
  · obtain ⟨positive, inside, space⟩ := room free success
    exact ⟨by simp [length], positive, by simp only; omega, space⟩
  obtain ⟨dataSizeEq, fresh, inside⟩ := facts
  rw [if_pos rfl]
  refine Prog.Runs.bind_read _ (fun m holds => unpackFinish_eq holds.1) ?_
  refine Prog.Runs.ite (fun wrong => ?_) fun size => ?_
  · refine Prog.Runs.ret fun m holds => ⟨fun failed => (failed success).elim,
      fun _ => ⟨dataSizeEq, fresh, holds.1, ?_⟩⟩
    exact iff_of_false (by simp) fun good => wrong good.2.symm
  refine Prog.Runs.ite (fun wrong => ?_) fun tag => ?_
  · refine Prog.Runs.ret fun m holds => ⟨fun failed => (failed success).elim,
      fun _ => ⟨dataSizeEq, fresh, holds.1, ?_⟩⟩
    exact iff_of_false (by simp) fun good => wrong good.1
  · refine Prog.Runs.ret fun m holds => ⟨fun failed => (failed success).elim,
      fun _ => ⟨dataSizeEq, fresh, holds.1, ?_⟩⟩
    exact iff_of_true rfl ⟨Decidable.of_not_not tag, (Decidable.of_not_not size).symm⟩

end Parser

section Blobs

variable {σ : Type} {device : TisDevice σ} {area : HeapArea} {used : Nat}
  {contents : UInt32 → Option (List UInt8)} {blob : TpmStoredData12} {m reached : Machine σ}

/-- The strings of a blob are blocks of the heap that are not empty, and the blob fits a
response. -/
structure BlobStored (area : HeapArea) (used : Nat) (contents : UInt32 → Option (List UInt8))
    (blob : TpmStoredData12) (mem : Mem) : Prop where
  tracks : Tracks area used contents mem
  sealInfo : ∃ bytes, contents blob.sealInfo = some bytes ∧
    bytes.length = blob.sealInfoSize.toNat
  encData : ∃ bytes, contents blob.encData = some bytes ∧
    bytes.length = blob.encDataSize.toNat
  sealPositive : 0 < blob.sealInfoSize
  encPositive : 0 < blob.encDataSize
  small : 12 + blob.sealInfoSize.toNat + blob.encDataSize.toNat ≤ 1024

/-- No empty string is unpacked. -/
theorem unmarshalPtr_positive (size : UInt32) (sctx : HashPtr) :
    Prog.Runs True (fun _ : Machine σ => True) (unmarshalPtr size .given sctx)
      (fun _ _ => 0 < size ∧ True) := by
  intro m _
  cases run : unmarshalPtr size .given sctx m with
  | halt reason reached => trivial
  | ok ptr reached =>
      obtain ⟨-, ptr, mem, allocates, -⟩ := unmarshalPtr_inv run
      refine ⟨?_, trivial⟩
      by_contra empty
      rw [alloc, if_neg empty] at allocates
      cases allocates

theorem sealResponse_positive (session : SessionSlot) (s : UInt32) (sharedSecret : Block 20) :
    Prog.Runs True (fun _ : Machine σ => True) (sealResponse session s sharedSecret)
      (fun ret _ => ret.exception = .none →
        0 < ret.value.sealInfoSize ∧ 0 < ret.value.encDataSize) := by
  have any {α : Type} {program : Boot σ α} :
      Prog.Runs True (fun _ => True) program (fun _ _ => True) := Prog.Runs.any
  have strings : Prog.Runs True (fun _ : Machine σ => True)
      (unmarshalStoredData12 .given .plain)
      (fun value _ => (0 < value.sealInfoSize ∧ 0 < value.encDataSize) ∧ True) := by
    refine any.bind fun tag => any.bind fun et => any.bind fun sealInfoSize => ?_
    refine (unmarshalPtr_positive sealInfoSize .plain).bind fun sealInfo => ?_
    refine Prog.Runs.assume fun sealPositive => any.bind fun encDataSize => ?_
    refine (unmarshalPtr_positive encDataSize .plain).bind fun encData => ?_
    refine Prog.Runs.assume fun encPositive => ?_
    exact Prog.Runs.ret fun _ _ => ⟨⟨sealPositive, encPositive⟩, trivial⟩
  refine any.bind fun _ => any.bind fun header => ?_
  refine Prog.Runs.ite (fun _ => Prog.Runs.ret fun _ _ none => ?_) fun _ => ?_
  · simp [tpmError] at none
  refine any.bind fun _ => strings.bind fun value => Prog.Runs.assume fun positive => ?_
  refine any.bind fun _ => any.bind fun _ => any.bind fun auth => any.bind fun _ => ?_
  have early {condition : Prop} [Decidable condition] {exception : Error}
      {rest : Boot σ (Result TpmStoredData12)}
      (later : Prog.Runs True (fun _ => True) rest (fun ret _ => ret.exception = .none →
        0 < ret.value.sealInfoSize ∧ 0 < ret.value.encDataSize)) :
      Prog.Runs True (fun _ => True)
        (if condition then pure (.error exception value) else rest)
        (fun ret _ => ret.exception = .none →
          0 < ret.value.sealInfoSize ∧ 0 < ret.value.encDataSize) :=
    Prog.Runs.ite (fun _ => Prog.Runs.ret fun _ _ _ => positive) fun _ => later
  refine early (early (early (any.bind fun _ => early (any.bind fun _ => ?_))))
  exact Prog.Runs.ret fun _ _ _ => positive

/-- The blob that `TPM_Seal` returns. -/
theorem tpmSeal_stored {keyHandleIn : UInt32} {encAuthIn : Block 20}
    {pcrInfoIn : TpmPcrInfoLong} {inDataIn inDataSizeIn : UInt32} {session : SessionSlot}
    {sharedSecret : Block 20} (heap : m.heap = area.heap)
    (tracks : Tracks area used contents m.mem)
    (run : tpmSeal device keyHandleIn encAuthIn pcrInfoIn inDataIn inDataSizeIn session
      sharedSecret m = .ok (.ok blob) reached) :
    reached.heap = area.heap ∧
      ∃ more blocks, BlobStored area more blocks blob reached.mem := by
  have sealing : (AuthorisedCommand.sealData keyHandleIn encAuthIn pcrInfoIn inDataIn
      inDataSizeIn session sharedSecret).run device m = .ok (.ok blob) reached := run
  obtain ⟨base, parsed, memory, heapKept, -, -, received, rfl⟩ :=
    AuthorisedCommand.run_received device sealing
  have length := length_outputSource base
  rw [← memory] at tracks
  have start := AuthorisedCommand.receiving_start (heapKept.trans heap) tracks
  have post := (sealResponse_runs rfl length
    fun free : ¬ True => (free trivial).elim).of_ok start received
  have positive := (sealResponse_positive _ _ _).of_ok trivial received rfl
  have result : (outputSource base).result = 0 := by
    by_contra failed
    cases post.1 failed
  obtain ⟨found, unpacking, -⟩ := post.2 result
  have inside := found.inside
  have sealSize : blob.sealInfoSize = _ := found.sealInfoSize
  have encSize : blob.encDataSize = _ := found.encDataSize
  have different : blob.encData ≠ blob.sealInfo := found.different
  rw [Source.blobLength, ← sealSize, ← encSize, length] at inside
  refine ⟨unpacking.heap, _, _, unpacking.tracks,
    ⟨(outputSource base).slice 18 blob.sealInfoSize.toNat, ?_, ?_⟩,
    ⟨(outputSource base).slice (18 + blob.sealInfoSize.toNat + 4) blob.encDataSize.toNat, ?_, ?_⟩,
    positive.1, positive.2, by omega⟩
  · simp only [Progress.advance, Progress.receive, Progress.store, Progress.storeBlob,
      Result.value_ok, Function.update_of_ne different.symm, Function.update_self]
  · exact Source.length_slice _ (by omega)
  · simp only [Progress.advance, Progress.receive, Progress.store, Progress.storeBlob,
      Result.value_ok, Function.update_self]
  · exact Source.length_slice _ (by omega)

end Blobs

section Lengths

variable {σ : Type} {device : TisDevice σ}

/-- What has been packed lies in the input buffer. -/
structure Machine.PackedInside (m : Machine σ) : Prop where
  buffer : m.locals.pctx.packBuffer = .tisIn
  size : m.locals.pctx.size = 1024
  bound : m.locals.pctx.bytesPacked ≤ 1024

theorem marshalBytes_inside {bytes : List UInt8} (size : UInt32)
    (length : bytes.length = size.toNat) (sctx : HashPtr) :
    Prog.Runs True (Machine.PackedInside : Machine σ → Prop) (marshalBytes bytes .given sctx)
      (fun _ => Machine.PackedInside) := by
  rintro m ⟨buffer, limit, bound⟩
  by_cases room : sctx.Room bytes m.locals
  swap
  · have stops := (hashBytes_eq bytes sctx m).trans (if_neg room)
    rw [marshalBytes, Prog.bind_halt stops]
    trivial
  obtain ⟨plain, keyed, run⟩ := marshalBytes_run (by rw [buffer]; simp) length room
  rw [run]
  by_cases fits : m.locals.pctx.bytesPacked + size ≤ m.locals.pctx.size
  · rw [if_pos fits]
    rw [limit] at fits
    exact ⟨buffer, limit, fits⟩
  · rw [if_neg fits]
    trivial

/-- Programs that leave the pack context alone. -/
theorem inside_of_preserves {α : Type} {program : Boot σ α}
    (preserves : Prog.Preserves (fun m => m.locals.pctx) program) :
    Prog.Runs True (Machine.PackedInside : Machine σ → Prop) program
      (fun _ => Machine.PackedInside) := by
  refine Prog.Ends.mono (Prog.Steps.ends preserves ?_) (fun _ inside => inside)
    (fun _ _ inside => inside) (fun _ _ => trivial)
  rintro m reached ⟨buffer, size, bound⟩ same
  change reached.locals.pctx = m.locals.pctx at same
  rw [← same] at buffer size bound
  exact ⟨buffer, size, bound⟩

theorem marshalHeader_inside (tagIn : UInt16) (paramSizeIn : UInt32) :
    Prog.Runs True (fun _ : Machine σ => True) (marshalHeader tagIn paramSizeIn)
      (fun _ => Machine.PackedInside) := by
  have init : Prog.Runs True (fun _ : Machine σ => True) (packInit .tisIn 1024)
      (fun _ => Machine.PackedInside) :=
    Prog.Runs.modify fun _ _ => ⟨rfl, rfl, (by decide : (0 : UInt32) ≤ 1024)⟩
  refine init.bind fun _ => (marshalBytes_inside 2 rfl .null).bind fun _ => ?_
  exact marshalBytes_inside 4 rfl .null

theorem marshalAuth_inside (secret : Block 20) (s : UInt32) :
    Prog.Runs True (Machine.PackedInside : Machine σ → Prop) (marshalAuth secret s)
      (fun _ => Machine.PackedInside) := by
  have object (value : Block 20) (sctx : HashPtr) :
      Prog.Runs True (Machine.PackedInside : Machine σ → Prop)
        (marshalObject value .given sctx) (fun _ => Machine.PackedInside) :=
    marshalBytes_inside 20 value.length_eq sctx
  have hidden (value : Block 20) :
      Prog.Runs True (Machine.PackedInside : Machine σ → Prop)
        (marshalObject value .null .keyed) (fun _ => Machine.PackedInside) :=
    inside_of_preserves (Prog.Preserves.bind
      (fun m => congrArg (fun kept => kept.2.2.2) (hashBytes_preserves value.bytes .keyed m))
      fun _ _ => rfl)
  refine (inside_of_preserves fun _ => rfl).bind fun _ => ?_
  refine (inside_of_preserves fun _ => rfl).bind fun digest => (hidden digest).bind fun _ => ?_
  refine (inside_of_preserves (Prog.Preserves.ite (fun _ => rfl) fun _ => rfl)).bind
    fun session => ?_
  refine (marshalBytes_inside 4 rfl .null).bind fun _ => (hidden _).bind fun _ => ?_
  refine (object _ .keyed).bind fun _ => (marshalBytes_inside 1 rfl .keyed).bind
    fun _ => ?_
  refine (inside_of_preserves fun _ => rfl).bind fun _ => ?_
  exact (inside_of_preserves fun _ => rfl).bind fun _ => object _ .null

/-- The assertion on the number of packed bytes. -/
theorem transmit_inside (ordinalIn paramSizeIn : UInt32) (uses : List (UInt32 × Block 20)) :
    Prog.Runs True (Machine.PackedInside : Machine σ → Prop)
      (transmit device ordinalIn paramSizeIn uses) (fun _ _ => paramSizeIn ≤ 1024) := by
  intro m inside
  have finish : packFinish m = .ok m.locals.pctx.bytesPacked m := rfl
  by_cases same : m.locals.pctx.bytesPacked = paramSizeIn
  · rw [transmit, Prog.bind_ok finish, Prog.bind_ok (assert_ok same m)]
    refine Prog.Runs.mono Prog.Runs.any (fun _ holds => holds) (fun _ _ _ => ?_) m inside
    rw [← same]
    exact inside.bound
  · rw [transmit, Prog.bind_ok finish, Prog.bind_halt (assert_halt same m)]
    trivial

theorem nvWriteRequest_inside (dataIn dataSizeIn nvIndexIn offsetIn : UInt32)
    (nvAuth : Block 20) (s : UInt32) :
    Prog.Runs True (fun _ : Machine σ => True)
      (nvWriteRequest device dataIn dataSizeIn nvIndexIn offsetIn nvAuth s)
      (fun _ _ => 2 + 4 + 4 + 4 + 4 + 4 + dataSizeIn + 4 + 20 + 1 + 20 ≤ 1024) := by
  have word (value : UInt32) : Prog.Runs True (Machine.PackedInside : Machine σ → Prop)
      (marshalUINT32 value .given .plain) (fun _ => Machine.PackedInside) :=
    marshalBytes_inside 4 rfl .plain
  have array : Prog.Runs True (Machine.PackedInside : Machine σ → Prop)
      (marshalArray dataIn dataSizeIn .given .plain) (fun _ => Machine.PackedInside) := by
    refine (inside_of_preserves (Prog.Preserves.ite (fun _ => rfl) fun _ => rfl)).bind
      fun _ => (Prog.Runs.get).bind fun m => ?_
    exact marshalBytes_inside dataSizeIn (length_read ..) .plain
  refine Prog.Runs.any.bind fun _ => (marshalHeader_inside _ _).bind fun _ => ?_
  refine (word _).bind fun _ => (word _).bind fun _ => (word _).bind fun _ => ?_
  refine (word _).bind fun _ => array.bind fun _ => ?_
  refine (inside_of_preserves fun _ => rfl).bind fun _ => ?_
  refine (marshalAuth_inside _ _).bind fun _ => ?_
  refine (inside_of_preserves ?_).bind fun _ => transmit_inside _ _ _
  exact Prog.Preserves.bind (Prog.Preserves.ite (fun _ => rfl) fun _ => rfl) fun _ => fun _ => rfl

/-- Data that does not fit behind the header stops the request, unless the sum of the
overflow check wraps around. -/
theorem nvWriteRequest_stops (device : TisDevice σ) {base : Machine σ}
    {dataIn dataSizeIn nvIndexIn offsetIn : UInt32} {nvAuth : Block 20} {s : UInt32}
    (past : 1024 < 22 + dataSizeIn.toNat)
    (noWrap : 22 + dataSizeIn.toNat < 2 ^ 32) :
    ∃ reason reached, nvWriteRequest device dataIn dataSizeIn nvIndexIn offsetIn nvAuth s base =
      .halt reason reached := by
  have leads : ∃ rest : Unit → Boot σ (Result Unit), ∃ frame, frame.length = 22 ∧
      Prog.Leads (fun m => m = base)
        (nvWriteRequest device dataIn dataSizeIn nvIndexIn offsetIn nvAuth s)
        (Packing base frame) (marshalArray dataIn dataSizeIn .given .plain >>= rest) := by
    unfold nvWriteRequest
    refine ⟨_, _, ?_, Prog.Leads.bind sha1InitLocal_starts fun _ =>
      Prog.Leads.bind (marshalHeader_packs _ _) fun _ =>
      Prog.Leads.bind (marshalBytes_plain (by simp) (by simp)) fun _ =>
      Prog.Leads.bind (marshalBytes_plain (by simp) (by simp)) fun _ =>
      Prog.Leads.bind (marshalBytes_plain (by simp) (by simp)) fun _ =>
      Prog.Leads.bind (marshalBytes_plain (by simp) (by simp)) fun _ =>
      Prog.Leads.last.weaken fun m holds => holds.1⟩
    simp
  obtain ⟨rest, frame, length, leads⟩ := leads
  obtain ⟨packed, packing, same⟩ := leads base rfl
  have stops : ∃ reason reached, marshalArray dataIn dataSizeIn .given .plain packed =
      .halt reason reached := by
    by_cases null : dataIn = 0
    · rw [marshalArray]
      exact ⟨_, _, Prog.bind_halt (assert_halt (not_not_intro null) packed) _⟩
    let bytes := read packed.mem dataIn.toNat dataSizeIn.toNat
    by_cases room : HashPtr.plain.Room bytes packed.locals
    swap
    · have overruns := (hashBytes_eq bytes .plain packed).trans (if_neg room)
      rw [marshalArray, Prog.bind_ok (assert_ok null packed), Prog.bind_get]
      exact ⟨_, _, Prog.bind_halt overruns _⟩
    have context := packing.context
    obtain ⟨plain, keyed, run⟩ := marshalBytes_run (m := packed) (by rw [context]; simp)
      (length_read packed.mem dataIn.toNat dataSizeIn.toNat) room
    have check : ¬ packed.locals.pctx.bytesPacked + dataSizeIn ≤ packed.locals.pctx.size := by
      rw [context, length, check_iff noWrap]
      exact not_le.mpr past
    rw [if_neg check] at run
    rw [marshalArray, Prog.bind_ok (assert_ok null packed), Prog.bind_get]
    exact ⟨_, _, run⟩
  obtain ⟨reason, reached, stops⟩ := stops
  exact ⟨reason, reached, same.trans (Prog.bind_halt stops rest)⟩

/-- A write whose frame has been sent fits the input buffer. -/
theorem nvWriteRequest_fits {base reached : Machine σ}
    {dataIn dataSizeIn nvIndexIn offsetIn : UInt32} {nvAuth : Block 20} {s : UInt32}
    {ret : Result Unit} (noWrap : 22 + dataSizeIn.toNat < 2 ^ 32)
    (run : nvWriteRequest device dataIn dataSizeIn nvIndexIn offsetIn nvAuth s base =
      .ok ret reached) : 67 + dataSizeIn.toNat ≤ 1024 := by
  by_cases past : 1024 < 22 + dataSizeIn.toNat
  · obtain ⟨reason, state, stops⟩ := nvWriteRequest_stops device past noWrap
    rw [run] at stops
    cases stops
  have bound := (nvWriteRequest_inside dataIn dataSizeIn nvIndexIn offsetIn nvAuth s).of_ok
    trivial run
  rw [UInt32.le_iff_toNat_le] at bound
  simp only [UInt32.toNat_add, UInt32.reduceToNat] at bound
  omega

end Lengths

section Writing

variable {σ κ : Type} {device : TisDevice σ} {mmap : UInt32} {tpm : FifoTpm device mmap κ}
  {area : HeapArea} {core : κ} {used : Nat} {contents : UInt32 → Option (List UInt8)}
  {store : Store} {m reached : Machine σ} {blob : TpmStoredData12}

theorem Tracks.string {mem : Mem} (tracks : Tracks area used contents mem) {ptr size : UInt32}
    (tracked : ∃ bytes, contents ptr = some bytes ∧ bytes.length = size.toNat) :
    contents ptr = some (read mem ptr.toNat size.toNat) := by
  obtain ⟨bytes, content, length⟩ := tracked
  rw [← length, tracks.read_eq content, content]

/-- A string survives as long as its block is tracked. -/
theorem Tracks.string_kept {mem later : Mem} {more : Nat}
    {blocks : UInt32 → Option (List UInt8)} (tracks : Tracks area used contents mem)
    (laterTracks : Tracks area more blocks later) {ptr size : UInt32}
    (tracked : ∃ bytes, contents ptr = some bytes ∧ bytes.length = size.toNat)
    (same : blocks ptr = contents ptr) :
    read later ptr.toNat size.toNat = read mem ptr.toNat size.toNat := by
  obtain ⟨bytes, content, length⟩ := tracked
  rw [← length, tracks.read_eq content, laterTracks.read_eq (same.trans content)]

/-- Nothing is packed through a null pointer. -/
theorem packStoredData12_null (size : UInt32) (blob : TpmStoredData12) (m : Machine σ) :
    ∃ reason state, packStoredData12 0 size blob m = .halt reason state := by
  let start : Machine σ := { m with locals := { m.locals with pctx := ⟨.mem 0, 0, size⟩ } }
  have stops : ∃ reason state, marshalUINT16 blob.tag .given .null start =
      .halt reason state := by
    have pack : marshalUINT16 blob.tag .given .null start = packBytes (be16 blob.tag) start := by
      rw [marshalUINT16, marshalBytes, hashBytes_null_eq]
      rfl
    rw [pack, packBytes, Prog.bind_get]
    split
    · exact ⟨_, _, rfl⟩
    · exact ⟨_, _, rfl⟩
  obtain ⟨reason, state, stops⟩ := stops
  have init : packInit (.mem 0) size m = .ok () start := rfl
  refine ⟨reason, state, ?_⟩
  rw [packStoredData12, Prog.bind_ok init, marshalStoredData12, bind_assoc]
  exact Prog.bind_halt stops _

theorem storedData12Bytes_congr {first second : Machine σ}
    (sealInfo : read first.mem blob.sealInfo.toNat blob.sealInfoSize.toNat =
      read second.mem blob.sealInfo.toNat blob.sealInfoSize.toNat)
    (encData : read first.mem blob.encData.toNat blob.encDataSize.toNat =
      read second.mem blob.encData.toNat blob.encDataSize.toNat) :
    storedData12Bytes first blob = storedData12Bytes second blob := by
  rw [storedData12Bytes, storedData12Bytes, sealInfo, encData]

theorem sizeofStoredData12_pos
    (stored : BlobStored area used contents blob m.mem) : 0 < sizeofStoredData12 blob := by
  have small := stored.small
  have zero : (0 : UInt32).toNat = 0 := rfl
  rw [UInt32.lt_iff_toNat_lt, @toNat_sizeofStoredData12 blob (by omega)]
  omega

/-- The serialised blob in a new block. -/
theorem extractStoredData12_runs (linked : Linked tpm area core used contents store m)
    (stored : BlobStored area used contents blob m.mem)
    (room : used + (sizeofStoredData12 blob).toNat / 8 + 2 ≤ area.units) :
    ∃ ptr reached,
      extractStoredData12 blob m = .ok (ptr, sizeofStoredData12 blob) reached ∧ ptr ≠ 0 ∧
      contents ptr = none ∧ Linked tpm area core (used + (sizeofStoredData12 blob).toNat / 8 + 2)
        (Function.update contents ptr (some (storedData12Bytes m blob))) store reached := by
  have small := stored.small
  have size := @toNat_sizeofStoredData12 blob (by omega)
  obtain ⟨ptr, mem, allocates, nonNull, fresh, tracked⟩ :=
    linked.alloc _ (sizeofStoredData12_pos stored) room
  have apart {string : UInt32} {bytes : List UInt8} (content : contents string = some bytes) :
      string ≠ ptr := by
    rintro rfl
    rw [fresh] at content
    cases content
  let filled : Machine σ := { m with mem := mem }
  have kept {string : UInt32} {bytes : List UInt8} (content : contents string = some bytes) :
      Function.update contents ptr (some (read mem ptr.toNat (sizeofStoredData12 blob).toNat))
        string = some bytes := by
    rw [Function.update_of_ne (apart content), content]
  have packable : Packable filled ptr (sizeofStoredData12 blob) blob := by
    obtain ⟨info, infoContent, infoLength⟩ := stored.sealInfo
    obtain ⟨enc, encContent, encLength⟩ := stored.encData
    have infoApart := tracked.tracks.apart (kept infoContent) (Function.update_self ..)
      (apart infoContent)
    have encApart := tracked.tracks.apart (kept encContent) (Function.update_self ..)
      (apart encContent)
    rw [length_read, size] at infoApart encApart
    refine ⟨nonNull, stored.tracks.nonNull infoContent, stored.tracks.nonNull encContent,
      size.ge, ?_, ?_⟩
    · rw [← infoLength]
      rw [← infoLength] at infoApart
      exact infoApart
    · rw [← encLength]
      rw [← encLength] at encApart
      exact encApart
  have sameBytes : storedData12Bytes filled blob = storedData12Bytes m blob := by
    refine storedData12Bytes_congr ?_ ?_
    · obtain ⟨info, content, -⟩ := stored.sealInfo
      exact stored.tracks.string_kept tracked.tracks stored.sealInfo
        ((kept content).trans content.symm)
    · obtain ⟨enc, content, -⟩ := stored.encData
      exact stored.tracks.string_kept tracked.tracks stored.encData
        ((kept content).trans content.symm)
  have length : (storedData12Bytes filled blob).length = (sizeofStoredData12 blob).toNat := by
    rw [length_storedData12Bytes, size]
  have allocated : allocHeap (sizeofStoredData12 blob) m = .ok ptr filled :=
    allocHeap_ok allocates
  have agree (a : Nat) (outside : a < ptr.toNat ∨ ptr.toNat +
      (read mem ptr.toNat (sizeofStoredData12 blob).toNat).length ≤ a) :
      write mem ptr.toNat (storedData12Bytes filled blob) a = mem a := by
    rw [length_read, ← length] at outside
    exact write_outside mem outside
  have written := tracked.tracks.change (Function.update_self ..) agree
  rw [Function.update_idem, length_read, ← length, read_write_self, sameBytes, ← sameBytes,
    length] at written
  rw [← sameBytes, extractStoredData12, Prog.bind_ok allocated,
    Prog.bind_ok (packStoredData12_packs packable)]
  exact ⟨ptr, _, rfl, nonNull, fresh,
    ⟨linked.locality, linked.idle, linked.heap, written, linked.store_eq⟩⟩

theorem extractStoredData12_linked (linked : Linked tpm area core used contents store m)
    (stored : BlobStored area used contents blob m.mem) {x : UInt32 × UInt32}
    (run : extractStoredData12 blob m = .ok x reached) :
    ∃ more blocks, Linked tpm area core more blocks store reached ∧
      blocks x.1 = some (storedData12Bytes m blob) := by
  by_cases room : used + (sizeofStoredData12 blob).toNat / 8 + 2 ≤ area.units
  swap
  · have null := allocHeap_ok (linked.alloc_full _ (sizeofStoredData12_pos stored) room)
    obtain ⟨reason, state, stops⟩ :=
      packStoredData12_null (sizeofStoredData12 blob) blob { m with mem := m.mem }
    rw [extractStoredData12, Prog.bind_ok null, Prog.bind_halt stops] at run
    cases run
  obtain ⟨ptr, last, runs, -, -, linkedNext⟩ := extractStoredData12_runs linked stored room
  rw [run] at runs
  cases runs
  exact ⟨_, _, linkedNext, Function.update_self ..⟩

/-- A new block next to the strings of a blob. -/
theorem BlobStored.update {mem later : Mem} {more : Nat} {ptr : UInt32} {bytes : List UInt8}
    (stored : BlobStored area used contents blob mem) (fresh : contents ptr = none)
    (tracks : Tracks area more (Function.update contents ptr (some bytes)) later) :
    BlobStored area more (Function.update contents ptr (some bytes)) blob later ∧
      read later blob.sealInfo.toNat blob.sealInfoSize.toNat =
        read mem blob.sealInfo.toNat blob.sealInfoSize.toNat ∧
      read later blob.encData.toNat blob.encDataSize.toNat =
        read mem blob.encData.toNat blob.encDataSize.toNat := by
  have same {string : UInt32} (known : ∃ bytes, contents string = some bytes) :
      Function.update contents ptr (some bytes) string = contents string := by
    refine Function.update_of_ne ?_ ..
    rintro rfl
    obtain ⟨others, content⟩ := known
    rw [fresh] at content
    cases content
  obtain ⟨info, infoContent, infoLength⟩ := stored.sealInfo
  obtain ⟨enc, encContent, encLength⟩ := stored.encData
  have infoSame := same ⟨info, infoContent⟩
  have encSame := same ⟨enc, encContent⟩
  refine ⟨⟨tracks, ⟨info, infoSame.trans infoContent, infoLength⟩,
    ⟨enc, encSame.trans encContent, encLength⟩, stored.sealPositive, stored.encPositive,
    stored.small⟩, ?_, ?_⟩
  · exact stored.tracks.string_kept tracks stored.sealInfo infoSame
  · exact stored.tracks.string_kept tracks stored.encData encSame

/-- A change of the session object in a slot. -/
theorem updateSlot_runs (linked : Linked tpm area core used contents store m)
    (slot : SessionSlot) (update : TpmSession → TpmSession) (nonNull : store.slots slot ≠ 0) :
    ∃ reached, (getSlot slot >>= fun s => updateSession s update) m = .ok () reached ∧
      reached.mem = m.mem ∧
      Linked tpm area core used contents
        { store with
          objects := Function.update store.objects (store.slots slot)
            (update (store.objects (store.slots slot))) } reached := by
  have slotValue : getSlot slot m = .ok (m.sessions slot) m := rfl
  have objects := linked.store_eq
  subst objects
  have filled : m.sessions slot ≠ 0 := nonNull
  rw [Prog.bind_ok slotValue, updateSession, if_neg filled, Prog.modify_apply]
  exact ⟨_, rfl, rfl, linked.locality, linked.idle, linked.heap, linked.tracks, rfl⟩

theorem updateSlot_linked (linked : Linked tpm area core used contents store m)
    {slot : SessionSlot} {update : TpmSession → TpmSession}
    (run : (getSlot slot >>= fun s => updateSession s update) m = .ok () reached) :
    reached.mem = m.mem ∧
      Linked tpm area core used contents
        { store with
          objects := Function.update store.objects (store.slots slot)
            (update (store.objects (store.slots slot))) } reached := by
  have nonNull : store.slots slot ≠ 0 := by
    intro null
    have slotValue : getSlot slot m = .ok (m.sessions slot) m := rfl
    rw [← linked.store_eq] at null
    have empty : m.sessions slot = 0 := null
    rw [Prog.bind_ok slotValue, updateSession, if_pos empty] at run
    cases run
  obtain ⟨state, updates, memory, kept⟩ := updateSlot_runs linked _ update nonNull
  rw [run] at updates
  cases updates
  exact ⟨memory, kept⟩

/-- The state in which `write_passphrase` calls `TPM_NV_WriteValueAuth`. -/
theorem prepareWrite_linked (reliable : tpm.Reliable)
    (linked : Linked tpm area core used contents store m)
    (stored : BlobStored area used contents blob m.mem) {x : UInt32 × UInt32}
    (run : prepareWrite device blob m = .ok (.ok x) reached) :
    ∃ next more blocks after, Linked tpm area next more blocks after reached ∧
      blocks x.1 = some (storedData12Bytes m blob) := by
  rw [prepareWrite] at run
  obtain ⟨oiapRet, opened, opens, run⟩ := Prog.bind_eq_ok.mp run
  split at run
  · rename_i failed
    injection run with same
    exact absurd (congrArg Result.exception same) failed
  rename_i success
  obtain ⟨granted, room⟩ := tpmOIAP_granted reliable linked opens (Decidable.of_not_not success)
  obtain ⟨answered, s, mem, state, -, -, fresh, openedLinked, oiapRun⟩ :=
    tpmOIAP_linked reliable linked .zero granted room
  rw [opens] at oiapRun
  cases oiapRun
  obtain ⟨openedStored, info, enc⟩ := stored.update fresh openedLinked.tracks
  obtain ⟨nonceOdd, drawn, draws, run⟩ := Prog.bind_eq_ok.mp run
  obtain ⟨-, nonce, state, -, drawnLinked, drawnMem, nonceRun, -⟩ :=
    getNonce_runs reliable openedLinked
  rw [draws] at nonceRun
  cases nonceRun
  split at run
  · rename_i failed
    injection run with same
    exact absurd (congrArg Result.exception same) failed
  obtain ⟨_, set, sets, run⟩ := Prog.bind_eq_ok.mp run
  obtain ⟨setMem, setLinked⟩ := updateSlot_linked drawnLinked sets
  obtain ⟨_, ended, ends, run⟩ := Prog.bind_eq_ok.mp run
  obtain ⟨endedMem, endedLinked⟩ := updateSlot_linked setLinked ends
  obtain ⟨blobData, last, extracts, run⟩ := Prog.bind_eq_ok.mp run
  cases run
  have memory : ended.mem = opened.mem := (endedMem.trans setMem).trans drawnMem
  rw [← memory] at openedStored info enc
  obtain ⟨more, blocks, lastLinked, content⟩ :=
    extractStoredData12_linked endedLinked openedStored extracts
  exact ⟨_, more, blocks, _, lastLinked, content.trans
    (congrArg some (storedData12Bytes_congr info enc))⟩

/-- The answers that open a session and that give a nonce. -/
def oiapAnswer (handle : UInt32) (nonceEven : Block 20) : TpmWire.Response :=
  ⟨tagRspCommand, 0, be32 handle ++ nonceEven.bytes, []⟩

def nonceAnswer (nonce : Block 20) : TpmWire.Response :=
  ⟨tagRspCommand, 0, be32 20 ++ nonce.bytes, []⟩

/-- The fields of an answer that carries a word and twenty bytes. -/
theorem Replied.answer {mem : Mem} {word : UInt32} {nonce : Block 20}
    (replied : Replied tpm area core used contents store mem
      (⟨tagRspCommand, 0, be32 word ++ nonce.bytes, []⟩ : TpmWire.Response).encode m) :
    ofBe16 (read m.tisOut 0 2) = tagRspCommand ∧ ofBe32 (read m.tisOut 2 4) = 34 ∧
      ofBe32 (read m.tisOut 6 4) = 0 ∧ ofBe32 (read m.tisOut 10 4) = word ∧
      read m.tisOut 14 20 = nonce.bytes := by
  let answer : TpmWire.Response := ⟨tagRspCommand, 0, be32 word ++ nonce.bytes, []⟩
  have size : answer.size = 34 := by simp [answer, TpmWire.Response.size]
  have length : answer.encode.length = 34 := by rw [TpmWire.Response.length_encode, size]
  have bytes : answer.encode = be16 tagRspCommand ++ (be32 34 ++ (be32 0 ++ (be32 word ++
      nonce.bytes))) := by
    simp [TpmWire.Response.encode, size, answer]
  have tail (pos len : Nat) (inside : pos + len ≤ 34) :
      read m.tisOut pos len = ((be16 tagRspCommand ++ (be32 34 ++ (be32 0 ++ (be32 word ++
        nonce.bytes)))).drop pos).take len := by
    rw [← bytes]
    exact replied.field (by rw [length]; exact inside)
  have front (rest : List UInt8) : (be16 tagRspCommand ++ rest).drop 2 = rest :=
    List.drop_left' (length_be16 _)
  have skip (value : UInt32) (rest : List UInt8) : (be32 value ++ rest).drop 4 = rest :=
    List.drop_left' (length_be32 _)
  refine ⟨?_, ?_, ?_, ?_, ?_⟩
  · rw [tail 0 2 (by omega), List.drop_zero, List.take_left' (length_be16 _), ofBe16_be16]
  · rw [tail 2 4 (by omega), front, List.take_left' (length_be32 _), ofBe32_be32]
  · rw [tail 6 4 (by omega), ← List.drop_drop (i := 4) (j := 2), front, skip,
      List.take_left' (length_be32 _), ofBe32_be32]
  · rw [tail 10 4 (by omega), ← List.drop_drop (i := 8) (j := 2), front,
      ← List.drop_drop (i := 4) (j := 4), skip, skip, List.take_left' (length_be32 _),
      ofBe32_be32]
  · rw [tail 14 20 (by omega), ← List.drop_drop (i := 12) (j := 2), front,
      ← List.drop_drop (i := 8) (j := 4), skip, ← List.drop_drop (i := 4) (j := 4), skip, skip]
    exact List.take_of_length_le nonce.length_eq.le

/-- What `write_passphrase` prepares when the TPM grants a session and a nonce. -/
theorem prepareWrite_granted (reliable : tpm.Reliable)
    (linked : Linked tpm area core used contents store m)
    (stored : BlobStored area used contents blob m.mem) {handle : UInt32}
    {nonceEven nonceOdd : Block 20} {next last : κ}
    (opens : tpm.exec core oiapRequest.encode = ((oiapAnswer handle nonceEven).encode, next))
    (draws : tpm.exec next nonceRequest.encode = ((nonceAnswer nonceOdd).encode, last))
    (room : used + 8 + (sizeofStoredData12 blob).toNat / 8 + 2 ≤ area.units) :
    ∃ ptr more blocks after reached,
      prepareWrite device blob m = .ok (.ok (ptr, sizeofStoredData12 blob)) reached ∧
      ptr ≠ 0 ∧ Linked tpm area last more blocks after reached ∧
      reached.sessions .zero ≠ 0 ∧
      (reached.sessionAt (reached.sessions .zero)).nonceOdd = nonceOdd := by
  have granted : resultOf (tpm.exec core oiapRequest.encode).1 = 0 := by
    rw [opens, resultOf_encode]
    rfl
  obtain ⟨answered, s, mem, opened, replied, nonNull, fresh, openedLinked, openRun⟩ :=
    tpmOIAP_linked reliable linked .zero granted (by omega)
  rw [opens] at replied openedLinked
  obtain ⟨tag, size, -, -, -⟩ := replied.answer
  have accepted : answered.checked 34 (.ok ()) = .ok () := by
    rw [Machine.checked, if_pos ⟨size.symm, tag⟩]
  rw [accepted] at openRun
  obtain ⟨openedStored, -, -⟩ := stored.update fresh openedLinked.tracks
  obtain ⟨nonceAnswered, ret, drawn, nonceReplied, drawnLinked, drawnMem, nonceRun, success,
    value⟩ := getNonce_runs reliable openedLinked
  rw [draws] at nonceReplied drawnLinked
  obtain ⟨nonceTag, nonceSize, result, count, bytes⟩ := nonceReplied.answer
  have random : ret.exception = .none := success.mpr ⟨result, count, nonceSize.symm, nonceTag⟩
  have nonce : ret.value = nonceOdd := by rw [value random, bytes, Block.ofList_bytes]
  obtain ⟨set, sets, setMem, setLinked⟩ := updateSlot_runs drawnLinked .zero
    (fun session => { session with nonceOdd := ret.value }) (by
      simpa only [Function.update_self] using nonNull)
  obtain ⟨ended, ends, endedMem, endedLinked⟩ := updateSlot_runs setLinked .zero
    (fun session => { session with continueAuthSession := 0 }) (by
      simpa only [Function.update_self] using nonNull)
  have memory : ended.mem = opened.mem := (endedMem.trans setMem).trans drawnMem
  rw [← memory] at openedStored
  obtain ⟨ptr, reached, extracts, ptrNonNull, -, linkedNext⟩ :=
    extractStoredData12_runs endedLinked openedStored (by omega)
  have objects := linkedNext.store_eq
  refine ⟨ptr, _, _, _, reached, ?_, ptrNonNull, linkedNext, ?_, ?_⟩
  · rw [prepareWrite, Prog.bind_ok openRun, if_neg (by simp), Prog.bind_ok nonceRun,
      if_neg (not_not_intro random)]
    refine (Prog.bind_ok sets _).trans ((Prog.bind_ok ends _).trans ?_)
    rw [Prog.bind_ok extracts]
    rfl
  · have slots : reached.sessions = _ := congrArg Store.slots objects
    simpa only [slots, Function.update_self] using nonNull
  · have slots : reached.sessions = _ := congrArg Store.slots objects
    have sessions : reached.sessionAt = _ := congrArg Store.objects objects
    simp only [slots, sessions, Function.update_self, nonce]

end Writing

section Areas

/-- A write of some bytes to an NV area, and a read without authorisation. -/
def nvWriteOf (index offset : UInt32) (data : List UInt8) (trailer : TpmWire.RequestTrailer) :
    TpmWire.Request :=
  ⟨tagRquAuth1Command, ordNvWriteValueAuth, [],
    be32 index ++ be32 offset ++ be32 (UInt32.ofNat data.length) ++ data, [trailer]⟩

def nvReadOf (index offset size : UInt32) : TpmWire.Request :=
  plainRequestOf ordNvReadValue (nvReadParams index offset size)

/-- The response to a read. -/
def nvDataOf (data : List UInt8) : TpmWire.Response :=
  ⟨tagRspCommand, 0, be32 (UInt32.ofNat data.length) ++ data, []⟩

/-- Some bytes of a list replaced by others. -/
def overwriteBytes (bytes : List UInt8) (offset : Nat) (data : List UInt8) : List UInt8 :=
  bytes.take offset ++ data ++ bytes.drop (offset + data.length)

variable {σ κ : Type} {device : TisDevice σ} {mmap : UInt32}

/-- The NV area at an index stores exactly the bytes that are written to it, and can be read
without authorisation.  Reads beyond its end are refused. -/
structure FifoTpm.NvArea (tpm : FifoTpm device mmap κ) (index : UInt32)
    (stored : κ → List UInt8) : Prop where
  write : ∀ core offset data trailer, 67 + data.length ≤ 1024 →
    resultOf (tpm.exec core (nvWriteOf index offset data trailer).encode).1 = 0 →
      offset.toNat + data.length ≤ (stored core).length ∧
      stored (tpm.exec core (nvWriteOf index offset data trailer).encode).2 =
        overwriteBytes (stored core) offset.toNat data
  read : ∀ core offset size, offset.toNat + size.toNat ≤ (stored core).length →
    14 + size.toNat ≤ 1024 →
      (tpm.exec core (nvReadOf index offset size).encode).1 =
        (nvDataOf (((stored core).drop offset.toNat).take size.toNat)).encode
  beyond : ∀ core offset size, (stored core).length < offset.toNat + size.toNat →
    resultOf (tpm.exec core (nvReadOf index offset size).encode).1 ≠ 0
  bounded : ∀ core, (stored core).length < 2 ^ 31

variable {tpm : FifoTpm device mmap κ} {area : HeapArea} {core : κ} {used : Nat}
  {contents : UInt32 → Option (List UInt8)} {store : Store} {m reached : Machine σ}
  {index size : UInt32} {stored : κ → List UInt8}

/-- The request that `TPM_NV_WriteValueAuth` sends. -/
theorem authorisedRequest_nvWrite (base : Machine σ) (dataIn size index offset : UInt32)
    (nvAuth : Block 20) (s : UInt32) :
    ∃ trailer, authorisedRequest base tagRquAuth1Command ordNvWriteValueAuth []
        (nvWriteParams base dataIn size index offset) [(nvAuth, s)] =
      nvWriteOf index offset (read base.mem dataIn.toNat size.toNat) trailer := by
  refine ⟨requestTrailer nvAuth (SecureHash.sha1 (be32 ordNvWriteValueAuth ++
    nvWriteParams base dataIn size index offset)) (base.sessionAt s), ?_⟩
  simp only [authorisedRequest, nvWriteParams, nvWriteOf, List.map_cons, List.map_nil,
    length_read, UInt32.ofNat_toNat]

theorem size_nvWriteOf (index offset : UInt32) (data : List UInt8)
    (trailer : TpmWire.RequestTrailer) :
    (nvWriteOf index offset data trailer).size = 67 + data.length := by
  simp [nvWriteOf, TpmWire.Request.size]
  omega

/-- What a write leaves at its place. -/
theorem take_overwriteBytes {bytes data : List UInt8} {count : Nat}
    (length : data.length = count) : (overwriteBytes bytes 0 data).take count = data := by
  simp [overwriteBytes, ← length]

/-- A write that succeeds was granted, and the TPM has executed nothing else. -/
theorem tpmNvWriteValueAuth_written (reliable : tpm.Reliable)
    (linked : Linked tpm area core used contents store m) {dataIn : UInt32}
    {nvAuth : Block 20} (noWrap : 22 + size.toNat < 2 ^ 32)
    (run : tpmNvWriteValueAuth device dataIn size index 0 nvAuth .zero m =
      .ok (.ok ()) reached) :
    67 + size.toNat ≤ 1024 ∧ ∃ trailer,
      resultOf (tpm.exec core (nvWriteOf index 0 (read m.mem dataIn.toNat size.toNat)
        trailer).encode).1 = 0 ∧
      tpm.view reached.world = FifoView.idle (tpm.exec core (nvWriteOf index 0
        (read m.mem dataIn.toNat size.toNat) trailer).encode).2 := by
  let call : TpmCall Unit := .nvWriteValueAuth dataIn size index 0 nvAuth .zero
  let announced : Machine σ := { m with log := m.log ++ call.announced }
  have whole : call.run device m = .ok (.ok ()) reached := run
  have split := whole
  rw [TpmCall.run_split] at split
  obtain ⟨ret, sent, sends, -⟩ := Prog.bind_eq_ok.mp split
  have fits : 67 + size.toNat ≤ 1024 := nvWriteRequest_fits noWrap sends
  have given : call.Given m := by
    by_contra missing
    have stops := (TpmCall.requestPart_stops device missing announced).1
    rw [sends] at stops
    cases stops
  obtain ⟨dataNonNull, sessionNonNull⟩ := given
  have submits : Submits device announced (call.requestPart device m) _ _ :=
    nvWriteRequest_submits sessionNonNull dataNonNull fits
  obtain ⟨trailer, request⟩ := authorisedRequest_nvWrite announced dataIn size index 0 nvAuth
    (m.sessions .zero)
  have data : (read m.mem dataIn.toNat size.toNat).length = size.toNat := length_read ..
  have length : 67 + (read m.mem dataIn.toNat size.toNat).length ≤ 1024 := by omega
  rw [request] at submits
  obtain ⟨answered, replied, parses⟩ := TpmCall.run_replied reliable linked submits (by
    rw [size_nvWriteOf]
    exact length)
  have parsed : TpmCall.logged ordNvWriteValueAuth
      (nvWriteResponse nvAuth .zero (m.sessions .zero)) answered = .ok (.ok ()) reached :=
    parses.symm.trans whole
  obtain ⟨ret, state, response, finish⟩ := Prog.bind_eq_ok.mp parsed
  obtain ⟨_, _, emitted, finished⟩ := Prog.bind_eq_ok.mp finish
  cases emitted
  cases finished
  have post := (nvWriteResponse_runs rfl (length_outputSource answered)
    fun free : ¬ True => (free trivial).elim).of_ok
      (AuthorisedCommand.receiving_start replied.heap replied.tracks) response
  have result : (outputSource answered).result = 0 := by
    by_contra failed
    cases post.1 failed
  have granted := replied.result (tpm.framed _ _)
  rw [← slice_outputSource answered (by omega), ← Source.result, result] at granted
  have world := congrArg Machine.world (post.2 result).1.rest
  dsimp only at world
  refine ⟨fits, trailer, granted.symm, ?_⟩
  rw [world, replied.idle]

/-- A write that succeeds has stored its bytes. -/
theorem tpmNvWriteValueAuth_stores (reliable : tpm.Reliable) (nv : tpm.NvArea index stored)
    (linked : Linked tpm area core used contents store m) {dataIn : UInt32}
    {nvAuth : Block 20} (noWrap : 22 + size.toNat < 2 ^ 32)
    (run : tpmNvWriteValueAuth device dataIn size index 0 nvAuth .zero m =
      .ok (.ok ()) reached) :
    67 + size.toNat ≤ 1024 ∧
      (stored (tpm.view reached.world).core).take size.toNat =
        read m.mem dataIn.toNat size.toNat := by
  obtain ⟨fits, trailer, granted, idle⟩ :=
    tpmNvWriteValueAuth_written reliable linked noWrap run
  have data : (read m.mem dataIn.toNat size.toNat).length = size.toNat := length_read ..
  obtain ⟨-, written⟩ := nv.write core 0 _ trailer (by omega) granted
  refine ⟨fits, ?_⟩
  rw [idle]
  dsimp only [FifoView.idle]
  rw [written]
  exact take_overwriteBytes data

/-- The response to a read is parsed without a change of the sessions. -/
theorem nvReadResponse_sessions (ownerAuth : Block 20) :
    Respects True False (fun _ => True)
      (nvReadResponse ownerAuth none 0 : Boot σ (Result HeapData)) := by
  refine sha1InitLocal_respects.bind fun _ => (unmarshalHeader_respects _).bind fun header => ?_
  refine Respects.ite (Respects.ret _) ((unmarshalHeapData_respects _).bind fun value => ?_)
  rw [if_pos rfl]
  refine unpackFinish_respects.bind fun _ => Respects.ite (Respects.ret _) ?_
  exact Respects.ite (Respects.ret _) (Respects.ret _)

theorem nvReadResponse_positive (ownerAuth : Block 20) :
    Prog.Runs True (fun _ : Machine σ => True) (nvReadResponse ownerAuth none 0)
      (fun ret _ => ret.exception = .none → 0 < ret.value.dataSize) := by
  have any {α : Type} {program : Boot σ α} :
      Prog.Runs True (fun _ => True) program (fun _ _ => True) := Prog.Runs.any
  have data : Prog.Runs True (fun _ : Machine σ => True) (unmarshalHeapData ordNvReadValue)
      (fun value _ => 0 < value.dataSize ∧ True) := by
    refine any.bind fun _ => any.bind fun dataSize => ?_
    refine (unmarshalPtr_positive dataSize .plain).bind fun data => ?_
    refine Prog.Runs.assume fun positive => any.bind fun _ => ?_
    exact Prog.Runs.ret fun _ _ => ⟨positive, trivial⟩
  refine any.bind fun _ => any.bind fun header => ?_
  refine Prog.Runs.ite (fun _ => Prog.Runs.ret fun _ _ none => ?_) fun _ => ?_
  · simp [tpmError] at none
  refine data.bind fun value => Prog.Runs.assume fun positive => ?_
  rw [if_pos rfl]
  refine any.bind fun _ => Prog.Runs.ite (fun _ => Prog.Runs.ret fun _ _ _ => positive)
    fun _ => ?_
  exact Prog.Runs.ite (fun _ => Prog.Runs.ret fun _ _ _ => positive)
    fun _ => Prog.Runs.ret fun _ _ _ => positive

/-- Reading an NV area: the response is left to be parsed. -/
theorem tpmNvReadValue_replied (reliable : tpm.Reliable)
    (linked : Linked tpm area core used contents store m) (index offset size : UInt32) :
    ∃ answered,
      Replied tpm area (tpm.exec core (nvReadOf index offset size).encode).2 used contents
        store m.mem (tpm.exec core (nvReadOf index offset size).encode).1 answered ∧
      tpmNvReadValue device index offset size none none m =
        TpmCall.logged ordNvReadValue (nvReadResponse default none 0) answered := by
  let call : TpmCall HeapData := .nvReadValue index offset size none none
  have submits : Submits device { m with log := m.log ++ call.announced }
      (call.requestPart device m) (nvReadOf index offset size) [] := by
    refine Prog.Leads.bind_read () (fun _ _ => ?_) TpmCall.nvReadRequest_plain_submits
    rw [assert, if_pos (.inr ⟨rfl, rfl⟩), Prog.pure_apply]
  exact TpmCall.run_replied reliable linked submits (by
    simp [nvReadOf, plainRequestOf, nvReadParams, TpmWire.Request.size])

/-- The fields of a response with the bytes of an NV area. -/
theorem nvDataOf_fields {data : List UInt8} (short : 14 + data.length ≤ 1024) :
    (nvDataOf data).WellFormed ∧ (nvDataOf data).size = 14 + data.length := by
  have size : (nvDataOf data).size = 14 + data.length := by
    simp [nvDataOf, TpmWire.Response.size]
    omega
  exact ⟨⟨rfl, by omega⟩, size⟩

theorem Source.Carries.nvData {source : Source} {data : List UInt8}
    (carries : source.Carries (nvDataOf data)) (short : 14 + data.length ≤ 1024)
    (length : source.bytes.length = 1024) :
    source.slice 10 4 = be32 (UInt32.ofNat data.length) ∧
      source.slice 14 data.length = data := by
  obtain ⟨wellFormed, size⟩ := nvDataOf_fields short
  have params := carries.params_eq wellFormed (by omega)
  have count : (nvDataOf data).params.length = 4 + data.length := by
    simp [nvDataOf]
  rw [count, Source.slice_add] at params
  exact List.append_inj params (by
    rw [source.length_slice (by omega), length_be32])

/-- The bytes that a read finds go into a new block. -/
theorem tpmNvReadValue_reads (reliable : tpm.Reliable) (nv : tpm.NvArea index stored)
    (linked : Linked tpm area core used contents store m) (positive : 0 < size)
    (inside : size.toNat ≤ (stored core).length) (short : 14 + size.toNat ≤ 1024)
    (room : used + size.toNat / 8 + 2 ≤ area.units) :
    ∃ ptr fetched, tpmNvReadValue device index 0 size none none m =
        .ok (.ok ⟨size, ptr⟩) fetched ∧ contents ptr = none ∧
      Linked tpm area (tpm.exec core (nvReadOf index 0 size).encode).2
        (used + size.toNat / 8 + 2)
        (Function.update contents ptr (some ((stored core).take size.toNat))) store fetched := by
  obtain ⟨answered, replied, run⟩ := tpmNvReadValue_replied reliable linked index 0 size
  have answer := nv.read core 0 size (by simpa using inside) short
  have zero : (0 : UInt32).toNat = 0 := rfl
  rw [zero, List.drop_zero] at answer
  have count : ((stored core).take size.toNat).length = size.toNat := by
    rw [List.length_take]
    omega
  have sizeField : UInt32.ofNat ((stored core).take size.toNat).length = size := by
    rw [count, UInt32.ofNat_toNat]
  obtain ⟨wellFormed, total⟩ := @nvDataOf_fields ((stored core).take size.toNat) (by omega)
  have length := length_outputSource answered
  have received := replied
  rw [answer] at received
  have carries := received.carries (by omega)
  have result := carries.result_eq wellFormed (by omega)
  obtain ⟨sizeBytes, dataBytes⟩ := carries.nvData (by omega) length
  rw [count] at dataBytes
  have sized : ofBe32 ((outputSource answered).slice 10 4) = size := by
    rw [sizeBytes, ofBe32_be32, sizeField]
  have success : (outputSource answered).result = 0 := result
  obtain ⟨ret, parsed, response, post⟩ := (@nvReadResponse_plain_runs σ area answered
    (outputSource answered) ⟨used, contents, answered.sessionAt, 0⟩ False default none rfl length
    (fun _ _ => by
      rw [sized]
      exact ⟨positive, by omega, room⟩)).returns answered
        (AuthorisedCommand.receiving_start replied.heap replied.tracks)
  obtain ⟨dataSize, fresh, unpacking, accepted⟩ := post.2 success
  rw [sized] at dataSize
  have none : ret.exception = .none := by
    refine accepted.mpr ⟨carries.tag_eq, ?_⟩
    rw [carries.paramSize_eq, total, count, dataSize]
  have value : ret = .ok ⟨size, ret.value.data⟩ := by
    rw [← dataSize]
    exact Result.eq_ok none
  have kept := (nvReadResponse_sessions default answered).sessions trivial
  rw [response] at kept
  have slots : parsed.sessions = answered.sessions := kept.2
  rw [value] at response
  have linkedNext := replied.unpacked unpacking.toReceiving
    (parsed.log ++ [.finished ordNvReadValue .none])
  have same : { store with
      objects := answered.sessionAt
      slots := parsed.sessions } = store := by
    rw [← replied.store_eq, Machine.store, slots]
  simp only [Progress.advance, Progress.store, dataSize, dataBytes] at linkedNext
  rw [same] at linkedNext
  exact ⟨ret.value.data, _, run.trans (Prog.bind_ok response _), fresh, linkedNext⟩

/-- A read beyond the end of the area is an error. -/
theorem tpmNvReadValue_beyond (reliable : tpm.Reliable) (nv : tpm.NvArea index stored)
    (linked : Linked tpm area core used contents store m)
    (beyond : (stored core).length < size.toNat) :
    ∃ error fetched, error ≠ .none ∧ tpmNvReadValue device index 0 size none none m =
      .ok (.error error ⟨0, 0⟩) fetched := by
  obtain ⟨answered, replied, run⟩ := tpmNvReadValue_replied reliable linked index 0 size
  have refused := nv.beyond core 0 size (by simpa using beyond)
  have result := replied.result (tpm.framed _ _)
  rw [← slice_outputSource answered (by omega), ← Source.result] at result
  rw [← result] at refused
  obtain ⟨ret, parsed, response, post⟩ := (@nvReadResponse_plain_runs σ area answered
    (outputSource answered) ⟨used, contents, answered.sessionAt, 0⟩ False default none rfl
    (length_outputSource answered) (fun _ success => (refused success).elim)).returns answered
      (AuthorisedCommand.receiving_start replied.heap replied.tracks)
  rw [post.1 refused] at response
  exact ⟨_, _, by simp [tpmError], run.trans (Prog.bind_ok response _)⟩

end Areas

section RoundTrip

variable {σ κ : Type} {device : TisDevice σ} {mmap : UInt32} {tpm : FifoTpm device mmap κ}
  {area : HeapArea} {core : κ} {used : Nat} {contents : UInt32 → Option (List UInt8)}
  {store : Store} {m sealed writer written reader : Machine σ} {blob : TpmStoredData12}
  {index size : UInt32} {stored : κ → List UInt8}

/-- A tracked block as a buffer to unpack. -/
theorem Linked.bufferAt (linked : Linked tpm area core used contents store m) {ptr : UInt32}
    {bytes : List UInt8} (tracked : contents ptr = some bytes) :
    ∃ blocks, BufferAt area blocks ptr bytes m ∧ endUnit 0 blocks = used := by
  have bounds := linked.tracks.bounds tracked
  have content := linked.tracks.read_eq tracked
  obtain ⟨blocks, layout, rfl, known⟩ := linked.tracks
  obtain ⟨⟨block, -, -, length⟩, -⟩ := known ptr bytes tracked
  refine ⟨blocks, ⟨linked.heap, layout, content, .inl bounds.2, ?_⟩, rfl⟩
  rw [← length]
  exact block.size.toNat_lt

theorem take_drop_take {α : Type} (bytes : List α) {count start len : Nat}
    (inside : start + len ≤ count) :
    ((bytes.take count).drop start).take len = (bytes.drop start).take len := by
  rw [List.drop_take, List.take_take, Nat.min_eq_left (by omega)]

/-- Less than the whole of a serialised blob is no blob. -/
theorem not_decodable_take (count : Nat)
    (cut : count < 12 + blob.sealInfoSize.toNat + blob.encDataSize.toNat) :
    ¬ Decodable area used ((storedData12Bytes m blob).take count) := by
  intro decodable
  have inside := decodable.inside
  have length := length_storedData12Bytes m blob
  rw [List.length_take] at inside
  have whole : storedData12Bytes m blob = storedData12Bytes m blob ++ [] :=
    (List.append_nil _).symm
  have sealSize : sealSizeOf ((storedData12Bytes m blob).take count) = blob.sealInfoSize := by
    rw [sealSizeOf, take_drop_take _ (by omega), ← sealSizeOf, whole, sealSizeOf_packed]
  rw [sealSize] at inside
  have encSize : encSizeOf ((storedData12Bytes m blob).take count) = blob.encDataSize := by
    have packed := @encSizeOf_packed σ m blob []
    rw [encSizeOf, sealSizeOf_packed, ← whole] at packed
    rw [encSizeOf, sealSize, take_drop_take _ (by omega), packed]
  rw [encSize] at inside
  omega

/-- What a write of the blob leaves in the NV area. -/
theorem writePassphrase_stores {nvAuth : Block 20} (reliable : tpm.Reliable)
    (nv : tpm.NvArea index stored) (linked : Linked tpm area core used contents store writer)
    (blobStored : BlobStored area used contents blob writer.mem)
    (noWrap : 22 + size.toNat < 2 ^ 32)
    (run : writePassphrase device nvAuth blob index size writer = .ok (.ok ()) written) :
    67 + size.toNat ≤ 1024 ∧ ∃ trailing,
      (stored (tpm.view written.world).core).take size.toNat =
        (storedData12Bytes writer blob ++ trailing).take size.toNat ∧
      size.toNat ≤ (storedData12Bytes writer blob ++ trailing).length := by
  rw [writePassphrase_eq] at run
  obtain ⟨x, prepared, prepares, run⟩ := Prog.bind_eq_ok.mp run
  split at run
  · rename_i failed
    injection run with same
    exact absurd (congrArg Result.exception same) failed
  rename_i success
  obtain ⟨exception, value⟩ := x
  cases Decidable.of_not_not success
  obtain ⟨next, more, blocks, after, preparedLinked, content⟩ :=
    prepareWrite_linked reliable linked blobStored prepares
  obtain ⟨fits, bytes⟩ := tpmNvWriteValueAuth_stores reliable nv preparedLinked noWrap run
  have held := preparedLinked.tracks.read_eq content
  let trailing := read prepared.mem
    (value.1.toNat + (storedData12Bytes writer blob).length) size.toNat
  have split : read prepared.mem value.1.toNat
      ((storedData12Bytes writer blob).length + size.toNat) =
        storedData12Bytes writer blob ++ trailing := by
    rw [read_add, held]
  refine ⟨fits, trailing, ?_, ?_⟩
  · rw [bytes, ← split, take_read _ _ _ _ (by omega)]
  · simp [trailing]

/-- Reading back an NV area that begins with the whole blob. -/
theorem readPassphrase_whole (reliable : tpm.Reliable) (nv : tpm.NvArea index stored)
    (linked : Linked tpm area core used contents store reader) (short : 67 + size.toNat ≤ 1024)
    (inside : size.toNat ≤ (stored core).length) {trailing : List UInt8}
    (bytes : (stored core).take size.toNat =
      (storedData12Bytes writer blob ++ trailing).take size.toNat)
    (sealPositive : 0 < blob.sealInfoSize) (encPositive : 0 < blob.encDataSize)
    (whole : 12 + blob.sealInfoSize.toNat + blob.encDataSize.toNat ≤ size.toNat)
    (room : used + 256 ≤ area.units) :
    ∃ copy reached, readPassphrase device index size reader = .ok (.ok copy) reached ∧
      SameBlob writer blob reached copy := by
  have length := length_storedData12Bytes writer blob
  have positive : 0 < size := by
    rw [UInt32.lt_iff_toNat_lt]
    have zero : (0 : UInt32).toNat = 0 := rfl
    omega
  obtain ⟨ptr, fetched, fetches, -, fetchedLinked⟩ := tpmNvReadValue_reads reliable nv linked
    positive inside (by omega) (by omega)
  have count : ((stored core).take size.toNat).length = size.toNat := by
    rw [List.length_take]
    omega
  obtain ⟨blocks, buffer, units⟩ := fetchedLinked.bufferAt (Function.update_self ..)
  rw [bytes, List.take_append, List.take_of_length_le (by omega)] at buffer count
  obtain ⟨copy, reached, unpacks, same⟩ := unpackStoredData12_packed buffer
    sealPositive encPositive (by omega)
  rw [count, UInt32.ofNat_toNat] at unpacks
  refine ⟨copy, reached, ?_, same⟩
  rw [readPassphrase, Prog.bind_ok fetches, if_neg (by simp)]
  exact Prog.bind_ok unpacks _

/-- A successful read has at least one byte. -/
theorem tpmNvReadValue_empty (reliable : tpm.Reliable) (nv : tpm.NvArea index stored)
    (linked : Linked tpm area core used contents store reader) {value : HeapData}
    {fetched : Machine σ} : tpmNvReadValue device index 0 0 none none reader ≠
      .ok (.ok value) fetched := by
  intro fetches
  obtain ⟨answered, replied, run⟩ := tpmNvReadValue_replied reliable linked index 0 0
  have answer := nv.read core 0 0 (by simp) (by simp)
  simp only [UInt32.toNat_zero, List.take_zero] at answer
  rw [answer] at replied
  obtain ⟨wellFormed, total⟩ := @nvDataOf_fields [] (by simp)
  have length := length_outputSource answered
  have carries := replied.carries (by rw [total]; simp)
  obtain ⟨sizeBytes, -⟩ := carries.nvData (by simp) length
  have success : (outputSource answered).result = 0 :=
    carries.result_eq wellFormed (by rw [total, length]; simp)
  rw [fetches] at run
  obtain ⟨ret, parsed, response, finish⟩ := Prog.bind_eq_ok.mp run.symm
  obtain ⟨_, _, emitted, finished⟩ := Prog.bind_eq_ok.mp finish
  cases emitted
  cases finished
  have post := (@nvReadResponse_plain_runs σ area answered (outputSource answered)
    ⟨used, contents, answered.sessionAt, 0⟩ True default none rfl length
    fun free => (free trivial).elim).of_ok
      (AuthorisedCommand.receiving_start replied.heap replied.tracks) response
  have positive := (nvReadResponse_positive default).of_ok trivial response rfl
  rw [(post.2 success).1, sizeBytes] at positive
  exact absurd positive (by decide)

/-- Reading back an NV area that begins with a part of the blob. -/
theorem readPassphrase_cut (reliable : tpm.Reliable) (nv : tpm.NvArea index stored)
    (linked : Linked tpm area core used contents store reader) (short : 67 + size.toNat ≤ 1024)
    (inside : size.toNat ≤ (stored core).length) {trailing : List UInt8}
    (bytes : (stored core).take size.toNat =
      (storedData12Bytes writer blob ++ trailing).take size.toNat)
    (cut : size.toNat < 12 + blob.sealInfoSize.toNat + blob.encDataSize.toNat)
    (room : used + 256 ≤ area.units) {copy : TpmStoredData12} {reached : Machine σ} :
    readPassphrase device index size reader ≠ .ok (.ok copy) reached := by
  intro run
  have length := length_storedData12Bytes writer blob
  rw [readPassphrase] at run
  obtain ⟨val, state, fetches, run⟩ := Prog.bind_eq_ok.mp run
  split at run
  · rename_i failed
    injection run with same
    exact absurd (congrArg Result.exception same) failed
  rename_i success
  by_cases empty : size = 0
  · subst empty
    rw [Result.eq_ok (Decidable.of_not_not success)] at fetches
    exact tpmNvReadValue_empty reliable nv linked fetches
  have positive : 0 < size := UInt32.pos_iff_ne_zero.mpr empty
  obtain ⟨ptr, fetched, reads, -, fetchedLinked⟩ := tpmNvReadValue_reads reliable nv linked
    positive inside (by omega) (by omega)
  rw [fetches] at reads
  cases reads
  have count : ((stored core).take size.toNat).length = size.toNat := by
    rw [List.length_take]
    omega
  obtain ⟨blocks, buffer, -⟩ := fetchedLinked.bufferAt (Function.update_self ..)
  rw [bytes, List.take_append_of_le_length (by omega)] at buffer count
  obtain ⟨stopped, stops⟩ := unpackStoredData12_stops buffer (not_decodable_take _ cut)
  rw [count, UInt32.ofNat_toNat] at stops
  dsimp only [Result.value_ok] at run
  rw [Prog.bind_halt stops] at run
  cases run

/-- Once a blob from `TPM_Seal` has been written, it is read back exactly if the size on the
command line is not smaller than the serialised blob, and the overflow check for the data of
the write does not wrap around. -/
theorem readPassphrase_writePassphrase_iff {space : HeapArea} {next : κ} {more held : Nat}
    {blocks kept : UInt32 → Option (List UInt8)} {objects : Store} {keyHandleIn : UInt32}
    {encAuthIn sharedSecret nvAuth : Block 20} {pcrInfoIn : TpmPcrInfoLong}
    {inDataIn inDataSizeIn : UInt32} {session : SessionSlot} (reliable : tpm.Reliable)
    (nv : tpm.NvArea index stored) (heap : m.heap = area.heap)
    (tracks : Tracks area used contents m.mem)
    (seals : tpmSeal device keyHandleIn encAuthIn pcrInfoIn inDataIn inDataSizeIn session
      sharedSecret m = .ok (.ok blob) sealed)
    (linked : Linked tpm area core more blocks store writer)
    (sealInfo : blocks blob.sealInfo =
      some (read sealed.mem blob.sealInfo.toNat blob.sealInfoSize.toNat))
    (encData : blocks blob.encData =
      some (read sealed.mem blob.encData.toNat blob.encDataSize.toNat))
    (writes : writePassphrase device nvAuth blob index size writer = .ok (.ok ()) written)
    (later : Linked tpm space next held kept objects reader)
    (unchanged : stored next = stored (tpm.view written.world).core)
    (room : held + 256 ≤ space.units) :
    (∃ copy reached, readPassphrase device index size reader = .ok (.ok copy) reached ∧
      SameBlob sealed blob reached copy) ↔
    12 + blob.sealInfoSize.toNat + blob.encDataSize.toNat ≤ size.toNat ∧
      22 + size.toNat < 2 ^ 32 := by
  obtain ⟨-, _, _, found⟩ := tpmSeal_stored heap tracks seals
  by_cases noWrap : 22 + size.toNat < 2 ^ 32
  swap
  · refine iff_of_false ?_ fun good => noWrap good.2
    rintro ⟨copy, reached, run, -⟩
    have bounded := nv.bounded next
    obtain ⟨error, fetched, failed, fetches⟩ := tpmNvReadValue_beyond reliable nv later
      (by omega : (stored next).length < size.toNat)
    rw [readPassphrase, Prog.bind_ok fetches] at run
    have refused : (if error ≠ .none then pure (.error error emptyStoredData12) else _ :
        Boot σ (Result TpmStoredData12)) fetched = .ok (.ok copy) reached := run
    rw [if_pos failed] at refused
    injection refused with same
    exact failed (congrArg Result.exception same)
  have blobStored : BlobStored area more blocks blob writer.mem :=
    ⟨linked.tracks, ⟨_, sealInfo, length_read ..⟩, ⟨_, encData, length_read ..⟩,
      found.sealPositive, found.encPositive, found.small⟩
  obtain ⟨fits, trailing, bytes, long⟩ :=
    writePassphrase_stores reliable nv linked blobStored noWrap writes
  have info := linked.tracks.read_eq sealInfo
  have enc := linked.tracks.read_eq encData
  rw [length_read] at info enc
  rw [storedData12Bytes_congr info enc, ← unchanged] at bytes
  rw [storedData12Bytes_congr info enc] at long
  have inside : size.toNat ≤ (stored next).length := by
    have count := congrArg List.length bytes
    rw [List.length_take, List.length_take] at count
    omega
  rw [and_iff_left noWrap]
  constructor
  · rintro ⟨copy, reached, run, -⟩
    by_contra cut
    exact readPassphrase_cut reliable nv later fits inside bytes (by omega) room run
  · intro whole
    exact readPassphrase_whole reliable nv later fits inside bytes found.sealPositive
      found.encPositive whole room

end RoundTrip

section Example

/-- The response of a TPM that seals some data to eight bytes. -/
def sealedResponse : TpmWire.Response :=
  .granted tagRspAuth1Command ordSeal (blobFields 0x16 0 [1, 2, 3] [4, 5, 6, 7, 8])
    [⟨Block.zero 20, Block.zero 20, Block.zero 20, 0⟩]

/-- A TPM that grants every command and has one area of 64 bytes, for which no password is
needed.  Its sessions have nonces of zeros. -/
def nvAnswer (area : Block 64) (request : TpmWire.Request) : TpmWire.Response × Block 64 :=
  let offset := (ofBe32 ((request.params.drop 4).take 4)).toNat
  let size := (ofBe32 ((request.params.drop 8).take 4)).toNat
  if request.ordinal = ordSeal then
    (sealedResponse, area)
  else if request.ordinal = ordOIAP then (oiapAnswer 1 (Block.zero 20), area)
  else if request.ordinal = ordGetRandom then (nonceAnswer (Block.zero 20), area)
  else if offset + size ≤ 64 then
    if request.ordinal = ordNvWriteValueAuth then
      (AuthorisedCommand.writtenResponse,
        Block.ofList 64 (overwriteBytes area.bytes offset
          ((request.params.drop 12).take size)))
    else (nvDataOf ((area.bytes.drop offset).take size), area)
  else (⟨tagRspCommand, 0x11, [], []⟩, area)

def nvExec (area : Block 64) (frame : List UInt8) : List UInt8 × Block 64 :=
  match TpmWire.Request.decode frame with
  | some request => ((nvAnswer area request).1.encode, (nvAnswer area request).2)
  | none => ((⟨tagRspCommand, 0x19, [], []⟩ : TpmWire.Response).encode, area)

theorem nvAnswer_small (area : Block 64) (request : TpmWire.Request) :
    (nvAnswer area request).1.size ≤ 1024 := by
  unfold nvAnswer
  dsimp only
  split
  · exact (by decide : sealedResponse.size ≤ 1024)
  split
  · exact (by decide : (oiapAnswer 1 (Block.zero 20)).size ≤ 1024)
  split
  · exact (by decide : (nonceAnswer (Block.zero 20)).size ≤ 1024)
  split
  · split
    · exact (by decide : AuthorisedCommand.writtenResponse.size ≤ 1024)
    · rw [nvDataOf, TpmWire.Response.size]
      have length := area.length_eq
      simp only [List.length_append, length_be32, List.length_take, List.length_drop, length,
        List.length_nil]
      omega
  · exact (by decide : (⟨tagRspCommand, 0x11, [], []⟩ : TpmWire.Response).size ≤ 1024)

theorem nvExec_framed (area : Block 64) (frame : List UInt8) : Framed (nvExec area frame).1 := by
  unfold nvExec
  split
  · exact framed_response (nvAnswer_small area _)
  · exact framed_response (by decide)

theorem nvExec_encode {request : TpmWire.Request} (wellFormed : request.WellFormed)
    (area : Block 64) : nvExec area request.encode =
      ((nvAnswer area request).1.encode, (nvAnswer area request).2) := by
  simp only [nvExec, TpmWire.Request.decode_encode wellFormed]

def nvTpm : FifoTpm (steadyDevice nvExec) 0 (Block 64) :=
  steadyTpm nvExec 0 nvExec_framed

theorem nvTpm_reliable : nvTpm.Reliable :=
  steadyTpm_reliable nvExec 0 nvExec_framed

/-- The answer to a write. -/
theorem nvAnswer_nvWrite (area : Block 64) (index offset : UInt32) {data : List UInt8}
    (trailer : TpmWire.RequestTrailer) (short : data.length ≤ 1024) :
    nvAnswer area (nvWriteOf index offset data trailer) =
      if offset.toNat + data.length ≤ 64 then
        (AuthorisedCommand.writtenResponse,
          Block.ofList 64 (overwriteBytes area.bytes offset.toNat data))
      else (⟨tagRspCommand, 0x11, [], []⟩, area) := by
  have skip (value : UInt32) (rest : List UInt8) : (be32 value ++ rest).drop 4 = rest :=
    List.drop_left' (length_be32 _)
  have params : (nvWriteOf index offset data trailer).params =
      be32 index ++ (be32 offset ++ (be32 (UInt32.ofNat data.length) ++ data)) := by
    simp [nvWriteOf]
  have count : (UInt32.ofNat data.length).toNat = data.length := toNat_ofNat_small (by omega)
  have word : ofBe32 (((nvWriteOf index offset data trailer).params.drop 4).take 4) =
      offset := by
    rw [params, skip, List.take_left' (length_be32 _), ofBe32_be32]
  have size : (ofBe32 (((nvWriteOf index offset data trailer).params.drop 8).take 4)).toNat =
      data.length := by
    rw [params, ← List.drop_drop (i := 4) (j := 4), skip, skip,
      List.take_left' (length_be32 _), ofBe32_be32, count]
  have bytes : ((nvWriteOf index offset data trailer).params.drop 12).take data.length =
      data := by
    rw [params, ← List.drop_drop (i := 8) (j := 4), skip, ← List.drop_drop (i := 4) (j := 4),
      skip, skip, List.take_length]
  have ordinal : (nvWriteOf index offset data trailer).ordinal = ordNvWriteValueAuth := rfl
  rw [nvAnswer]
  rw [word, size, bytes, ordinal, if_neg (by decide), if_neg (by decide), if_neg (by decide),
    if_pos rfl]

/-- The answer to a read. -/
theorem nvAnswer_nvRead (area : Block 64) (index offset size : UInt32) :
    nvAnswer area (nvReadOf index offset size) =
      if offset.toNat + size.toNat ≤ 64 then
        (nvDataOf ((area.bytes.drop offset.toNat).take size.toNat), area)
      else (⟨tagRspCommand, 0x11, [], []⟩, area) := by
  have skip (value : UInt32) (rest : List UInt8) : (be32 value ++ rest).drop 4 = rest :=
    List.drop_left' (length_be32 _)
  have params : (nvReadOf index offset size).params =
      be32 index ++ (be32 offset ++ be32 size) := by
    simp [nvReadOf, plainRequestOf, nvReadParams]
  have word : ofBe32 (((nvReadOf index offset size).params.drop 4).take 4) = offset := by
    rw [params, skip, List.take_left' (length_be32 _), ofBe32_be32]
  have count : ofBe32 (((nvReadOf index offset size).params.drop 8).take 4) = size := by
    rw [params, ← List.drop_drop (i := 4) (j := 4), skip, skip,
      List.take_of_length_le (length_be32 _).le, ofBe32_be32]
  have ordinal : (nvReadOf index offset size).ordinal = ordNvReadValue := rfl
  rw [nvAnswer]
  rw [word, count, ordinal, if_neg (by decide), if_neg (by decide), if_neg (by decide),
    if_neg (by decide : ordNvReadValue ≠ ordNvWriteValueAuth)]

theorem nvWriteOf_wellFormed {index offset : UInt32} {data : List UInt8}
    {trailer : TpmWire.RequestTrailer} (short : 67 + data.length ≤ 1024) :
    (nvWriteOf index offset data trailer).WellFormed :=
  ⟨rfl, rfl, by rw [size_nvWriteOf]; omega⟩

theorem nvReadOf_wellFormed (index offset size : UInt32) :
    (nvReadOf index offset size).WellFormed :=
  ⟨rfl, rfl, by
    simp [nvReadOf, plainRequestOf, nvReadParams, TpmWire.Request.size]⟩

theorem nvTpm_area (index : UInt32) : nvTpm.NvArea index Block.bytes := by
  refine ⟨?_, ?_, ?_, ?_⟩
  · intro core offset data trailer short granted
    have answer : nvTpm.exec core (nvWriteOf index offset data trailer).encode = _ :=
      nvExec_encode (nvWriteOf_wellFormed short) core
    rw [answer, nvAnswer_nvWrite core index offset trailer (by omega)] at granted
    rw [answer, nvAnswer_nvWrite core index offset trailer (by omega)]
    by_cases fits : offset.toNat + data.length ≤ 64
    swap
    · rw [if_neg fits, resultOf_encode] at granted
      exact absurd granted (by decide : (0x11 : UInt32) ≠ 0)
    have length := core.length_eq
    rw [if_pos fits, length]
    refine ⟨fits, Block.bytes_ofList ?_⟩
    simp only [overwriteBytes, List.length_append, List.length_take, List.length_drop, length]
    omega
  · intro core offset size inside _
    have answer : nvTpm.exec core (nvReadOf index offset size).encode = _ :=
      nvExec_encode (nvReadOf_wellFormed index offset size) core
    rw [core.length_eq] at inside
    rw [answer, nvAnswer_nvRead, if_pos inside]
  · intro core offset size beyond
    have answer : nvTpm.exec core (nvReadOf index offset size).encode = _ :=
      nvExec_encode (nvReadOf_wellFormed index offset size) core
    rw [core.length_eq] at beyond
    rw [answer, nvAnswer_nvRead, if_neg (by omega), resultOf_encode]
    exact (by decide : (0x11 : UInt32) ≠ 0)
  · intro core
    rw [core.length_eq]
    decide

/-- A machine with 512 units of heap, all of them free, and a session. -/
def startedMachine (core : Block 64) : Machine (FifoView (Block 64)) :=
  { Machine.blank (FifoView.idle core) with
    mem := MemNode.store (fun _ => 0) 8 ⟨511, 0⟩
    sessions := fun _ => 0x2000 }

def startedArea : HeapArea :=
  ⟨8, 4096, by decide, by decide⟩

theorem startedMachine_linked (core : Block 64) :
    Linked nvTpm startedArea core 0 (fun _ => none) (startedMachine core).store
      (startedMachine core) := by
  have fresh : initHeap 8 4096 (fun _ => 0) = .ok () (startedMachine core).mem := by
    have size : (4096 : UInt32) >>> 3 - 1 = 511 := by decide
    rw [initHeap, if_neg (by decide), if_neg (by decide), Prog.modify_apply, size]
    rfl
  have nonempty : 0 < startedArea.units := by decide
  exact ⟨rfl, rfl, rfl, Tracks.init nonempty fresh, rfl⟩

theorem nvTpm_seals {request : TpmWire.Request} (wellFormed : request.WellFormed)
    (ordinal : request.ordinal = ordSeal) (core : Block 64) :
    nvTpm.exec core request.encode = (sealedResponse.encode, core) := by
  have exec : nvTpm.exec = nvExec := rfl
  rw [exec, nvExec_encode wellFormed, nvAnswer, if_pos ordinal]

/-- The arguments of `TPM_Seal`. -/
def sealedPcrs : TpmPcrInfoLong :=
  ⟨tagPcrInfoLong, locTwo, locTwo, ⟨3, 0x2100⟩, ⟨3, 0x2100⟩, Block.zero 20, Block.zero 20⟩

def sealFour : AuthorisedCommand TpmStoredData12 :=
  .sealData khSRK (Block.zero 20) sealedPcrs 0x3000 4 .zero (Block.zero 20)

theorem sealFour_granted :
    ∃ blob sealed after,
      tpmSeal (steadyDevice nvExec) khSRK (Block.zero 20) sealedPcrs 0x3000 4 .zero
        (Block.zero 20) (startedMachine (Block.zero 64)) = .ok (.ok blob) sealed ∧
      blob.sealInfoSize.toNat = 3 ∧ blob.encDataSize.toNat = 5 ∧ blob.encData ≠ blob.sealInfo ∧
      Linked nvTpm startedArea (Block.zero 64) 4
        (Function.update (Function.update (fun _ => none) blob.sealInfo (some [1, 2, 3]))
          blob.encData (some [4, 5, 6, 7, 8])) after sealed := by
  have size : (sealFour.request (startedMachine (Block.zero 64))).size = 145 := by
    rw [AuthorisedCommand.size_request]
    decide
  have answer := @nvTpm_seals (sealFour.request (startedMachine (Block.zero 64)))
    ⟨rfl, rfl, by rw [size]; decide⟩ rfl (Block.zero 64)
  have odd : ((startedMachine (Block.zero 64)).sessionAt
      ((startedMachine (Block.zero 64)).sessions .zero)).nonceOdd = Block.zero 20 := rfl
  have nonNull : ∀ ptr ∈ sealFour.pointers (startedMachine (Block.zero 64)), ptr ≠ 0 := by
    simp [sealFour, sealedPcrs, startedMachine, AuthorisedCommand.pointers]
  have granted := @tpmSeal_granted _ _ _ _ nvTpm startedArea (Block.zero 64) 0 (fun _ => none)
    _ _ nvTpm_reliable (startedMachine_linked (Block.zero 64)) khSRK (Block.zero 20)
    (Block.zero 20) (Block.zero 20) sealedPcrs 0x3000 4 .zero 0x16 0 [1, 2, 3] [4, 5, 6, 7, 8]
    (by decide) nonNull (by decide) (by decide) (by decide) (by decide)
  rw [odd] at granted
  obtain ⟨blob, sealed, after, run, info, enc, different, linkedNext⟩ :=
    granted (congrArg Prod.fst answer)
  have kept := congrArg Prod.snd answer
  rw [sealFour] at kept
  rw [kept] at linkedNext
  exact ⟨blob, sealed, after, run, info, enc, different, linkedNext⟩

theorem nvTpm_opens (core : Block 64) : nvTpm.exec core oiapRequest.encode =
    ((oiapAnswer 1 (Block.zero 20)).encode, core) := by
  have exec : nvTpm.exec = nvExec := rfl
  have ordinal : oiapRequest.ordinal = ordOIAP := rfl
  rw [exec, nvExec_encode ⟨rfl, rfl, by decide⟩, nvAnswer, if_neg (by decide), if_pos ordinal]

theorem nvTpm_draws (core : Block 64) : nvTpm.exec core nonceRequest.encode =
    ((nonceAnswer (Block.zero 20)).encode, core) := by
  have exec : nvTpm.exec = nvExec := rfl
  have ordinal : nonceRequest.ordinal = ordGetRandom := rfl
  rw [exec, nvExec_encode ⟨rfl, rfl, by decide⟩, nvAnswer, if_neg (by decide),
    if_neg (by decide), if_pos ordinal]

/-- A write of as many bytes as the area has. -/
theorem nvTpm_writes {area : HeapArea} {core : Block 64} {used : Nat}
    {contents : UInt32 → Option (List UInt8)} {store : Store}
    {writer : Machine (FifoView (Block 64))} {blob : TpmStoredData12} (index : UInt32)
    {size : UInt32} (linked : Linked nvTpm area core used contents store writer)
    (stored : BlobStored area used contents blob writer.mem) (inside : size.toNat ≤ 64)
    (room : used + 8 + (sizeofStoredData12 blob).toNat / 8 + 2 ≤ area.units) :
    ∃ written, writePassphrase (steadyDevice nvExec) (Block.zero 20) blob index size writer =
      .ok (.ok ()) written := by
  obtain ⟨ptr, more, blocks, after, prepared, prepares, nonNull, preparedLinked, session, odd⟩ :=
    prepareWrite_granted nvTpm_reliable linked stored (nvTpm_opens core) (nvTpm_draws core) room
  obtain ⟨trailer, request⟩ := authorisedRequest_nvWrite prepared ptr size index 0
    (Block.zero 20) (prepared.sessions .zero)
  have command : (AuthorisedCommand.nvWriteValueAuth ptr size index 0 (Block.zero 20)
      .zero).request prepared = _ := request
  have length := length_read prepared.mem ptr.toNat size.toNat
  have fits : (0 : UInt32).toNat + (read prepared.mem ptr.toNat size.toNat).length ≤ 64 := by
    rw [length, UInt32.toNat_zero]
    omega
  have grants : (nvTpm.exec core ((AuthorisedCommand.nvWriteValueAuth ptr size index 0
      (Block.zero 20) .zero).request prepared).encode).1 =
        AuthorisedCommand.writtenResponse.encode := by
    have exec : nvTpm.exec = nvExec := rfl
    rw [command, exec, nvExec_encode (nvWriteOf_wellFormed (by omega)),
      nvAnswer_nvWrite core index 0 trailer (by omega), if_pos fits]
  obtain ⟨written, writes⟩ := @tpmNvWriteValueAuth_granted _ _ _ _ nvTpm area core more blocks
    after prepared nvTpm_reliable preparedLinked ptr size index 0 (Block.zero 20)
    (Block.zero 20) .zero 0 (by omega) nonNull session (by
      rw [odd]
      exact grants)
  refine ⟨written, ?_⟩
  rw [writePassphrase_eq, Prog.bind_ok prepares, if_neg (by simp)]
  exact writes

/-- A sealed blob of twenty bytes that has been written to the area. -/
theorem nvTpm_sealed_written {size : UInt32} (inside : size.toNat ≤ 64) :
    ∃ blob sealed written after,
      tpmSeal (steadyDevice nvExec) khSRK (Block.zero 20) sealedPcrs 0x3000 4 .zero
        (Block.zero 20) (startedMachine (Block.zero 64)) = .ok (.ok blob) sealed ∧
      writePassphrase (steadyDevice nvExec) (Block.zero 20) blob 1 size sealed =
        .ok (.ok ()) written ∧
      blob.sealInfoSize.toNat = 3 ∧ blob.encDataSize.toNat = 5 ∧
      Linked nvTpm startedArea (Block.zero 64) 4
        (Function.update (Function.update (fun _ => none) blob.sealInfo (some [1, 2, 3]))
          blob.encData (some [4, 5, 6, 7, 8])) after sealed ∧
      BlobStored startedArea 4
        (Function.update (Function.update (fun _ => none) blob.sealInfo (some [1, 2, 3]))
          blob.encData (some [4, 5, 6, 7, 8])) blob sealed.mem := by
  obtain ⟨blob, sealed, after, seals, info, enc, different, linked⟩ := sealFour_granted
  have zero : (0 : UInt32).toNat = 0 := rfl
  have stored : BlobStored startedArea 4
      (Function.update (Function.update (fun _ => none) blob.sealInfo (some [1, 2, 3]))
        blob.encData (some [4, 5, 6, 7, 8])) blob sealed.mem := by
    refine ⟨linked.tracks, ⟨[1, 2, 3], ?_, info.symm⟩,
      ⟨[4, 5, 6, 7, 8], Function.update_self .., enc.symm⟩, ?_, ?_, by omega⟩
    · rw [Function.update_of_ne different.symm, Function.update_self]
    · rw [UInt32.lt_iff_toNat_lt, zero]
      omega
    · rw [UInt32.lt_iff_toNat_lt, zero]
      omega
  have units : startedArea.units = 512 := by decide
  obtain ⟨written, writes⟩ := nvTpm_writes 1 linked stored inside (by
    rw [toNat_sizeofStoredData12 (by omega)]
    omega)
  exact ⟨blob, sealed, written, after, seals, writes, info, enc, linked, stored⟩

/-- All twenty bytes are written and read back after a restart. -/
theorem readPassphrase_writePassphrase_twenty :
    ∃ blob sealed written copy reached,
      writePassphrase (steadyDevice nvExec) (Block.zero 20) blob 1 20 sealed =
        .ok (.ok ()) written ∧
      readPassphrase (steadyDevice nvExec) 1 20 (startedMachine written.world.core) =
        .ok (.ok copy) reached ∧ SameBlob sealed blob reached copy := by
  obtain ⟨blob, sealed, written, after, seals, writes, info, enc, linked, stored⟩ :=
    nvTpm_sealed_written (by decide : (20 : UInt32).toNat ≤ 64)
  have started := startedMachine_linked (Block.zero 64)
  obtain ⟨copy, reached, reads, same⟩ := (readPassphrase_writePassphrase_iff nvTpm_reliable
    (nvTpm_area 1) started.heap started.tracks seals linked
    (linked.tracks.string stored.sealInfo) (linked.tracks.string stored.encData) writes
    (startedMachine_linked written.world.core) rfl (by decide)).mpr ⟨by
      rw [info, enc]
      decide, by decide⟩
  exact ⟨blob, sealed, written, copy, reached, writes, reads, same⟩

/-- Ten of the twenty bytes are written, and nothing can be read back. -/
theorem readPassphrase_writePassphrase_ten :
    ∃ blob sealed written,
      tpmSeal (steadyDevice nvExec) khSRK (Block.zero 20) sealedPcrs 0x3000 4 .zero
        (Block.zero 20) (startedMachine (Block.zero 64)) = .ok (.ok blob) sealed ∧
      writePassphrase (steadyDevice nvExec) (Block.zero 20) blob 1 10 sealed =
        .ok (.ok ()) written ∧
      ¬ ∃ copy reached, readPassphrase (steadyDevice nvExec) 1 10
        (startedMachine written.world.core) = .ok (.ok copy) reached := by
  obtain ⟨blob, sealed, written, after, seals, writes, info, enc, linked, stored⟩ :=
    nvTpm_sealed_written (by decide : (10 : UInt32).toNat ≤ 64)
  refine ⟨blob, sealed, written, seals, writes, ?_⟩
  rintro ⟨copy, reached, reads⟩
  obtain ⟨fits, trailing, bytes, -⟩ := writePassphrase_stores nvTpm_reliable (nvTpm_area 1)
    linked stored (by decide) writes
  exact readPassphrase_cut nvTpm_reliable (nvTpm_area 1)
    (startedMachine_linked written.world.core) fits (by
      rw [Block.length_eq]
      decide) bytes (by
      rw [info, enc]
      decide) (by decide) reads

end Example

end Sable
