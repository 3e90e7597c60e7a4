import Sable.HashContexts
import Sable.HeapObjects
import Sable.TpmCommands
import Sable.TpmWire

/-!
# Unpacking a response

While a command unpacks bytes from a buffer, its unpack context holds the
position in the buffer, the hash contexts have absorbed some of the bytes, and
copies of variable length lie in new heap blocks.  The rules below say how
every unmarshalling call moves on.  They hold with and without the assumption
that the buffer and the heap are large enough; without it a run may halt.
-/

namespace Sable

open ByteMemory BigEndian HaltingProgram

/-- The bytes that are unpacked and where they lie. -/
structure Source where
  buffer : BufferPtr
  bytes : List UInt8

namespace Source

/-- Some bytes of the source. -/
def slice (source : Source) (pos len : Nat) : List UInt8 :=
  (source.bytes.drop pos).take len

/-- The source lies in the output buffer or in a heap block. -/
def Available {σ : Type} (source : Source) (contents : UInt32 → Option (List UInt8))
    (m : Machine σ) : Prop :=
  match source.buffer with
  | .tisIn => False
  | .tisOut => read m.tisOut 0 source.bytes.length = source.bytes
  | .mem addr => contents addr = some source.bytes

theorem length_slice (source : Source) {pos len : Nat}
    (inside : pos + len ≤ source.bytes.length) : (source.slice pos len).length = len := by
  simp [slice]
  omega

theorem slice_add (source : Source) (pos first second : Nat) :
    source.slice pos (first + second) =
      source.slice pos first ++ source.slice (pos + first) second := by
  rw [slice, slice, slice, List.take_add, List.drop_drop]

end Source

/-- How far a command has got with unpacking: the units of the heap in use, the
blocks it keeps track of, the session objects, and the position. -/
structure Progress where
  used : Nat
  contents : UInt32 → Option (List UInt8)
  objects : UInt32 → TpmSession
  pos : Nat

def Progress.advance (progress : Progress) (count : Nat) : Progress :=
  { progress with pos := progress.pos + count }

/-- The `size` bytes at the position go into a new block. -/
def Progress.store (progress : Progress) (source : Source) (ptr size : UInt32) :
    Progress :=
  { progress with
    used := progress.used + size.toNat / 8 + 2
    contents := Function.update progress.contents ptr
      (some (source.slice progress.pos size.toNat))
    pos := progress.pos + size.toNat }

section Rules

variable {σ : Type} {area : HeapArea} {base : Machine σ} {source : Source}
  {progress : Progress} {stuck : Prop} {before after : Sha1Context → HmacContext → Prop}

/-- The state of the command apart from its contexts.  Only the heap, the
session objects and the session slots can differ from the state `base`. -/
structure Receiving (area : HeapArea) (base : Machine σ) (source : Source)
    (progress : Progress) (m : Machine σ) : Prop where
  rest : { m with
    mem := base.mem
    sessionAt := base.sessionAt
    sessions := base.sessions
    locals := base.locals } = base
  heap : m.heap = area.heap
  tracks : Tracks area progress.used progress.contents m.mem
  objects : m.sessionAt = progress.objects
  available : source.Available progress.contents m
  bound : progress.pos ≤ source.bytes.length
  limit : source.bytes.length < 2 ^ 31

/-- The state of the command while it unpacks. -/
structure Unpacking (area : HeapArea) (base : Machine σ) (source : Source)
    (progress : Progress) (m : Machine σ) : Prop extends
    Receiving area base source progress m where
  context : m.locals.uctx =
    ⟨source.buffer, UInt32.ofNat progress.pos, UInt32.ofNat source.bytes.length⟩

instance : HashFree (Receiving area base source progress) where
  withHashes := fun _ _ _ ⟨rest, heap, tracks, objects, available, bound, limit⟩ =>
    ⟨rest, heap, tracks, objects, available, bound, limit⟩

instance : HashFree (Unpacking area base source progress) where
  withHashes := fun m sctx hctx unpacking =>
    ⟨HashFree.withHashes m sctx hctx unpacking.toReceiving, unpacking.context⟩

/-- An unpacking state whose hash contexts satisfy `contexts`. -/
abbrev UnpackingWith (area : HeapArea) (base : Machine σ) (source : Source)
    (progress : Progress) (contexts : Sha1Context → HmacContext → Prop) :
    Machine σ → Prop :=
  Holding (Unpacking area base source progress) contexts

theorem toNat_ofNat_small {n : Nat} (small : n < 2 ^ 31) : (UInt32.ofNat n).toNat = n :=
  UInt32.toNat_ofNat_of_lt' (by simp only [UInt32.size]; omega)

/-- The overflow check passes exactly if the bytes lie in the buffer. -/
theorem Unpacking.check_iff {m : Machine σ}
    (unpacking : Unpacking area base source progress m) {size : UInt32}
    (small : size.toNat < 2 ^ 31) :
    m.locals.uctx.bytesUnpacked + size ≤ m.locals.uctx.size ↔
      progress.pos + size.toNat ≤ source.bytes.length := by
  have bound := unpacking.bound
  have limit := unpacking.limit
  rw [unpacking.context, UInt32.le_iff_toNat_le, UInt32.toNat_add,
    toNat_ofNat_small limit, toNat_ofNat_small (by omega),
    Nat.mod_eq_of_lt (by omega)]

theorem Unpacking.readBuffer_eq {m : Machine σ}
    (unpacking : Unpacking area base source progress m) {len : Nat}
    (inside : progress.pos + len ≤ source.bytes.length) :
    m.readBuffer m.locals.uctx.bytesUnpacked.toNat len m.locals.uctx.unpackBuffer =
      source.slice progress.pos len := by
  have bound := unpacking.bound
  have limit := unpacking.limit
  have available := unpacking.available
  have part (mem : Mem) (addr : Nat)
      (whole : read mem addr source.bytes.length = source.bytes) :
      read mem (addr + progress.pos) len = source.slice progress.pos len := by
    rw [Source.slice, ← whole, drop_read _ _ _ _ bound, take_read _ _ _ _ (by
      rw [whole] at *
      omega)]
  rw [unpacking.context, toNat_ofNat_small (by omega)]
  cases place : source.buffer with
  | tisIn =>
      simp only [Source.Available, place] at available
  | tisOut =>
      simp only [Source.Available, place] at available
      have whole := part m.tisOut 0 available
      rw [Nat.zero_add] at whole
      exact whole
  | mem addr =>
      simp only [Source.Available, place] at available
      exact part m.mem addr.toNat (unpacking.tracks.read_eq available)

theorem Unpacking.advance {m : Machine σ}
    (unpacking : Unpacking area base source progress m) (size : UInt32) :
    Sable.advance size m = .ok () { m with locals := { m.locals with
      uctx := ⟨source.buffer, UInt32.ofNat (progress.pos + size.toNat),
        UInt32.ofNat source.bytes.length⟩ } } := by
  rw [Sable.advance, Prog.modify_apply, unpacking.context]
  simp only [UInt32.ofNat_add, UInt32.ofNat_toNat]

theorem unpackBytes_runs {size : UInt32} (small : size.toNat < 2 ^ 31)
    (room : ¬ stuck → progress.pos + size.toNat ≤ source.bytes.length) :
    Prog.Runs stuck (UnpackingWith area base source progress before)
      (unpackBytes size)
      (fun bytes m => bytes = source.slice progress.pos size.toNat ∧
        UnpackingWith area base source (progress.advance size.toNat) before m) := by
  rintro m ⟨unpacking, holds⟩
  have check := unpacking.check_iff small
  by_cases inside : progress.pos + size.toNat ≤ source.bytes.length
  · have run : unpackBytes size m = .ok (source.slice progress.pos size.toNat)
        { m with locals := { m.locals with
          uctx := ⟨source.buffer, UInt32.ofNat (progress.pos + size.toNat),
            UInt32.ofNat source.bytes.length⟩ } } := by
      rw [unpackBytes, checkUnpackOverflow, bind_assoc, Prog.bind_get,
        if_pos (check.mpr inside), Prog.bind_pure_apply, peekBytes, bind_assoc,
        Prog.bind_get, Prog.bind_pure_apply, unpacking.readBuffer_eq inside,
        Prog.bind_ok (unpacking.advance size), Prog.pure_apply]
    rw [run]
    obtain ⟨⟨rest, heap, tracks, objects, available, -, limit⟩, -⟩ := unpacking
    exact ⟨rfl, ⟨⟨rest, heap, tracks, objects, available, inside, limit⟩, rfl⟩, holds⟩
  · have run : unpackBytes size m = .halt .exit m := by
      rw [unpackBytes, checkUnpackOverflow, bind_assoc, Prog.bind_get,
        if_neg (check.not.mpr inside)]
      rfl
    rw [run]
    by_contra free
    exact inside (room free)

theorem hashBytes_null {part : Machine σ → Prop} {bytes : List UInt8} :
    Prog.Returns (Holding part before) (hashBytes bytes .null)
      (fun _ => Holding part before) := by
  rw [hashBytes_null_eq]
  exact Prog.Returns.ret fun _ holds => holds

/-- Unpack some bytes, hash them and convert them. -/
theorem unpackHash_runs {α : Type} {size : UInt32} {sctx : HashPtr}
    {convert : List UInt8 → α} (small : size.toNat < 2 ^ 31)
    (room : ¬ stuck → progress.pos + size.toNat ≤ source.bytes.length)
    (hash : Prog.Returns
      (UnpackingWith area base source (progress.advance size.toNat) before)
      (hashBytes (source.slice progress.pos size.toNat) sctx)
      (fun _ => UnpackingWith area base source (progress.advance size.toNat) after)) :
    Prog.Runs stuck (UnpackingWith area base source progress before)
      (do
        let tmp ← unpackBytes size
        hashBytes tmp sctx
        return convert tmp)
      (fun value m => value = convert (source.slice progress.pos size.toNat) ∧
        UnpackingWith area base source (progress.advance size.toNat) after m) := by
  refine Prog.Runs.bind_value (unpackBytes_runs small room) ?_
  refine Prog.Runs.bind hash.runs fun _ => ?_
  exact Prog.Runs.ret fun m holds => ⟨rfl, holds⟩

theorem unmarshalBYTE_runs {val : UInt8} {sctx : HashPtr}
    (room : ¬ stuck → progress.pos + 1 ≤ source.bytes.length)
    (hash : Prog.Returns (UnpackingWith area base source (progress.advance 1) before)
      (hashBytes (source.slice progress.pos 1) sctx)
      (fun _ => UnpackingWith area base source (progress.advance 1) after)) :
    Prog.Runs stuck (UnpackingWith area base source progress before)
      (unmarshalBYTE val .given sctx)
      (fun value m => value = (source.slice progress.pos 1).getD 0 0 ∧
        UnpackingWith area base source (progress.advance 1) after m) :=
  unpackHash_runs (by decide) room hash

theorem unmarshalUINT16_runs {val : UInt16} {sctx : HashPtr}
    (room : ¬ stuck → progress.pos + 2 ≤ source.bytes.length)
    (hash : Prog.Returns (UnpackingWith area base source (progress.advance 2) before)
      (hashBytes (source.slice progress.pos 2) sctx)
      (fun _ => UnpackingWith area base source (progress.advance 2) after)) :
    Prog.Runs stuck (UnpackingWith area base source progress before)
      (unmarshalUINT16 val .given sctx)
      (fun value m => value = ofBe16 (source.slice progress.pos 2) ∧
        UnpackingWith area base source (progress.advance 2) after m) :=
  unpackHash_runs (by decide) room hash

theorem unmarshalUINT32_runs {val : UInt32} {sctx : HashPtr}
    (room : ¬ stuck → progress.pos + 4 ≤ source.bytes.length)
    (hash : Prog.Returns (UnpackingWith area base source (progress.advance 4) before)
      (hashBytes (source.slice progress.pos 4) sctx)
      (fun _ => UnpackingWith area base source (progress.advance 4) after)) :
    Prog.Runs stuck (UnpackingWith area base source progress before)
      (unmarshalUINT32 val .given sctx)
      (fun value m => value = ofBe32 (source.slice progress.pos 4) ∧
        UnpackingWith area base source (progress.advance 4) after m) :=
  unpackHash_runs (by decide) room hash

theorem unmarshalArray_runs {data : List UInt8} {size : UInt32} {sctx : HashPtr}
    (small : size.toNat < 2 ^ 31)
    (room : ¬ stuck → progress.pos + size.toNat ≤ source.bytes.length)
    (hash : Prog.Returns
      (UnpackingWith area base source (progress.advance size.toNat) before)
      (hashBytes (source.slice progress.pos size.toNat) sctx)
      (fun _ => UnpackingWith area base source (progress.advance size.toNat) after)) :
    Prog.Runs stuck (UnpackingWith area base source progress before)
      (unmarshalArray (some data) size .given sctx)
      (fun value m => value = some (source.slice progress.pos size.toNat) ∧
        UnpackingWith area base source (progress.advance size.toNat) after m) := by
  rw [unmarshalArray, assert, if_pos (.inl (by decide)), pure_bind, if_neg (by decide)]
  refine Prog.Runs.bind_value (unpackBytes_runs small room) ?_
  intro m holds
  rw [Prog.bind_get]
  refine Prog.Runs.bind hash.runs (fun _ => ?_) m holds
  exact Prog.Runs.ret fun m holds => ⟨rfl, holds⟩

theorem unmarshalObject_runs {data : Block 20} {sctx : HashPtr}
    (room : ¬ stuck → progress.pos + 20 ≤ source.bytes.length)
    (hash : Prog.Returns (UnpackingWith area base source (progress.advance 20) before)
      (hashBytes (source.slice progress.pos 20) sctx)
      (fun _ => UnpackingWith area base source (progress.advance 20) after)) :
    Prog.Runs stuck (UnpackingWith area base source progress before)
      (unmarshalObject data .given sctx)
      (fun value m => value = Block.ofList 20 (source.slice progress.pos 20) ∧
        UnpackingWith area base source (progress.advance 20) after m) := by
  refine Prog.Runs.bind_value (unmarshalArray_runs (by decide) room hash) ?_
  exact Prog.Runs.ret fun m holds => ⟨rfl, holds⟩

/-- Values that are only hashed. -/
theorem unmarshalUINT32_hidden {part : Machine σ → Prop} {val : UInt32} {sctx : HashPtr}
    (sctxNonNull : sctx ≠ .null)
    (hash : Prog.Returns (Holding part before) (hashBytes (be32 val) sctx)
      (fun _ => Holding part after)) :
    Prog.Returns (Holding part before) (unmarshalUINT32 val .null sctx)
      (fun value m => value = val ∧ Holding part after m) := by
  rw [unmarshalUINT32, assert, if_pos (.inr sctxNonNull), pure_bind, if_pos rfl]
  exact Prog.Returns.bind hash fun _ => Prog.Returns.ret fun m holds => ⟨rfl, holds⟩

theorem unmarshalObject_hidden {part : Machine σ → Prop} {data : Block 20}
    {sctx : HashPtr} (sctxNonNull : sctx ≠ .null)
    (hash : Prog.Returns (Holding part before) (hashBytes data.bytes sctx)
      (fun _ => Holding part after)) :
    Prog.Returns (Holding part before) (unmarshalObject data .null sctx)
      (fun _ => Holding part after) := by
  rw [unmarshalObject, unmarshalArray, assert, if_pos (.inr sctxNonNull)]
  intro m holds
  simp only [if_true, bind_assoc, pure_bind, Prog.bind_get, Option.getD_some]
  refine Prog.Returns.bind hash (fun _ => ?_) m holds
  exact Prog.Returns.ret fun m holds => holds

theorem allocHeap_ok {m : Machine σ} {size ptr : UInt32} {mem : Mem}
    (run : alloc m.heap size m.mem = .ok ptr mem) :
    allocHeap size m = .ok ptr { m with mem := mem } := by
  rw [allocHeap, run]

theorem allocHeap_zero (m : Machine σ) : allocHeap 0 m = .halt .exit m :=
  rfl

/-- A source stays available when a new block is filled. -/
theorem Source.Available.update {contents : UInt32 → Option (List UInt8)}
    {m reached : Machine σ} (available : source.Available contents m) {ptr : UInt32}
    (fresh : contents ptr = none) (tisOut : reached.tisOut = m.tisOut)
    (bytes : List UInt8) :
    source.Available (Function.update contents ptr (some bytes)) reached := by
  unfold Source.Available at *
  cases place : source.buffer with
  | tisIn => simp only [place] at available
  | tisOut =>
      simp only [place] at available ⊢
      rw [tisOut, available]
  | mem addr =>
      simp only [place] at available ⊢
      have different : addr ≠ ptr := by
        rintro rfl
        rw [fresh] at available
        cases available
      rw [Function.update_of_ne different, available]

theorem checkUnpackOverflow_ok {m : Machine σ} {size : UInt32}
    (fits : m.locals.uctx.bytesUnpacked + size ≤ m.locals.uctx.size) :
    checkUnpackOverflow size m = .ok () m := by
  rw [checkUnpackOverflow, Prog.bind_get, if_pos fits, Prog.pure_apply]

theorem checkUnpackOverflow_halt {m : Machine σ} {size : UInt32}
    (overflow : ¬ m.locals.uctx.bytesUnpacked + size ≤ m.locals.uctx.size) :
    checkUnpackOverflow size m = .halt .exit m := by
  rw [checkUnpackOverflow, Prog.bind_get, if_neg overflow, Prog.halt_apply]

/-- Bytes are taken from the buffer if the check passes, and nothing else changes. -/
theorem unpackBytes_eq (size : UInt32) (m : Machine σ) :
    unpackBytes size m =
      if m.locals.uctx.bytesUnpacked + size ≤ m.locals.uctx.size then
        .ok (m.readBuffer m.locals.uctx.bytesUnpacked.toNat size.toNat
          m.locals.uctx.unpackBuffer) { m with locals := { m.locals with
            uctx := { m.locals.uctx with
              bytesUnpacked := m.locals.uctx.bytesUnpacked + size } } }
      else .halt .exit m := by
  rw [unpackBytes]
  split
  · rw [Prog.bind_ok (checkUnpackOverflow_ok ‹_›)]
    rfl
  · rw [Prog.bind_halt (checkUnpackOverflow_halt ‹_›)]

theorem assert_ok {condition : Prop} [Decidable condition] (holds : condition)
    (m : Machine σ) : assert condition m = .ok () m := by
  rw [assert, if_pos holds, Prog.pure_apply]

theorem assert_halt {condition : Prop} [Decidable condition] (fails : ¬ condition)
    (m : Machine σ) : assert condition m = .halt .exit m := by
  rw [assert, if_neg fails, Prog.halt_apply]

/-- Without room on the heap, or for zero bytes, `unmarshal_ptr` stops. -/
theorem unmarshalPtr_halts {m : Machine σ} {size : UInt32} {sctx : HashPtr}
    (unpacking : Unpacking area base source progress m)
    (full : ¬ (0 < size ∧ progress.used + size.toNat / 8 + 2 ≤ area.units)) :
    ∃ reached, unmarshalPtr size .given sctx m = .halt .exit reached := by
  rw [unmarshalPtr, Prog.bind_ok (assert_ok (by decide) m)]
  by_cases check : m.locals.uctx.bytesUnpacked + size ≤ m.locals.uctx.size
  · rw [Prog.bind_ok (checkUnpackOverflow_ok check)]
    by_cases positive : 0 < size
    · have run := unpacking.tracks.alloc_full positive fun room => full ⟨positive, room⟩
      rw [← unpacking.heap] at run
      rw [Prog.bind_ok (allocHeap_ok run), Prog.bind_halt (assert_halt (by simp) _)]
      exact ⟨_, rfl⟩
    · have zero : size = 0 := by
        apply UInt32.toNat_inj.mp
        rw [UInt32.lt_iff_toNat_lt] at positive
        simpa using positive
      subst zero
      rw [Prog.bind_halt (allocHeap_zero m)]
      exact ⟨_, rfl⟩
  · rw [Prog.bind_halt (checkUnpackOverflow_halt check)]
    exact ⟨_, rfl⟩

theorem unmarshalPtr_runs {size : UInt32} {sctx : HashPtr}
    (room : ¬ stuck → 0 < size ∧ progress.pos + size.toNat ≤ source.bytes.length ∧
      progress.used + size.toNat / 8 + 2 ≤ area.units)
    (hash : ∀ reached, Prog.Returns (UnpackingWith area base source reached before)
      (hashBytes (source.slice progress.pos size.toNat) sctx)
      (fun _ => UnpackingWith area base source reached after)) :
    Prog.Runs stuck (UnpackingWith area base source progress before)
      (unmarshalPtr size .given sctx)
      (fun ptr m => progress.contents ptr = none ∧
        progress.pos + size.toNat ≤ source.bytes.length ∧
        UnpackingWith area base source (progress.store source ptr size) after m) := by
  rintro m ⟨unpacking, holds⟩
  by_cases fits : 0 < size ∧ progress.used + size.toNat / 8 + 2 ≤ area.units
  swap
  · obtain ⟨reached, run⟩ := unmarshalPtr_halts unpacking fits
    rw [run]
    by_contra free
    obtain ⟨positive, -, space⟩ := room free
    exact fits ⟨positive, space⟩
  obtain ⟨positive, space⟩ := fits
  have small : size.toNat < 2 ^ 31 := by
    obtain ⟨blocks, layout, -, -⟩ := unpacking.tracks
    have units := units_lt layout.small
    omega
  have check := unpacking.check_iff small
  rw [unmarshalPtr, Prog.bind_ok (assert_ok (by decide) m)]
  by_cases inside : progress.pos + size.toNat ≤ source.bytes.length
  swap
  · rw [Prog.bind_halt (checkUnpackOverflow_halt (check.not.mpr inside))]
    by_contra free
    exact inside (room free).2.1
  obtain ⟨ptr, mem, run, fresh, tracks⟩ := unpacking.tracks.alloc positive space
  have nonNull : ptr ≠ 0 := tracks.nonNull (Function.update_self ..)
  set bytes := source.slice progress.pos size.toNat with bytesEq
  have length : bytes.length = size.toNat := source.length_slice inside
  rw [← unpacking.heap] at run
  rw [Prog.bind_ok (checkUnpackOverflow_ok (check.mpr inside)),
    Prog.bind_ok (allocHeap_ok run), Prog.bind_ok (assert_ok nonNull _)]
  have copied : Unpacking area base source
      { progress with
        used := progress.used + size.toNat / 8 + 2
        contents := Function.update progress.contents ptr
          (some (read mem ptr.toNat size.toNat)) }
      { m with mem := mem } := by
    obtain ⟨⟨rest, heap, -, objects, available, bound, limit⟩, context⟩ := unpacking
    exact ⟨⟨rest, heap, tracks, objects, available.update fresh rfl _, bound, limit⟩,
      context⟩
  have peek : peekBytes size { m with mem := mem } = .ok bytes { m with mem := mem } := by
    rw [peekBytes, Prog.bind_get, copied.readBuffer_eq inside, Prog.pure_apply]
  rw [Prog.bind_ok peek, Prog.bind_modify]
  have filled : Tracks area (progress.used + size.toNat / 8 + 2)
      (Function.update progress.contents ptr (some bytes))
      (write mem ptr.toNat bytes) := by
    have agree : ∀ a, a < ptr.toNat ∨
        ptr.toNat + (read mem ptr.toNat size.toNat).length ≤ a →
        write mem ptr.toNat bytes a = mem a := by
      intro a outside
      rw [length_read] at outside
      exact write_outside mem (by omega)
    have changed := tracks.change (Function.update_self ..) agree
    rw [length_read, ← length, read_write_self, Function.update_idem] at changed
    rw [← length]
    exact changed
  have written : Unpacking area base source
      { progress with
        used := progress.used + size.toNat / 8 + 2
        contents := Function.update progress.contents ptr (some bytes) }
      { m with mem := write mem ptr.toNat bytes } := by
    obtain ⟨⟨rest, heap, -, objects, available, bound, limit⟩, context⟩ := unpacking
    exact ⟨⟨rest, heap, filled, objects, available.update fresh rfl _, bound, limit⟩,
      context⟩
  rw [Prog.bind_ok (written.advance size), Prog.bind_get]
  have content : read (write mem ptr.toNat bytes) ptr.toNat size.toNat = bytes := by
    rw [← length, read_write_self]
  simp only [content]
  have stored : UnpackingWith area base source (progress.store source ptr size) before
      { m with
        mem := write mem ptr.toNat bytes
        locals := { m.locals with
          uctx := ⟨source.buffer, UInt32.ofNat (progress.pos + size.toNat),
            UInt32.ofNat source.bytes.length⟩ } } := by
    obtain ⟨⟨rest, heap, -, objects, available, bound, limit⟩, -⟩ := written
    exact ⟨⟨⟨rest, heap, filled, objects, available, inside, limit⟩, rfl⟩, holds⟩
  refine Prog.Runs.bind (hash _).runs (fun _ => ?_) _ stored
  exact Prog.Runs.ret fun m holds => ⟨fresh, inside, holds⟩

theorem loadSession_runs {part : Machine σ → Prop} {s : UInt32} {session : TpmSession}
    (nonNull : ¬ stuck → s ≠ 0) (stored : ∀ m, part m → m.sessionAt s = session) :
    Prog.Runs stuck part (loadSession s)
      (fun value m => value = session ∧ s ≠ 0 ∧ part m) := by
  refine Prog.Runs.ite (fun null => ?_) fun nonNull => ?_
  · exact Prog.Runs.halt (by
      by_contra free
      exact nonNull free null)
  · intro m holds
    exact ⟨stored m holds, nonNull, holds⟩

theorem updateSession_receives {s : UInt32} {update : TpmSession → TpmSession}
    (nonNull : s ≠ 0) :
    Prog.Returns (UnpackingWith area base source progress before)
      (updateSession s update)
      (fun _ => UnpackingWith area base source
        { progress with
          objects := Function.update progress.objects s (update (progress.objects s)) }
        before) := by
  rw [updateSession, if_neg nonNull]
  apply Prog.Returns.modify
  rintro m ⟨⟨⟨rest, heap, tracks, objects, available, bound, limit⟩, context⟩, holds⟩
  refine ⟨⟨⟨rest, heap, tracks, ?_, available, bound, limit⟩, context⟩, holds⟩
  rw [objects]

/-- The authorisation trailer at a position. -/
def Source.trailerAt (source : Source) (pos : Nat) : TpmWire.ResponseTrailer :=
  { nonceEven := Block.ofList 20 (source.slice pos 20)
    continueAuthSession := (source.slice (pos + 20) 1).getD 0 0
    auth := Block.ofList 20 (source.slice (pos + 21) 20) }

/-- The session object takes over the nonce and the flag of a trailer. -/
def TpmSession.receive (session : TpmSession) (trailer : TpmWire.ResponseTrailer) :
    TpmSession :=
  { session with
    nonceEven := trailer.nonceEven
    continueAuthSession := trailer.continueAuthSession }

def Progress.receive (progress : Progress) (s : UInt32)
    (trailer : TpmWire.ResponseTrailer) : Progress :=
  { progress with
    objects := Function.update progress.objects s ((progress.objects s).receive trailer)
    pos := progress.pos + 21 }

theorem unmarshalAuth_runs {secret digest : Block 20} {s : UInt32}
    (room : ¬ stuck → s ≠ 0 ∧ progress.pos + 21 ≤ source.bytes.length) :
    Prog.Runs stuck
      (UnpackingWith area base source progress fun sctx _ => sctx.hash = digest)
      (unmarshalAuth secret s)
      (fun _ m => s ≠ 0 ∧ UnpackingWith area base source
        (progress.receive s (source.trailerAt progress.pos))
        (fun sctx hctx => sctx.hash = digest ∧ HmacAbsorbed hctx secret.bytes
          ((source.trailerAt progress.pos).message digest
            (progress.objects s).nonceOdd)) m) := by
  refine Prog.Runs.bind (hmacInitLocal_holds secret).runs fun _ => ?_
  refine Prog.Runs.bind_read digest ?_ ?_
  · rintro m ⟨-, hash, -⟩
    rw [← hash]
    rfl
  refine Prog.Runs.bind (unmarshalObject_hidden (by decide)
    (hashBytes_keyed (by simp))).runs fun _ => ?_
  refine Prog.Runs.bind_value (loadSession_runs (fun free => (room free).1)
    fun m holds => congrFun holds.1.objects s) (Prog.Runs.assume fun nonNull => ?_)
  refine Prog.Runs.bind_value (unmarshalObject_runs
    (fun free => by have := (room free).2; omega)
    (hashBytes_keyed (by simp [Source.slice]; omega))) ?_
  refine Prog.Runs.bind (updateSession_receives nonNull).runs fun _ => ?_
  refine Prog.Runs.bind (unmarshalObject_hidden (by decide)
    (hashBytes_keyed (by simp [Source.slice]; omega))).runs fun _ => ?_
  refine Prog.Runs.bind_value (unmarshalBYTE_runs
    (fun free => by have := (room free).2; simp [Progress.advance]; omega)
    (hashBytes_keyed (by simp [Source.slice]; omega))) ?_
  refine Prog.Runs.mono (updateSession_receives nonNull).runs (fun m holds => holds) ?_
  rintro - m ⟨unpacking, digest, absorbed⟩
  have inside : progress.pos + 20 + 1 ≤ source.bytes.length := unpacking.bound
  have byte : source.slice (progress.pos + 20) 1 =
      [(source.slice (progress.pos + 20) 1).getD 0 0] := by
    have length := source.length_slice inside
    obtain ⟨value, single⟩ := List.length_eq_one_iff.mp length
    rw [single]
    rfl
  have nonce : (Block.ofList 20 (source.slice progress.pos 20)).bytes =
      source.slice progress.pos 20 :=
    Block.bytes_ofList (source.length_slice (by omega))
  refine ⟨nonNull, ?_, digest, ?_⟩
  · simpa [Progress.receive, Progress.advance, TpmSession.receive,
      Source.trailerAt] using unpacking
  · simp only [Progress.advance, List.nil_append] at absorbed
    rw [byte] at absorbed
    simpa [TpmWire.ResponseTrailer.message, Source.trailerAt, nonce] using absorbed

theorem hctxHash_runs {part : Machine σ → Prop} {plain : Sha1Context → Prop}
    {mac : Block 20} :
    Prog.Runs stuck (Holding part fun sctx hctx => plain sctx ∧ hctx.sctx.hash = mac)
      hctxHash
      (fun value m => value = mac ∧ Holding part (fun sctx _ => plain sctx) m) := by
  rintro m ⟨holds, digest, same⟩
  exact ⟨same, holds, digest⟩

theorem unmarshalResAuth_runs {plain : Sha1Context → Prop} {secret : Block 20}
    {message : List UInt8} (bounded : message.length + 64 < 2 ^ 29)
    (room : ¬ stuck → progress.pos + 20 ≤ source.bytes.length) :
    Prog.Runs stuck
      (UnpackingWith area base source progress fun sctx hctx =>
        plain sctx ∧ HmacAbsorbed hctx secret.bytes message)
      unmarshalResAuth
      (fun value m =>
        value = (Block.ofList 20 (source.slice progress.pos 20),
          SecureHash.hmac secret.bytes message) ∧
        UnpackingWith area base source (progress.advance 20)
          (fun sctx _ => plain sctx) m) := by
  refine Prog.Runs.bind_value (unmarshalObject_runs room hashBytes_null) ?_
  refine Prog.Runs.bind (hmacFinishLocal_holds bounded).runs fun _ => ?_
  refine Prog.Runs.bind_value hctxHash_runs ?_
  exact Prog.Runs.ret fun m holds => ⟨rfl, holds⟩

theorem setSlot_receives (session : SessionSlot) (ptr : UInt32) :
    Prog.Returns (UnpackingWith area base source progress before)
      (setSlot session ptr)
      (fun _ => UnpackingWith area base source progress before) := by
  apply Prog.Returns.modify
  rintro m ⟨⟨⟨rest, heap, tracks, objects, available, bound, limit⟩, context⟩, holds⟩
  exact ⟨⟨⟨rest, heap, tracks, objects, available, bound, limit⟩, context⟩, holds⟩

theorem closeSession_runs {session : SessionSlot} {s : UInt32} (nonNull : s ≠ 0) :
    Prog.Runs stuck (UnpackingWith area base source progress before)
      (closeSession session s)
      (fun _ => UnpackingWith area base source progress before) := by
  refine Prog.Runs.bind_value (loadSession_runs (fun _ => nonNull)
    fun m holds => congrFun holds.1.objects s) (Prog.Runs.assume fun _ => ?_)
  exact Prog.Runs.ite (fun _ => (setSlot_receives session 0).runs)
    fun _ => Prog.Runs.ret fun m holds => holds

theorem unpackFinish_eq {m : Machine σ}
    (unpacking : Unpacking area base source progress m) :
    unpackFinish m = .ok (UInt32.ofNat progress.pos) m := by
  rw [unpackFinish, Prog.bind_get, unpacking.context, Prog.pure_apply]

end Rules

section Responses

/-- The response in the output buffer. -/
def outputSource {σ : Type} (m : Machine σ) : Source :=
  ⟨.tisOut, read m.tisOut 0 1024⟩

@[simp]
theorem length_outputSource {σ : Type} (m : Machine σ) :
    (outputSource m).bytes.length = 1024 := by
  simp [outputSource]

theorem slice_outputSource {σ : Type} (m : Machine σ) {pos len : Nat}
    (inside : pos + len ≤ 1024) :
    (outputSource m).slice pos len = read m.tisOut pos len := by
  rw [Source.slice, outputSource]
  simp only
  rw [drop_read _ _ _ _ (by omega), Nat.zero_add, take_read _ _ _ _ (by omega)]

namespace Source

variable (source : Source)

def tag : UInt16 :=
  ofBe16 (source.slice 0 2)

def paramSize : UInt32 :=
  ofBe32 (source.slice 2 4)

def result : UInt32 :=
  ofBe32 (source.slice 6 4)

/-- The response that starts the source, with the given length of its
parameters and the given number of trailers. -/
def response (paramsLength count : Nat) : TpmWire.Response :=
  { tag := source.tag
    result := source.result
    params := source.slice 10 paramsLength
    trailers := (List.range count).map fun index =>
      source.trailerAt (10 + paramsLength + 41 * index) }

/-- All that a caller checks: the tag, the size, and one keyed hash for each
pair of a secret and an odd nonce. -/
def Accepted (tag : UInt16) (ordinal : UInt32) (paramsLength : Nat)
    (checks : List (Block 20 × Block 20)) : Prop :=
  source.tag = tag ∧
    source.paramSize = UInt32.ofNat (10 + paramsLength + 41 * checks.length) ∧
    List.Forall₂ (fun trailer check =>
        (source.response paramsLength checks.length).Authentic ordinal trailer
          check.2 check.1)
      (source.response paramsLength checks.length).trailers checks

theorem digest_response (length : source.bytes.length = 1024) (paramsLength count : Nat)
    (ordinal : UInt32) :
    (source.response paramsLength count).digest ordinal =
      SecureHash.sha1 (source.slice 6 4 ++ be32 ordinal ++
        source.slice 10 paramsLength) := by
  rw [TpmWire.Response.digest, response, result,
    be32_ofBe32 (source.length_slice (by omega))]

/-- The keyed hash that belongs to the trailer at a position, if `hashed` are the
bytes under the digest. -/
def mac (hashed : List UInt8) (pos : Nat) (secret nonceOdd : Block 20) : Block 20 :=
  SecureHash.hmac secret.bytes
    ((source.trailerAt pos).message (SecureHash.sha1 hashed) nonceOdd)

variable {source}

theorem accepted_one (length : source.bytes.length = 1024) {tag : UInt16}
    {ordinal : UInt32} {paramsLength start : Nat} {secret nonceOdd : Block 20}
    {hashed : List UInt8} (behind : 10 + paramsLength = start)
    (covers : hashed = source.slice 6 4 ++ be32 ordinal ++ source.slice 10 paramsLength) :
    source.Accepted tag ordinal paramsLength [(secret, nonceOdd)] ↔
      source.tag = tag ∧ source.paramSize = UInt32.ofNat (start + 21 + 20) ∧
        (source.trailerAt start).auth = source.mac hashed start secret nonceOdd := by
  subst behind
  have total : 10 + paramsLength + 41 * 1 = 10 + paramsLength + 21 + 20 := by omega
  simp only [Accepted, TpmWire.Response.Authentic, digest_response source length, mac,
    List.length_singleton, total, covers]
  simp [response]

theorem accepted_two (length : source.bytes.length = 1024) {tag : UInt16}
    {ordinal : UInt32} {paramsLength start : Nat}
    {secret nonceOdd other otherOdd : Block 20} {hashed : List UInt8}
    (behind : 10 + paramsLength = start)
    (covers : hashed = source.slice 6 4 ++ be32 ordinal ++ source.slice 10 paramsLength) :
    source.Accepted tag ordinal paramsLength [(secret, nonceOdd), (other, otherOdd)] ↔
      source.tag = tag ∧ source.paramSize = UInt32.ofNat (start + 21 + 20 + 21 + 20) ∧
        (source.trailerAt start).auth = source.mac hashed start secret nonceOdd ∧
        (source.trailerAt (start + 21 + 20)).auth =
          source.mac hashed (start + 21 + 20) other otherOdd := by
  subst behind
  have total : 10 + paramsLength + 41 * 2 = 10 + paramsLength + 21 + 20 + 21 + 20 := by
    omega
  have second : 10 + paramsLength + 41 = 10 + paramsLength + 21 + 20 := by omega
  simp only [Accepted, TpmWire.Response.Authentic, digest_response source length, mac,
    List.length_cons, List.length_nil, Nat.reduceAdd, total, covers, ← second]
  simp [response, List.range_succ]

end Source

/-- The bytes of the result, which are the first that a parser hashes. -/
theorem Source.header_short (source : Source) : ([] ++ source.slice 6 4).length ≤ 1024 := by
  rw [List.nil_append, Source.slice, List.length_take]
  exact (Nat.min_le_left 4 _).trans (by decide)

theorem Source.result_short (source : Source) :
    ([] : List UInt8).length + (source.slice 6 4).length < 2 ^ 29 := by
  have short := source.header_short
  rw [List.nil_append] at short
  rw [List.length_nil]
  omega

variable {σ : Type} {area : HeapArea} {base : Machine σ} {source : Source}
  {progress : Progress} {stuck : Prop} {before after : Sha1Context → HmacContext → Prop}

theorem unmarshalHeader_runs {sctx : HashPtr} (place : source.buffer = .tisOut)
    (length : source.bytes.length = 1024)
    (hash : Prog.Returns
      (UnpackingWith area base source { progress with pos := 10 } before)
      (hashBytes (source.slice 6 4) sctx)
      (fun _ => UnpackingWith area base source { progress with pos := 10 } after)) :
    Prog.Runs stuck (Holding (Receiving area base source progress) before)
      (unmarshalHeader sctx)
      (fun header m => header = ⟨source.tag, source.paramSize, source.result⟩ ∧
        UnpackingWith area base source { progress with pos := 10 } after m) := by
  have start : Prog.Returns (Holding (Receiving area base source progress) before)
      (unpackInit .tisOut 1024)
      (fun _ => UnpackingWith area base source { progress with pos := 0 } before) := by
    apply Prog.Returns.modify
    rintro m ⟨⟨rest, heap, tracks, objects, available, -, limit⟩, holds⟩
    refine ⟨⟨⟨rest, heap, tracks, objects, available, Nat.zero_le _, limit⟩, ?_⟩, holds⟩
    rw [place, length]
    rfl
  refine Prog.Runs.bind start.runs fun _ => ?_
  refine Prog.Runs.bind_value (unmarshalUINT16_runs (by simp [length])
    hashBytes_null) ?_
  refine Prog.Runs.bind_value (unmarshalUINT32_runs (by simp [length, Progress.advance])
    hashBytes_null) ?_
  refine Prog.Runs.bind_value (unmarshalUINT32_runs (by simp [length, Progress.advance])
    hash) ?_
  exact Prog.Runs.ret fun m holds => ⟨rfl, holds⟩

theorem nvWriteResponse_runs {nvAuth : Block 20} {session : SessionSlot} {s : UInt32}
    (place : source.buffer = .tisOut) (length : source.bytes.length = 1024)
    (room : ¬ stuck → s ≠ 0) :
    Prog.Runs stuck (Receiving area base source progress)
      (nvWriteResponse nvAuth session s)
      (fun ret m =>
        (source.result ≠ 0 → ret = .error (tpmError source.result) ()) ∧
        (source.result = 0 →
          Unpacking area base source
            ((Progress.receive { progress with pos := 10 } s
              (source.trailerAt 10)).advance 20) m ∧
          (ret.exception = .none ↔ source.Accepted tagRspAuth1Command
            ordNvWriteValueAuth 0 [(nvAuth, (progress.objects s).nonceOdd)]))) := by
  refine Prog.Runs.bind sha1InitLocal_holds.runs fun _ => ?_
  refine Prog.Runs.bind_value (unmarshalHeader_runs place length
    (hashBytes_plain source.result_short)) ?_
  refine Prog.Runs.ite (fun failed => ?_) fun success => ?_
  · exact Prog.Runs.ret fun m _ => ⟨fun _ => rfl, fun zero => (failed zero).elim⟩
  have success : source.result = 0 := by simpa using success
  refine Prog.Runs.bind_value (unmarshalUINT32_hidden (by decide) (hashBytes_plain
    (by simp [Source.slice]; omega))).runs ?_
  refine Prog.Runs.bind (sha1FinishLocal_holds
    (by simp [Source.slice]; omega)).runs fun _ => ?_
  refine Prog.Runs.bind (unmarshalAuth_runs fun free => ⟨room free, by simp [length]⟩)
    fun _ => Prog.Runs.assume fun nonNull => ?_
  refine Prog.Runs.bind_value (unmarshalResAuth_runs
    (by simp [TpmWire.ResponseTrailer.message])
    fun free => by simp [length, Progress.receive]) ?_
  refine Prog.Runs.bind_read _ (fun m holds => unpackFinish_eq holds.1) ?_
  have covers : [] ++ source.slice 6 4 ++ be32 ordNvWriteValueAuth =
      source.slice 6 4 ++ be32 ordNvWriteValueAuth ++ source.slice 10 0 := by
    simp [Source.slice]
  rw [Source.accepted_one length rfl covers]
  refine Prog.Runs.ite (fun wrong => ?_) fun size => ?_
  · exact Prog.Runs.ret fun m holds => ⟨fun failed => (failed success).elim,
      fun _ => ⟨holds.1, iff_of_false (by decide)
        fun accepted => wrong accepted.2.1.symm⟩⟩
  refine Prog.Runs.ite (fun wrong => ?_) fun tag => ?_
  · exact Prog.Runs.ret fun m holds => ⟨fun failed => (failed success).elim,
      fun _ => ⟨holds.1, iff_of_false (by decide)
        fun accepted => wrong accepted.1⟩⟩
  refine Prog.Runs.bind (closeSession_runs nonNull) fun _ => ?_
  refine Prog.Runs.ite (fun wrong => ?_) fun auth => ?_
  · exact Prog.Runs.ret fun m holds => ⟨fun failed => (failed success).elim,
      fun _ => ⟨holds.1, iff_of_false (by decide)
        fun accepted => wrong accepted.2.2.symm⟩⟩
  · exact Prog.Runs.ret fun m holds => ⟨fun failed => (failed success).elim,
      fun _ => ⟨holds.1, iff_of_true rfl
        ⟨Decidable.of_not_not tag, (Decidable.of_not_not size).symm,
          (Decidable.of_not_not auth).symm⟩⟩⟩

/-- The parameters of a response that hold one block of data. -/
theorem unmarshalHeapData_runs {ordinal : UInt32} {hashed : List UInt8}
    (short : source.bytes.length ≤ 1024) (bounded : hashed.length ≤ 1024)
    (room : ¬ stuck → progress.pos + 4 ≤ source.bytes.length ∧
      0 < ofBe32 (source.slice progress.pos 4) ∧
      progress.pos + 4 + (ofBe32 (source.slice progress.pos 4)).toNat ≤
        source.bytes.length ∧
      progress.used + (ofBe32 (source.slice progress.pos 4)).toNat / 8 + 2 ≤
        area.units) :
    Prog.Runs stuck
      (UnpackingWith area base source progress fun sctx _ => Absorbed sctx hashed)
      (unmarshalHeapData ordinal)
      (fun value m =>
        (value.dataSize = ofBe32 (source.slice progress.pos 4) ∧
          progress.contents value.data = none ∧
          progress.pos + 4 + value.dataSize.toNat ≤ source.bytes.length) ∧
        UnpackingWith area base source
          ((progress.advance 4).store source value.data value.dataSize)
          (fun sctx _ => sctx.hash = SecureHash.sha1 (hashed ++ be32 ordinal ++
            source.slice progress.pos (4 + value.dataSize.toNat))) m) := by
  have small (pos len : Nat) : (source.slice pos len).length ≤ 1024 := by
    simp [Source.slice]
    omega
  refine Prog.Runs.bind_value (unmarshalUINT32_hidden (by decide)
    (hashBytes_plain (by simp; omega))).runs ?_
  refine Prog.Runs.bind_value (unmarshalUINT32_runs (fun free => (room free).1)
    (hashBytes_plain (by have := small progress.pos 4; simp; omega))) ?_
  set dataSize := ofBe32 (source.slice progress.pos 4) with dataSizeEq
  refine Prog.Runs.bind (unmarshalPtr_runs (fun free => (room free).2)
    fun _ => hashBytes_plain (by
      have := small progress.pos 4
      have := small (progress.pos + 4) dataSize.toNat
      simp [Progress.advance]
      omega)) fun data => ?_
  refine Prog.Runs.assume fun fresh => Prog.Runs.assume fun inside => ?_
  refine Prog.Runs.bind (sha1FinishLocal_holds (by
      have := small progress.pos 4
      have := small (progress.pos + 4) dataSize.toNat
      simp [Progress.advance]
      omega)).runs fun _ => ?_
  refine Prog.Runs.ret fun m holds => ⟨⟨rfl, fresh, inside⟩, ?_⟩
  simpa [Source.slice_add, Progress.advance] using holds

theorem nvReadResponse_runs {ownerAuth : Block 20} {session : SessionSlot} {s : UInt32}
    (place : source.buffer = .tisOut) (length : source.bytes.length = 1024)
    (nonNull : s ≠ 0)
    (room : ¬ stuck → source.result = 0 → 0 < ofBe32 (source.slice 10 4) ∧
      10 + 4 + (ofBe32 (source.slice 10 4)).toNat + 41 ≤ 1024 ∧
      progress.used + (ofBe32 (source.slice 10 4)).toNat / 8 + 2 ≤ area.units) :
    Prog.Runs stuck (Receiving area base source progress)
      (nvReadResponse ownerAuth (some session) s)
      (fun ret m =>
        (source.result ≠ 0 → ret = .error (tpmError source.result) ⟨0, 0⟩) ∧
        (source.result = 0 →
          ret.value.dataSize = ofBe32 (source.slice 10 4) ∧
          progress.contents ret.value.data = none ∧
          Unpacking area base source
            (((((Progress.advance { progress with pos := 10 } 4).store source
              ret.value.data ret.value.dataSize).receive s
                (source.trailerAt (10 + 4 + ret.value.dataSize.toNat))).advance 20)) m ∧
          (ret.exception = .none ↔ source.Accepted tagRspAuth1Command ordNvReadValue
            (4 + ret.value.dataSize.toNat)
            [(ownerAuth, (progress.objects s).nonceOdd)]))) := by
  refine Prog.Runs.bind sha1InitLocal_holds.runs fun _ => ?_
  refine Prog.Runs.bind_value (unmarshalHeader_runs place length
    (hashBytes_plain source.result_short)) ?_
  refine Prog.Runs.ite (fun failed => ?_) fun success => ?_
  · exact Prog.Runs.ret fun m _ => ⟨fun _ => rfl, fun zero => (failed zero).elim⟩
  have success : source.result = 0 := Decidable.of_not_not success
  refine Prog.Runs.bind (unmarshalHeapData_runs (by omega) source.header_short fun free => ?_)
    fun value => Prog.Runs.assume fun facts => ?_
  · obtain ⟨positive, inside, space⟩ := room free success
    exact ⟨by simp [length], positive, by simp only; omega, space⟩
  obtain ⟨dataSizeEq, fresh, inside⟩ := facts
  rw [if_neg nonNull]
  refine Prog.Runs.bind (unmarshalAuth_runs fun free => ⟨nonNull, ?_⟩)
    fun _ => Prog.Runs.assume fun _ => ?_
  · obtain ⟨-, inside, -⟩ := room free success
    rw [← dataSizeEq] at inside
    simp [Progress.store, Progress.advance, length]
    omega
  refine Prog.Runs.bind (hmacFinishLocal_holds
    (by simp [TpmWire.ResponseTrailer.message])).runs fun _ => ?_
  refine Prog.Runs.bind_value hctxHash_runs ?_
  refine Prog.Runs.bind_value (unmarshalObject_runs (fun free => ?_) hashBytes_null) ?_
  · obtain ⟨-, inside, -⟩ := room free success
    rw [← dataSizeEq] at inside
    simp [Progress.receive, Progress.store, Progress.advance, length]
    omega
  refine Prog.Runs.bind (closeSession_runs nonNull) fun _ => ?_
  refine Prog.Runs.bind_read _ (fun m holds => unpackFinish_eq holds.1) ?_
  have covers : [] ++ source.slice 6 4 ++ be32 ordNvReadValue ++
        source.slice 10 (4 + value.dataSize.toNat) =
      source.slice 6 4 ++ be32 ordNvReadValue ++
        source.slice 10 (4 + value.dataSize.toNat) := rfl
  have behind : 10 + (4 + value.dataSize.toNat) = 10 + 4 + value.dataSize.toNat :=
    (Nat.add_assoc ..).symm
  have accepted : source.Accepted tagRspAuth1Command ordNvReadValue
      (4 + value.dataSize.toNat) [(ownerAuth, (progress.objects s).nonceOdd)] ↔ _ :=
    Source.accepted_one length behind covers
  refine Prog.Runs.ite (fun wrong => ?_) fun size => ?_
  · refine Prog.Runs.ret fun m holds => ⟨fun failed => (failed success).elim,
      fun _ => ⟨dataSizeEq, fresh, holds.1, ?_⟩⟩
    exact iff_of_false (by simp) fun good => wrong (accepted.mp good).2.1.symm
  refine Prog.Runs.ite (fun wrong => ?_) fun tag => ?_
  · refine Prog.Runs.ret fun m holds => ⟨fun failed => (failed success).elim,
      fun _ => ⟨dataSizeEq, fresh, holds.1, ?_⟩⟩
    exact iff_of_false (by simp) fun good => wrong (accepted.mp good).1
  refine Prog.Runs.ite (fun wrong => ?_) fun auth => ?_
  · refine Prog.Runs.ret fun m holds => ⟨fun failed => (failed success).elim,
      fun _ => ⟨dataSizeEq, fresh, holds.1, ?_⟩⟩
    exact iff_of_false (by simp) fun good => wrong (accepted.mp good).2.2.symm
  · refine Prog.Runs.ret fun m holds => ⟨fun failed => (failed success).elim,
      fun _ => ⟨dataSizeEq, fresh, holds.1, ?_⟩⟩
    exact iff_of_true rfl (accepted.mpr ⟨Decidable.of_not_not tag,
      (Decidable.of_not_not size).symm, (Decidable.of_not_not auth).symm⟩)

@[simp]
theorem Progress.objects_advance (progress : Progress) (count : Nat) :
    (progress.advance count).objects = progress.objects :=
  rfl

@[simp]
theorem Progress.objects_store (progress : Progress) (ptr size : UInt32) :
    (progress.store source ptr size).objects = progress.objects :=
  rfl

@[simp]
theorem Progress.nonceOdd_receive (progress : Progress) (s other : UInt32)
    (trailer : TpmWire.ResponseTrailer) :
    ((progress.receive s trailer).objects other).nonceOdd =
      (progress.objects other).nonceOdd := by
  by_cases same : other = s
  · subst same
    simp [Progress.receive, TpmSession.receive]
  · simp [Progress.receive, Function.update_of_ne same]

theorem unsealResponse_runs {parentAuth dataAuth : Block 20}
    {parentSession dataSession : SessionSlot} {parentS dataS : UInt32}
    (place : source.buffer = .tisOut) (length : source.bytes.length = 1024)
    (room : ¬ stuck → parentS ≠ 0 ∧ dataS ≠ 0 ∧ (source.result = 0 →
      0 < ofBe32 (source.slice 10 4) ∧
      10 + 4 + (ofBe32 (source.slice 10 4)).toNat + 82 ≤ 1024 ∧
      progress.used + (ofBe32 (source.slice 10 4)).toNat / 8 + 2 ≤ area.units)) :
    Prog.Runs stuck (Receiving area base source progress)
      (unsealResponse parentAuth parentSession parentS dataAuth dataSession dataS)
      (fun ret m =>
        (source.result ≠ 0 → ret = .error (tpmError source.result) ⟨0, 0⟩) ∧
        (source.result = 0 →
          ret.value.dataSize = ofBe32 (source.slice 10 4) ∧
          progress.contents ret.value.data = none ∧
          (ret.exception = .none ↔ source.Accepted tagRspAuth2Command ordUnseal
            (4 + ret.value.dataSize.toNat)
            [(parentAuth, (progress.objects parentS).nonceOdd),
              (dataAuth, (progress.objects dataS).nonceOdd)]) ∧
          (ret.exception = .none → ∃ objects, Unpacking area base source
            { Progress.store { progress with pos := 14 } source
                ret.value.data ret.value.dataSize with
              objects := objects
              pos := 14 + ret.value.dataSize.toNat + 21 + 20 + 21 + 20 } m))) := by
  refine Prog.Runs.bind sha1InitLocal_holds.runs fun _ => ?_
  refine Prog.Runs.bind_value (unmarshalHeader_runs place length
    (hashBytes_plain source.result_short)) ?_
  refine Prog.Runs.ite (fun failed => ?_) fun success => ?_
  · exact Prog.Runs.ret fun m _ => ⟨fun _ => rfl, fun zero => (failed zero).elim⟩
  have success : source.result = 0 := Decidable.of_not_not success
  refine Prog.Runs.bind (unmarshalHeapData_runs (by omega) source.header_short fun free => ?_)
    fun value => Prog.Runs.assume fun facts => ?_
  · obtain ⟨-, -, large⟩ := room free
    obtain ⟨positive, inside, space⟩ := large success
    exact ⟨by simp [length], positive, by simp only; omega, space⟩
  obtain ⟨dataSizeEq, fresh, inside⟩ := facts
  have dataSizeEq : value.dataSize = ofBe32 (source.slice 10 4) := dataSizeEq
  have space : ¬ stuck → 10 + 4 + value.dataSize.toNat + 82 ≤ 1024 := by
    intro free
    rw [dataSizeEq]
    exact ((room free).2.2 success).2.1
  refine Prog.Runs.bind (unmarshalAuth_runs fun free => ⟨(room free).1, ?_⟩)
    fun _ => Prog.Runs.assume fun parentNonNull => ?_
  · have := space free
    simp [Progress.store, Progress.advance, length]
    omega
  refine Prog.Runs.bind_value (unmarshalResAuth_runs
    (by simp [TpmWire.ResponseTrailer.message]) fun free => ?_) ?_
  · have := space free
    simp [Progress.receive, Progress.store, Progress.advance, length]
    omega
  refine Prog.Runs.bind (closeSession_runs parentNonNull) fun _ => ?_
  have covers : [] ++ source.slice 6 4 ++ be32 ordUnseal ++
        source.slice 10 (4 + value.dataSize.toNat) =
      source.slice 6 4 ++ be32 ordUnseal ++
        source.slice 10 (4 + value.dataSize.toNat) := rfl
  have behind : 10 + (4 + value.dataSize.toNat) = 10 + 4 + value.dataSize.toNat :=
    (Nat.add_assoc ..).symm
  have accepted : source.Accepted tagRspAuth2Command ordUnseal
      (4 + value.dataSize.toNat) [(parentAuth, (progress.objects parentS).nonceOdd),
        (dataAuth, (progress.objects dataS).nonceOdd)] ↔ _ :=
    Source.accepted_two length behind covers
  refine Prog.Runs.ite (fun wrong => ?_) fun auth => ?_
  · refine Prog.Runs.ret fun m holds => ⟨fun failed => (failed success).elim,
      fun _ => ⟨dataSizeEq, fresh, ?_, fun ok => by simp at ok⟩⟩
    exact iff_of_false (by simp) fun good => wrong (accepted.mp good).2.2.1.symm
  refine Prog.Runs.bind (unmarshalAuth_runs fun free => ⟨(room free).2.1, ?_⟩)
    fun _ => Prog.Runs.assume fun dataNonNull => ?_
  · have := space free
    simp [Progress.receive, Progress.store, Progress.advance, length]
    omega
  refine Prog.Runs.bind_value (unmarshalResAuth_runs
    (by simp [TpmWire.ResponseTrailer.message]) fun free => ?_) ?_
  · have := space free
    simp [Progress.receive, Progress.store, Progress.advance, length]
    omega
  refine Prog.Runs.bind_read _ (fun m holds => unpackFinish_eq holds.1) ?_
  refine Prog.Runs.ite (fun wrong => ?_) fun size => ?_
  · refine Prog.Runs.ret fun m holds => ⟨fun failed => (failed success).elim,
      fun _ => ⟨dataSizeEq, fresh, ?_, fun ok => by simp at ok⟩⟩
    exact iff_of_false (by simp) fun good => wrong (accepted.mp good).2.1.symm
  refine Prog.Runs.ite (fun wrong => ?_) fun tag => ?_
  · refine Prog.Runs.ret fun m holds => ⟨fun failed => (failed success).elim,
      fun _ => ⟨dataSizeEq, fresh, ?_, fun ok => by simp at ok⟩⟩
    exact iff_of_false (by simp) fun good => wrong (accepted.mp good).1
  refine Prog.Runs.ite (fun wrong => ?_) fun secondAuth => ?_
  · refine Prog.Runs.ret fun m holds => ⟨fun failed => (failed success).elim,
      fun _ => ⟨dataSizeEq, fresh, ?_, fun ok => by simp at ok⟩⟩
    refine iff_of_false (by simp) fun good => wrong ?_
    have second := (accepted.mp good).2.2.2
    simp only [Progress.objects_advance, Progress.nonceOdd_receive,
      Progress.objects_store]
    exact second.symm
  refine Prog.Runs.bind (closeSession_runs dataNonNull) fun _ => ?_
  refine Prog.Runs.ret fun m holds => ⟨fun failed => (failed success).elim,
    fun _ => ⟨dataSizeEq, fresh, ?_, fun _ => ⟨_, holds.1⟩⟩⟩
  refine iff_of_true rfl (accepted.mpr ⟨Decidable.of_not_not tag,
    (Decidable.of_not_not size).symm, (Decidable.of_not_not auth).symm, ?_⟩)
  have second := (Decidable.of_not_not secondAuth).symm
  simp only [Progress.objects_advance, Progress.nonceOdd_receive,
    Progress.objects_store] at second
  exact second

/-- The size fields of the stored-data record at a position. -/
def Source.sealInfoSizeAt (source : Source) (pos : Nat) : UInt32 :=
  ofBe32 (source.slice (pos + 4) 4)

def Source.encDataSizeAt (source : Source) (pos : Nat) : UInt32 :=
  ofBe32 (source.slice (pos + 8 + (source.sealInfoSizeAt pos).toNat) 4)

/-- The length of the stored-data record at a position. -/
def Source.blobLength (source : Source) (pos : Nat) : Nat :=
  12 + (source.sealInfoSizeAt pos).toNat + (source.encDataSizeAt pos).toNat

/-- The stored-data record at a position can be copied to the heap. -/
structure Source.BlobFits (source : Source) (area : HeapArea) (used pos : Nat) :
    Prop where
  sealInfo : 0 < source.sealInfoSizeAt pos
  encData : 0 < source.encDataSizeAt pos
  inside : pos + source.blobLength pos ≤ source.bytes.length
  space : used + (source.sealInfoSizeAt pos).toNat / 8 +
    (source.encDataSizeAt pos).toNat / 8 + 4 ≤ area.units

/-- The stored-data record whose serialised form starts at a position; its two
blocks of data are new. -/
structure Source.BlobAt (source : Source) (contents : UInt32 → Option (List UInt8))
    (pos : Nat) (value : TpmStoredData12) : Prop where
  tag : value.tag = ofBe16 (source.slice pos 2)
  et : value.et = ofBe16 (source.slice (pos + 2) 2)
  sealInfoSize : value.sealInfoSize = source.sealInfoSizeAt pos
  encDataSize : value.encDataSize = source.encDataSizeAt pos
  sealInfo : contents value.sealInfo = none
  encData : contents value.encData = none
  different : value.encData ≠ value.sealInfo
  inside : pos + source.blobLength pos ≤ source.bytes.length

/-- The fields of the stored-data record at a position. -/
theorem Source.slice_blob (source : Source) (pos : Nat) :
    source.slice pos (source.blobLength pos) =
      source.slice pos 2 ++ source.slice (pos + 2) 2 ++ source.slice (pos + 4) 4 ++
        source.slice (pos + 8) (source.sealInfoSizeAt pos).toNat ++
        source.slice (pos + 8 + (source.sealInfoSizeAt pos).toNat) 4 ++
        source.slice (pos + 8 + (source.sealInfoSizeAt pos).toNat + 4)
          (source.encDataSizeAt pos).toNat := by
  have length : source.blobLength pos = 2 + 2 + 4 + (source.sealInfoSizeAt pos).toNat +
      4 + (source.encDataSizeAt pos).toNat := by
    rw [Source.blobLength]
    omega
  rw [length]
  simp only [Source.slice_add, ← Nat.add_assoc]

/-- Both blocks of a stored-data record are copied to the heap. -/
def Progress.storeBlob (progress : Progress) (source : Source)
    (value : TpmStoredData12) : Progress :=
  (((progress.advance 8).store source value.sealInfo value.sealInfoSize).advance 4).store
    source value.encData value.encDataSize

theorem unmarshalStoredData12_runs {sctx : HashPtr}
    {covers : List UInt8 → Sha1Context → HmacContext → Prop} {hashed : List UInt8}
    (short : source.bytes.length ≤ 1024) (bounded : hashed.length ≤ 1024)
    (hash : ∀ reached first bytes, first.length + bytes.length < 2 ^ 29 →
      Prog.Returns (UnpackingWith area base source reached (covers first))
        (hashBytes bytes sctx)
        (fun _ => UnpackingWith area base source reached (covers (first ++ bytes))))
    (room : ¬ stuck → source.BlobFits area progress.used progress.pos) :
    Prog.Runs stuck (UnpackingWith area base source progress (covers hashed))
      (unmarshalStoredData12 .given sctx)
      (fun value m => source.BlobAt progress.contents progress.pos value ∧
        UnpackingWith area base source (progress.storeBlob source value)
          (covers (hashed ++ source.slice progress.pos
            (source.blobLength progress.pos))) m) := by
  have small (pos len : Nat) : (source.slice pos len).length ≤ 1024 := by
    simp [Source.slice]
    omega
  have inside (free : ¬ stuck) : progress.pos + (12 +
      (source.sealInfoSizeAt progress.pos).toNat +
      (source.encDataSizeAt progress.pos).toNat) ≤ source.bytes.length :=
    (room free).inside
  refine Prog.Runs.bind_value (unmarshalUINT16_runs
    (fun free => by have := inside free; omega) (hash _ _ _ (by grind))) ?_
  refine Prog.Runs.bind_value (unmarshalUINT16_runs
    (fun free => by have := inside free; simp only [Progress.advance]; omega)
    (hash _ _ _ (by grind))) ?_
  refine Prog.Runs.bind_value (unmarshalUINT32_runs
    (fun free => by have := inside free; simp only [Progress.advance]; omega)
    (hash _ _ _ (by grind))) ?_
  have infoSizeEq : ofBe32 (source.slice ((progress.advance 2).advance 2).pos 4) =
      source.sealInfoSizeAt progress.pos := rfl
  simp only [infoSizeEq]
  refine Prog.Runs.bind (unmarshalPtr_runs (fun free => ?_)
    fun _ => hash _ _ _ (by grind)) fun sealInfo => ?_
  · have space := (room free).space
    have inside := inside free
    exact ⟨(room free).sealInfo, by simp only [Progress.advance]; omega, by
      simp only [Progress.advance]; omega⟩
  refine Prog.Runs.assume fun infoFresh => Prog.Runs.assume fun infoInside => ?_
  refine Prog.Runs.bind_value (unmarshalUINT32_runs (fun free => ?_)
    (hash _ _ _ (by grind))) ?_
  · have inside := inside free
    simp only [Progress.advance, Progress.store]
    omega
  have encSizeEq : ofBe32 (source.slice ((((progress.advance 2).advance 2).advance 4).store
      source sealInfo (source.sealInfoSizeAt progress.pos)).pos 4) =
        source.encDataSizeAt progress.pos := rfl
  simp only [encSizeEq]
  refine Prog.Runs.bind (unmarshalPtr_runs (fun free => ?_)
    fun _ => hash _ _ _ (by grind)) fun encData => ?_
  · have space := (room free).space
    have inside := inside free
    exact ⟨(room free).encData, by simp only [Progress.advance, Progress.store]; omega, by
      simp only [Progress.advance, Progress.store]; omega⟩
  refine Prog.Runs.assume fun encFresh => Prog.Runs.assume fun encInside => ?_
  refine Prog.Runs.ret fun m holds => ?_
  have different : encData ≠ sealInfo := by
    rintro rfl
    simp [Progress.advance, Progress.store] at encFresh
  simp only [Progress.advance, Progress.store, Function.update_of_ne different] at encFresh
  have behind : progress.pos + source.blobLength progress.pos ≤ source.bytes.length := by
    have behind : progress.pos + 8 + (source.sealInfoSizeAt progress.pos).toNat + 4 +
      (source.encDataSizeAt progress.pos).toNat ≤ source.bytes.length := encInside
    rw [Source.blobLength]
    omega
  refine ⟨⟨rfl, rfl, rfl, rfl, infoFresh, encFresh, different, behind⟩, ?_⟩
  rw [Source.slice_blob]
  simp only [List.append_assoc] at holds ⊢
  exact holds

theorem sealResponse_runs {session : SessionSlot} {s : UInt32} {sharedSecret : Block 20}
    (place : source.buffer = .tisOut) (length : source.bytes.length = 1024)
    (room : ¬ stuck → s ≠ 0 ∧ (source.result = 0 →
      source.BlobFits area progress.used 10 ∧
        10 + source.blobLength 10 + 41 ≤ 1024)) :
    Prog.Runs stuck (Receiving area base source progress)
      (sealResponse session s sharedSecret)
      (fun ret m =>
        (source.result ≠ 0 →
          ret = .error (tpmError source.result) emptyStoredData12) ∧
        (source.result = 0 → source.BlobAt progress.contents 10 ret.value ∧
          Unpacking area base source
            (((Progress.storeBlob { progress with pos := 10 } source ret.value).receive s
              (source.trailerAt (10 + source.blobLength 10))).advance 20) m ∧
          (ret.exception = .none ↔ source.Accepted tagRspAuth1Command ordSeal
              (source.blobLength 10) [(sharedSecret, (progress.objects s).nonceOdd)] ∧
            (source.trailerAt (10 + source.blobLength 10)).continueAuthSession = 0))) := by
  refine Prog.Runs.bind sha1InitLocal_holds.runs fun _ => ?_
  refine Prog.Runs.bind_value (unmarshalHeader_runs place length
    (hashBytes_plain source.result_short)) ?_
  refine Prog.Runs.ite (fun failed => ?_) fun success => ?_
  · exact Prog.Runs.ret fun m _ => ⟨fun _ => rfl, fun zero => (failed zero).elim⟩
  have success : source.result = 0 := Decidable.of_not_not success
  refine Prog.Runs.bind_value (unmarshalUINT32_hidden (by decide) (hashBytes_plain
    (by simp [Source.slice]; omega))).runs ?_
  have short : ([] ++ source.slice 6 4 ++ be32 ordSeal).length ≤ 1024 := by
    rw [List.nil_append, List.length_append, length_be32, Source.slice, List.length_take]
    exact Nat.add_le_add_right ((Nat.min_le_left 4 _).trans (by decide : 4 ≤ 1020)) 4
  refine Prog.Runs.bind (unmarshalStoredData12_runs (by omega) short
    (fun _ _ _ bounded => hashBytes_plain bounded) fun free => ((room free).2 success).1)
    fun value => Prog.Runs.assume fun blob => ?_
  have position : (Progress.storeBlob { progress with pos := 10 } source value).pos =
      10 + source.blobLength 10 := by
    have sizes := blob.sealInfoSize
    have encSizes := blob.encDataSize
    simp only [Progress.storeBlob, Progress.store, Progress.advance, Source.blobLength,
      sizes, encSizes]
    omega
  have small : (source.slice 10 (source.blobLength 10)).length ≤ 1024 := by
    simp [Source.slice]
    omega
  refine Prog.Runs.bind (sha1FinishLocal_holds
    (by simp [Source.slice] at small ⊢; omega)).runs fun _ => ?_
  refine Prog.Runs.bind (unmarshalAuth_runs fun free => ⟨(room free).1, ?_⟩)
    fun _ => Prog.Runs.assume fun nonNull => ?_
  · have := ((room free).2 success).2
    rw [position, length]
    omega
  refine Prog.Runs.bind_value (unmarshalResAuth_runs
    (by simp [TpmWire.ResponseTrailer.message]) fun free => ?_) ?_
  · have := ((room free).2 success).2
    simp only [Progress.receive, position, length]
    omega
  refine Prog.Runs.bind_read _ (fun m holds => unpackFinish_eq holds.1) ?_
  have accepted : source.Accepted tagRspAuth1Command ordSeal (source.blobLength 10)
      [(sharedSecret, (progress.objects s).nonceOdd)] ↔ _ :=
    Source.accepted_one length rfl rfl
  have flag : (((Progress.storeBlob { progress with pos := 10 } source value).receive s
      (source.trailerAt (10 + source.blobLength 10))).objects s).continueAuthSession =
        (source.trailerAt (10 + source.blobLength 10)).continueAuthSession := by
    simp [Progress.receive, TpmSession.receive]
  simp only [position]
  refine Prog.Runs.ite (fun wrong => ?_) fun size => ?_
  · refine Prog.Runs.ret fun m holds => ⟨fun failed => (failed success).elim,
      fun _ => ⟨blob, holds.1, iff_of_false (by simp) fun good => wrong ?_⟩⟩
    simp only [Progress.advance, Progress.receive, position]
    exact (accepted.mp good.1).2.1.symm
  refine Prog.Runs.ite (fun wrong => ?_) fun tag => ?_
  · refine Prog.Runs.ret fun m holds => ⟨fun failed => (failed success).elim,
      fun _ => ⟨blob, holds.1, iff_of_false (by simp) fun good => wrong ?_⟩⟩
    exact (accepted.mp good.1).1
  refine Prog.Runs.ite (fun wrong => ?_) fun auth => ?_
  · refine Prog.Runs.ret fun m holds => ⟨fun failed => (failed success).elim,
      fun _ => ⟨blob, holds.1, iff_of_false (by simp) fun good => wrong ?_⟩⟩
    simp only [Progress.receive, position]
    exact (accepted.mp good.1).2.2.symm
  refine Prog.Runs.bind_value (loadSession_runs (fun _ => nonNull)
    fun m holds => congrFun holds.1.objects s) (Prog.Runs.assume fun _ => ?_)
  refine Prog.Runs.ite (fun wrong => ?_) fun ended => ?_
  · refine Prog.Runs.ret fun m holds => ⟨fun failed => (failed success).elim,
      fun _ => ⟨blob, holds.1, iff_of_false (by simp) fun good => wrong ?_⟩⟩
    exact flag.trans good.2
  refine Prog.Runs.bind (setSlot_receives session 0).runs fun _ => ?_
  refine Prog.Runs.ret fun m holds => ⟨fun failed => (failed success).elim,
    fun _ => ⟨blob, holds.1, iff_of_true rfl ⟨accepted.mpr
      ⟨Decidable.of_not_not tag, ?_, ?_⟩, ?_⟩⟩⟩
  · have size := (Decidable.of_not_not size).symm
    simp only [Progress.advance, Progress.receive, position] at size
    exact size
  · have auth := (Decidable.of_not_not auth).symm
    simp only [Progress.receive, position] at auth
    exact auth
  · exact flag.symm.trans (Decidable.of_not_not ended)

end Responses

end Sable
