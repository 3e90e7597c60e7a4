import Sable.ResponseFrames
import Sable.Frames

/-!
# What the parsers read of the output buffer

The parsers of the responses take bytes from the front of the output buffer, and
the unpack context counts them.  A parser that returns depends on these bytes
only: with any other bytes behind them it returns the same.  For this the count
must not wrap around, which holds because the allocator refuses blocks that are
larger than the heap.
-/

namespace Sable

open ByteMemory BigEndian HaltingProgram

variable {σ α β : Type} {area : HeapArea}

/-- The heap is in the state that `init_heap` and `alloc` leave it in. -/
def SoundHeap (area : HeapArea) (m : Machine σ) : Prop :=
  m.heap = area.heap ∧ ∃ used, Tracks area used (fun _ => none) m.mem

/-- The machine with other bytes in the output buffer. -/
def Machine.withOut (m : Machine σ) (out : Mem) : Machine σ :=
  { m with tisOut := out }

/-- The number of bytes that have been unpacked. -/
def Machine.parsed (m : Machine σ) : Nat :=
  m.locals.uctx.bytesUnpacked.toNat

/-- The output buffer is being unpacked. -/
structure Reading (area : HeapArea) (m : Machine σ) : Prop where
  heap : SoundHeap area m
  buffer : m.locals.uctx.unpackBuffer = .tisOut
  size : m.locals.uctx.size = 1024
  bound : m.parsed ≤ 1024

/-- A run that keeps the output buffer and depends only on the bytes of it that
have been unpacked in the end. -/
structure ReadsParsed (program : Boot σ α) (m : Machine σ) (value : α)
    (reached : Machine σ) : Prop where
  kept : reached.tisOut = m.tisOut
  determined : ∀ out, read out 0 reached.parsed = read m.tisOut 0 reached.parsed →
    program (m.withOut out) = .ok value (reached.withOut out)

/-- A part of a parser, which goes on with the unpacking. -/
def Parses (area : HeapArea) (program : Boot σ α) : Prop :=
  ∀ m value reached, Reading area m → program m = .ok value reached →
    Reading area reached ∧ m.parsed ≤ reached.parsed ∧
      ReadsParsed program m value reached

section Rules

theorem read_agree {first second : Mem} {start len stop : Nat} (inside : start + len ≤ stop)
    (same : read first 0 stop = read second 0 stop) :
    read first start len = read second start len := by
  have part (mem : Mem) : read mem start len = ((read mem 0 stop).drop start).take len := by
    rw [drop_read _ _ _ _ (by omega), Nat.zero_add, take_read _ _ _ _ (by omega)]
  rw [part first, part second, same]

theorem ReadsParsed.bind {program : Boot σ α} {next : α → Boot σ β}
    {m between reached : Machine σ} {middle : α} {value : β}
    (first : ReadsParsed program m middle between)
    (second : ReadsParsed (next middle) between value reached)
    (forward : between.parsed ≤ reached.parsed) :
    ReadsParsed (program >>= next) m value reached := by
  refine ⟨second.kept.trans first.kept, fun out agree => ?_⟩
  have early := first.determined out (read_agree (by omega) agree)
  rw [Prog.bind_ok early]
  exact second.determined out (agree.trans (by rw [first.kept]))

theorem Parses.bind {program : Boot σ α} {next : α → Boot σ β}
    (first : Parses area program) (second : ∀ value, Parses area (next value)) :
    Parses area (program >>= next) := by
  intro m value reached reading run
  obtain ⟨middle, between, run, runNext⟩ := Prog.bind_eq_ok.mp run
  obtain ⟨readingNext, forward, reads⟩ := first m middle between reading run
  obtain ⟨readingLast, forwardNext, readsNext⟩ :=
    second middle between value reached readingNext runNext
  exact ⟨readingLast, forward.trans forwardNext, reads.bind readsNext forwardNext⟩

theorem Parses.ite {condition : Prop} [Decidable condition] {yes no : Boot σ α}
    (first : Parses area yes) (second : Parses area no) :
    Parses area (if condition then yes else no) := by
  split
  · exact first
  · exact second

@[grind ←]
theorem Parses.ret (value : α) : Parses area (pure value : Boot σ α) := by
  intro m _ _ reading run
  cases run
  exact ⟨reading, Nat.le_refl _, rfl, fun _ _ => rfl⟩

@[grind ←]
theorem Parses.halt (reason : Halt) : Parses area (Prog.halt reason : Boot σ α) := by
  intro m value reached reading run
  cases run

/-- A program that reads a part of the state other than the output buffer. -/
theorem Parses.get {next : Machine σ → Boot σ α} (parses : ∀ m, Parses area (next m))
    (blind : ∀ m out, next (m.withOut out) = next m) :
    Parses area (Prog.get >>= next) := by
  intro m value reached reading run
  rw [Prog.bind_get] at run
  obtain ⟨readingNext, forward, kept, determined⟩ := parses m m value reached reading run
  refine ⟨readingNext, forward, kept, fun out agree => ?_⟩
  rw [Prog.bind_get, blind]
  exact determined out agree

/-- A step that leaves the heap, the unpack context and the output buffer alone
and does not look at the buffer. -/
theorem Parses.step {transform : Machine σ → α × Machine σ}
    (rest : ∀ m, (transform m).2.heap = m.heap ∧ (transform m).2.mem = m.mem ∧
      (transform m).2.locals.uctx = m.locals.uctx ∧ (transform m).2.tisOut = m.tisOut)
    (blind : ∀ m out, transform (m.withOut out) =
      ((transform m).1, (transform m).2.withOut out)) :
    Parses area (Prog.step transform : Boot σ α) := by
  intro m value reached reading run
  obtain ⟨heap, mem, uctx, out⟩ := rest m
  cases run
  have parsed : (transform m).2.parsed = m.parsed := by rw [Machine.parsed, uctx]; rfl
  obtain ⟨⟨sameHeap, tracks⟩, buffer, size, bound⟩ := reading
  refine ⟨⟨⟨heap.trans sameHeap, by rw [mem]; exact tracks⟩, by rw [uctx]; exact buffer,
    by rw [uctx]; exact size, by rw [parsed]; exact bound⟩, by rw [parsed], out, ?_⟩
  intro other _
  rw [Prog.step_apply, blind]

theorem Parses.modify {update : Machine σ → Machine σ}
    (rest : ∀ m, (update m).heap = m.heap ∧ (update m).mem = m.mem ∧
      (update m).locals.uctx = m.locals.uctx ∧ (update m).tisOut = m.tisOut)
    (blind : ∀ m out, update (m.withOut out) = (update m).withOut out) :
    Parses area (Prog.modify update : Boot σ Unit) := by
  have same : (Prog.modify update : Boot σ Unit) = Prog.step fun m => ((), update m) := rfl
  rw [same]
  exact Parses.step (fun m => rest m) fun m out => Prod.ext rfl (blind m out)

end Rules

section Primitives

@[grind ←]
theorem emit_parses (event : Event) : Parses area (emit event : Boot σ Unit) :=
  Parses.modify (fun _ => ⟨rfl, rfl, rfl, rfl⟩) fun _ _ => rfl

@[grind ←]
theorem assert_parses {condition : Prop} [Decidable condition] :
    Parses area (assert condition : Boot σ Unit) :=
  Parses.ite (Parses.ret _) (Parses.halt _)

@[grind ←]
theorem setSlot_parses (slot : SessionSlot) (ptr : UInt32) :
    Parses area (setSlot slot ptr : Boot σ Unit) :=
  Parses.modify (fun _ => ⟨rfl, rfl, rfl, rfl⟩) fun _ _ => rfl

@[grind ←]
theorem loadSession_parses (ptr : UInt32) :
    Parses area (loadSession ptr : Boot σ TpmSession) :=
  Parses.ite (Parses.halt _) (Parses.get (fun _ => Parses.ret _) fun _ _ => rfl)

@[grind ←]
theorem updateSession_parses (ptr : UInt32) (update : TpmSession → TpmSession) :
    Parses area (updateSession ptr update : Boot σ Unit) :=
  Parses.ite (Parses.halt _)
    (Parses.modify (fun _ => ⟨rfl, rfl, rfl, rfl⟩) fun _ _ => rfl)

@[grind ←]
theorem updateOsap_parses (ptr : UInt32) (update : TpmOsapExtension → TpmOsapExtension) :
    Parses area (updateOsap ptr update : Boot σ Unit) :=
  Parses.ite (Parses.halt _)
    (Parses.modify (fun _ => ⟨rfl, rfl, rfl, rfl⟩) fun _ _ => rfl)

@[grind ←]
theorem hashBytes_parses (bytes : List UInt8) (sctx : HashPtr) :
    Parses area (hashBytes bytes sctx : Boot σ Unit) := by
  refine Parses.get (fun m => Parses.ite ?_ (Parses.halt _)) fun _ _ => rfl
  refine Parses.modify (fun m => ⟨rfl, rfl, ?_, rfl⟩) fun _ _ => rfl
  cases sctx <;> rfl

@[grind ←]
theorem sha1FinishLocal_parses : Parses area (sha1FinishLocal : Boot σ Unit) :=
  Parses.modify (fun _ => ⟨rfl, rfl, rfl, rfl⟩) fun _ _ => rfl

@[grind ←]
theorem hmacInitLocal_parses (key : List UInt8) :
    Parses area (hmacInitLocal key : Boot σ Unit) :=
  Parses.modify (fun _ => ⟨rfl, rfl, rfl, rfl⟩) fun _ _ => rfl

@[grind ←]
theorem hmacFinishLocal_parses : Parses area (hmacFinishLocal : Boot σ Unit) :=
  Parses.modify (fun _ => ⟨rfl, rfl, rfl, rfl⟩) fun _ _ => rfl

@[grind ←]
theorem sctxHash_parses : Parses area (sctxHash : Boot σ (Block 20)) :=
  Parses.get (fun _ => Parses.ret _) fun _ _ => rfl

@[grind ←]
theorem hctxHash_parses : Parses area (hctxHash : Boot σ (Block 20)) :=
  Parses.get (fun _ => Parses.ret _) fun _ _ => rfl

@[grind ←]
theorem unpackFinish_parses : Parses area (unpackFinish : Boot σ UInt32) :=
  Parses.get (fun _ => Parses.ret _) fun _ _ => rfl

end Primitives

section Unpacking

/-- The overflow check of a size that fits the address space does not wrap. -/
theorem Reading.advance {m : Machine σ} (reading : Reading area m) {size : UInt32}
    (small : size.toNat < 2 ^ 31)
    (fits : m.locals.uctx.bytesUnpacked + size ≤ m.locals.uctx.size) :
    (m.locals.uctx.bytesUnpacked + size).toNat = m.parsed + size.toNat ∧
      m.parsed + size.toNat ≤ 1024 := by
  have bound := reading.bound
  have sum : (m.locals.uctx.bytesUnpacked + size).toNat = m.parsed + size.toNat := by
    rw [UInt32.toNat_add, Nat.mod_eq_of_lt]
    · rfl
    · change m.parsed + size.toNat < 2 ^ 32
      omega
  rw [reading.size, UInt32.le_iff_toNat_le, sum] at fits
  exact ⟨sum, fits⟩

theorem unpackBytes_parses {size : UInt32} (small : size.toNat < 2 ^ 31) :
    Parses area (unpackBytes size : Boot σ (List UInt8)) := by
  intro m value reached reading run
  rw [unpackBytes_eq] at run
  split at run
  · rename_i fits
    obtain ⟨sum, inside⟩ := reading.advance small fits
    cases run
    refine ⟨⟨reading.heap, reading.buffer, reading.size, ?_⟩, ?_, rfl, ?_⟩
    · exact sum.trans_le inside
    · exact (Nat.le_add_right _ _).trans sum.ge
    · intro out agree
      have same : (m.withOut out).readBuffer m.parsed size.toNat m.locals.uctx.unpackBuffer =
          m.readBuffer m.parsed size.toNat m.locals.uctx.unpackBuffer := by
        rw [reading.buffer]
        exact read_agree sum.ge agree
      exact (unpackBytes_eq size _).trans ((if_pos fits).trans (congrArg (Outcome.ok · _) same))
  · cases run

/-- What `alloc` does to a sound heap: it returns null and leaves it alone, or it
returns a block of fewer than `2 ^ 31` bytes, which the caller may fill. -/
theorem SoundHeap.alloc {m : Machine σ} (sound : SoundHeap area m) {size ptr : UInt32}
    {mem : Mem} (run : alloc m.heap size m.mem = .ok ptr mem) :
    SoundHeap area { m with mem := mem } ∧
      (ptr ≠ 0 → size.toNat < 2 ^ 31 ∧ ∀ bytes : List UInt8, bytes.length = size.toNat →
        SoundHeap area { m with mem := write mem ptr.toNat bytes }) := by
  obtain ⟨heap, used, tracks⟩ := sound
  have positive : 0 < size := by
    by_contra zero
    rw [Sable.alloc, if_neg zero] at run
    cases run
  by_cases room : used + size.toNat / 8 + 2 ≤ area.units
  · obtain ⟨block, filled, runs, -, tracked⟩ := tracks.alloc positive room
    rw [← heap, run] at runs
    cases runs
    have forget {contents : UInt32 → Option (List UInt8)} {mem : Mem} {used : Nat}
        (tracks : Tracks area used contents mem) : Tracks area used (fun _ => none) mem := by
      obtain ⟨blocks, layout, same, -⟩ := tracks
      exact ⟨blocks, layout, same, by simp⟩
    refine ⟨⟨heap, _, forget tracked⟩, fun _ => ⟨?_, fun bytes length => ?_⟩⟩
    · obtain ⟨blocks, layout, -, -⟩ := tracks
      have units := units_lt layout.small
      omega
    · refine ⟨heap, _, forget (tracked.change (Function.update_self ..) ?_)⟩
      intro a outside
      rw [length_read, ← length] at outside
      exact write_outside mem (by omega)
  · have full := tracks.alloc_full positive room
    rw [← heap, run] at full
    cases full
    exact ⟨⟨heap, used, tracks⟩, fun nonNull => (nonNull rfl).elim⟩

theorem allocHeap_inv {m reached : Machine σ} {size ptr : UInt32}
    (run : allocHeap size m = .ok ptr reached) :
    ∃ mem, alloc m.heap size m.mem = .ok ptr mem ∧ reached = { m with mem := mem } := by
  rw [allocHeap] at run
  cases result : alloc m.heap size m.mem with
  | ok block mem =>
      rw [result] at run
      cases run
      exact ⟨mem, rfl, rfl⟩
  | halt reason mem =>
      rw [result] at run
      cases run

@[grind ←]
theorem allocHeap_parses (size : UInt32) :
    Parses area (allocHeap size : Boot σ UInt32) := by
  intro m ptr reached reading run
  obtain ⟨mem, allocates, rfl⟩ := allocHeap_inv run
  refine ⟨⟨(reading.heap.alloc allocates).1, reading.buffer, reading.size, reading.bound⟩,
    Nat.le_refl _, rfl, ?_⟩
  intro out _
  exact allocHeap_ok allocates

@[grind ←]
theorem allocSession_parses : Parses area (allocSession : Boot σ UInt32) :=
  (allocHeap_parses 49).bind fun _ => Parses.bind
    (Parses.modify (fun _ => ⟨rfl, rfl, rfl, rfl⟩) fun _ _ => rfl) fun _ => Parses.ret _

@[grind ←]
theorem allocOsap_parses : Parses area (allocOsap : Boot σ UInt32) :=
  (allocHeap_parses 40).bind fun _ => Parses.bind
    (Parses.modify (fun _ => ⟨rfl, rfl, rfl, rfl⟩) fun _ _ => rfl) fun _ => Parses.ret _

/-- The state in which `unmarshal_ptr` hashes its copy. -/
def Machine.copied (m : Machine σ) (mem : Mem) (ptr size : UInt32) : Machine σ :=
  { m with
    mem := write mem ptr.toNat (read m.tisOut m.parsed size.toNat)
    locals := { m.locals with uctx := { m.locals.uctx with
      bytesUnpacked := m.locals.uctx.bytesUnpacked + size } } }

theorem unmarshalPtr_eq {m : Machine σ} {size ptr : UInt32} {mem : Mem} {sctx : HashPtr}
    (buffer : m.locals.uctx.unpackBuffer = .tisOut)
    (fits : m.locals.uctx.bytesUnpacked + size ≤ m.locals.uctx.size)
    (allocates : alloc m.heap size m.mem = .ok ptr mem) (nonNull : ptr ≠ 0) :
    unmarshalPtr size .given sctx m =
      (hashBytes (read m.tisOut m.parsed size.toNat) sctx >>= fun _ => pure ptr)
        (m.copied mem ptr size) := by
  have content : read (write mem ptr.toNat (read m.tisOut m.parsed size.toNat)) ptr.toNat
      size.toNat = read m.tisOut m.parsed size.toNat := by
    have self := read_write_self mem ptr.toNat (read m.tisOut m.parsed size.toNat)
    rw [length_read] at self
    exact self
  have peek : peekBytes size { m with mem := mem } =
      .ok (read m.tisOut m.parsed size.toNat) { m with mem := mem } := by
    rw [peekBytes, Prog.bind_get, Prog.pure_apply]
    simp only [buffer]
    rfl
  rw [unmarshalPtr, Prog.bind_ok (assert_ok (by decide) m),
    Prog.bind_ok (checkUnpackOverflow_ok fits), Prog.bind_ok (allocHeap_ok allocates),
    Prog.bind_ok (assert_ok nonNull _), Prog.bind_ok peek, Prog.bind_modify, advance,
    Prog.bind_modify, Prog.bind_get]
  simp only [content]
  rfl

/-- A run of `unmarshal_ptr` that returns has passed the bounds check and got a
block. -/
theorem unmarshalPtr_inv {m reached : Machine σ} {size value : UInt32} {sctx : HashPtr}
    (run : unmarshalPtr size .given sctx m = .ok value reached) :
    m.locals.uctx.bytesUnpacked + size ≤ m.locals.uctx.size ∧
      ∃ ptr mem, alloc m.heap size m.mem = .ok ptr mem ∧ ptr ≠ 0 := by
  rw [unmarshalPtr, Prog.bind_ok (assert_ok (by decide) m)] at run
  by_cases fits : m.locals.uctx.bytesUnpacked + size ≤ m.locals.uctx.size
  swap
  · rw [Prog.bind_halt (checkUnpackOverflow_halt fits)] at run
    cases run
  rw [Prog.bind_ok (checkUnpackOverflow_ok fits)] at run
  obtain ⟨ptr, between, runAlloc, run⟩ := Prog.bind_eq_ok.mp run
  obtain ⟨mem, allocates, rfl⟩ := allocHeap_inv runAlloc
  refine ⟨fits, ptr, mem, allocates, ?_⟩
  rintro rfl
  rw [Prog.bind_halt (assert_halt (by simp) _)] at run
  cases run

theorem unmarshalPtr_parses (size : UInt32) (sctx : HashPtr) :
    Parses area (unmarshalPtr size .given sctx : Boot σ UInt32) := by
  intro m value reached reading run
  obtain ⟨fits, ptr, mem, allocates, nonNull⟩ := unmarshalPtr_inv run
  obtain ⟨small, fill⟩ := (reading.heap.alloc allocates).2 nonNull
  obtain ⟨sum, inside⟩ := reading.advance small fits
  rw [unmarshalPtr_eq reading.buffer fits allocates nonNull] at run
  have copied : Reading area (m.copied mem ptr size) :=
    ⟨fill _ (length_read ..), reading.buffer, reading.size, sum.trans_le inside⟩
  have hashes : Parses area (hashBytes (read m.tisOut m.parsed size.toNat) sctx >>= fun _ =>
      pure ptr : Boot σ UInt32) :=
    (hashBytes_parses _ _).bind fun _ => Parses.ret _
  obtain ⟨readingNext, forward, kept, determined⟩ := hashes _ _ _ copied run
  have parsed : (m.copied mem ptr size).parsed = m.parsed + size.toNat := sum
  rw [parsed] at forward
  refine ⟨readingNext, by omega, kept, fun out agree => ?_⟩
  have same : read out m.parsed size.toNat = read m.tisOut m.parsed size.toNat :=
    read_agree forward agree
  have moved : (m.withOut out).copied mem ptr size = (m.copied mem ptr size).withOut out := by
    rw [Machine.copied, Machine.copied]
    exact congrArg (fun bytes => { (m.copied mem ptr size).withOut out with
      mem := write mem ptr.toNat bytes }) same
  have other : unmarshalPtr size .given sctx (m.withOut out) =
      (hashBytes (read out m.parsed size.toNat) sctx >>= fun _ => pure ptr)
        ((m.withOut out).copied mem ptr size) :=
    unmarshalPtr_eq reading.buffer fits allocates nonNull
  rw [other, same, moved]
  exact determined out agree

end Unpacking

section Fields

@[grind ←]
theorem unmarshalBYTE_parses (val : UInt8) (ctx : ContextPtr) (sctx : HashPtr) :
    Parses area (unmarshalBYTE val ctx sctx : Boot σ UInt8) := by
  have unpacks : Parses area (unpackBytes 1 : Boot σ (List UInt8)) :=
    unpackBytes_parses (by decide)
  unfold unmarshalBYTE
  repeat' first
    | with_reducible intro _
    | with_reducible apply Parses.bind
    | with_reducible apply Parses.ite
  all_goals grind

@[grind ←]
theorem unmarshalUINT16_parses (val : UInt16) (ctx : ContextPtr) (sctx : HashPtr) :
    Parses area (unmarshalUINT16 val ctx sctx : Boot σ UInt16) := by
  have unpacks : Parses area (unpackBytes 2 : Boot σ (List UInt8)) :=
    unpackBytes_parses (by decide)
  unfold unmarshalUINT16
  repeat' first
    | with_reducible intro _
    | with_reducible apply Parses.bind
    | with_reducible apply Parses.ite
  all_goals grind

@[grind ←]
theorem unmarshalUINT32_parses (val : UInt32) (ctx : ContextPtr) (sctx : HashPtr) :
    Parses area (unmarshalUINT32 val ctx sctx : Boot σ UInt32) := by
  have unpacks : Parses area (unpackBytes 4 : Boot σ (List UInt8)) :=
    unpackBytes_parses (by decide)
  unfold unmarshalUINT32
  repeat' first
    | with_reducible intro _
    | with_reducible apply Parses.bind
    | with_reducible apply Parses.ite
  all_goals grind

theorem unmarshalArray_parses (data : Option (List UInt8)) {size : UInt32}
    (small : size.toNat < 2 ^ 31) (ctx : ContextPtr) (sctx : HashPtr) :
    Parses area (unmarshalArray data size ctx sctx : Boot σ (Option (List UInt8))) := by
  have hashes (data : Option (List UInt8)) : Parses area (do
      let m ← Prog.get
      hashBytes (data.getD (read m.mem 0 size.toNat)) sctx
      return data : Boot σ (Option (List UInt8))) :=
    Parses.get (fun _ => (hashBytes_parses _ _).bind fun _ => Parses.ret _) fun _ _ => rfl
  refine assert_parses.bind fun _ => Parses.ite (hashes data) ?_
  exact (unpackBytes_parses small).bind fun tmp => hashes (data.map fun _ => tmp)

@[grind ←]
theorem unmarshalObject_parses (data : Block 20) (ctx : ContextPtr) (sctx : HashPtr) :
    Parses area (unmarshalObject data ctx sctx : Boot σ (Block 20)) :=
  (unmarshalArray_parses _ (by decide) ctx sctx).bind fun _ => Parses.ret _

@[grind ←]
theorem unmarshalStoredData12_parses (sctx : HashPtr) :
    Parses area (unmarshalStoredData12 .given sctx : Boot σ TpmStoredData12) := by
  have copies (size : UInt32) : Parses area (unmarshalPtr size .given sctx : Boot σ UInt32) :=
    unmarshalPtr_parses size sctx
  unfold unmarshalStoredData12
  repeat' first
    | with_reducible intro _
    | with_reducible apply Parses.bind
  all_goals grind

@[grind ←]
theorem unmarshalHeapData_parses (ordinal : UInt32) :
    Parses area (unmarshalHeapData ordinal : Boot σ HeapData) := by
  have copies (size : UInt32) : Parses area (unmarshalPtr size .given .plain : Boot σ UInt32) :=
    unmarshalPtr_parses size .plain
  unfold unmarshalHeapData
  repeat' first
    | with_reducible intro _
    | with_reducible apply Parses.bind
  all_goals grind

@[grind ←]
theorem unmarshalAuth_parses (secret : Block 20) (s : UInt32) :
    Parses area (unmarshalAuth secret s : Boot σ Unit) := by
  unfold unmarshalAuth
  repeat' first
    | with_reducible intro _
    | with_reducible apply Parses.bind
  all_goals grind

@[grind ←]
theorem unmarshalResAuth_parses :
    Parses area (unmarshalResAuth : Boot σ (Block 20 × Block 20)) := by
  unfold unmarshalResAuth
  repeat' first
    | with_reducible intro _
    | with_reducible apply Parses.bind
  all_goals grind

@[grind ←]
theorem closeSession_parses (session : SessionSlot) (s : UInt32) :
    Parses area (closeSession session s : Boot σ Unit) := by
  unfold closeSession
  repeat' first
    | with_reducible intro _
    | with_reducible apply Parses.bind
    | with_reducible apply Parses.ite
  all_goals grind

end Fields

section Parsers

/-- A parser from its start: it sets up the unpack context itself. -/
def StartsParsing (area : HeapArea) (program : Boot σ α) : Prop :=
  ∀ m value reached, SoundHeap area m → program m = .ok value reached →
    Reading area reached ∧ ReadsParsed program m value reached

theorem unpackInit_startsParsing {next : Unit → Boot σ α} (parses : Parses area (next ())) :
    StartsParsing area (unpackInit .tisOut 1024 >>= next) := by
  intro m value reached heap run
  obtain ⟨reading, -, kept, determined⟩ := parses
    { m with locals := { m.locals with uctx := ⟨.tisOut, 0, 1024⟩ } } value reached
    ⟨heap, rfl, rfl, Nat.zero_le _⟩ run
  exact ⟨reading, kept, determined⟩

theorem sha1InitLocal_startsParsing {next : Unit → Boot σ α}
    (starts : StartsParsing area (next ())) :
    StartsParsing area (sha1InitLocal >>= next) := by
  intro m value reached heap run
  obtain ⟨reading, kept, determined⟩ := starts
    { m with locals := { m.locals with sctx := sha1Init m.locals.sctx } } value reached
    heap run
  exact ⟨reading, kept, determined⟩

theorem unmarshalHeader_startsParsing {sctx : HashPtr} {next : ResponseHeader → Boot σ α}
    (parses : ∀ header, Parses area (next header)) :
    StartsParsing area (unmarshalHeader sctx >>= next) := by
  rw [unmarshalHeader, bind_assoc]
  refine unpackInit_startsParsing ?_
  simp only [bind_assoc, pure_bind]
  repeat' first
    | with_reducible intro _
    | with_reducible apply Parses.bind
  all_goals grind

theorem StartsParsing.bind {program : Boot σ α} {next : α → Boot σ β}
    (first : StartsParsing area program) (second : ∀ value, Parses area (next value)) :
    StartsParsing area (program >>= next) := by
  intro m value reached heap run
  obtain ⟨middle, between, run, runNext⟩ := Prog.bind_eq_ok.mp run
  obtain ⟨reading, reads⟩ := first m middle between heap run
  obtain ⟨readingNext, forward, readsNext⟩ :=
    second middle between value reached reading runNext
  exact ⟨readingNext, reads.bind readsNext forward⟩

theorem plainResponse_startsParsing {initial : α} {params : Boot σ (Result α)}
    (parses : Parses area params) :
    StartsParsing area (plainResponse initial params) := by
  refine unmarshalHeader_startsParsing fun header => ?_
  repeat' first
    | with_reducible intro _
    | with_reducible apply Parses.bind
    | with_reducible apply Parses.ite
  all_goals grind

theorem nvWriteResponse_startsParsing (nvAuth : Block 20) (session : SessionSlot) (s : UInt32) :
    StartsParsing area (nvWriteResponse nvAuth session s : Boot σ (Result Unit)) := by
  refine sha1InitLocal_startsParsing (unmarshalHeader_startsParsing fun header => ?_)
  repeat' first
    | with_reducible intro _
    | with_reducible apply Parses.bind
    | with_reducible apply Parses.ite
  all_goals grind

theorem nvReadResponse_startsParsing (ownerAuth : Block 20) (session : Option SessionSlot)
    (s : UInt32) :
    StartsParsing area (nvReadResponse ownerAuth session s : Boot σ (Result HeapData)) := by
  have close : Parses area (session.forM fun slot => closeSession slot s : Boot σ Unit) := by
    cases session with
    | none => exact Parses.ret _
    | some slot => exact closeSession_parses slot s
  refine sha1InitLocal_startsParsing (unmarshalHeader_startsParsing fun header => ?_)
  repeat' first
    | with_reducible intro _
    | with_reducible apply Parses.bind
    | with_reducible apply Parses.ite
  all_goals grind

theorem unsealResponse_startsParsing (parentAuth : Block 20) (parentSession : SessionSlot)
    (parentS : UInt32) (dataAuth : Block 20) (dataSession : SessionSlot) (dataS : UInt32) :
    StartsParsing area (unsealResponse parentAuth parentSession parentS dataAuth dataSession
      dataS : Boot σ (Result HeapData)) := by
  refine sha1InitLocal_startsParsing (unmarshalHeader_startsParsing fun header => ?_)
  repeat' first
    | with_reducible intro _
    | with_reducible apply Parses.bind
    | with_reducible apply Parses.ite
  all_goals grind

theorem sealResponse_startsParsing (session : SessionSlot) (s : UInt32) (sharedSecret : Block 20) :
    StartsParsing area
      (sealResponse session s sharedSecret : Boot σ (Result TpmStoredData12)) := by
  refine sha1InitLocal_startsParsing (unmarshalHeader_startsParsing fun header => ?_)
  repeat' first
    | with_reducible intro _
    | with_reducible apply Parses.bind
    | with_reducible apply Parses.ite
  all_goals grind

end Parsers

section Sizes

/-- A parser that succeeds only if it has unpacked as many bytes as the header of
the response announces. -/
def ChecksSize (area : HeapArea) (program : Boot σ (Result α)) : Prop :=
  ∀ out, Prog.Runs True (fun m => SoundHeap area m ∧ m.tisOut = out) program
    (fun ret m => ret.exception = .none →
      m.locals.uctx.bytesUnpacked = ofBe32 (read out 2 4))

theorem unmarshalHeader_paramSize {sctx : HashPtr} {m reached : Machine σ}
    {header : ResponseHeader} (run : unmarshalHeader sctx m = .ok header reached) :
    header.paramSize = ofBe32 (read m.tisOut 2 4) := by
  simp only [unmarshalHeader, unmarshalUINT16, unmarshalUINT32, hashBytes_null_eq] at run
  change ((hashBytes (read m.tisOut 6 4) sctx >>= fun _ => pure (ofBe32 (read m.tisOut 6 4))) >>=
    fun res => (pure ⟨ofBe16 (read m.tisOut 0 2), ofBe32 (read m.tisOut 2 4), res⟩ :
      Boot σ ResponseHeader)) _ = _ at run
  obtain ⟨res, between, -, run⟩ := Prog.bind_eq_ok.mp run
  cases run
  rfl

variable {out : Mem}

/-- The parser of a response whose bytes are `out`. -/
def ReadingOut (area : HeapArea) (out : Mem) (m : Machine σ) : Prop :=
  Reading area m ∧ m.tisOut = out

theorem unmarshalHeader_readingOut (sctx : HashPtr) :
    Prog.Runs True (fun m : Machine σ => SoundHeap area m ∧ m.tisOut = out)
      (unmarshalHeader sctx)
      (fun header m => header.paramSize = ofBe32 (read out 2 4) ∧ ReadingOut area out m) := by
  rintro m ⟨heap, rfl⟩
  have starts : StartsParsing area (unmarshalHeader sctx >>= pure : Boot σ ResponseHeader) :=
    unmarshalHeader_startsParsing fun header => Parses.ret header
  rw [bind_pure] at starts
  cases run : unmarshalHeader sctx m with
  | ok header reached =>
      obtain ⟨reading, reads⟩ := starts m header reached heap run
      exact ⟨unmarshalHeader_paramSize run, reading, reads.kept⟩
  | halt reason reached => trivial

theorem sha1InitLocal_soundHeap (out : Mem) :
    Prog.Runs True (fun m : Machine σ => SoundHeap area m ∧ m.tisOut = out) sha1InitLocal
      (fun _ m => SoundHeap area m ∧ m.tisOut = out) :=
  Prog.Runs.modify fun _ holds => holds

theorem Parses.readingOut {program : Boot σ α} (parses : Parses area program) :
    Prog.Runs True (ReadingOut area out) program (fun _ => ReadingOut area out) := by
  rintro m ⟨reading, rfl⟩
  cases run : program m with
  | ok value reached =>
      obtain ⟨readingNext, -, reads⟩ := parses m value reached reading run
      exact ⟨readingNext, reads.kept⟩
  | halt reason reached => trivial

/-- The comparison with the announced size at the end of every parser. -/
theorem unpackFinish_checks {size : UInt32} {value : α} {next : Boot σ (Result α)}
    {exception : Error} (failure : exception ≠ .none) (same : size = ofBe32 (read out 2 4))
    (rest : Prog.Runs True (fun m => m.locals.uctx.bytesUnpacked = ofBe32 (read out 2 4))
      next (fun ret m => ret.exception = .none →
        m.locals.uctx.bytesUnpacked = ofBe32 (read out 2 4))) :
    Prog.Runs True (ReadingOut area out)
      (do
        let bytesUnpacked ← unpackFinish
        if bytesUnpacked ≠ size then return .error exception value
        next)
      (fun ret m => ret.exception = .none →
        m.locals.uctx.bytesUnpacked = ofBe32 (read out 2 4)) := by
  intro m reading
  rw [unpackFinish, bind_assoc, Prog.bind_get, Prog.bind_pure_apply]
  by_cases equal : m.locals.uctx.bytesUnpacked = size
  · rw [if_neg (not_not_intro equal)]
    exact rest m (equal.trans same)
  · rw [if_pos equal]
    exact fun none => (failure none).elim

theorem plainResponse_checksSize {initial : α} {params : Boot σ (Result α)}
    (parses : Parses area params) : ChecksSize area (plainResponse initial params) := by
  intro out
  refine Prog.Runs.bind (unmarshalHeader_readingOut .null) fun header => ?_
  refine Prog.Runs.assume fun size => ?_
  refine Prog.Runs.ite (fun _ => Prog.Runs.ret fun _ _ none => ?_) fun _ => ?_
  · cases none
  refine Prog.Runs.bind parses.readingOut fun ret => ?_
  refine Prog.Runs.ite (fun failed => Prog.Runs.ret fun _ _ none => (failed none).elim)
    fun _ => ?_
  refine unpackFinish_checks (by decide) size ?_
  refine Prog.Runs.ite (fun _ => Prog.Runs.ret fun _ _ none => ?_) fun _ => ?_
  · cases none
  · exact Prog.Runs.ret fun _ holds _ => holds

/-- The unpack context is left alone when a session is closed. -/
theorem closeSession_uctx (session : SessionSlot) (s : UInt32) :
    Prog.Preserves (fun m => m.locals.uctx) (closeSession session s : Boot σ Unit) := by
  refine Prog.Preserves.bind (Prog.Steps.ite (fun _ => rfl) fun _ => rfl) fun object => ?_
  exact Prog.Steps.ite (fun _ => rfl) fun _ => rfl

theorem nvWriteResponse_checksSize (nvAuth : Block 20) (session : SessionSlot) (s : UInt32) :
    ChecksSize area (nvWriteResponse nvAuth session s : Boot σ (Result Unit)) := by
  intro out
  refine Prog.Runs.bind (sha1InitLocal_soundHeap out) fun _ => ?_
  refine Prog.Runs.bind (unmarshalHeader_readingOut .plain) fun header => ?_
  refine Prog.Runs.assume fun size => ?_
  refine Prog.Runs.ite (fun _ => Prog.Runs.ret fun _ _ none => ?_) fun _ => ?_
  · cases none
  refine Prog.Runs.bind (unmarshalUINT32_parses _ _ _).readingOut fun _ => ?_
  refine Prog.Runs.bind sha1FinishLocal_parses.readingOut fun _ => ?_
  refine Prog.Runs.bind (unmarshalAuth_parses _ _).readingOut fun _ => ?_
  refine Prog.Runs.bind unmarshalResAuth_parses.readingOut fun trailer => ?_
  refine unpackFinish_checks (by decide) size ?_
  refine Prog.Runs.ite (fun _ => Prog.Runs.ret fun _ _ none => ?_) fun _ => ?_
  · cases none
  refine Prog.Runs.bind ((closeSession_uctx session s).runs
    fun uctx => uctx.bytesUnpacked = ofBe32 (read out 2 4)) fun _ => ?_
  refine Prog.Runs.ite (fun _ => Prog.Runs.ret fun _ _ none => ?_) fun _ => ?_
  · cases none
  · exact Prog.Runs.ret fun _ holds _ => holds

theorem nvReadResponse_checksSize (ownerAuth : Block 20) (session : Option SessionSlot)
    (s : UInt32) :
    ChecksSize area (nvReadResponse ownerAuth session s : Boot σ (Result HeapData)) := by
  have close : Parses area (session.forM fun slot => closeSession slot s : Boot σ Unit) := by
    cases session with
    | none => exact Parses.ret _
    | some slot => exact closeSession_parses slot s
  intro out
  refine Prog.Runs.bind (sha1InitLocal_soundHeap out) fun _ => ?_
  refine Prog.Runs.bind (unmarshalHeader_readingOut .plain) fun header => ?_
  refine Prog.Runs.assume fun size => ?_
  refine Prog.Runs.ite (fun _ => Prog.Runs.ret fun _ _ none => ?_) fun _ => ?_
  · cases none
  refine Prog.Runs.bind (unmarshalHeapData_parses _).readingOut fun value => ?_
  refine Prog.Runs.ite (fun _ => ?_) fun _ => ?_
  · refine unpackFinish_checks (by decide) size ?_
    refine Prog.Runs.ite (fun _ => Prog.Runs.ret fun _ _ none => ?_) fun _ => ?_
    · cases none
    · exact Prog.Runs.ret fun _ holds _ => holds
  refine Prog.Runs.bind (unmarshalAuth_parses _ _).readingOut fun _ => ?_
  refine Prog.Runs.bind hmacFinishLocal_parses.readingOut fun _ => ?_
  refine Prog.Runs.bind hctxHash_parses.readingOut fun hm => ?_
  refine Prog.Runs.bind (unmarshalObject_parses _ _ _).readingOut fun ownerAuthOut => ?_
  refine Prog.Runs.bind close.readingOut fun _ => ?_
  refine unpackFinish_checks (by decide) size ?_
  refine Prog.Runs.ite (fun _ => Prog.Runs.ret fun _ _ none => ?_) fun _ => ?_
  · cases none
  refine Prog.Runs.ite (fun _ => Prog.Runs.ret fun _ _ none => ?_) fun _ => ?_
  · cases none
  · exact Prog.Runs.ret fun _ holds _ => holds

theorem unsealResponse_checksSize (parentAuth : Block 20) (parentSession : SessionSlot)
    (parentS : UInt32) (dataAuth : Block 20) (dataSession : SessionSlot) (dataS : UInt32) :
    ChecksSize area (unsealResponse parentAuth parentSession parentS dataAuth dataSession
      dataS : Boot σ (Result HeapData)) := by
  intro out
  refine Prog.Runs.bind (sha1InitLocal_soundHeap out) fun _ => ?_
  refine Prog.Runs.bind (unmarshalHeader_readingOut .plain) fun header => ?_
  refine Prog.Runs.assume fun size => ?_
  refine Prog.Runs.ite (fun _ => Prog.Runs.ret fun _ _ none => ?_) fun _ => ?_
  · cases none
  refine Prog.Runs.bind (unmarshalHeapData_parses _).readingOut fun value => ?_
  refine Prog.Runs.bind (unmarshalAuth_parses _ _).readingOut fun _ => ?_
  refine Prog.Runs.bind unmarshalResAuth_parses.readingOut fun trailer => ?_
  refine Prog.Runs.bind (closeSession_parses _ _).readingOut fun _ => ?_
  refine Prog.Runs.ite (fun _ => Prog.Runs.ret fun _ _ none => ?_) fun _ => ?_
  · cases none
  refine Prog.Runs.bind (unmarshalAuth_parses _ _).readingOut fun _ => ?_
  refine Prog.Runs.bind unmarshalResAuth_parses.readingOut fun trailer => ?_
  refine unpackFinish_checks (by decide) size ?_
  refine Prog.Runs.ite (fun _ => Prog.Runs.ret fun _ _ none => ?_) fun _ => ?_
  · cases none
  refine Prog.Runs.ite (fun _ => Prog.Runs.ret fun _ _ none => ?_) fun _ => ?_
  · cases none
  refine Prog.Runs.bind ((closeSession_uctx dataSession dataS).runs
    fun uctx => uctx.bytesUnpacked = ofBe32 (read out 2 4)) fun _ => ?_
  exact Prog.Runs.ret fun _ holds _ => holds

theorem sealResponse_checksSize (session : SessionSlot) (s : UInt32)
    (sharedSecret : Block 20) :
    ChecksSize area
      (sealResponse session s sharedSecret : Boot σ (Result TpmStoredData12)) := by
  have load : Prog.Preserves (fun m => m.locals.uctx) (loadSession s : Boot σ TpmSession) :=
    Prog.Steps.ite (fun _ => rfl) fun _ => rfl
  have close : Prog.Preserves (fun m => m.locals.uctx) (setSlot session 0 : Boot σ Unit) :=
    fun _ => rfl
  intro out
  refine Prog.Runs.bind (sha1InitLocal_soundHeap out) fun _ => ?_
  refine Prog.Runs.bind (unmarshalHeader_readingOut .plain) fun header => ?_
  refine Prog.Runs.assume fun size => ?_
  refine Prog.Runs.ite (fun _ => Prog.Runs.ret fun _ _ none => ?_) fun _ => ?_
  · cases none
  refine Prog.Runs.bind (unmarshalUINT32_parses _ _ _).readingOut fun _ => ?_
  refine Prog.Runs.bind (unmarshalStoredData12_parses _).readingOut fun value => ?_
  refine Prog.Runs.bind sha1FinishLocal_parses.readingOut fun _ => ?_
  refine Prog.Runs.bind (unmarshalAuth_parses _ _).readingOut fun _ => ?_
  refine Prog.Runs.bind unmarshalResAuth_parses.readingOut fun trailer => ?_
  refine unpackFinish_checks (by decide) size ?_
  refine Prog.Runs.ite (fun _ => Prog.Runs.ret fun _ _ none => ?_) fun _ => ?_
  · cases none
  refine Prog.Runs.ite (fun _ => Prog.Runs.ret fun _ _ none => ?_) fun _ => ?_
  · cases none
  refine Prog.Runs.bind (load.runs
    fun uctx => uctx.bytesUnpacked = ofBe32 (read out 2 4)) fun object => ?_
  refine Prog.Runs.ite (fun _ => Prog.Runs.ret fun _ _ none => ?_) fun _ => ?_
  · cases none
  refine Prog.Runs.bind (close.runs
    fun uctx => uctx.bytesUnpacked = ofBe32 (read out 2 4)) fun _ => ?_
  exact Prog.Runs.ret fun _ holds _ => holds

end Sizes

end Sable
