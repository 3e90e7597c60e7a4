import Sable.MaskGeneration
import Sable.TpmStruct
import Sable.Marshalling

/-!
# Masks for sealed passphrases

With `TPM_Sealx` the passphrase is masked before it is sealed, and the mask is taken off after
it has been unsealed.  `seal_passphrase` puts the seed of the mask together with `memcpy`, and
`unseal_passphrase` with a pack context.
-/

namespace Sable

open ByteMemory BigEndian HaltingProgram
open SecureHash (maskBytes)

section Model

variable {σ : Type}

/-- Call a function that works on the heap alone. -/
def onHeap {α : Type} (program : UInt32 → Prog Halt Writing α) : Boot σ α := fun m =>
  match program m.heap ⟨m.mem, []⟩ with
  | .ok value w => .ok value { m with mem := w.mem }
  | .halt reason w => .halt reason { m with mem := w.mem }

def doXorLoop (in1 in2 out : UInt32) : Nat → Nat → Mem → Mem
  | 0, _, mem => mem
  | left + 1, i, mem => doXorLoop in1 in2 out left (i + 1)
      (write mem (out.toNat + i) [mem (in1.toNat + i) ^^^ mem (in2.toNat + i)])

def doXor (in1 in2 out size : UInt32) : Boot σ Unit :=
  if out = 0 then Prog.halt .fault
  else Prog.modify fun m => { m with mem := doXorLoop in1 in2 out size.toNat 0 m.mem }

/-- `XOR_STR` without its terminating zero. -/
def xorStr : List UInt8 := [0x58, 0x4F, 0x52]

def seedLen : UInt32 := 20 + 20 + 3 + 20

/-- The session behind the first slot. -/
def firstSession : Boot σ TpmSession := do
  let s ← getSlot .zero
  loadSession s

/-- The seed as `seal_passphrase` puts it together. -/
def sealSeed (sharedSecret : Block 20) : Boot σ UInt32 := do
  let seed ← allocHeap seedLen
  let session ← firstSession
  storeBytes seed 0 session.nonceEven.bytes
  let session ← firstSession
  storeBytes seed 20 session.nonceOdd.bytes
  storeBytes seed (20 + 20) xorStr
  storeBytes seed (20 + 20 + 3) sharedSecret.bytes
  return seed

/-- The seed as `unseal_passphrase` puts it together. -/
def unsealSeed (sharedSecret : Block 20) : Boot σ UInt32 := do
  let seed ← allocHeap seedLen
  let pctx ← allocHeap 12
  if pctx = 0 then Prog.halt .fault
  else
    packInit (.mem seed) seedLen
    let session ← firstSession
    marshalObject session.nonceEven .given .null
    let session ← firstSession
    marshalObject session.nonceOdd .given .null
    marshalBytes xorStr .given .null
    marshalTpmSecret sharedSecret .given .null
    let _ ← packFinish
    return seed

/-- Put the mask on a text, or take it off. -/
def maskText (sctx : Sha1Context) (seed data dataSize : UInt32) : Boot σ UInt32 := do
  let mask ← onHeap fun heap => mgf1 heap sctx seed seedLen dataSize
  let out ← allocHeap dataSize
  doXor data mask out dataSize
  return out

end Model

section Xor

theorem doXorLoop_run {in1 in2 out : UInt32} {base : Mem} {left i : Nat} {done : List UInt8}
    (first : in1.toNat + (i + left) ≤ out.toNat ∨ out.toNat + (i + left) ≤ in1.toNat)
    (second : in2.toNat + (i + left) ≤ out.toNat ∨ out.toNat + (i + left) ≤ in2.toNat)
    (length : done.length = i) :
    doXorLoop in1 in2 out left i (write base out.toNat done) =
      write base out.toNat (done ++ List.zipWith (· ^^^ ·) (read base (in1.toNat + i) left)
        (read base (in2.toNat + i) left)) := by
  induction left generalizing i done with
  | zero => rw [doXorLoop, read_zero, List.zipWith_nil_left, List.append_nil]
  | succ left ih =>
      have one : write base out.toNat done (in1.toNat + i) = base (in1.toNat + i) :=
        write_outside base (by omega)
      have two : write base out.toNat done (in2.toNat + i) = base (in2.toNat + i) :=
        write_outside base (by omega)
      have joined := write_write_append base out.toNat done
        [base (in1.toNat + i) ^^^ base (in2.toNat + i)]
      rw [length] at joined
      rw [doXorLoop, one, two, joined, ih (by omega) (by omega) (by simp [length]), read_succ,
        read_succ, List.zipWith_cons_cons, List.append_assoc]
      rfl

/-- A text is found again when its mask is taken off. -/
theorem zipWith_xor_cancel {text mask : List UInt8} (length : text.length = mask.length) :
    List.zipWith (· ^^^ ·) (List.zipWith (· ^^^ ·) text mask) mask = text := by
  induction text generalizing mask with
  | nil => rfl
  | cons c text ih =>
      cases mask with
      | nil => cases length
      | cons d mask =>
          rw [List.zipWith_cons_cons, List.zipWith_cons_cons, ih (Nat.succ.inj length),
            UInt8.xor_assoc, UInt8.xor_self, UInt8.xor_zero]

end Xor

section Runs

variable {σ : Type} {area : HeapArea} {used : Nat} {contents : UInt32 → Option (List UInt8)}
  {m : Machine σ} {size : UInt32}

/-- The machine with another memory. -/
def Machine.withMem (m : Machine σ) (mem : Mem) : Machine σ :=
  { m with mem := mem }

/-- A machine whose heap is in order. -/
structure Allocating (area : HeapArea) (used : Nat) (contents : UInt32 → Option (List UInt8))
    (m : Machine σ) : Prop where
  heap : m.heap = area.heap
  tracks : Tracks area used contents m.mem

theorem allocHeap_fresh (allocating : Allocating area used contents m) (positive : 0 < size)
    (room : used + size.toNat / 8 + 2 ≤ area.units) :
    ∃ ptr mem, allocHeap size m = .ok ptr (m.withMem mem) ∧ contents ptr = none ∧
      area.heap.toNat + 8 * used < ptr.toNat ∧
      (∀ addr len, OutOfReach area used addr len → read mem addr len = read m.mem addr len) ∧
      Tracks area (used + size.toNat / 8 + 2)
        (Function.update contents ptr (some (read mem ptr.toNat size.toNat))) mem := by
  obtain ⟨ptr, mem, run, fresh, above, kept, now⟩ :=
    allocating.tracks.alloc_fresh positive room
  refine ⟨ptr, mem, ?_, fresh, above, fun addr len away => away.read_eq kept, now⟩
  rw [← allocating.heap] at run
  rw [allocHeap, run]
  rfl

theorem onHeap_run {α : Type} {program : UInt32 → Prog Halt Writing α} {value : α} {w : Writing}
    (run : program m.heap ⟨m.mem, []⟩ = .ok value w) :
    onHeap program m = .ok value (m.withMem w.mem) := by
  rw [onHeap, run]
  rfl

/-- Store behind the bytes that are there already. -/
theorem storeBytes_behind {ptr offset : UInt32} (given : ptr ≠ 0) {done : List UInt8}
    (length : done.length = offset.toNat) (more : List UInt8) (m : Machine σ) (mem : Mem) :
    storeBytes ptr offset more (m.withMem (write mem ptr.toNat done)) =
      .ok () (m.withMem (write mem ptr.toNat (done ++ more))) := by
  rw [storeBytes, if_neg given, Prog.modify_apply, ← length, ← write_write_append]
  rfl

theorem firstSession_run (slot : m.sessions .zero ≠ 0) :
    firstSession m = .ok (m.sessionAt (m.sessions .zero)) m := by
  have loads : loadSession (m.sessions .zero) m = .ok (m.sessionAt (m.sessions .zero)) m := by
    rw [loadSession, if_neg slot]
    rfl
  exact (Prog.bind_ok (rfl : getSlot .zero m = _) _).trans loads

theorem firstSession_withMem (slot : m.sessions .zero ≠ 0) (mem : Mem) :
    firstSession (m.withMem mem) = .ok (m.sessionAt (m.sessions .zero)) (m.withMem mem) :=
  @firstSession_run σ (m.withMem mem) slot

/-- The machine while bytes are packed into a block. -/
def Machine.packing (m : Machine σ) (mem : Mem) (ptr size : UInt32) (done : List UInt8) :
    Machine σ :=
  { m.withMem (write mem ptr.toNat done) with
    locals := { m.locals with pctx := ⟨.mem ptr, UInt32.ofNat done.length, size⟩ } }

theorem firstSession_packing (slot : m.sessions .zero ≠ 0) (mem : Mem) (ptr size : UInt32)
    (done : List UInt8) : firstSession (m.packing mem ptr size done) =
      .ok (m.sessionAt (m.sessions .zero)) (m.packing mem ptr size done) :=
  @firstSession_run σ (m.packing mem ptr size done) slot

/-- Pack behind the bytes that are there already. -/
theorem marshalBytes_behind {ptr : UInt32} (given : ptr ≠ 0) {done more : List UInt8}
    (room : (done ++ more).length ≤ size.toNat) (m : Machine σ) (mem : Mem) :
    marshalBytes more .given .null (m.packing mem ptr size done) =
      .ok () (m.packing mem ptr size (done ++ more)) := by
  have bound := size.toNat_lt
  rw [List.length_append] at room
  have before : (UInt32.ofNat done.length).toNat = done.length :=
    UInt32.toNat_ofNat_of_lt' (show _ < 2 ^ 32 by omega)
  have added : (UInt32.ofNat more.length).toNat = more.length :=
    UInt32.toNat_ofNat_of_lt' (show _ < 2 ^ 32 by omega)
  have sum : UInt32.ofNat done.length + UInt32.ofNat more.length =
      UInt32.ofNat (done ++ more).length := by
    rw [List.length_append, UInt32.ofNat_add]
  have fits : UInt32.ofNat done.length + UInt32.ofNat more.length ≤ size := by
    rw [UInt32.le_iff_toNat_le, UInt32.toNat_add, before, added]
    omega
  have buffer : (m.packing mem ptr size done).locals.pctx.packBuffer ≠ .mem 0 :=
    fun null => given (BufferPtr.mem.inj null)
  have packs := packBytes_eq buffer added.symm
  rw [show (m.packing mem ptr size done).locals.pctx =
    ⟨.mem ptr, UInt32.ofNat done.length, size⟩ from rfl, if_pos fits] at packs
  rw [marshalBytes, hashBytes_null_eq]
  refine packs.trans (congrArg (Outcome.ok ()) ?_)
  rw [Machine.packing, Machine.packing, ← write_write_append, sum]
  dsimp only [Machine.writeBuffer, Machine.withMem]
  rw [before]

/-- A text in a place that no allocation touches, with room on the heap for its mask and for
the outcome. -/
structure Maskable (area : HeapArea) (used : Nat) (m : Machine σ) (data size : UInt32)
    (text : List UInt8) : Prop where
  here : read m.mem data.toNat size.toNat = text
  away : OutOfReach area used data.toNat size.toNat
  positive : 0 < size
  bounded : size.toNat ≤ 1024
  room : used + (outputLenRoundedUp size).toNat / 8 + 2 + size.toNat / 8 + 2 ≤ area.units

/-- The text with the mask is in a new block. -/
theorem maskText_runs (allocating : Allocating area used contents m) (sctx : Sha1Context)
    {seed data : UInt32} {bytes text : List UInt8} (held : contents seed = some bytes)
    (length : bytes.length = seedLen.toNat) (maskable : Maskable area used m data size text) :
    ∃ out mem, maskText sctx seed data size m = .ok out (m.withMem mem) ∧
      read mem out.toNat size.toNat =
        List.zipWith (· ^^^ ·) text (SecureHash.mgf1 bytes size.toNat) := by
  obtain ⟨here, away, positive, bounded, room⟩ := maskable
  have seedRead := allocating.tracks.read_eq held
  rw [length] at seedRead
  have seedAway : OutOfReach area used seed.toNat seedLen.toNat :=
    .inl (length ▸ (allocating.tracks.bounds held).2)
  obtain ⟨mask, more, after, masks, -, -, made, kept, now⟩ := @mgf1_runs area used contents
    ⟨m.mem, []⟩ seed seedLen size bytes allocating.tracks sctx seedRead seedAway
    (by rw [length]; decide) positive bounded (by omega)
  rw [← allocating.heap] at masks
  have masked := @onHeap_run σ m UInt32 (fun heap => mgf1 heap sctx seed seedLen size) _ _ masks
  have next : Allocating area _ _ (m.withMem after) := ⟨allocating.heap, now⟩
  have rounded := toNat_outputLenRoundedUp bounded
  have tracked := Function.update_self mask
    (some (maskBytes bytes ((size.toNat + 19) / 20))) contents
  have inside := (now.bounds tracked).2
  rw [SecureHash.length_maskBytes] at inside
  have maskAway : OutOfReach area (used + (outputLenRoundedUp size).toNat / 8 + 2) mask.toNat
      size.toNat := .inl (by omega)
  have dataAway := @OutOfReach.mono area used (used + (outputLenRoundedUp size).toNat / 8 + 2) _ _
    away (by omega)
  obtain ⟨out, mem, run, -, above, keeps, last⟩ := allocHeap_fresh next positive (by omega)
  have block := Function.update_self out (some (read mem out.toNat size.toNat))
    (Function.update contents mask (some (maskBytes bytes ((size.toNat + 19) / 20))))
  have given := last.nonNull block
  have top := (last.bounds block).2
  rw [length_read] at top
  have dataHere : read mem data.toNat size.toNat = text :=
    (keeps _ _ dataAway).trans ((kept _ _ away).trans here)
  have maskHere : read mem mask.toNat size.toNat = SecureHash.mgf1 bytes size.toNat :=
    (keeps _ _ maskAway).trans made
  rw [OutOfReach] at maskAway dataAway
  have xors := @doXorLoop_run data mask out mem size.toNat 0 [] (by omega) (by omega) rfl
  rw [write_nil, List.nil_append, Nat.add_zero, Nat.add_zero, dataHere, maskHere] at xors
  have size_eq : (List.zipWith (· ^^^ ·) text (SecureHash.mgf1 bytes size.toNat)).length =
      size.toNat := by
    rw [List.length_zipWith, SecureHash.length_mgf1, ← here, length_read, Nat.min_self]
  have stored := read_write_self mem out.toNat
    (List.zipWith (· ^^^ ·) text (SecureHash.mgf1 bytes size.toNat))
  rw [size_eq] at stored
  have combines : doXor data mask out size ((m.withMem after).withMem mem) =
      .ok () (m.withMem (write mem out.toNat
        (List.zipWith (· ^^^ ·) text (SecureHash.mgf1 bytes size.toNat)))) := by
    rw [doXor, if_neg given, ← xors]
    rfl
  refine ⟨out, _, ?_, stored⟩
  rw [maskText, Prog.bind_ok masked, Prog.bind_ok run, Prog.bind_ok combines]
  rfl

/-- The seed of the mask. -/
def maskSeed (session : TpmSession) (sharedSecret : Block 20) : List UInt8 :=
  session.nonceEven.bytes ++ session.nonceOdd.bytes ++ xorStr ++ sharedSecret.bytes

theorem length_maskSeed (session : TpmSession) (sharedSecret : Block 20) :
    (maskSeed session sharedSecret).length = seedLen.toNat := by
  rw [maskSeed, List.length_append, List.length_append, List.length_append, Block.length_eq,
    Block.length_eq, Block.length_eq]
  rfl

/-- The seed is in a new block. -/
theorem sealSeed_runs (allocating : Allocating area used contents m) (sharedSecret : Block 20)
    (slot : m.sessions .zero ≠ 0) (room : used + seedLen.toNat / 8 + 2 ≤ area.units) :
    ∃ seed mem, sealSeed sharedSecret m = .ok seed (m.withMem mem) ∧
      (∀ addr len, OutOfReach area used addr len → read mem addr len = read m.mem addr len) ∧
      Tracks area (used + seedLen.toNat / 8 + 2) (Function.update contents seed
        (some (maskSeed (m.sessionAt (m.sessions .zero)) sharedSecret))) mem := by
  obtain ⟨seed, mem, run, -, above, keeps, now⟩ := allocHeap_fresh allocating (by decide) room
  have block := Function.update_self seed (some (read mem seed.toNat seedLen.toNat)) contents
  have given := now.nonNull block
  have top := (now.bounds block).2
  rw [length_read] at top
  have bytes := length_maskSeed (m.sessionAt (m.sessions .zero)) sharedSecret
  have changed := @Tracks.change area _ _ mem now seed _ block (write mem seed.toNat
    (maskSeed (m.sessionAt (m.sessions .zero)) sharedSecret)) fun a outside => by
      rw [length_read, ← bytes] at outside
      exact write_outside mem outside
  have stored := read_write_self mem seed.toNat
    (maskSeed (m.sessionAt (m.sessions .zero)) sharedSecret)
  rw [bytes] at stored
  rw [length_read, stored, Function.update_idem] at changed
  have start : m.withMem mem = m.withMem (write mem seed.toNat []) := by
    rw [write_nil]
  refine ⟨seed, _, ?_, fun addr len away => ?_, changed⟩
  · rw [sealSeed, Prog.bind_ok run, start, Prog.bind_ok (firstSession_withMem slot _),
      Prog.bind_ok (storeBytes_behind given rfl _ m mem), List.nil_append,
      Prog.bind_ok (firstSession_withMem slot _),
      Prog.bind_ok (storeBytes_behind given (Block.length_eq _) _ m mem),
      Prog.bind_ok (storeBytes_behind given (by simp) _ m mem),
      Prog.bind_ok (storeBytes_behind given (by simp [xorStr]) _ m mem)]
    rfl
  · rw [read_write_disjoint _ (by rw [bytes]; rw [OutOfReach] at away; omega),
      keeps addr len away]

/-- The same seed is in a new block when it is packed. -/
theorem unsealSeed_runs (allocating : Allocating area used contents m) (sharedSecret : Block 20)
    (slot : m.sessions .zero ≠ 0)
    (room : used + seedLen.toNat / 8 + 2 + (12 : UInt32).toNat / 8 + 2 ≤ area.units) :
    ∃ seed mem, unsealSeed sharedSecret m = .ok seed (m.packing mem seed seedLen
      (maskSeed (m.sessionAt (m.sessions .zero)) sharedSecret)) := by
  obtain ⟨seed, mem, run, -, -, -, now⟩ :=
    @allocHeap_fresh σ area used contents m seedLen allocating (by decide) (by omega)
  have given := now.nonNull (Function.update_self seed _ contents)
  have next : Allocating area _ _ (m.withMem mem) := ⟨allocating.heap, now⟩
  obtain ⟨pctx, last, reserves, -, -, -, both⟩ :=
    @allocHeap_fresh σ area _ _ (m.withMem mem) 12 next (by decide) room
  have pointer := both.nonNull (Function.update_self pctx _ _)
  have start : packInit (.mem seed) seedLen ((m.withMem mem).withMem last) =
      .ok () (m.packing last seed seedLen []) := by
    rw [Machine.packing, write_nil]
    rfl
  refine ⟨seed, last, ?_⟩
  rw [unsealSeed, Prog.bind_ok run, Prog.bind_ok reserves, if_neg pointer, Prog.bind_ok start,
    Prog.bind_ok (firstSession_packing slot _ _ _ _), marshalObject,
    Prog.bind_ok (marshalBytes_behind given (by simp; decide) m last), List.nil_append,
    Prog.bind_ok (firstSession_packing slot _ _ _ _), marshalObject,
    Prog.bind_ok (marshalBytes_behind given (by simp; decide) m last),
    Prog.bind_ok (marshalBytes_behind given (by simp [xorStr]; decide) m last), marshalTpmSecret,
    Prog.bind_ok (marshalBytes_behind given (by simp [xorStr]; decide) m last),
    Prog.bind_ok (rfl : packFinish (m.packing last seed seedLen _) = _)]
  rfl

end Runs

section RoundTrip

variable {σ : Type} {area : HeapArea} {used : Nat} {contents : UInt32 → Option (List UInt8)}
  {m : Machine σ}

/-- The sessions in the first slots carry the same nonces. -/
structure SameNonces (m n : Machine σ) : Prop where
  even : (m.sessionAt (m.sessions .zero)).nonceEven = (n.sessionAt (n.sessions .zero)).nonceEven
  odd : (m.sessionAt (m.sessions .zero)).nonceOdd = (n.sessionAt (n.sessions .zero)).nonceOdd

theorem maskSeed_congr {n : Machine σ} (same : SameNonces m n) (sharedSecret : Block 20) :
    maskSeed (m.sessionAt (m.sessions .zero)) sharedSecret =
      maskSeed (n.sessionAt (n.sessions .zero)) sharedSecret := by
  rw [maskSeed, maskSeed, same.even, same.odd]

/-- A machine that can make a seed with `reserve` further units of its heap. -/
structure SeedReady (area : HeapArea) (used reserve : Nat)
    (contents : UInt32 → Option (List UInt8)) (m : Machine σ) : Prop where
  allocating : Allocating area used contents m
  slot : m.sessions .zero ≠ 0
  room : used + seedLen.toNat / 8 + 2 + reserve ≤ area.units

/-- The two functions make the same seed.  A mask that is put on a text with the one seed is
taken off later with the other one. -/
def Unmasks (area : HeapArea) (used : Nat) (sharedSecret : Block 20) (m n : Machine σ) : Prop :=
  ∃ seed sealed other opened, sealSeed sharedSecret m = .ok seed sealed ∧
    unsealSeed sharedSecret n = .ok other opened ∧
    read sealed.mem seed.toNat seedLen.toNat = read opened.mem other.toNat seedLen.toNat ∧
    ∀ sctx passphrase lenPassphrase text,
      Maskable area (used + seedLen.toNat / 8 + 2) sealed passphrase lenPassphrase text →
      ∃ passEnc masked, maskText sctx seed passphrase lenPassphrase sealed = .ok passEnc masked ∧
        ∀ (later : Machine σ) heap units kept context data, Allocating heap units kept later →
          kept other = some (read opened.mem other.toNat seedLen.toNat) →
          Maskable heap units later data lenPassphrase
            (read masked.mem passEnc.toNat lenPassphrase.toNat) →
          ∃ passUnc unmasked,
            maskText context other data lenPassphrase later = .ok passUnc unmasked ∧
            read unmasked.mem passUnc.toNat lenPassphrase.toNat = text

theorem seeds_unmask {opening : HeapArea} {taken : Nat} {blocks : UInt32 → Option (List UInt8)}
    {n : Machine σ} (sealing : SeedReady area used 0 contents m)
    (unsealing : SeedReady opening taken (12 / 8 + 2) blocks n) (same : SameNonces m n)
    (sharedSecret : Block 20) : Unmasks area used sharedSecret m n := by
  obtain ⟨seed, mem, seals, -, now⟩ :=
    sealSeed_runs sealing.allocating sharedSecret sealing.slot sealing.room
  obtain ⟨other, last, opens⟩ :=
    unsealSeed_runs unsealing.allocating sharedSecret unsealing.slot unsealing.room
  have length := length_maskSeed (m.sessionAt (m.sessions .zero)) sharedSecret
  have sealedSeed := now.read_eq (Function.update_self seed _ contents)
  have openedSeed := read_write_self last other.toNat
    (maskSeed (n.sessionAt (n.sessions .zero)) sharedSecret)
  rw [length] at sealedSeed
  rw [← maskSeed_congr same sharedSecret, length] at openedSeed
  rw [← maskSeed_congr same sharedSecret] at opens
  refine ⟨seed, _, other, _, seals, opens, sealedSeed.trans openedSeed.symm,
    fun sctx passphrase lenPassphrase text maskable => ?_⟩
  have next : Allocating area _ _ (m.withMem mem) := ⟨sealing.allocating.heap, now⟩
  obtain ⟨passEnc, after, masks, masked⟩ :=
    maskText_runs next sctx (Function.update_self seed _ contents) length maskable
  refine ⟨passEnc, _, masks, fun later heap units kept context data allocating held again => ?_⟩
  have seedHeld : kept other = some (maskSeed (m.sessionAt (m.sessions .zero)) sharedSecret) :=
    held.trans (congrArg some openedSeed)
  obtain ⟨passUnc, final, unmasks, text'⟩ := maskText_runs allocating context seedHeld length again
  refine ⟨passUnc, _, unmasks, text'.trans ?_⟩
  have sizes : text.length = (SecureHash.mgf1
      (maskSeed (m.sessionAt (m.sessions .zero)) sharedSecret) lenPassphrase.toNat).length := by
    rw [SecureHash.length_mgf1, ← maskable.here, length_read]
  have whole : read ((m.withMem mem).withMem after).mem passEnc.toNat lenPassphrase.toNat = _ :=
    masked
  rw [whole, zipWith_xor_cancel sizes]

/-- The outcome of `mgf1`: a block that starts with the mask, and writes to this block only. -/
def StoresMask (seed : List UInt8) (outputLen : UInt32) (w : Writing)
    (outcome : Outcome Halt Writing UInt32) : Prop :=
  ∃ ptr more after, outcome = .ok ptr ⟨after, more ++ w.writes⟩ ∧
    (∀ range ∈ more, ptr.toNat ≤ range.1 ∧
      range.1 + range.2 ≤ ptr.toNat + (outputLenRoundedUp outputLen).toNat) ∧
    read after ptr.toNat outputLen.toNat = SecureHash.mgf1 seed outputLen.toNat

/-- Masks are MGF1 of their seeds, and the masks of passphrases come off again. -/
theorem mgf1_masks :
    (∀ {area : HeapArea} {used : Nat} {contents : UInt32 → Option (List UInt8)} {w : Writing}
        {input inputLen outputLen : UInt32} {seed : List UInt8} (sctx : Sha1Context),
        Tracks area used contents w.mem → read w.mem input.toNat inputLen.toNat = seed →
        OutOfReach area used input.toNat inputLen.toNat → seed.length + 4 < 2 ^ 29 →
        0 < outputLen → outputLen.toNat ≤ 1024 →
        used + (outputLenRoundedUp outputLen).toNat / 8 + 2 ≤ area.units →
        StoresMask seed outputLen w (mgf1 area.heap sctx input inputLen outputLen w)) ∧
      ∀ {σ : Type} {area opening : HeapArea} {used taken : Nat}
        {contents blocks : UInt32 → Option (List UInt8)} {m n : Machine σ},
        SeedReady area used 0 contents m → SeedReady opening taken (12 / 8 + 2) blocks n →
        SameNonces m n → ∀ sharedSecret, Unmasks area used sharedSecret m n := by
  constructor
  · intro area used contents w input inputLen outputLen seed sctx tracks held away short positive
      bounded room
    obtain ⟨ptr, more, after, run, -, inside, made, -⟩ :=
      mgf1_runs tracks sctx held away short positive bounded room
    exact ⟨ptr, more, after, run, inside, made⟩
  · intro σ area opening used taken contents blocks m n sealing unsealing same sharedSecret
    exact seeds_unmask sealing unsealing same sharedSecret

/-- A heap of 4096 bytes. -/
def seedHeap : HeapArea :=
  ⟨4096, 4096, by decide, by decide⟩

/-- The memory after `init_heap`, with three bytes in front of the heap. -/
def seedMemory : Mem :=
  MemNode.store (write (fun _ => 0) 8 [1, 2, 3]) seedHeap.heap ⟨(seedHeap.size >>> 3) - 1, 0⟩

/-- A machine with an empty heap and the session of the first slot at an address. -/
def seedMachine (session : UInt32) : Machine Unit :=
  { Machine.blank () with
    heap := 4096
    mem := seedMemory
    sessionAt := fun _ => ⟨0, ⟨List.replicate 20 0x5A, rfl⟩, ⟨List.replicate 20 0xC3, rfl⟩, 0, 0⟩
    sessions := fun _ => session }

theorem seedMemory_tracks : Tracks seedHeap 0 (fun _ => none) seedMemory := by
  have run : initHeap seedHeap.heap seedHeap.size (write (fun _ => 0) 8 [1, 2, 3]) =
      .ok () seedMemory := by
    rw [initHeap, if_neg (by decide), if_neg (by decide), Prog.modify_apply]
    rfl
  exact Tracks.init (by decide) run

/-- A mask of two digests and five bytes of a third one, and two machines whose sessions lie at
different addresses. -/
theorem mgf1_masks_sample :
    StoresMask [1, 2, 3] 45 ⟨seedMemory, []⟩
        (mgf1 seedHeap.heap default 8 3 45 ⟨seedMemory, []⟩) ∧
      Unmasks seedHeap 0 ⟨List.replicate 20 0x3C, rfl⟩ (seedMachine 16) (seedMachine 24) := by
  have sealing : SeedReady seedHeap 0 0 (fun _ => none) (seedMachine 16) :=
    ⟨⟨rfl, seedMemory_tracks⟩, by decide, by decide⟩
  have unsealing : SeedReady seedHeap 0 (12 / 8 + 2) (fun _ => none) (seedMachine 24) :=
    ⟨⟨rfl, seedMemory_tracks⟩, by decide, by decide⟩
  exact ⟨mgf1_masks.1 default seedMemory_tracks (by decide) (.inl (by decide)) (by decide)
    (by decide) (by decide) (by decide), mgf1_masks.2 sealing unsealing ⟨rfl, rfl⟩ _⟩

end RoundTrip

end Sable
