import Sable.HeapObjects
import Sable.Sha1Streaming

/-!
# The mask generation function of `mgf1.c`

The digests of the seed and a counter, one behind the other, are the mask generation function
MGF1 with SHA-1.  `mgf1` stores them in a new heap block.  What it writes there is put on record.
-/

namespace SecureHash

open BigEndian

/-- The first blocks of the mask. -/
def maskBytes (seed : List UInt8) (count : Nat) : List UInt8 :=
  (List.range count).flatMap fun counter => (sha1 (seed ++ be32 (UInt32.ofNat counter))).bytes

/-- MGF1 with SHA-1. -/
def mgf1 (seed : List UInt8) (len : Nat) : List UInt8 :=
  (maskBytes seed ((len + 19) / 20)).take len

theorem maskBytes_succ (seed : List UInt8) (count : Nat) :
    maskBytes seed (count + 1) =
      maskBytes seed count ++ (sha1 (seed ++ be32 (UInt32.ofNat count))).bytes := by
  rw [maskBytes, List.range_succ, List.flatMap_append, List.flatMap_singleton]
  rfl

theorem length_maskBytes (seed : List UInt8) (count : Nat) :
    (maskBytes seed count).length = 20 * count := by
  induction count with
  | zero => rfl
  | succ count ih =>
      rw [maskBytes_succ, List.length_append, ih, Block.length_eq]
      omega

theorem length_mgf1 (seed : List UInt8) (len : Nat) : (mgf1 seed len).length = len := by
  rw [mgf1, List.length_take, length_maskBytes]
  omega

end SecureHash

namespace Sable

open ByteMemory BigEndian HaltingProgram
open SecureHash (maskBytes maskBytes_succ length_maskBytes)

/-- The memory and the ranges in it that have been written. -/
structure Writing where
  mem : Mem
  writes : List (Nat × Nat)

section Model

/-- The allocator keeps its own records. -/
def Writing.alloc (heap size : UInt32) : Prog Halt Writing UInt32 := fun w =>
  match Sable.alloc heap size w.mem with
  | .ok ptr mem => .ok ptr { w with mem := mem }
  | .halt reason mem => .halt reason { w with mem := mem }

def Writing.store (ptr offset : UInt32) (bytes : List UInt8) : Prog Halt Writing Unit :=
  if ptr = 0 then Prog.halt .fault
  else Prog.modify fun w =>
    ⟨write w.mem (ptr.toNat + offset.toNat) bytes,
      (ptr.toNat + offset.toNat, bytes.length) :: w.writes⟩

def outputLenRoundedUp (outputLen : UInt32) : UInt32 :=
  if outputLen % 20 ≠ 0 then outputLen + (20 - outputLen % 20) else outputLen

/-- The context that has hashed the seed and the counter. -/
def maskContext (mem : Mem) (input inputLen counter : UInt32) (sctx : Sha1Context) : Sha1Context :=
  let res := le32 (byteSwap counter)
  let sctx := sha1Init sctx
  let sctx := (sha1 sctx (read mem input.toNat inputLen.toNat)).value
  let sctx := (sha1 sctx res).value
  sha1Finish sctx

/-- The loop of `mgf1`, with a bound on its rounds. -/
def mgf1Loop (input inputLen outputLen output : UInt32) :
    Nat → UInt32 → Sha1Context → Prog Halt Writing Unit
  | 0, _, _ => Prog.halt .spin
  | fuel + 1, counter, sctx =>
      if counter * 20 < outputLen then do
        let w ← Prog.get
        let sctx := maskContext w.mem input inputLen counter sctx
        Writing.store output (counter * 20) sctx.hash.bytes
        mgf1Loop input inputLen outputLen output fuel (counter + 1) sctx
      else pure ()

/-- A loop of more than `outputLen` rounds has come back to a counter of zero. -/
def mgf1 (heap : UInt32) (sctx : Sha1Context) (input inputLen outputLen : UInt32) :
    Prog Halt Writing UInt32 := do
  let output ← Writing.alloc heap (outputLenRoundedUp outputLen)
  mgf1Loop input inputLen outputLen output (outputLen.toNat + 1) 0 sctx
  return output

end Model

section Loop

variable {base : Mem} {input inputLen outputLen output : UInt32} {seed : List UInt8}
  {sctx : Sha1Context} {count k fuel : Nat}

theorem le32_byteSwap (word : UInt32) : le32 (byteSwap word) = be32 word := by
  rw [le32, byteSwap, be32_ofBe32 (by simp), List.reverse_reverse]

theorem toNat_outputLenRoundedUp (bounded : outputLen.toNat ≤ 1024) :
    (outputLenRoundedUp outputLen).toNat = 20 * ((outputLen.toNat + 19) / 20) := by
  have twenty : (20 : UInt32).toNat = 20 := rfl
  have rest : (outputLen % 20).toNat = outputLen.toNat % 20 := UInt32.toNat_mod _ _
  have small := Nat.mod_lt outputLen.toNat (Nat.succ_pos 19)
  rw [outputLenRoundedUp]
  by_cases none : outputLen % 20 = 0
  · have zero : outputLen.toNat % 20 = 0 := rest.symm.trans (congrArg UInt32.toNat none)
    rw [if_neg (not_not_intro none)]
    omega
  · have some : outputLen.toNat % 20 ≠ 0 := fun zero =>
      none (UInt32.toNat_inj.mp (rest.trans zero))
    have gap : (20 - outputLen % 20).toNat = 20 - outputLen.toNat % 20 := by
      rw [UInt32.toNat_sub_of_le _ _ (UInt32.le_iff_toNat_le.mpr (by omega)), twenty, rest]
    rw [if_pos none, UInt32.toNat_add, gap]
    omega

/-- The digest of the seed with the counter behind it. -/
theorem maskContext_hash (mem : Mem) (counter : UInt32) (sctx : Sha1Context)
    (held : read mem input.toNat inputLen.toNat = seed) (short : seed.length + 4 < 2 ^ 29) :
    (maskContext mem input inputLen counter sctx).hash =
      SecureHash.sha1 (seed ++ be32 counter) := by
  have start := Absorbed.init sctx
  have first := @Absorbed.sha1_eq _ _ start seed (by rw [List.length_nil]; omega)
  have hashed := start.absorb seed
  have second := @Absorbed.sha1_eq _ _ hashed (be32 counter)
    (by rw [List.nil_append, length_be32]; omega)
  rw [maskContext, held, le32_byteSwap, first, Result.value_ok, second, Result.value_ok]
  exact (hashed.absorb (be32 counter)).finish
    (by rw [List.nil_append, List.length_append, length_be32]; omega)

/-- The rounds that are left fill the rest of the block. -/
theorem mgf1Loop_run (held : read base input.toNat inputLen.toNat = seed)
    (apart : input.toNat + inputLen.toNat ≤ output.toNat ∨ output.toNat + 20 * count ≤ input.toNat)
    (short : seed.length + 4 < 2 ^ 29) (bounded : outputLen.toNat ≤ 1024) (given : output ≠ 0)
    (rounds : count = (outputLen.toNat + 19) / 20) (le : k ≤ count) (enough : count < fuel + k)
    (writes : List (Nat × Nat)) :
    ∃ more, (∀ range ∈ more, output.toNat ≤ range.1 ∧
        range.1 + range.2 ≤ output.toNat + 20 * count) ∧
      mgf1Loop input inputLen outputLen output fuel (UInt32.ofNat k) sctx
          ⟨write base output.toNat (maskBytes seed k), writes⟩ =
        .ok () ⟨write base output.toNat (maskBytes seed count), more ++ writes⟩ := by
  induction fuel generalizing k sctx writes with
  | zero => omega
  | succ fuel ih =>
      have twenty : (20 : UInt32).toNat = 20 := rfl
      have counter : (UInt32.ofNat k).toNat = k :=
        UInt32.toNat_ofNat_of_lt' (show k < 2 ^ 32 by omega)
      have next : UInt32.ofNat k + 1 = UInt32.ofNat (k + 1) := (UInt32.ofNat_add k 1).symm
      have place : (UInt32.ofNat k * 20).toNat = 20 * k := by
        rw [UInt32.toNat_mul, counter, twenty]
        omega
      have goes : UInt32.ofNat k * 20 < outputLen ↔ k < count := by
        rw [UInt32.lt_iff_toNat_lt, place]
        omega
      rw [mgf1Loop]
      by_cases left : k < count
      · have seedHeld : read (write base output.toNat (maskBytes seed k)) input.toNat
            inputLen.toNat = seed := by
          rw [read_write_disjoint _ (by rw [length_maskBytes]; omega), held]
        have digest := maskContext_hash (write base output.toNat (maskBytes seed k))
          (UInt32.ofNat k) sctx seedHeld short
        have joined := write_write_append base output.toNat (maskBytes seed k)
          (SecureHash.sha1 (seed ++ be32 (UInt32.ofNat k))).bytes
        rw [length_maskBytes, ← maskBytes_succ] at joined
        have stores : Writing.store output (UInt32.ofNat k * 20)
            (maskContext (write base output.toNat (maskBytes seed k)) input inputLen
              (UInt32.ofNat k) sctx).hash.bytes
            ⟨write base output.toNat (maskBytes seed k), writes⟩ =
              .ok () ⟨write base output.toNat (maskBytes seed (k + 1)),
                (output.toNat + 20 * k, 20) :: writes⟩ := by
          rw [Writing.store, if_neg given, Prog.modify_apply, place, digest, joined,
            Block.length_eq]
        obtain ⟨more, inside, run⟩ := @ih (maskContext
          (write base output.toNat (maskBytes seed k)) input inputLen (UInt32.ofNat k) sctx) (k + 1)
          (by omega) (by omega) ((output.toNat + 20 * k, 20) :: writes)
        rw [if_pos (goes.mpr left), Prog.bind_get]
        dsimp only
        rw [Prog.bind_ok stores, next, run]
        refine ⟨more ++ [(output.toNat + 20 * k, 20)], ?_, by rw [List.append_assoc]; rfl⟩
        refine List.forall_mem_append.mpr ⟨inside, fun range member => ?_⟩
        rw [List.mem_singleton.mp member]
        omega
      · rw [if_neg (goes.not.mpr left), show k = count by omega]
        exact ⟨[], by simp, rfl⟩

end Loop

section Mask

variable {area : HeapArea} {used : Nat} {contents : UInt32 → Option (List UInt8)}
  {w : Writing} {input inputLen outputLen : UInt32} {seed : List UInt8}

/-- A range that no allocation touches: it lies outside of the heap or in the part in use. -/
def OutOfReach (area : HeapArea) (used addr len : Nat) : Prop :=
  addr + len ≤ area.heap.toNat + 8 * used ∨ area.heap.toNat + 8 * area.units ≤ addr

theorem OutOfReach.mono {more addr len : Nat} (away : OutOfReach area used addr len)
    (le : used ≤ more) : OutOfReach area more addr len := by
  rw [OutOfReach] at away ⊢
  omega

/-- What an allocation leaves alone reads as before. -/
theorem OutOfReach.read_eq {before after : Mem} {addr len : Nat}
    (away : OutOfReach area used addr len)
    (kept : ∀ a, a < area.heap.toNat + 8 * used ∨ area.heap.toNat + 8 * area.units ≤ a →
      after a = before a) : read after addr len = read before addr len := by
  refine read_congr fun a lower upper => kept a ?_
  rw [OutOfReach] at away
  omega

/-- With room on the heap `mgf1` returns a new block that starts with the mask, and writes
nothing but this block. -/
theorem mgf1_runs (tracks : Tracks area used contents w.mem) (sctx : Sha1Context)
    (held : read w.mem input.toNat inputLen.toNat = seed)
    (away : OutOfReach area used input.toNat inputLen.toNat) (short : seed.length + 4 < 2 ^ 29)
    (positive : 0 < outputLen) (bounded : outputLen.toNat ≤ 1024)
    (room : used + (outputLenRoundedUp outputLen).toNat / 8 + 2 ≤ area.units) :
    ∃ ptr more after, mgf1 area.heap sctx input inputLen outputLen w =
        .ok ptr ⟨after, more ++ w.writes⟩ ∧ contents ptr = none ∧
      (∀ range ∈ more, ptr.toNat ≤ range.1 ∧
        range.1 + range.2 ≤ ptr.toNat + (outputLenRoundedUp outputLen).toNat) ∧
      read after ptr.toNat outputLen.toNat = SecureHash.mgf1 seed outputLen.toNat ∧
      (∀ addr len, OutOfReach area used addr len → read after addr len = read w.mem addr len) ∧
      Tracks area (used + (outputLenRoundedUp outputLen).toNat / 8 + 2)
        (Function.update contents ptr (some (maskBytes seed ((outputLen.toNat + 19) / 20))))
        after := by
  have size := toNat_outputLenRoundedUp bounded
  have some : 0 < outputLen.toNat := UInt32.lt_iff_toNat_lt.mp positive
  have request : 0 < outputLenRoundedUp outputLen := by
    rw [UInt32.lt_iff_toNat_lt, size]
    have zero : (0 : UInt32).toNat = 0 := rfl
    omega
  obtain ⟨ptr, mem, run, fresh, above, kept, now⟩ := tracks.alloc_fresh request room
  have tracked := Function.update_self ptr
    (Option.some (read mem ptr.toNat (outputLenRoundedUp outputLen).toNat)) contents
  have bounds := now.bounds tracked
  rw [length_read] at bounds
  have given := now.nonNull tracked
  have apart {addr len : Nat} (away : OutOfReach area used addr len) :
      addr + len ≤ ptr.toNat ∨
        ptr.toNat + 20 * ((outputLen.toNat + 19) / 20) ≤ addr := by
    rw [OutOfReach] at away
    omega
  obtain ⟨more, inside, fills⟩ := @mgf1Loop_run mem input inputLen outputLen ptr seed sctx _ 0
    (outputLen.toNat + 1) ((away.read_eq kept).trans held) (apart away) short bounded given rfl
    (Nat.zero_le _) (by omega) w.writes
  have start : write mem ptr.toNat (maskBytes seed 0) = mem := write_nil mem ptr.toNat
  have allocates : Writing.alloc area.heap (outputLenRoundedUp outputLen) w =
      .ok ptr ⟨mem, w.writes⟩ := by
    rw [Writing.alloc, run]
  have stored := read_write_self mem ptr.toNat (maskBytes seed ((outputLen.toNat + 19) / 20))
  have length := length_maskBytes seed ((outputLen.toNat + 19) / 20)
  have changed := @Tracks.change area _ _ mem now ptr _ tracked
    (write mem ptr.toNat (maskBytes seed ((outputLen.toNat + 19) / 20))) fun a outside => by
      rw [length_read, size, ← length] at outside
      exact write_outside mem outside
  rw [length] at stored
  rw [length_read, size, stored, Function.update_idem] at changed
  rw [start] at fills
  rw [size]
  refine ⟨ptr, more, _, ?_, fresh, inside, ?_, fun addr len away => ?_, changed⟩
  · rw [mgf1, Prog.bind_ok allocates]
    exact Prog.bind_ok fills _
  · exact (take_read _ _ _ _ (by omega)).symm.trans (congrArg (List.take _) stored)
  · rw [read_write_disjoint _ (by rw [length]; exact apart away), away.read_eq kept]

end Mask

end Sable
