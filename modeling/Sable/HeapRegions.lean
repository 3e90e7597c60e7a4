import Sable.Heap

/-!
# What the check of the TXT heap reads

The check finds the blocks of the heap with sizes that it has not compared with
anything yet.  Unless it gives up before it has read a byte, the firmware can make it
read outside of the heap.
-/

namespace Sable

open ByteMemory BigEndian HaltingProgram

section Frames

/-- Nothing is written, and what was read stays on the record. -/
structure OnlyReads (before after : HeapMachine) : Prop where
  mem : after.mem = before.mem
  writes : after.writes = before.writes
  blocks : after.blocks = before.blocks
  reads : before.reads ⊆ after.reads

theorem OnlyReads.refl (m : HeapMachine) : OnlyReads m m :=
  ⟨rfl, rfl, rfl, fun _ inside => inside⟩

theorem OnlyReads.trans {first second third : HeapMachine} (one : OnlyReads first second)
    (two : OnlyReads second third) : OnlyReads first third :=
  ⟨two.mem.trans one.mem, two.writes.trans one.writes, two.blocks.trans one.blocks,
    fun _ inside => two.reads (one.reads inside)⟩

/-- The machine after a read. -/
def HeapMachine.reading (m : HeapMachine) (addr : UInt32) (len : Nat) : HeapMachine :=
  { m with reads := ⟨addr, len⟩ :: m.reads }

theorem OnlyReads.reading (m : HeapMachine) (addr : UInt32) (len : Nat) :
    OnlyReads m (m.reading addr len) :=
  ⟨rfl, rfl, rfl, fun _ inside => List.mem_cons_of_mem _ inside⟩

/-- The program only reads. -/
def Reader {α : Type} (program : Prog Halt HeapMachine α) : Prop :=
  Prog.Steps OnlyReads program

variable {α β : Type}

theorem Reader.ret (value : α) : Reader (pure value) :=
  OnlyReads.refl

theorem Reader.bind {program : Prog Halt HeapMachine α} {next : α → Prog Halt HeapMachine β}
    (first : Reader program) (second : ∀ value, Reader (next value)) :
    Reader (program >>= next) :=
  Prog.Steps.bind OnlyReads.trans first second

theorem Reader.ite {condition : Prop} [Decidable condition] {yes no : Prog Halt HeapMachine α}
    (first : Reader yes) (second : Reader no) : Reader (if condition then yes else no) :=
  Prog.Steps.ite first second

theorem heapWord_run (addr : UInt32) (m : HeapMachine) :
    heapWord addr m = .ok (word32 m.mem addr 0) (m.reading addr 4) :=
  rfl

theorem heapQuad_run (addr : UInt32) (m : HeapMachine) :
    heapQuad addr m = .ok (word64 m.mem addr 0) (m.reading addr 8) :=
  rfl

theorem heapByte_reader (addr : UInt32) : Reader (heapByte addr) :=
  fun m => OnlyReads.reading m addr 1

theorem heapWord_reader (addr : UInt32) : Reader (heapWord addr) :=
  fun m => OnlyReads.reading m addr 4

theorem heapQuad_reader (addr : UInt32) : Reader (heapQuad addr) :=
  fun m => OnlyReads.reading m addr 8

variable (heap : UInt32)

theorem getOsMleDataSize_reader : Reader (getOsMleDataSize heap) :=
  (heapQuad_reader heap).bind fun _ => heapQuad_reader _

theorem getOsMleDataStart_reader : Reader (getOsMleDataStart heap) :=
  (heapQuad_reader heap).bind fun _ => .ret _

theorem getOsSinitDataSize_reader : Reader (getOsSinitDataSize heap) :=
  (heapQuad_reader heap).bind fun _ => (getOsMleDataSize_reader heap).bind fun _ =>
    heapQuad_reader _

theorem getOsSinitDataStart_reader : Reader (getOsSinitDataStart heap) :=
  (heapQuad_reader heap).bind fun _ => (getOsMleDataSize_reader heap).bind fun _ => .ret _

theorem getSinitMleDataSize_reader : Reader (getSinitMleDataSize heap) :=
  (heapQuad_reader heap).bind fun _ => (getOsMleDataSize_reader heap).bind fun _ =>
    (getOsSinitDataSize_reader heap).bind fun _ => heapQuad_reader _

theorem getSinitMleDataStart_reader : Reader (getSinitMleDataStart heap) :=
  (heapQuad_reader heap).bind fun _ => (getOsMleDataSize_reader heap).bind fun _ =>
    (getOsSinitDataSize_reader heap).bind fun _ => .ret _

theorem heapCompare_reader (addr : UInt32) (bytes : List UInt8) :
    Reader (heapCompare addr bytes) := by
  induction bytes generalizing addr with
  | nil => exact .ret _
  | cons byte rest ih =>
      exact (heapByte_reader addr).bind fun value => .ite (.ret _) (ih _)

theorem verifyEvtLog_reader (elog : UInt32) : Reader (verifyEvtLog elog) :=
  .ite (.ret _) <| (heapCompare_reader _ _).bind fun _ => .ite (.ret _) <|
    (heapWord_reader _).bind fun _ => .ite (.ret _) <|
    (heapWord_reader _).bind fun _ => .ite (.ret _) <|
    (heapWord_reader _).bind fun _ => .ite (.ret _) (.ret _)

theorem acmAddrsLoop_reader (addrs : UInt32) (count : Nat) :
    Reader (acmAddrsLoop addrs count) := by
  induction count generalizing addrs with
  | zero => exact .ret _
  | succ count ih =>
      exact (heapQuad_reader addrs).bind fun value => .ite (.ret _) (.ite (.ret _) (ih _))

theorem verifyElt_reader (type elt : UInt32) : Reader (verifyElt type elt) := by
  have size : Reader (heapWord (elt + 4)) := heapWord_reader _
  refine .ite (size.bind fun _ => .ret _) (.ite (size.bind fun _ => ?_)
    (.ite (size.bind fun _ => .ret _) (.ite (size.bind fun _ => ?_) (.ite (.ret _) (.ret _)))))
  · exact (heapWord_reader _).bind fun _ => .ite (.ret _) (acmAddrsLoop_reader _ _)
  · exact .ite (.ret _) ((heapQuad_reader _).bind fun _ => verifyEvtLog_reader _)

theorem extDataEltsLoop_reader (fuel : Nat) (elt eltsSize : UInt32) :
    Reader (extDataEltsLoop fuel elt eltsSize) := by
  induction fuel generalizing elt eltsSize with
  | zero => exact .ret _
  | succ fuel ih =>
      exact .ite (.ret _) <| (heapWord_reader _).bind fun _ => .ite (.ret _) <|
        (heapWord_reader _).bind fun _ => .ite (.ret _) <|
        (verifyElt_reader _ _).bind fun _ => .ite (.ret _) (ih _ _)

theorem verifyBiosData_reader (heapBase heapSize : UInt64) :
    Reader (verifyBiosData heapBase heapSize heap) :=
  .ite (.ret _) <| (heapQuad_reader _).bind fun _ => .ite (.ret _) <| .ite (.ret _) <|
    (heapWord_reader _).bind fun _ => .ite (.ret _) <|
    (heapWord_reader _).bind fun _ => .ite (.ret _) <| .ite (.ret _) <|
    .ite (extDataEltsLoop_reader _ _ _) (.ret _)

theorem verifyOsMleData_reader (heapSize : UInt64) : Reader (verifyOsMleData heapSize heap) :=
  (getOsMleDataSize_reader heap).bind fun _ => .ite (.ret _) <| .ite (.ret _) <| .ite (.ret _) <|
    (getOsMleDataStart_reader heap).bind fun _ => (heapWord_reader _).bind fun _ => .ret _

theorem verifyOsSinitData_reader (heapSize : UInt64) :
    Reader (verifyOsSinitData heapSize heap) :=
  (getOsSinitDataSize_reader heap).bind fun _ => .ite (.ret _) <| .ite (.ret _) <|
    (getOsSinitDataStart_reader heap).bind fun _ => (heapWord_reader _).bind fun _ =>
    .ite (.ret _) <| .ite (.ret _) <| .ite (extDataEltsLoop_reader _ _ _) (.ret _)

theorem verifySinitMleData_reader (heapSize : UInt64) :
    Reader (verifySinitMleData heapSize heap) :=
  (getSinitMleDataSize_reader heap).bind fun _ => .ite (.ret _) <| .ite (.ret _) <|
    (getSinitMleDataStart_reader heap).bind fun _ => (heapWord_reader _).bind fun _ => .ret _

theorem verifyTxtHeap_reader (heapBase heapSize : UInt64) (biosDataOnly : Bool) :
    Reader (verifyTxtHeap heapBase heapSize heap biosDataOnly) :=
  (verifyBiosData_reader _ _ _).bind fun _ => .ite (.ret _) <| .ite (.ret _) <|
    (heapQuad_reader _).bind fun _ => (getOsMleDataSize_reader _).bind fun _ =>
    (getOsSinitDataSize_reader _).bind fun _ => (getSinitMleDataSize_reader _).bind fun _ =>
    .ite (.ret _) <| .ite (.ret _) <| .ite (.ret _) <| .ite (.ret _) <|
    (verifyOsMleData_reader _ _).bind fun _ => .ite (.ret _) <|
    (verifyOsSinitData_reader _ _).bind fun _ => .ite (.ret _) (verifySinitMleData_reader _ _)

end Frames

section Layout

/-- The block whose size is at an address. -/
def blockAt (mem : Mem) (start : UInt32) : HeapBlock :=
  ⟨start, word64 mem start 0⟩

/-- The block behind another one. -/
def HeapBlock.next (mem : Mem) (block : HeapBlock) : HeapBlock :=
  blockAt mem (block.start + block.size.toUInt32)

def biosBlock (mem : Mem) (heap : UInt32) : HeapBlock := blockAt mem heap
def osMleBlock (mem : Mem) (heap : UInt32) : HeapBlock := (biosBlock mem heap).next mem
def osSinitBlock (mem : Mem) (heap : UInt32) : HeapBlock := (osMleBlock mem heap).next mem
def sinitMleBlock (mem : Mem) (heap : UInt32) : HeapBlock := (osSinitBlock mem heap).next mem

/-- The address behind a block. -/
def HeapBlock.stop (block : HeapBlock) : Nat :=
  block.start.toNat + block.size.toNat

/-- The four blocks lie one behind the other, inside of the heap. -/
structure BlocksInside (mem : Mem) (heapBase heapSize : UInt64) : Prop where
  first : (biosBlock mem heapBase.toUInt32).start.toNat = heapBase.toNat
  second : (osMleBlock mem heapBase.toUInt32).start.toNat =
    (biosBlock mem heapBase.toUInt32).stop
  third : (osSinitBlock mem heapBase.toUInt32).start.toNat =
    (osMleBlock mem heapBase.toUInt32).stop
  fourth : (sinitMleBlock mem heapBase.toUInt32).start.toNat =
    (osSinitBlock mem heapBase.toUInt32).stop
  inside : (sinitMleBlock mem heapBase.toUInt32).stop ≤ heapBase.toNat + heapSize.toNat

/-- Every block is large enough for its size and the structure behind it. -/
structure BlocksLarge (mem : Mem) (heap : UInt32) : Prop where
  bios : 8 + 36 ≤ (biosBlock mem heap).size.toNat
  osMle : 8 + osMleDataSize.toNat ≤ (osMleBlock mem heap).size.toNat
  osSinit : (calcOsSinitDataSize (word32 mem ((osSinitBlock mem heap).start + 8) 0)).toNat ≤
    (osSinitBlock mem heap).size.toNat
  sinitMle : 8 + 148 ≤ (sinitMleBlock mem heap).size.toNat

variable (heapBase heapSize : UInt64)

def InHeap (a : Nat) : Prop :=
  heapBase.toNat ≤ a ∧ a < heapBase.toNat + heapSize.toNat

/-- Only bytes of the heap were read. -/
def ReadsInside (m : HeapMachine) : Prop :=
  ∀ access ∈ m.reads, ∀ a, access.Touches a → InHeap heapBase heapSize a

/-- The check of the heap with the given content is safe, and the full check accepts proper
blocks only. -/
structure HeapChecked (mem : Mem) : Prop where
  reads : ∀ biosDataOnly, ReadsInside heapBase heapSize
    (verifyTxtHeap heapBase heapSize (getTxtHeap heapBase) biosDataOnly (.start mem)).state
  accepts : ∀ reached,
    verifyTxtHeap heapBase heapSize (getTxtHeap heapBase) false (.start mem) =
      .ok true reached →
    BlocksInside mem heapBase heapSize ∧ BlocksLarge mem heapBase.toUInt32

end Layout

section Violation

variable {heapBase heapSize : UInt64} {heap : UInt32} {mem : Mem}

/-- Memory given by the distance from an address. -/
def memoryFrom (heap : UInt32) (bytes : Nat → UInt8) : Mem :=
  fun a => bytes ((a + 2 ^ 32 - heap.toNat) % 2 ^ 32)

theorem flat_memoryFrom (bytes : Nat → UInt8) {i : Nat} (small : i < 2 ^ 32) :
    flat (memoryFrom heap bytes) (heap.toNat + i) = bytes i := by
  have low := heap.toNat_lt
  have distance : ((heap.toNat + i) % 2 ^ 32 + 2 ^ 32 - heap.toNat) % 2 ^ 32 = i := by omega
  rw [flat, memoryFrom, distance]

/-- An offset of a pointer is one in the flat memory. -/
theorem word32_add (offset : UInt32) (i : Nat) :
    word32 mem (heap + offset) i = word32 mem heap (offset.toNat + i) := by
  have same (j : Nat) : flat mem ((heap + offset).toNat + i + j) =
      flat mem (heap.toNat + (offset.toNat + i) + j) := by
    have address : ((heap.toNat + offset.toNat) % 2 ^ 32 + i + j) % 2 ^ 32 =
        (heap.toNat + (offset.toNat + i) + j) % 2 ^ 32 := by omega
    rw [flat, flat, UInt32.toNat_add, address]
  rw [word32, word32, load32, load32]
  simp only [ByteMemory.read, same]

/-- A firmware block of the given size with data of version 2 for one processor. -/
def biosBytes (size : UInt32) (i : Nat) : UInt8 :=
  if i < 4 then (le32 size).getD i 0 else if i = 8 then 2 else if i = 32 then 1 else 0

theorem word32_biosBytes (size : UInt32) {i : Nat} (small : i + 3 < 2 ^ 32) :
    word32 (memoryFrom heap (biosBytes size)) heap i =
      ofBe32 [biosBytes size (i + 3), biosBytes size (i + 2), biosBytes size (i + 1),
        biosBytes size i] := by
  have bytes : word32 (memoryFrom heap (biosBytes size)) heap i =
      ofBe32 [flat (memoryFrom heap (biosBytes size)) (heap.toNat + (i + 3)),
        flat (memoryFrom heap (biosBytes size)) (heap.toNat + (i + 2)),
        flat (memoryFrom heap (biosBytes size)) (heap.toNat + (i + 1)),
        flat (memoryFrom heap (biosBytes size)) (heap.toNat + i)] := rfl
  rw [bytes, flat_memoryFrom _ (by omega), flat_memoryFrom _ (by omega),
    flat_memoryFrom _ (by omega), flat_memoryFrom _ (by omega)]

theorem word64_biosBytes (size : UInt32) :
    word64 (memoryFrom heap (biosBytes size)) heap 0 = size.toUInt64 := by
  have low : word32 (memoryFrom heap (biosBytes size)) heap 0 = size := by
    rw [word32_biosBytes size (by omega)]
    exact ofBe32_be32 size
  have high : word32 (memoryFrom heap (biosBytes size)) heap 4 = 0 := by
    rw [word32_biosBytes size (by omega)]
    simp only [biosBytes, Nat.reduceAdd, Nat.reduceLT, Nat.reduceEqDiff, if_false]
    decide
  rw [word64, Nat.zero_add, low, high]
  change (0 : UInt64) <<< 32 ||| size.toUInt64 = size.toUInt64
  rw [show (0 : UInt64) <<< 32 = 0 from rfl, UInt64.zero_or]

/-- The firmware data is accepted. -/
theorem verifyBiosData_biosBytes {size : UInt32} (present : heap ≠ 0) (base : heapBase ≠ 0)
    (some : heapSize ≠ 0) (positive : size ≠ 0) (fits : size.toUInt64 ≤ heapSize)
    {m : HeapMachine} (content : m.mem = memoryFrom heap (biosBytes size)) :
    ∃ reached, verifyBiosData heapBase heapSize heap m = .ok true reached ∧
      OnlyReads m reached := by
  have version : word32 m.mem (heap + 8) 0 = 2 := by
    rw [word32_add, content, word32_biosBytes size (by decide)]
    simp only [biosBytes, UInt32.reduceToNat, Nat.reduceAdd, Nat.reduceLT, Nat.reduceEqDiff,
      if_false, if_true]
    decide
  have procs : word32 m.mem (heap + 8 + 24) 0 = 1 := by
    rw [word32_add, word32_add, content, word32_biosBytes size (by decide)]
    simp only [biosBytes, UInt32.reduceToNat, Nat.reduceAdd, Nat.reduceLT, Nat.reduceEqDiff,
      if_false, if_true]
    decide
  have total : word64 m.mem heap 0 = size.toUInt64 := by
    rw [content]
    exact word64_biosBytes size
  have steps := verifyBiosData_reader heap heapBase heapSize m
  have run : verifyBiosData heapBase heapSize heap m =
      .ok true (((m.reading heap 8).reading (heap + 8) 4).reading (heap + 8 + 24) 4) := by
    have nonzero : size.toUInt64 ≠ 0 := fun zero => positive (UInt32.toNat_inj.mp (by
      have number := congrArg UInt64.toNat zero
      rwa [UInt32.toNat_toUInt64] at number))
    rw [verifyBiosData, if_neg (by simp [present, base, some]), getBiosDataSize,
      Prog.bind_ok (heapQuad_run _ _), total, if_neg nonzero, if_neg (UInt64.not_lt.mpr fits),
      getBiosDataStart, Prog.bind_ok (heapWord_run _ _)]
    have first : word32 (m.reading heap 8).mem (heap + 8) 0 = 2 := version
    rw [first, if_neg (by decide), Prog.bind_ok (heapWord_run _ _)]
    have second : word32 ((m.reading heap 8).reading (heap + 8) 4).mem (heap + 8 + 24) 0 = 1 :=
      procs
    rw [second, if_neg (by decide), if_neg (by decide), if_neg (fun both => by
      simpa using both.1)]
    rfl
  rw [run] at steps
  exact ⟨_, run, steps⟩

/-- The size that leads out of the heap. -/
def leavingSize (heapBase heapSize : UInt64) : UInt32 :=
  if heapSize.toNat < 2 ^ 32 - heapBase.toUInt32.toNat then heapSize.toUInt32
  else 0 - heapBase.toUInt32

theorem leavingSize_spec (present : getTxtHeap heapBase ≠ 0) (some : heapSize ≠ 0) :
    leavingSize heapBase heapSize ≠ 0 ∧
      (leavingSize heapBase heapSize).toUInt64 ≤ heapSize ∧
      ¬ InHeap heapBase heapSize
        (getTxtHeap heapBase + leavingSize heapBase heapSize).toNat := by
  have low : (getTxtHeap heapBase).toNat = heapBase.toNat % 2 ^ 32 := UInt64.toNat_toUInt32 _
  have nonzero : (getTxtHeap heapBase).toNat ≠ 0 := fun zero => present (UInt32.toNat_inj.mp zero)
  have positive : heapSize.toNat ≠ 0 := fun zero => some (UInt64.toNat_inj.mp zero)
  have bound := (getTxtHeap heapBase).toNat_lt
  have same : heapBase.toUInt32 = getTxtHeap heapBase := rfl
  unfold leavingSize InHeap
  rw [same]
  split
  next small =>
    have size : heapSize.toUInt32.toNat = heapSize.toNat := by
      rw [UInt64.toNat_toUInt32, Nat.mod_eq_of_lt (by omega)]
    refine ⟨fun zero => ?_, ?_, ?_⟩
    · have number := congrArg UInt32.toNat zero
      rw [size] at number
      exact positive number
    · have same : heapSize.toUInt32.toUInt64.toNat = heapSize.toNat := by
        rw [UInt32.toNat_toUInt64, size]
      exact UInt64.le_iff_toNat_le.mpr (Nat.le_of_eq same)
    · rw [UInt32.toNat_add, size]
      omega
  next large =>
    have size : (0 - getTxtHeap heapBase).toNat = 2 ^ 32 - (getTxtHeap heapBase).toNat := by
      rw [UInt32.toNat_sub]
      change (2 ^ 32 - (getTxtHeap heapBase).toNat + 0) % 2 ^ 32 = _
      omega
    refine ⟨fun zero => ?_, ?_, ?_⟩
    · have number := congrArg UInt32.toNat zero
      rw [size] at number
      change _ = 0 at number
      omega
    · rw [UInt64.le_iff_toNat_le, UInt32.toNat_toUInt64, size]
      omega
    · rw [UInt32.toNat_add, size]
      omega

/-- The firmware can make the check read behind the heap. -/
theorem not_readsInside (present : getTxtHeap heapBase ≠ 0) (some : heapSize ≠ 0) :
    ¬ ReadsInside heapBase heapSize
      (verifyTxtHeap heapBase heapSize (getTxtHeap heapBase) false
        (.start (memoryFrom (getTxtHeap heapBase)
          (biosBytes (leavingSize heapBase heapSize))))).state := by
  obtain ⟨positive, fits, outside⟩ := leavingSize_spec present some
  have base : heapBase ≠ 0 := by
    rintro rfl
    exact present rfl
  obtain ⟨verified, run, only⟩ := verifyBiosData_biosBytes present base some positive fits
    (m := .start (memoryFrom (getTxtHeap heapBase) (biosBytes (leavingSize heapBase heapSize)))) rfl
  intro inside
  apply outside
  have total : word64 verified.mem (getTxtHeap heapBase) 0 =
      (leavingSize heapBase heapSize).toUInt64 := by
    rw [only.mem]
    exact word64_biosBytes _
  refine inside ⟨getTxtHeap heapBase + leavingSize heapBase heapSize, 8⟩ ?_ _
    ⟨0, Nat.zero_lt_succ 7, by simp⟩
  rw [verifyTxtHeap, Prog.bind_ok run, if_neg (by simp), if_neg (by simp), getBiosDataSize,
    Prog.bind_ok (heapQuad_run _ _)]
  have prefix2 : getOsMleDataSize (getTxtHeap heapBase)
      (verified.reading (getTxtHeap heapBase) 8) =
      .ok (word64 verified.mem (getTxtHeap heapBase + leavingSize heapBase heapSize) 0)
        (((verified.reading (getTxtHeap heapBase) 8).reading (getTxtHeap heapBase) 8).reading
          (getTxtHeap heapBase + leavingSize heapBase heapSize) 8) := by
    have again : word64 (verified.reading (getTxtHeap heapBase) 8).mem (getTxtHeap heapBase) 0 =
        (leavingSize heapBase heapSize).toUInt64 := total
    rw [getOsMleDataSize, getBiosDataSize, Prog.bind_ok (heapQuad_run _ _), again,
      UInt32.toUInt32_toUInt64]
    rfl
  rw [Prog.bind_ok prefix2]
  refine (Reader.bind (getOsSinitDataSize_reader _) (fun size3 => ?_) _).reads List.mem_cons_self
  exact (getSinitMleDataSize_reader _).bind fun size4 => .ite (.ret _) <| .ite (.ret _) <|
    .ite (.ret _) <| .ite (.ret _) <| (verifyOsMleData_reader _ _).bind fun _ => .ite (.ret _) <|
    (verifyOsSinitData_reader _ _).bind fun _ => .ite (.ret _) (verifySinitMleData_reader _ _)

end Violation

section Accepted

variable {heapBase heapSize : UInt64} {heap : UInt32} {m reached : HeapMachine} {mem : Mem}

theorem getOsSinitDataStart_run (heap : UInt32) (m : HeapMachine) :
    ∃ reached, getOsSinitDataStart heap m = .ok ((osSinitBlock m.mem heap).start + 8) reached ∧
      reached.mem = m.mem :=
  ⟨_, rfl, rfl⟩

/-- A test that rejects was passed. -/
theorem passes_of_ok {condition : Prop} [Decidable condition]
    {next : Prog Halt HeapMachine Bool}
    (run : (if condition then pure false else next : Prog Halt HeapMachine Bool) m =
      .ok true reached) : ¬ condition ∧ next m = .ok true reached :=
  (Prog.ite_pure_eq_ok (by decide)).mp run

theorem not_plusOverflow64 {x y : UInt64} (fits : ¬ plusOverflow64 x y = true) :
    (x + y).toNat = x.toNat + y.toNat := by
  have small := x.toNat_lt
  have left : (0xffffffffffffffff - x : UInt64).toNat = 2 ^ 64 - 1 - x.toNat := by
    rw [UInt64.toNat_sub_of_le _ _ (UInt64.le_iff_toNat_le.mpr (Nat.le_sub_one_of_lt small))]
    rfl
  simp only [plusOverflow64, decide_eq_true_eq, UInt64.lt_iff_toNat_lt, left] at fits
  rw [UInt64.toNat_add, Nat.mod_eq_of_lt (by omega)]

/-- The start of the next block. -/
theorem HeapBlock.next_start {block : HeapBlock} (room : block.stop < 2 ^ 32) :
    (block.next mem).start.toNat = block.stop := by
  unfold HeapBlock.stop at *
  rw [HeapBlock.next, blockAt, UInt32.toNat_add, UInt64.toNat_toUInt32]
  omega

/-- Blocks that are not larger than the heap together lie inside of it exactly if none of them
starts behind the last address. -/
theorem blocksInside_iff_of_total (below : heapBase.toNat < 2 ^ 32)
    (total : (biosBlock mem heapBase.toUInt32).size.toNat +
      (osMleBlock mem heapBase.toUInt32).size.toNat +
      (osSinitBlock mem heapBase.toUInt32).size.toNat +
      (sinitMleBlock mem heapBase.toUInt32).size.toNat ≤ heapSize.toNat) :
    BlocksInside mem heapBase heapSize ↔
      heapBase.toNat + (biosBlock mem heapBase.toUInt32).size.toNat +
        (osMleBlock mem heapBase.toUInt32).size.toNat +
        (osSinitBlock mem heapBase.toUInt32).size.toNat < 2 ^ 32 := by
  have first : (biosBlock mem heapBase.toUInt32).start.toNat = heapBase.toNat := by
    change heapBase.toUInt32.toNat = _
    rw [UInt64.toNat_toUInt32, Nat.mod_eq_of_lt below]
  have stop1 : (biosBlock mem heapBase.toUInt32).stop =
    heapBase.toNat + (biosBlock mem heapBase.toUInt32).size.toNat := by rw [HeapBlock.stop, first]
  constructor
  · intro inside
    have stop2 := inside.second
    have stop3 := inside.third
    have stop4 := inside.fourth
    have last := (sinitMleBlock mem heapBase.toUInt32).start.toNat_lt
    rw [HeapBlock.stop] at stop3 stop4
    omega
  · intro room
    have second : (osMleBlock mem heapBase.toUInt32).start.toNat =
      (biosBlock mem heapBase.toUInt32).stop := HeapBlock.next_start (by omega)
    have stop2 : (osMleBlock mem heapBase.toUInt32).stop =
      (biosBlock mem heapBase.toUInt32).stop +
        (osMleBlock mem heapBase.toUInt32).size.toNat := by rw [HeapBlock.stop, second]
    have third : (osSinitBlock mem heapBase.toUInt32).start.toNat =
      (osMleBlock mem heapBase.toUInt32).stop := HeapBlock.next_start (by omega)
    have stop3 : (osSinitBlock mem heapBase.toUInt32).stop =
      (osMleBlock mem heapBase.toUInt32).stop +
        (osSinitBlock mem heapBase.toUInt32).size.toNat := by rw [HeapBlock.stop, third]
    have fourth : (sinitMleBlock mem heapBase.toUInt32).start.toNat =
      (osSinitBlock mem heapBase.toUInt32).stop := HeapBlock.next_start (by omega)
    refine ⟨first, second, third, fourth, ?_⟩
    rw [HeapBlock.stop, fourth]
    omega

/-- Without a heap nothing is read. -/
theorem verifyTxtHeap_absent (absent : getTxtHeap heapBase = 0 ∨ heapSize = 0)
    (biosDataOnly : Bool) :
    verifyTxtHeap heapBase heapSize (getTxtHeap heapBase) biosDataOnly m = .ok false m := by
  have run : verifyBiosData heapBase heapSize (getTxtHeap heapBase) m = .ok false m := by
    rw [verifyBiosData, if_pos (by rcases absent with null | empty <;> simp [*])]
    rfl
  rw [verifyTxtHeap, Prog.bind_ok run, if_pos (by simp)]
  rfl

/-- The check is safe for every content of the heap only if it reads nothing. -/
theorem heapChecked_always_iff (heapBase heapSize : UInt64) :
    (∀ mem, HeapChecked heapBase heapSize mem) ↔ getTxtHeap heapBase = 0 ∨ heapSize = 0 := by
  refine ⟨fun safe => ?_, fun absent mem => ?_⟩
  · by_contra some
    rw [not_or] at some
    exact not_readsInside some.1 some.2 ((safe _).reads false)
  · constructor
    · intro biosDataOnly access inside
      rw [verifyTxtHeap_absent absent] at inside
      cases inside
    · intro reached run
      rw [verifyTxtHeap_absent absent] at run
      cases run

end Accepted

end Sable
