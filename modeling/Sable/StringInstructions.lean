import Mathlib.Logic.Relation
import Sable.ByteMemory

/-!
# A fragment of the x86 instruction set

The instructions `mov r32, imm32`, `rep movsb`, `rep stosb` and `jmp r32` in flat
32-bit mode, decoded from the bytes in memory.  A repeated string instruction
executes one iteration in each step, so that it may be interrupted.  The rules at
the end give the effect of whole instructions; the code must lie where the string
instructions do not write.
-/

namespace X86

open ByteMemory

inductive Reg
  | eax
  | ecx
  | edx
  | ebx
  | esp
  | ebp
  | esi
  | edi
  deriving DecidableEq

namespace Reg

/-- The number of a register in the encoding of an instruction. -/
def code : Reg → UInt8
  | eax => 0
  | ecx => 1
  | edx => 2
  | ebx => 3
  | esp => 4
  | ebp => 5
  | esi => 6
  | edi => 7

def ofCode (number : UInt8) : Option Reg :=
  [eax, ecx, edx, ebx, esp, ebp, esi, edi][number.toNat]?

theorem ofCode_code (reg : Reg) : ofCode reg.code = some reg := by
  cases reg <;> rfl

end Reg

structure Cpu where
  regs : Reg → UInt32
  eip : UInt32
  /-- The direction flag. -/
  df : Bool
  mem : Mem

inductive Instr
  | mov (reg : Reg) (constant : UInt32)
  | repMovsb
  | repStosb
  | jmp (reg : Reg)

namespace Cpu

/-- The instruction byte at an offset from the instruction pointer. -/
def fetch (cpu : Cpu) (offset : UInt32) : UInt8 :=
  cpu.mem (cpu.eip + offset).toNat

def set (cpu : Cpu) (reg : Reg) (value : UInt32) : Cpu :=
  { cpu with regs := Function.update cpu.regs reg value }

/-- Advance a pointer register in the direction of the flag. -/
def advance (cpu : Cpu) (reg : Reg) : Cpu :=
  cpu.set reg (if cpu.df then cpu.regs reg - 1 else cpu.regs reg + 1)

def skip (cpu : Cpu) (length : UInt32) : Cpu :=
  { cpu with eip := cpu.eip + length }

def store (cpu : Cpu) (addr : UInt32) (value : UInt8) : Cpu :=
  { cpu with mem := write cpu.mem addr.toNat [value] }

/-- The instruction at the instruction pointer. -/
def decode (cpu : Cpu) : Option Instr :=
  let opcode := cpu.fetch 0
  if opcode &&& 0xF8 = 0xB8 then
    (Reg.ofCode (opcode &&& 7)).map fun reg =>
      .mov reg (BigEndian.ofBe32 [cpu.fetch 4, cpu.fetch 3, cpu.fetch 2, cpu.fetch 1])
  else if opcode = 0xF3 then
    if cpu.fetch 1 = 0xA4 then some .repMovsb
    else if cpu.fetch 1 = 0xAA then some .repStosb
    else none
  else if opcode = 0xFF ∧ cpu.fetch 1 &&& 0xF8 = 0xE0 then
    (Reg.ofCode (cpu.fetch 1 &&& 7)).map .jmp
  else none

/-- One step of an instruction; a string instruction stays where it is until its
counter is zero. -/
def exec (cpu : Cpu) : Instr → Cpu
  | .mov reg constant => (cpu.set reg constant).skip 5
  | .repMovsb =>
      if cpu.regs .ecx = 0 then cpu.skip 2
      else
        (((cpu.store (cpu.regs .edi) (cpu.mem (cpu.regs .esi).toNat)).advance .esi).advance
          .edi).set .ecx (cpu.regs .ecx - 1)
  | .repStosb =>
      if cpu.regs .ecx = 0 then cpu.skip 2
      else
        ((cpu.store (cpu.regs .edi) (cpu.regs .eax).toUInt8).advance .edi).set .ecx
          (cpu.regs .ecx - 1)
  | .jmp reg => { cpu with eip := cpu.regs reg }

def step (cpu : Cpu) : Option Cpu :=
  cpu.decode.map cpu.exec

/-- The state comes up in the execution. -/
def Reaches : Cpu → Cpu → Prop :=
  Relation.ReflTransGen fun cpu next => cpu.step = some next

end Cpu

/-- The encodings of the instructions. -/
def movBytes (reg : Reg) (constant : UInt32) : List UInt8 :=
  (0xB8 ||| reg.code) :: le32 constant

def repMovsbBytes : List UInt8 := [0xF3, 0xA4]

def repStosbBytes : List UInt8 := [0xF3, 0xAA]

def jmpBytes (reg : Reg) : List UInt8 := [0xFF, 0xE0 ||| reg.code]

/-- Copy bytes one after the other to ascending addresses. -/
def copyBytes : Nat → UInt32 → UInt32 → Mem → Mem
  | 0, _, _, mem => mem
  | count + 1, dst, src, mem =>
      copyBytes count (dst + 1) (src + 1) (write mem dst.toNat [mem src.toNat])

/-- Fill ascending addresses with a byte. -/
def fillBytes : Nat → UInt32 → UInt8 → Mem → Mem
  | 0, _, _, mem => mem
  | count + 1, dst, value, mem => fillBytes count (dst + 1) value (write mem dst.toNat [value])

/-- The `count` bytes from `dst` on, modulo the size of the address space, lie outside of
the bytes from `lo` to `hi`. -/
def Avoids (dst : UInt32) (count lo hi : Nat) : Prop :=
  ∀ i < count, (dst + UInt32.ofNat i).toNat < lo ∨ hi ≤ (dst + UInt32.ofNat i).toNat

/-- The code at the instruction pointer. -/
structure Cpu.At (cpu : Cpu) (pos : Nat) (bytes : List UInt8) : Prop where
  eip : cpu.eip.toNat = pos
  code : read cpu.mem pos bytes.length = bytes
  room : pos + bytes.length < 2 ^ 32

section Steps

variable {cpu : Cpu} {pos : Nat} {bytes rest : List UInt8}

theorem Cpu.At.fetch (code : cpu.At pos bytes) {offset : UInt32}
    (inside : offset.toNat < bytes.length) :
    cpu.fetch offset = bytes.getD offset.toNat 0 := by
  have room := code.room
  have address : (cpu.eip + offset).toNat = pos + offset.toNat := by
    rw [UInt32.toNat_add, code.eip, Nat.mod_eq_of_lt (by omega)]
  have byte := getElem?_read cpu.mem pos bytes.length offset.toNat
  rw [code.code, if_pos inside] at byte
  rw [Cpu.fetch, address, List.getD_eq_getElem?_getD, byte]
  rfl

/-- The code behind an instruction. -/
theorem Cpu.At.tail {first : List UInt8} (code : cpu.At pos (first ++ rest))
    {length : UInt32} (size : length.toNat = first.length) {next : Cpu}
    (eip : next.eip = cpu.eip + length)
    (kept : read next.mem (pos + first.length) rest.length =
      read cpu.mem (pos + first.length) rest.length) :
    next.At (pos + first.length) rest := by
  have room := code.room
  rw [List.length_append] at room
  constructor
  · rw [eip, UInt32.toNat_add, code.eip, size, Nat.mod_eq_of_lt (by omega)]
  · have parts := code.code
    rw [List.length_append, read_add] at parts
    rw [kept]
    exact (List.append_inj' parts (by simp)).2
  · omega

theorem Cpu.step_mov {reg : Reg} {constant : UInt32}
    (code : cpu.At pos (movBytes reg constant ++ rest)) :
    cpu.step = some ((cpu.set reg constant).skip 5) := by
  have length : 5 ≤ (movBytes reg constant ++ rest).length := by
    simp only [movBytes, List.length_append, List.length_cons, length_le32]
    omega
  have inside {offset : UInt32} (small : offset.toNat < 5) :
      offset.toNat < (movBytes reg constant ++ rest).length := by omega
  have opcode : cpu.fetch 0 = 0xB8 ||| reg.code := code.fetch (inside (by decide))
  have first : cpu.fetch 1 = (le32 constant).getD 0 0 := code.fetch (inside (by decide))
  have second : cpu.fetch 2 = (le32 constant).getD 1 0 := code.fetch (inside (by decide))
  have third : cpu.fetch 3 = (le32 constant).getD 2 0 := code.fetch (inside (by decide))
  have fourth : cpu.fetch 4 = (le32 constant).getD 3 0 := code.fetch (inside (by decide))
  have word : BigEndian.ofBe32 [cpu.fetch 4, cpu.fetch 3, cpu.fetch 2, cpu.fetch 1] =
      constant := by
    rw [first, second, third, fourth]
    exact BigEndian.ofBe32_be32 constant
  have kind : (0xB8 ||| reg.code) &&& 0xF8 = 0xB8 := by cases reg <;> rfl
  have number : (0xB8 ||| reg.code) &&& 7 = reg.code := by cases reg <;> rfl
  rw [Cpu.step, Cpu.decode]
  simp only [opcode, kind, number, word, Reg.ofCode_code, if_true, Option.map_some]
  rfl

theorem Cpu.decode_repMovsb (code : cpu.At pos (repMovsbBytes ++ rest)) :
    cpu.decode = some .repMovsb := by
  have opcode : cpu.fetch 0 = 0xF3 := code.fetch (by simp [repMovsbBytes])
  have second : cpu.fetch 1 = 0xA4 := code.fetch (by simp [repMovsbBytes])
  rw [Cpu.decode]
  simp only [opcode, second]
  rfl

theorem Cpu.decode_repStosb (code : cpu.At pos (repStosbBytes ++ rest)) :
    cpu.decode = some .repStosb := by
  have opcode : cpu.fetch 0 = 0xF3 := code.fetch (by simp [repStosbBytes])
  have second : cpu.fetch 1 = 0xAA := code.fetch (by simp [repStosbBytes])
  rw [Cpu.decode]
  simp only [opcode, second]
  rfl

theorem Cpu.step_jmp {reg : Reg} (code : cpu.At pos (jmpBytes reg ++ rest)) :
    cpu.step = some { cpu with eip := cpu.regs reg } := by
  have opcode : cpu.fetch 0 = 0xFF := code.fetch (by simp [jmpBytes])
  have second : cpu.fetch 1 = 0xE0 ||| reg.code := code.fetch (by simp [jmpBytes])
  have kind : (0xE0 ||| reg.code) &&& 0xF8 = 0xE0 := by cases reg <;> rfl
  have number : (0xE0 ||| reg.code) &&& 7 = reg.code := by cases reg <;> rfl
  rw [Cpu.step, Cpu.decode]
  simp only [opcode, second, kind, number, Reg.ofCode_code]
  rfl

end Steps

section Memory

variable {dst src : UInt32} {count lo hi : Nat} {mem : Mem} {value : UInt8}

/-- The next addresses. -/
theorem Avoids.tail (avoids : Avoids dst (count + 1) lo hi) : Avoids (dst + 1) count lo hi := by
  intro i inside
  have next := avoids (i + 1) (by omega)
  have same : dst + UInt32.ofNat (i + 1) = dst + 1 + UInt32.ofNat i := by
    rw [UInt32.ofNat_add, UInt32.add_comm (UInt32.ofNat i), ← UInt32.add_assoc]
    rfl
  rwa [same] at next

theorem Avoids.head (avoids : Avoids dst (count + 1) lo hi) : dst.toNat < lo ∨ hi ≤ dst.toNat := by
  have first := avoids 0 (by omega)
  simpa using first

theorem Avoids.first {total : Nat} (avoids : Avoids dst total lo hi)
    (order : count ≤ total) : Avoids dst count lo hi :=
  fun i inside => avoids i (by omega)

theorem Avoids.rest {count : UInt32} {total : Nat} (avoids : Avoids dst total lo hi) :
    Avoids (dst + count) (total - count.toNat) lo hi := by
  intro i inside
  have later := avoids (count.toNat + i) (by omega)
  have same : dst + UInt32.ofNat (count.toNat + i) = dst + count + UInt32.ofNat i := by
    rw [UInt32.ofNat_add, UInt32.ofNat_toNat, ← UInt32.add_assoc]
  rwa [same] at later

theorem write_avoids {a : Nat} (head : dst.toNat < lo ∨ hi ≤ dst.toNat) (lower : lo ≤ a)
    (upper : a < hi) : write mem dst.toNat [value] a = mem a :=
  write_outside mem (by simp only [List.length_cons, List.length_nil]; omega)

end Memory

section Repetition

variable {cpu : Cpu} {pos lo hi : Nat} {rest : List UInt8}

/-- The pointer register and the counter of a string instruction. -/
theorem succ_counter {counter : UInt32} {count : Nat} (size : counter.toNat = count + 1) :
    counter ≠ 0 ∧ (counter - 1).toNat = count := by
  constructor
  · rintro rfl
    simp at size
  · rw [UInt32.toNat_sub_of_le _ _ (UInt32.le_iff_toNat_le.mpr (by rw [size]; simp)), size]
    simp

/-- The code survives writes that avoid it. -/
theorem Cpu.At.keep {bytes : List UInt8} (code : cpu.At pos bytes) {next : Cpu}
    (eip : next.eip = cpu.eip) (lower : lo ≤ pos) (upper : pos + bytes.length ≤ hi)
    (kept : ∀ a, lo ≤ a → a < hi → next.mem a = cpu.mem a) : next.At pos bytes := by
  refine ⟨by rw [eip, code.eip], ?_, code.room⟩
  have same : read next.mem pos bytes.length = read cpu.mem pos bytes.length :=
    read_congr fun a first last => kept a (by omega) (by omega)
  rw [same, code.code]

/-- One iteration of `rep movsb`. -/
def Cpu.movsb (cpu : Cpu) : Cpu :=
  (((cpu.store (cpu.regs .edi) (cpu.mem (cpu.regs .esi).toNat)).advance .esi).advance
    .edi).set .ecx (cpu.regs .ecx - 1)

/-- One iteration of `rep stosb`. -/
def Cpu.stosb (cpu : Cpu) : Cpu :=
  ((cpu.store (cpu.regs .edi) (cpu.regs .eax).toUInt8).advance .edi).set .ecx
    (cpu.regs .ecx - 1)

/-- The registers after an iteration. -/
theorem Cpu.movsb_regs (forward : cpu.df = false) (reg : Reg) :
    cpu.movsb.regs reg =
      if reg = .ecx then cpu.regs .ecx - 1
      else if reg = .edi then cpu.regs .edi + 1
      else if reg = .esi then cpu.regs .esi + 1
      else cpu.regs reg := by
  cases reg <;> simp [Cpu.movsb, Cpu.set, Cpu.advance, Cpu.store, Function.update, forward]

theorem Cpu.stosb_regs (forward : cpu.df = false) (reg : Reg) :
    cpu.stosb.regs reg =
      if reg = .ecx then cpu.regs .ecx - 1
      else if reg = .edi then cpu.regs .edi + 1
      else cpu.regs reg := by
  cases reg <;> simp [Cpu.stosb, Cpu.set, Cpu.advance, Cpu.store, Function.update, forward]

/-- A pointer that was advanced once and then by `count`. -/
theorem add_one_add (start : UInt32) (count : Nat) :
    start + 1 + UInt32.ofNat count = start + UInt32.ofNat (count + 1) := by
  rw [UInt32.ofNat_add, UInt32.add_comm (UInt32.ofNat count), ← UInt32.add_assoc]
  rfl

/-- The whole of a `rep movsb`. -/
theorem Cpu.reaches_repMovsb {count : Nat} (size : (cpu.regs .ecx).toNat = count)
    (forward : cpu.df = false) (code : cpu.At pos (repMovsbBytes ++ rest))
    (lower : lo ≤ pos) (upper : pos + 2 + rest.length ≤ hi)
    (avoids : Avoids (cpu.regs .edi) count lo hi) :
    ∃ final, cpu.Reaches final ∧ final.At (pos + 2) rest ∧ final.df = false ∧
      final.mem = copyBytes count (cpu.regs .edi) (cpu.regs .esi) cpu.mem ∧
      final.regs .edi = cpu.regs .edi + UInt32.ofNat count ∧
      ∀ reg, reg ≠ .esi → reg ≠ .edi → reg ≠ .ecx → final.regs reg = cpu.regs reg := by
  induction count generalizing cpu with
  | zero =>
      have empty : cpu.regs .ecx = 0 := UInt32.toNat_inj.mp size
      have step : cpu.step = some (cpu.skip 2) := by
        rw [Cpu.step, Cpu.decode_repMovsb code, Option.map_some, Cpu.exec, if_pos empty]
      refine ⟨cpu.skip 2, .single step, code.tail rfl rfl rfl, forward, rfl, ?_,
        fun _ _ _ _ => rfl⟩
      simp [Cpu.skip]
  | succ count ih =>
      obtain ⟨nonzero, less⟩ := succ_counter size
      have step : cpu.step = some (cpu.movsb) := by
        rw [Cpu.step, Cpu.decode_repMovsb code, Option.map_some, Cpu.exec, if_neg nonzero]
        rfl
      have next : cpu.movsb.At pos (repMovsbBytes ++ rest) :=
        code.keep rfl lower (by
          simp only [repMovsbBytes, List.length_append, List.length_cons, List.length_nil]
          omega)
          fun a first last => write_avoids avoids.head first last
      have ecx : (cpu.movsb.regs .ecx).toNat = count := by
        rw [Cpu.movsb_regs forward]
        exact less
      have dst : cpu.movsb.regs .edi = cpu.regs .edi + 1 := Cpu.movsb_regs forward .edi
      have src : cpu.movsb.regs .esi = cpu.regs .esi + 1 := Cpu.movsb_regs forward .esi
      obtain ⟨final, reaches, last, df, mem, edi, regs⟩ :=
        ih ecx forward next (by rw [dst]; exact avoids.tail)
      refine ⟨final, .head step reaches, last, df, ?_, ?_, fun reg esiNe ediNe ecxNe => ?_⟩
      · rw [mem, dst, src]
        rfl
      · rw [edi, dst, add_one_add]
      · rw [regs reg esiNe ediNe ecxNe, Cpu.movsb_regs forward, if_neg ecxNe, if_neg ediNe,
          if_neg esiNe]

/-- The whole of a `rep stosb`. -/
theorem Cpu.reaches_repStosb {count : Nat} (size : (cpu.regs .ecx).toNat = count)
    (forward : cpu.df = false) (code : cpu.At pos (repStosbBytes ++ rest))
    (lower : lo ≤ pos) (upper : pos + 2 + rest.length ≤ hi)
    (avoids : Avoids (cpu.regs .edi) count lo hi) :
    ∃ final, cpu.Reaches final ∧ final.At (pos + 2) rest ∧ final.df = false ∧
      final.mem = fillBytes count (cpu.regs .edi) (cpu.regs .eax).toUInt8 cpu.mem ∧
      ∀ reg, reg ≠ .edi → reg ≠ .ecx → final.regs reg = cpu.regs reg := by
  induction count generalizing cpu with
  | zero =>
      have empty : cpu.regs .ecx = 0 := UInt32.toNat_inj.mp size
      have step : cpu.step = some (cpu.skip 2) := by
        rw [Cpu.step, Cpu.decode_repStosb code, Option.map_some, Cpu.exec, if_pos empty]
      exact ⟨cpu.skip 2, .single step, code.tail rfl rfl rfl, forward, rfl, fun _ _ _ => rfl⟩
  | succ count ih =>
      obtain ⟨nonzero, less⟩ := succ_counter size
      have step : cpu.step = some (cpu.stosb) := by
        rw [Cpu.step, Cpu.decode_repStosb code, Option.map_some, Cpu.exec, if_neg nonzero]
        rfl
      have next : cpu.stosb.At pos (repStosbBytes ++ rest) :=
        code.keep rfl lower (by
          simp only [repStosbBytes, List.length_append, List.length_cons, List.length_nil]
          omega)
          fun a first last => write_avoids avoids.head first last
      have ecx : (cpu.stosb.regs .ecx).toNat = count := by
        rw [Cpu.stosb_regs forward]
        exact less
      have dst : cpu.stosb.regs .edi = cpu.regs .edi + 1 := Cpu.stosb_regs forward .edi
      have value : cpu.stosb.regs .eax = cpu.regs .eax := Cpu.stosb_regs forward .eax
      obtain ⟨final, reaches, last, df, mem, regs⟩ :=
        ih ecx forward next (by rw [dst]; exact avoids.tail)
      refine ⟨final, .head step reaches, last, df, ?_, fun reg ediNe ecxNe => ?_⟩
      · rw [mem, dst, value]
        rfl
      · rw [regs reg ediNe ecxNe, Cpu.stosb_regs forward, if_neg ecxNe, if_neg ediNe]

/-- A `mov`. -/
theorem Cpu.reaches_mov {reg : Reg} {constant : UInt32}
    (code : cpu.At pos (movBytes reg constant ++ rest)) :
    ∃ final, cpu.Reaches final ∧ final.At (pos + 5) rest ∧ final.df = cpu.df ∧
      final.mem = cpu.mem ∧ final.regs reg = constant ∧
      ∀ other, other ≠ reg → final.regs other = cpu.regs other := by
  refine ⟨_, .single (Cpu.step_mov code), @Cpu.At.tail _ _ _ _ code 5 rfl _ rfl rfl, rfl, rfl,
    ?_, fun other different => ?_⟩
  · simp [Cpu.set, Cpu.skip]
  · simp [Cpu.set, Cpu.skip, different]

end Repetition

section Blocks

variable {dst src : UInt32} {count : Nat} {mem : Mem}

/-- Unless the destination begins inside of the source, the bytes of the source are copied
as a block. -/
theorem copyBytes_eq_write (dstFits : dst.toNat + count ≤ 2 ^ 32)
    (srcFits : src.toNat + count ≤ 2 ^ 32)
    (apart : dst.toNat ≤ src.toNat ∨ src.toNat + count ≤ dst.toNat) :
    copyBytes count dst src mem = write mem dst.toNat (read mem src.toNat count) := by
  induction count generalizing dst src mem with
  | zero => simp [copyBytes]
  | succ count ih =>
      by_cases last : count = 0
      · subst last
        simp [copyBytes, read_succ]
      · have nextDst := @toNat_add_one dst (by omega)
        have nextSrc := @toNat_add_one src (by omega)
        rw [copyBytes, ih (by omega) (by omega) (by omega), nextDst, nextSrc,
          read_write_disjoint _ (by simp only [List.length_cons, List.length_nil]; omega),
          read_succ]
        exact write_write_append mem dst.toNat [mem src.toNat] _

theorem fillBytes_eq_write {value : UInt8} (fits : dst.toNat + count ≤ 2 ^ 32) :
    fillBytes count dst value mem = write mem dst.toNat (List.replicate count value) := by
  induction count generalizing dst mem with
  | zero => simp [fillBytes]
  | succ count ih =>
      by_cases last : count = 0
      · subst last
        simp [fillBytes]
      · have next := @toNat_add_one dst (by omega)
        rw [fillBytes, ih (by omega), next]
        exact write_write_append mem dst.toNat [value] _

end Blocks

end X86
