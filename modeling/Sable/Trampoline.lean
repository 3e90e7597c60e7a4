import Sable.Elf

/-!
# The trampoline loads the module

The module starter is a compiler: for every loadable segment it emits a few
instructions, whose registers carry over from one to the next.  Executing the
emitted bytes has the effect of copying and filling the segments one after the
other and ends with the jump to the kernel.
-/

namespace Sable

open ByteMemory BigEndian HaltingProgram

section Image

/-- The address of a program header of the image at `start`. -/
def phAddr (mem : Mem) (start : UInt32) (i : Nat) : UInt32 :=
  start + (Eh.load mem start).ePhoff +
    UInt32.ofNat i * (Eh.load mem start).ePhentsize.toUInt32

/-- The first `count` program headers of the image. -/
def programHeaders (mem : Mem) (start : UInt32) (count : Nat) : List Ph :=
  (List.range count).map fun i => Ph.load mem (phAddr mem start i)

def Ph.loadable (ph : Ph) : Bool :=
  ph.pType = 1

/-- The loadable segments among the first `count` ones. -/
def loadableHeaders (mem : Mem) (start : UInt32) (count : Nat) : List Ph :=
  (programHeaders mem start count).filter Ph.loadable

/-- All loadable segments of an image. -/
def loadSegmentsOf (mem : Mem) (start : UInt32) : List Ph :=
  loadableHeaders mem start (Eh.load mem start).ePhnum.toNat

/-- Copy the bytes of a segment to its physical address and fill it up with zeros. -/
def loadSegment (start : UInt32) (mem : Mem) (ph : Ph) : Mem :=
  X86.fillBytes (ph.pMemsz.toNat - ph.pFilesz.toNat) (ph.pPaddr + ph.pFilesz) 0
    (X86.copyBytes ph.pFilesz.toNat ph.pPaddr (start + ph.pOffset) mem)

def loadSegments (start : UInt32) (segments : List Ph) (mem : Mem) : Mem :=
  segments.foldl (loadSegment start) mem

end Image

section Emission

variable {mem : Mem} {bytes : List UInt8}

/-- The loader after it has emitted some bytes. -/
def Loader.emitted (mem : Mem) (bytes : List UInt8) : Loader :=
  ⟨write mem trampolineAddress.toNat bytes, UInt32.ofNat (trampolineAddress.toNat + bytes.length)⟩

/-- The code emitted for a segment. -/
def segmentBytes (start : UInt32) (ph : Ph) : List UInt8 :=
  X86.movBytes .edi ph.pPaddr ++ (X86.movBytes .esi (start + ph.pOffset) ++
    (X86.movBytes .ecx ph.pFilesz ++ (X86.repMovsbBytes ++
      (X86.movBytes .ecx (ph.pMemsz - ph.pFilesz) ++ X86.repStosbBytes))))

/-- The code at the end of the trampoline. -/
def kernelJumpBytes (entry : UInt32) : List UInt8 :=
  X86.movBytes .eax mbiMagic2 ++ (X86.movBytes .edx entry ++ X86.jmpBytes .edx)

def trampolineBytes (start : UInt32) (segments : List Ph) (entry : UInt32) : List UInt8 :=
  segments.flatMap (segmentBytes start) ++ kernelJumpBytes entry

theorem length_segmentBytes (start : UInt32) (ph : Ph) : (segmentBytes start ph).length = 24 :=
  rfl

theorem length_segments (start : UInt32) (segments : List Ph) :
    (segments.flatMap (segmentBytes start)).length = 24 * segments.length := by
  induction segments with
  | nil => rfl
  | cons ph segments ih =>
      rw [List.flatMap_cons, List.length_append, ih, length_segmentBytes, List.length_cons]
      omega

/-- The number of bytes of the trampoline. -/
theorem length_trampolineBytes (start : UInt32) (segments : List Ph) (entry : UInt32) :
    (trampolineBytes start segments entry).length = 24 * segments.length + 12 := by
  rw [trampolineBytes, List.length_append, length_segments]
  rfl

theorem byteOut_emitted (byte : UInt8)
    (small : trampolineAddress.toNat + bytes.length < 2 ^ 32) :
    byteOut byte (.emitted mem bytes) = .ok () (.emitted mem (bytes ++ [byte])) := by
  have code : (UInt32.ofNat (trampolineAddress.toNat + bytes.length)).toNat =
      trampolineAddress.toNat + bytes.length := UInt32.toNat_ofNat_of_lt' small
  rw [byteOut, Prog.modify_apply]
  have next : UInt32.ofNat (trampolineAddress.toNat + bytes.length) + 1 =
      UInt32.ofNat (trampolineAddress.toNat + (bytes ++ [byte]).length) := by
    rw [List.length_append, ← Nat.add_assoc]
    exact (UInt32.ofNat_add _ 1).symm
  simp only [Loader.emitted, code, write_write_append, next]

/-- The bytes that `gen_mov` takes out of a word. -/
theorem le32_eq (word : UInt32) :
    le32 word = [word.toUInt8, (word >>> 8).toUInt8, (word >>> 16).toUInt8,
      (word >>> 24).toUInt8] := by
  have digit (shift : UInt32) (small : shift.toNat < 32) :
      (word >>> shift).toUInt8 = UInt8.ofNat (word.toNat / 2 ^ shift.toNat) := by
    apply UInt8.toNat_inj.mp
    rw [UInt32.toNat_toUInt8, UInt32.toNat_shiftRight, Nat.mod_eq_of_lt small,
      Nat.shiftRight_eq_div_pow, UInt8.toNat_ofNat']
  have last : word.toUInt8 = UInt8.ofNat word.toNat := by
    apply UInt8.toNat_inj.mp
    rw [UInt32.toNat_toUInt8, UInt8.toNat_ofNat']
  rw [last, digit 8 (by decide), digit 16 (by decide), digit 24 (by decide)]
  rfl

theorem genMov_emitted (reg : X86.Reg) (constant : UInt32)
    (small : trampolineAddress.toNat + bytes.length + 5 < 2 ^ 32) :
    genMov reg constant (.emitted mem bytes) =
      .ok () (.emitted mem (bytes ++ X86.movBytes reg constant)) := by
  rw [genMov, Prog.bind_ok (byteOut_emitted _ (by omega)),
    Prog.bind_ok (byteOut_emitted _ (by simp; omega)),
    Prog.bind_ok (byteOut_emitted _ (by simp; omega)),
    Prog.bind_ok (byteOut_emitted _ (by simp; omega)),
    byteOut_emitted _ (by simp; omega), X86.movBytes, le32_eq]
  simp only [List.append_assoc, List.cons_append, List.nil_append]

theorem genElfSegment_emits (target src len fill : UInt32)
    (small : trampolineAddress.toNat + bytes.length + 24 < 2 ^ 32) :
    genElfSegment target src len fill (.emitted mem bytes) =
      .ok () (.emitted mem (bytes ++ (X86.movBytes .edi target ++ (X86.movBytes .esi src ++
        (X86.movBytes .ecx len ++ (X86.repMovsbBytes ++
          (X86.movBytes .ecx fill ++ X86.repStosbBytes))))))) := by
  have length (reg : X86.Reg) (constant : UInt32) : (X86.movBytes reg constant).length = 5 := rfl
  rw [genElfSegment, Prog.bind_ok (genMov_emitted _ _ (by omega)),
    Prog.bind_ok (genMov_emitted _ _ (by simp [length]; omega)),
    Prog.bind_ok (genMov_emitted _ _ (by simp [length]; omega)),
    Prog.bind_ok (byteOut_emitted _ (by simp [length]; omega)),
    Prog.bind_ok (byteOut_emitted _ (by simp [length]; omega)),
    Prog.bind_ok (genMov_emitted _ _ (by simp [length]; omega)),
    Prog.bind_ok (byteOut_emitted _ (by simp [length]; omega)),
    byteOut_emitted _ (by simp [length]; omega)]
  simp only [X86.repMovsbBytes, X86.repStosbBytes, List.append_assoc, List.cons_append,
    List.nil_append]

theorem genElfSegment_emitted (start : UInt32) (ph : Ph)
    (small : trampolineAddress.toNat + bytes.length + 24 < 2 ^ 32) :
    genElfSegment ph.pPaddr (start + ph.pOffset) ph.pFilesz (ph.pMemsz - ph.pFilesz)
        (.emitted mem bytes) =
      .ok () (.emitted mem (bytes ++ segmentBytes start ph)) :=
  genElfSegment_emits _ _ _ _ small

theorem finishModule_emitted (mbi entry : UInt32)
    (small : trampolineAddress.toNat + bytes.length + 7 < 2 ^ 32) :
    finishModule mbi entry (.emitted mem bytes) =
      .ok (.ok ⟨0, trampolineAddress, mbi⟩)
        (.emitted mem (bytes ++ (X86.movBytes .edx entry ++ X86.jmpBytes .edx))) := by
  have length (reg : X86.Reg) (constant : UInt32) : (X86.movBytes reg constant).length = 5 := rfl
  rw [finishModule, Prog.bind_ok (genMov_emitted _ _ (by omega)), genJmpEdx, bind_assoc,
    Prog.bind_ok (byteOut_emitted _ (by simp [length]; omega)),
    Prog.bind_ok (byteOut_emitted _ (by simp [length]; omega)), Prog.pure_apply]
  simp only [X86.jmpBytes, X86.Reg.code, List.append_assoc, List.cons_append, List.nil_append]
  rfl

end Emission

section Loop

variable {mem : Mem} {m start : UInt32}

/-- The bytes from `addr` on are not part of the trampoline of `count` segments. -/
def OffTrampoline (count addr len : Nat) : Prop :=
  addr + len ≤ trampolineAddress.toNat ∨
    trampolineAddress.toNat + (24 * count + 12) ≤ addr

/-- The trampoline overwrites nothing that `start_module` still has to read: the module
descriptor, the ELF header and the program headers. -/
structure HeadersApart (mem : Mem) (m start : UInt32) : Prop where
  descriptor : OffTrampoline (loadSegmentsOf mem start).length m.toNat 16
  header : OffTrampoline (loadSegmentsOf mem start).length start.toNat 52
  headers : ∀ i < (Eh.load mem start).ePhnum.toNat,
    OffTrampoline (loadSegmentsOf mem start).length (phAddr mem start i).toNat 32

theorem OffTrampoline.kept {count addr len : Nat} (off : OffTrampoline count addr len)
    {bytes : List UInt8} (short : bytes.length ≤ 24 * count + 12) {a : Nat} (lower : addr ≤ a)
    (upper : a < addr + len) : write mem trampolineAddress.toNat bytes a = mem a := by
  unfold OffTrampoline at off
  exact write_outside mem (by omega)

theorem Eh.load_congr {first second : Mem} {addr : UInt32}
    (agree : ∀ a, addr.toNat ≤ a → a < addr.toNat + 52 → first a = second a) :
    Eh.load first addr = Eh.load second addr := by
  simp only [Eh.load, Eh.mk.injEq]
  refine ⟨load32_congr ?_, load16_congr ?_, load16_congr ?_, load16_congr ?_, load32_congr ?_,
    load32_congr ?_, load32_congr ?_, load16_congr ?_, load16_congr ?_⟩
  all_goals exact fun a lower upper => agree a (by omega) (by omega)

theorem Ph.load_congr {first second : Mem} {addr : UInt32}
    (agree : ∀ a, addr.toNat ≤ a → a < addr.toNat + 32 → first a = second a) :
    Ph.load first addr = Ph.load second addr := by
  simp only [Ph.load, Ph.mk.injEq]
  refine ⟨load32_congr ?_, load32_congr ?_, load32_congr ?_, load32_congr ?_, load32_congr ?_⟩
  all_goals exact fun a lower upper => agree a (by omega) (by omega)

theorem loadableHeaders_succ (count : Nat) :
    loadableHeaders mem start (count + 1) = loadableHeaders mem start count ++
      [Ph.load mem (phAddr mem start count)].filter Ph.loadable := by
  rw [loadableHeaders, programHeaders, List.range_succ, List.map_append, List.filter_append]
  rfl

theorem length_loadableHeaders_le {first last : Nat} (order : first ≤ last) :
    (loadableHeaders mem start first).length ≤ (loadableHeaders mem start last).length := by
  induction last with
  | zero =>
      obtain rfl : first = 0 := by omega
      exact Nat.le_refl _
  | succ last ih =>
      by_cases same : first = last + 1
      · exact same ▸ Nat.le_refl _
      · rw [loadableHeaders_succ, List.length_append]
        have before := ih (by omega)
        omega

/-- The code emitted so far is short. -/
theorem length_emitted_le {count : Nat} (order : count ≤ (Eh.load mem start).ePhnum.toNat) :
    ((loadableHeaders mem start count).flatMap (segmentBytes start)).length ≤
      24 * (loadSegmentsOf mem start).length + 12 := by
  rw [length_segments]
  have few : (loadableHeaders mem start count).length ≤ (loadSegmentsOf mem start).length :=
    length_loadableHeaders_le order
  omega

theorem length_loadSegmentsOf_le : (loadSegmentsOf mem start).length < 65536 := by
  have few := (programHeaders mem start (Eh.load mem start).ePhnum.toNat).length_filter_le
    Ph.loadable
  have number := (Eh.load mem start).ePhnum.toNat_lt
  rw [loadSegmentsOf, loadableHeaders]
  simp only [programHeaders, List.length_map, List.length_range] at *
  omega

/-- The code of one program header. -/
theorem segmentOf_emits (start : UInt32) (ph : Ph) {bytes : List UInt8}
    (next : Prog Halt Loader Unit)
    (small : trampolineAddress.toNat + bytes.length + 24 < 2 ^ 32) :
    (if ph.pType = 1 then do
        genElfSegment ph.pPaddr (start + ph.pOffset) ph.pFilesz (ph.pMemsz - ph.pFilesz)
        next
      else next : Prog Halt Loader Unit) (.emitted mem bytes) =
      next (.emitted mem
        (bytes ++ ([ph].filter Ph.loadable).flatMap (segmentBytes start))) := by
  by_cases load : ph.pType = 1
  · rw [if_pos load, Prog.bind_ok (genElfSegment_emitted start ph small)]
    simp [Ph.loadable, load]
  · rw [if_neg load]
    simp [Ph.loadable, load]

/-- The loop emits the code of the segments that are left. -/
theorem segmentLoop_emits (apart : HeadersApart mem m start)
    (descriptor : load32 mem m.toNat = start) {fuel count : Nat}
    (order : count ≤ (Eh.load mem start).ePhnum.toNat)
    (enough : (Eh.load mem start).ePhnum.toNat < count + fuel) :
    segmentLoop m start fuel (UInt32.ofNat count)
        (.emitted mem ((loadableHeaders mem start count).flatMap (segmentBytes start))) =
      .ok () (.emitted mem ((loadSegmentsOf mem start).flatMap (segmentBytes start))) := by
  induction fuel generalizing count with
  | zero => omega
  | succ fuel ih =>
      have short : ((loadableHeaders mem start count).flatMap (segmentBytes start)).length ≤
        24 * (loadSegmentsOf mem start).length + 12 := length_emitted_le order
      have few : (loadSegmentsOf mem start).length < 65536 := length_loadSegmentsOf_le
      have number := (Eh.load mem start).ePhnum.toNat_lt
      have index : (UInt32.ofNat count).toNat = count := UInt32.toNat_ofNat_of_lt' (by
        simp only [UInt32.size]
        omega)
      generalize emitted : (loadableHeaders mem start count).flatMap (segmentBytes start) =
        bytes at *
      have eh : Eh.load (write mem trampolineAddress.toNat bytes) start = Eh.load mem start :=
        Eh.load_congr fun a lower upper => apart.header.kept short lower upper
      have base : load32 (write mem trampolineAddress.toNat bytes) m.toNat = start := by
        rw [← descriptor]
        exact load32_congr fun a lower upper => apart.descriptor.kept short lower (by omega)
      have memory : getMem (.emitted mem bytes) =
        .ok (write mem trampolineAddress.toNat bytes) (.emitted mem bytes) := rfl
      rw [segmentLoop, Prog.bind_ok memory]
      simp only [eh, base]
      by_cases more : count < (Eh.load mem start).ePhnum.toNat
      swap
      · have last : count = (Eh.load mem start).ePhnum.toNat := by omega
        rw [if_neg (by rw [UInt32.lt_iff_toNat_lt, index, UInt16.toNat_toUInt32]; omega),
          Prog.pure_apply, ← emitted, last]
        rfl
      rw [if_pos (by rw [UInt32.lt_iff_toNat_lt, index, UInt16.toNat_toUInt32]; exact more)]
      have ph : Ph.load (write mem trampolineAddress.toNat bytes) (phAddr mem start count) =
          Ph.load mem (phAddr mem start count) :=
        Ph.load_congr fun a lower upper => (apart.headers count more).kept short lower upper
      have place : trampolineAddress.toNat = 0x7c00 := rfl
      have next := ih (by omega : count + 1 ≤ _) (by omega)
      rw [loadableHeaders_succ, List.flatMap_append, emitted, UInt32.ofNat_add] at next
      unfold phAddr at ph
      rw [ph, segmentOf_emits start _ _ (by omega)]
      exact next

end Loop

section Execution

variable {cpu : X86.Cpu} {pos lo hi : Nat} {rest : List UInt8} {start mbi : UInt32}

/-- The processor is about to execute code of the trampoline: the accumulator is zero and
the multiboot information is in its register. -/
structure InTrampoline (cpu : X86.Cpu) (pos : Nat) (bytes : List UInt8) (mbi : UInt32) :
    Prop where
  code : cpu.At pos bytes
  forward : cpu.df = false
  zero : cpu.regs .eax = 0
  info : cpu.regs .ebx = mbi

/-- Executing the code of one segment. -/
theorem reaches_segment {ph : Ph} (ready : InTrampoline cpu pos (segmentBytes start ph ++ rest) mbi)
    (lower : lo ≤ pos) (upper : pos + 24 + rest.length ≤ hi)
    (order : ph.pFilesz ≤ ph.pMemsz) (avoids : X86.Avoids ph.pPaddr ph.pMemsz.toNat lo hi) :
    ∃ final, cpu.Reaches final ∧ InTrampoline final (pos + 24) rest mbi ∧
      final.mem = loadSegment start cpu.mem ph := by
  have code := ready.code
  simp only [segmentBytes, List.append_assoc] at code
  obtain ⟨first, reaches1, code1, df1, mem1, edi1, regs1⟩ := X86.Cpu.reaches_mov code
  obtain ⟨second, reaches2, code2, df2, mem2, esi2, regs2⟩ := X86.Cpu.reaches_mov code1
  obtain ⟨third, reaches3, code3, df3, mem3, ecx3, regs3⟩ := X86.Cpu.reaches_mov code2
  have edi3 : third.regs .edi = ph.pPaddr := by
    rw [regs3 .edi (by decide), regs2 .edi (by decide), edi1]
  have esi3 : third.regs .esi = start + ph.pOffset := by
    rw [regs3 .esi (by decide), esi2]
  have forward3 : third.df = false := by rw [df3, df2, df1, ready.forward]
  have sizes := UInt32.le_iff_toNat_le.mp order
  obtain ⟨copied, reaches4, code4, df4, mem4, edi4, regs4⟩ :=
    X86.Cpu.reaches_repMovsb (congrArg UInt32.toNat ecx3) forward3 code3
      (by omega : lo ≤ pos + 5 + 5 + 5)
      (show pos + 5 + 5 + 5 + 2 + _ ≤ hi by
        simp only [List.length_append, X86.movBytes, X86.repStosbBytes, List.length_cons,
          List.length_nil, length_le32]
        omega)
      (by rw [edi3]; exact avoids.first sizes)
  obtain ⟨fifth, reaches5, code5, df5, mem5, ecx5, regs5⟩ := X86.Cpu.reaches_mov code4
  have edi5 : fifth.regs .edi = ph.pPaddr + ph.pFilesz := by
    rw [regs5 .edi (by decide), edi4, edi3, UInt32.ofNat_toNat]
  have eax5 : fifth.regs .eax = 0 := by
    rw [regs5 .eax (by decide), regs4 .eax (by decide) (by decide) (by decide),
      regs3 .eax (by decide), regs2 .eax (by decide), regs1 .eax (by decide), ready.zero]
  have ebx5 : fifth.regs .ebx = mbi := by
    rw [regs5 .ebx (by decide), regs4 .ebx (by decide) (by decide) (by decide),
      regs3 .ebx (by decide), regs2 .ebx (by decide), regs1 .ebx (by decide), ready.info]
  have fill : (fifth.regs .ecx).toNat = ph.pMemsz.toNat - ph.pFilesz.toNat := by
    rw [ecx5, UInt32.toNat_sub_of_le _ _ order]
  obtain ⟨final, reaches6, code6, df6, mem6, regs6⟩ :=
    X86.Cpu.reaches_repStosb fill (df5.trans df4) code5
      (by omega : lo ≤ pos + 5 + 5 + 5 + 2 + 5) (by omega)
      (by rw [edi5]; exact avoids.rest)
  refine ⟨final, ((((reaches1.trans reaches2).trans reaches3).trans reaches4).trans
    reaches5).trans reaches6, ⟨code6, df6, ?_, ?_⟩, ?_⟩
  · rw [regs6 .eax (by decide) (by decide), eax5]
  · rw [regs6 .ebx (by decide) (by decide), ebx5]
  · rw [mem6, edi5, eax5, mem5, mem4, edi3, esi3, mem3, mem2, mem1]
    rfl

/-- Executing the code of all segments. -/
theorem reaches_segments {segments : List Ph}
    (ready : InTrampoline cpu pos (segments.flatMap (segmentBytes start) ++ rest) mbi)
    (lower : lo ≤ pos) (upper : pos + 24 * segments.length + rest.length ≤ hi)
    (order : ∀ ph ∈ segments, ph.pFilesz ≤ ph.pMemsz)
    (avoids : ∀ ph ∈ segments, X86.Avoids ph.pPaddr ph.pMemsz.toNat lo hi) :
    ∃ final, cpu.Reaches final ∧ InTrampoline final (pos + 24 * segments.length) rest mbi ∧
      final.mem = loadSegments start segments cpu.mem := by
  induction segments generalizing cpu pos with
  | nil => exact ⟨cpu, .refl, ready, rfl⟩
  | cons ph segments ih =>
      rw [List.flatMap_cons, List.append_assoc] at ready
      rw [List.length_cons] at upper
      obtain ⟨next, reaches, nextReady, mem⟩ := reaches_segment ready lower
        (by rw [List.length_append, length_segments]; omega)
        (order ph (by simp)) (avoids ph (by simp))
      obtain ⟨final, more, last, loaded⟩ := ih nextReady (by omega) (by omega)
        (fun other inside => order other (by simp [inside]))
        (fun other inside => avoids other (by simp [inside]))
      refine ⟨final, reaches.trans more, ?_, ?_⟩
      · rw [List.length_cons, Nat.mul_add, Nat.add_comm (24 * segments.length), ← Nat.add_assoc]
        exact last
      · rw [loaded, mem]
        rfl

/-- Executing the end of the trampoline. -/
theorem reaches_finish {entry : UInt32} (ready : InTrampoline cpu pos (kernelJumpBytes entry) mbi) :
    ∃ final, cpu.Reaches final ∧ final.eip = entry ∧ final.regs .eax = mbiMagic2 ∧
      final.regs .ebx = mbi ∧ final.mem = cpu.mem := by
  obtain ⟨first, reaches1, code1, -, mem1, eax1, regs1⟩ := X86.Cpu.reaches_mov ready.code
  obtain ⟨second, reaches2, code2, -, mem2, edx2, regs2⟩ := X86.Cpu.reaches_mov code1
  have jump : second.step = some { second with eip := second.regs .edx } :=
    X86.Cpu.step_jmp (by rw [List.append_nil]; exact code2)
  refine ⟨_, (reaches1.trans reaches2).tail jump, edx2, ?_, ?_, ?_⟩
  · rw [regs2 .eax (by decide), eax1]
  · rw [regs2 .ebx (by decide), regs1 .ebx (by decide), ready.info]
  · rw [mem2, mem1]

/-- Executing the whole trampoline. -/
theorem reaches_entry {segments : List Ph} {entry : UInt32}
    (ready : InTrampoline cpu pos (trampolineBytes start segments entry) mbi)
    (order : ∀ ph ∈ segments, ph.pFilesz ≤ ph.pMemsz)
    (avoids : ∀ ph ∈ segments,
      X86.Avoids ph.pPaddr ph.pMemsz.toNat pos (pos + (24 * segments.length + 12))) :
    ∃ final, cpu.Reaches final ∧ final.eip = entry ∧ final.regs .eax = mbiMagic2 ∧
      final.regs .ebx = mbi ∧ final.mem = loadSegments start segments cpu.mem := by
  obtain ⟨loaded, reaches, last, mem⟩ := reaches_segments ready (Nat.le_refl pos)
    (by rw [← Nat.add_assoc]; exact Nat.le_refl _) order avoids
  obtain ⟨final, more, eip, eax, ebx, same⟩ := reaches_finish last
  exact ⟨final, reaches.trans more, eip, eax, ebx, same.trans mem⟩

end Execution

section Start

variable {mem taken : Mem} {mbi m start : UInt32}

/-- The module starter accepts an ELF image: `taken` is the memory when the module with the
descriptor `m` and the image at `start` has been taken off the list. -/
structure ElfAccepted (mem : Mem) (mbi : UInt32) (taken : Mem) (m start : UInt32) : Prop where
  listed : load32 mem (mbi.toNat + 20) ≠ 0
  takes : takeModule mbi ⟨mem, trampolineAddress⟩ = .ok m ⟨taken, trampolineAddress⟩
  image : load32 taken m.toNat = start
  present : start ≠ 0
  plain : ¬ isMultiboot taken (searchMbh taken (start + 32768) 8193 start)
  good : elfHeaderGood (Eh.load taken start)

/-- The trampoline is disjoint from the headers of the module and from the destinations of
its segments. -/
structure TrampolineApart (taken : Mem) (m start : UInt32) : Prop
    extends HeadersApart taken m start where
  destinations : ∀ ph ∈ loadSegmentsOf taken start,
    X86.Avoids ph.pPaddr ph.pMemsz.toNat trampolineAddress.toNat
      (trampolineAddress.toNat + (24 * (loadSegmentsOf taken start).length + 12))

/-- The trampoline of an image. -/
def imageTrampoline (taken : Mem) (start : UInt32) : List UInt8 :=
  trampolineBytes start (loadSegmentsOf taken start) (Eh.load taken start).eEntry

theorem Loader.emitted_nil : Loader.emitted mem [] = ⟨mem, trampolineAddress⟩ := by
  simp only [Loader.emitted, write_nil]
  rfl

theorem startModule_emits (accepted : ElfAccepted mem mbi taken m start)
    (apart : HeadersApart taken m start) :
    startModule mbi ⟨mem, trampolineAddress⟩ =
      .ok (.ok ⟨0, trampolineAddress, mbi⟩) (.emitted taken (imageTrampoline taken start)) := by
  have memory (s : Loader) : getMem s = .ok s.mem s := rfl
  have present : nonNull start = pure () := if_neg accepted.present
  have number := (Eh.load taken start).ePhnum.toNat_lt
  have few : (loadSegmentsOf taken start).length < 65536 := length_loadSegmentsOf_le
  have place : trampolineAddress.toNat = 0x7c00 := rfl
  have loop : segmentLoop m start 65536 0 ⟨taken, trampolineAddress⟩ =
      .ok () (.emitted taken ((loadSegmentsOf taken start).flatMap (segmentBytes start))) := by
    rw [← Loader.emitted_nil]
    exact @segmentLoop_emits taken m start apart accepted.image 65536 0 (Nat.zero_le _) (by omega)
  have length := length_segments start (loadSegmentsOf taken start)
  generalize code : (loadSegmentsOf taken start).flatMap (segmentBytes start) = bytes at *
  have entry : Eh.load (write taken trampolineAddress.toNat
      (bytes ++ X86.movBytes .eax mbiMagic2)) start = Eh.load taken start := by
    apply Eh.load_congr
    intro a lower upper
    apply apart.header.kept _ lower upper
    rw [List.length_append, length]
    exact Nat.add_le_add_left (by decide) _
  rw [startModule, Prog.bind_ok (memory _)]
  simp only [accepted.listed, if_false]
  rw [Prog.bind_ok accepted.takes, Prog.bind_ok (memory _)]
  simp only [accepted.image, present, accepted.plain, accepted.good, if_false, not_true,
    pure_bind]
  rw [Prog.bind_ok loop, Prog.bind_ok (genMov_emitted _ _ (by omega)), Prog.bind_ok (memory _)]
  have finish := @finishModule_emitted taken (bytes ++ X86.movBytes .eax mbiMagic2) mbi
    (Eh.load taken start).eEntry (by
      rw [List.length_append, length]
      change trampolineAddress.toNat + (_ + 5) + 7 < 2 ^ 32
      omega)
  have whole : bytes ++ X86.movBytes .eax mbiMagic2 ++
      (X86.movBytes .edx (Eh.load taken start).eEntry ++ X86.jmpBytes .edx) =
      imageTrampoline taken start := by
    rw [imageTrampoline, trampolineBytes, code, kernelJumpBytes, List.append_assoc]
  rw [whole] at finish
  rw [← finish]
  simp only [Loader.emitted, entry]

/-- Memory outside of the trampoline is as it was when the module was taken. -/
theorem emitted_outside {a : Nat}
    (outside : OffTrampoline (loadSegmentsOf taken start).length a 1) :
    (Loader.emitted taken (imageTrampoline taken start)).mem a = taken a :=
  outside.kept (Nat.le_of_eq (length_trampolineBytes _ _ _)) (Nat.le_refl a) (by omega)

/-- A segment that does not begin inside of its own source is copied as a block. -/
theorem loadSegment_eq_write {ph : Ph} (order : ph.pFilesz ≤ ph.pMemsz)
    (dstFits : ph.pPaddr.toNat + ph.pMemsz.toNat ≤ 2 ^ 32)
    (srcFits : (start + ph.pOffset).toNat + ph.pFilesz.toNat ≤ 2 ^ 32)
    (apart : ph.pPaddr.toNat ≤ (start + ph.pOffset).toNat ∨
      (start + ph.pOffset).toNat + ph.pFilesz.toNat ≤ ph.pPaddr.toNat) :
    loadSegment start mem ph =
      write mem ph.pPaddr.toNat (read mem (start + ph.pOffset).toNat ph.pFilesz.toNat ++
        List.replicate (ph.pMemsz.toNat - ph.pFilesz.toNat) 0) := by
  have sizes := UInt32.le_iff_toNat_le.mp order
  rw [loadSegment, X86.copyBytes_eq_write (by omega) srcFits apart]
  by_cases full : ph.pMemsz.toNat = ph.pFilesz.toNat
  · rw [full, Nat.sub_self]
    simp [X86.fillBytes]
  · have place : (ph.pPaddr + ph.pFilesz).toNat = ph.pPaddr.toNat + ph.pFilesz.toNat := by
      rw [UInt32.toNat_add, Nat.mod_eq_of_lt (by omega)]
    rw [X86.fillBytes_eq_write (by omega), place]
    have behind := write_write_append mem ph.pPaddr.toNat
      (read mem (start + ph.pOffset).toNat ph.pFilesz.toNat)
      (List.replicate (ph.pMemsz.toNat - ph.pFilesz.toNat) 0)
    rwa [length_read] at behind

/-- For every image that is accepted, the trampoline copies and fills the segments in the
order of their headers and jumps to the entry point. -/
theorem startModule_loads_image (accepted : ElfAccepted mem mbi taken m start)
    (order : ∀ ph ∈ loadSegmentsOf taken start, ph.pFilesz ≤ ph.pMemsz)
    (apart : TrampolineApart taken m start) :
    ∃ jump reached, startModule mbi ⟨mem, trampolineAddress⟩ = .ok (.ok jump) reached ∧
      (∀ a, OffTrampoline (loadSegmentsOf taken start).length a 1 → reached.mem a = taken a) ∧
      (∀ cpu : X86.Cpu, cpu.eip = jump.edx → cpu.regs .eax = jump.eax →
        cpu.regs .ebx = jump.ebx → cpu.df = false → cpu.mem = reached.mem →
        ∃ final, cpu.Reaches final ∧ final.eip = (Eh.load taken start).eEntry ∧
          final.regs .eax = mbiMagic2 ∧ final.regs .ebx = mbi ∧
          final.mem = loadSegments start (loadSegmentsOf taken start) reached.mem) ∧
      jump.eax = 0 ∧
      ∀ ph ∈ loadSegmentsOf taken start, ∀ before,
        ph.pPaddr.toNat + ph.pMemsz.toNat ≤ 2 ^ 32 →
        (start + ph.pOffset).toNat + ph.pFilesz.toNat ≤ 2 ^ 32 →
        ph.pPaddr.toNat ≤ (start + ph.pOffset).toNat ∨
          (start + ph.pOffset).toNat + ph.pFilesz.toNat ≤ ph.pPaddr.toNat →
        loadSegment start before ph =
          write before ph.pPaddr.toNat (read before (start + ph.pOffset).toNat ph.pFilesz.toNat ++
            List.replicate (ph.pMemsz.toNat - ph.pFilesz.toNat) 0) := by
  refine ⟨_, _, startModule_emits accepted apart.toHeadersApart,
    fun a outside => emitted_outside outside, ?_, rfl, ?_⟩
  · intro cpu eip eax ebx df memory
    have few : (loadSegmentsOf taken start).length < 65536 := length_loadSegmentsOf_le
    have length : (imageTrampoline taken start).length =
      24 * (loadSegmentsOf taken start).length + 12 := length_trampolineBytes _ _ _
    have ready : InTrampoline cpu trampolineAddress.toNat (imageTrampoline taken start) mbi := by
      refine ⟨⟨by rw [eip], ?_, ?_⟩, df, eax, ebx⟩
      · rw [memory]
        exact read_write_self _ _ _
      · have place : trampolineAddress.toNat = 0x7c00 := rfl
        omega
    obtain ⟨final, reaches, entry, magic, info, loaded⟩ :=
      reaches_entry ready order apart.destinations
    exact ⟨final, reaches, entry, magic, info, by rw [loaded, memory]⟩
  · intro ph inside before dstFits srcFits separate
    exact loadSegment_eq_write (order ph inside) dstFits srcFits separate

/-- A module list with one small image; it has a segment of three bytes that takes up five
bytes of memory and a program header of another kind. -/
def imageMemory : Mem :=
  let word := le32
  let half (value : UInt8) : List UInt8 := [value, 0]
  let header := word 0x464c457f ++ [1, 1, 1, 0] ++ word 0 ++ word 0 ++ half 2 ++ half 3 ++
    word 1 ++ word 0x200000 ++ word 52 ++ word 0 ++ word 0 ++ half 52 ++ half 32 ++ half 2 ++
    half 0 ++ half 0 ++ half 0
  let segment := word 1 ++ word 116 ++ word 0x200000 ++ word 0x200000 ++ word 3 ++ word 5 ++
    word 5 ++ word 1
  let note := word 4 ++ word 0 ++ word 0 ++ word 0 ++ word 0 ++ word 0 ++ word 0 ++ word 0
  let image := header ++ (segment ++ (note ++ ([0xDE, 0xAD, 0xBE, 0] ++ word mbiMagic1)))
  write (write (write (fun _ => 0) 0x1014 (word 1 ++ word 0x2000)) 0x2000
    (word 0x100000 ++ word 0x100080)) 0x100000 image

def imageTaken : Mem :=
  (takeModule 0x1000 ⟨imageMemory, trampolineAddress⟩).state.mem

theorem imageTaken_segments :
    loadSegmentsOf imageTaken 0x100000 = [⟨1, 116, 0x200000, 3, 5⟩] := by
  decide +kernel

theorem image_apart : TrampolineApart imageTaken 0x2000 0x100000 := by
  constructor
  · constructor
    · rw [imageTaken_segments]
      exact .inl (by decide)
    · rw [imageTaken_segments]
      exact .inr (by decide)
    · rw [imageTaken_segments]
      have count : (Eh.load imageTaken 0x100000).ePhnum.toNat = 2 := by decide +kernel
      have first : (phAddr imageTaken 0x100000 0).toNat = 0x100034 := by decide +kernel
      have second : (phAddr imageTaken 0x100000 1).toNat = 0x100054 := by decide +kernel
      intro i inside
      rw [count] at inside
      obtain rfl | rfl : i = 0 ∨ i = 1 := by omega
      · rw [first]
        exact .inr (by decide)
      · rw [second]
        exact .inr (by decide)
  · rw [imageTaken_segments]
    intro ph inside
    obtain rfl := List.mem_singleton.mp inside
    unfold X86.Avoids
    decide

theorem image_accepted : ElfAccepted imageMemory 0x1000 imageTaken 0x2000 0x100000 := by
  constructor
  · decide +kernel
  · rfl
  · decide +kernel
  · decide
  · decide +kernel
  · decide +kernel

theorem startModule_loads_image_small :
    ∃ jump reached, startModule 0x1000 ⟨imageMemory, trampolineAddress⟩ = .ok (.ok jump) reached ∧
      ∀ cpu : X86.Cpu, cpu.eip = jump.edx → cpu.regs .eax = jump.eax →
        cpu.regs .ebx = jump.ebx → cpu.df = false → cpu.mem = reached.mem →
        ∃ final, cpu.Reaches final ∧ final.eip = 0x200000 ∧ final.regs .eax = mbiMagic2 ∧
          final.regs .ebx = 0x1000 := by
  have entry : (Eh.load imageTaken 0x100000).eEntry = 0x200000 := by decide +kernel
  obtain ⟨jump, reached, run, -, loads, -⟩ := startModule_loads_image image_accepted
    (by rw [imageTaken_segments]; decide) image_apart
  refine ⟨jump, reached, run, fun cpu eip eax ebx df memory => ?_⟩
  obtain ⟨final, reaches, last, magic, info, -⟩ := loads cpu eip eax ebx df memory
  exact ⟨final, reaches, last.trans entry, magic, info⟩

end Start

end Sable
