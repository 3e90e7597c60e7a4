import Sable.ReadRanges
import Sable.Trampoline

/-!
# What `start_module` takes from an ELF image

The starter checks the identification of an ELF image and the size of its program headers.
It does not look at the end of the module: places and sizes are taken from the headers as
they are.  Nothing is assumed here about where the module lies, so the trampoline may
overwrite headers that have not been read yet.
-/

namespace Sable

open ByteMemory HaltingProgram

section Reading

/-- A program header with the start of the module and its offset there, as they were read. -/
structure HeaderRead where
  modStart : UInt32
  offset : UInt32
  ph : Ph

def HeaderRead.addr (h : HeaderRead) : UInt32 :=
  h.modStart + h.offset

/-- Where a segment is copied from. -/
def HeaderRead.source (h : HeaderRead) : UInt32 :=
  h.modStart + h.ph.pOffset

/-- The code that is emitted for a program header. -/
def HeaderRead.code (h : HeaderRead) : List UInt8 :=
  if h.ph.pType = 1 then segmentBytes h.modStart h.ph else []

def readHeader (now : Mem) (m elf i : UInt32) : HeaderRead :=
  let modStart := load32 now m.toNat
  let offset := (Eh.load now elf).ePhoff + i * (Eh.load now elf).ePhentsize.toUInt32
  ⟨modStart, offset, Ph.load now (modStart + offset)⟩

/-- The program headers that the loop reads, from header `i` on, when some code has been
emitted already. -/
def headersRead (mem : Mem) (m elf : UInt32) : Nat → UInt32 → List UInt8 → List HeaderRead
  | 0, _, _ => []
  | fuel + 1, i, bytes =>
      let now := write mem trampolineAddress.toNat bytes
      if i < (Eh.load now elf).ePhnum.toUInt32 then
        readHeader now m elf i ::
          headersRead mem m elf fuel (i + 1) (bytes ++ (readHeader now m elf i).code)
      else []

/-- All program headers that are read. -/
def elfHeaders (taken : Mem) (m : UInt32) : List HeaderRead :=
  headersRead taken m (load32 taken m.toNat) 65536 0 []

end Reading

section Loop

variable {mem : Mem} {m elf : UInt32}

theorem HeaderRead.length_code_le (h : HeaderRead) : h.code.length ≤ 24 := by
  rw [code]
  by_cases load : h.ph.pType = 1
  · rw [if_pos load]
    exact Nat.le_refl _
  · rw [if_neg load]
    exact Nat.zero_le _

theorem length_headersRead_code (fuel : Nat) (i : UInt32) (bytes : List UInt8) :
    ((headersRead mem m elf fuel i bytes).flatMap HeaderRead.code).length ≤ 24 * fuel := by
  induction fuel generalizing i bytes with
  | zero => exact Nat.le_refl _
  | succ fuel ih =>
      rw [headersRead]
      split_ifs
      · rw [List.flatMap_cons, List.length_append]
        generalize readHeader (write mem trampolineAddress.toNat bytes) m elf i = h
        have first := h.length_code_le
        have rest := ih (i + 1) (bytes ++ h.code)
        omega
      · exact Nat.zero_le _

/-- The loop emits the code of the headers that it reads. -/
theorem segmentLoop_headersRead {fuel : Nat} (i : UInt32) {bytes : List UInt8}
    (small : trampolineAddress.toNat + bytes.length + 24 * fuel < 2 ^ 32) :
    segmentLoop m elf fuel i (.emitted mem bytes) =
      .ok () (.emitted mem
        (bytes ++ (headersRead mem m elf fuel i bytes).flatMap HeaderRead.code)) := by
  induction fuel generalizing i bytes with
  | zero =>
      rw [headersRead, List.flatMap_nil, List.append_nil]
      rfl
  | succ fuel ih =>
      have memory : getMem (.emitted mem bytes) =
        .ok (write mem trampolineAddress.toNat bytes) (.emitted mem bytes) := rfl
      rw [segmentLoop, headersRead, Prog.bind_ok memory]
      dsimp only
      by_cases more : i < (Eh.load (write mem trampolineAddress.toNat bytes) elf).ePhnum.toUInt32
      swap
      · rw [if_neg more, if_neg more, List.flatMap_nil, List.append_nil]
        rfl
      rw [if_pos more, if_pos more, segmentOf_emits _ _ _ (by omega), List.flatMap_cons]
      have code (h : HeaderRead) :
          ([h.ph].filter Ph.loadable).flatMap (segmentBytes h.modStart) = h.code := by
        rw [HeaderRead.code]
        by_cases load : h.ph.pType = 1
        · simp [Ph.loadable, load]
        · simp [Ph.loadable, load]
      generalize found : write mem trampolineAddress.toNat bytes = now at *
      have header : ([Ph.load now (load32 now m.toNat + (Eh.load now elf).ePhoff +
            i * (Eh.load now elf).ePhentsize.toUInt32)].filter Ph.loadable).flatMap
          (segmentBytes (load32 now m.toNat)) = (readHeader now m elf i).code := by
        rw [UInt32.add_assoc]
        exact code (readHeader now m elf i)
      have short := (readHeader now m elf i).length_code_le
      rw [header, ih (i + 1) (by rw [List.length_append]; omega), List.append_assoc]

end Loop

section Start

variable {mem taken : Mem} {mbi m : UInt32}

/-- A run that takes the ELF path to its end: `taken` is the memory when the module with the
descriptor `m` has been taken off the list. -/
structure ElfPath (mem : Mem) (mbi : UInt32) (jump : Jump) (reached : Loader) (taken : Mem)
    (m : UInt32) : Prop where
  run : startModule mbi ⟨mem, trampolineAddress⟩ = .ok (.ok jump) reached
  takes : takeModule mbi ⟨mem, trampolineAddress⟩ = .ok m ⟨taken, trampolineAddress⟩
  plain : ¬ isMultiboot taken
    (searchMbh taken (load32 taken m.toNat + 32768) 8193 (load32 taken m.toNat))

/-- The code of an image, whose entry point is read behind the code of its segments. -/
def elfCode (taken : Mem) (m : UInt32) : List UInt8 :=
  (elfHeaders taken m).flatMap HeaderRead.code

def elfEntry (taken : Mem) (m : UInt32) : UInt32 :=
  (Eh.load (write taken trampolineAddress.toNat (elfCode taken m ++ X86.movBytes .eax mbiMagic2))
    (load32 taken m.toNat)).eEntry

/-- The starter emits the code of the headers that it reads, wherever the module lies. -/
theorem startModule_emits_read {start : UInt32} (accepted : ElfAccepted mem mbi taken m start) :
    startModule mbi ⟨mem, trampolineAddress⟩ = .ok (.ok ⟨0, trampolineAddress, mbi⟩)
      (.emitted taken (elfCode taken m ++ kernelJumpBytes (elfEntry taken m))) := by
  have memory (s : Loader) : getMem s = .ok s.mem s := rfl
  have place : trampolineAddress.toNat = 0x7c00 := rfl
  have present : nonNull (load32 taken m.toNat) = pure () := by
    rw [nonNull, if_neg (accepted.image ▸ accepted.present)]
  have plain := accepted.plain
  have good := accepted.good
  rw [← accepted.image] at plain good
  have loop : segmentLoop m (load32 taken m.toNat) 65536 0 ⟨taken, trampolineAddress⟩ =
      .ok () (.emitted taken (elfCode taken m)) := by
    have runs := @segmentLoop_headersRead taken m (load32 taken m.toNat) 65536 0 [] (by decide)
    rwa [List.nil_append, Loader.emitted_nil] at runs
  have length : (elfCode taken m).length ≤ 24 * 65536 := length_headersRead_code _ _ _
  rw [startModule, Prog.bind_ok (memory _), if_neg accepted.listed, Prog.bind_ok accepted.takes,
    Prog.bind_ok (memory _)]
  dsimp only
  rw [present, pure_bind, if_neg plain, if_neg (not_not.mpr good), Prog.bind_ok loop,
    Prog.bind_ok (genMov_emitted _ _ (by omega)), Prog.bind_ok (memory _)]
  have finish := @finishModule_emitted taken (elfCode taken m ++ X86.movBytes .eax mbiMagic2) mbi
    (elfEntry taken m) (by
      rw [List.length_append]
      change trampolineAddress.toNat + (_ + 5) + 7 < 2 ^ 32
      omega)
  rw [List.append_assoc] at finish
  exact finish

theorem ElfPath.accepted {jump : Jump} {reached : Loader}
    (path : ElfPath mem mbi jump reached taken m) :
    ElfAccepted mem mbi taken m (load32 taken m.toNat) := by
  have memory (s : Loader) : getMem s = .ok s.mem s := rfl
  have run := path.run
  rw [startModule, Prog.bind_ok (memory _)] at run
  by_cases listed : load32 mem (mbi.toNat + 20) = 0
  · rw [if_pos listed] at run
    cases run
  rw [if_neg listed, Prog.bind_ok path.takes, Prog.bind_ok (memory _)] at run
  dsimp only at run
  by_cases present : load32 taken m.toNat = 0
  · rw [nonNull, if_pos present] at run
    cases run
  rw [nonNull, if_neg present, pure_bind, if_neg path.plain] at run
  by_cases good : elfHeaderGood (Eh.load taken (load32 taken m.toNat))
  · exact ⟨listed, path.takes, rfl, present, path.plain, good⟩
  · rw [if_pos good] at run
    cases run

theorem ElfPath.of_accepted {start : UInt32} (accepted : ElfAccepted mem mbi taken m start) :
    ElfPath mem mbi ⟨0, trampolineAddress, mbi⟩
      (.emitted taken (elfCode taken m ++ kernelJumpBytes (elfEntry taken m))) taken m :=
  ⟨startModule_emits_read accepted, accepted.takes, accepted.image ▸ accepted.plain⟩

end Start

section Bounds

variable {start stop : UInt32} {headers : List HeaderRead}

/-- The header, the program headers and the sources of the segments lie inside the module, and
no length that is emitted is an underflowed one. -/
def ElfInside (start stop : UInt32) (headers : List HeaderRead) : Prop :=
  Access.Within start (stop.toNat - start.toNat) ⟨start, 52⟩ ∧
    ∀ h ∈ headers, Access.Within start (stop.toNat - start.toNat) ⟨h.addr, 32⟩ ∧
      (h.ph.pType = 1 →
        Access.Within start (stop.toNat - start.toNat) ⟨h.source, h.ph.pFilesz.toNat⟩ ∧
          h.ph.pFilesz ≤ h.ph.pMemsz ∧
          (h.ph.pMemsz - h.ph.pFilesz).toNat = h.ph.pMemsz.toNat - h.ph.pFilesz.toNat)

/-- The offsets and sizes in the headers fit the size of the module. -/
def ElfFits (start stop : UInt32) (headers : List HeaderRead) : Prop :=
  52 ≤ stop.toNat - start.toNat ∧
    ∀ h ∈ headers,
      (h.modStart - start + h.offset).toNat + 32 ≤ stop.toNat - start.toNat ∧
      (h.ph.pType = 1 →
        (h.modStart - start + h.ph.pOffset).toNat + h.ph.pFilesz.toNat ≤
          stop.toNat - start.toNat ∧
          h.ph.pFilesz ≤ h.ph.pMemsz)

theorem within_iff_offset (bounds : start < stop) (modStart offset : UInt32) (len : Nat) :
    Access.Within start (stop.toNat - start.toNat) ⟨modStart + offset, len⟩ ↔
      (modStart - start + offset).toNat + len ≤ stop.toNat - start.toNat := by
  have order := UInt32.lt_iff_toNat_lt.mp bounds
  have last := stop.toNat_lt
  have place : modStart + offset - start = modStart - start + offset := by
    rw [UInt32.sub_eq_add_neg, UInt32.sub_eq_add_neg, UInt32.add_assoc, UInt32.add_assoc,
      UInt32.add_comm offset]
  rw [Access.within_iff_among (by omega), Access.Among, place]

theorem elfInside_iff (bounds : start < stop) :
    ElfInside start stop headers ↔ ElfFits start stop headers := by
  have header : Access.Within start (stop.toNat - start.toNat) ⟨start, 52⟩ ↔
      52 ≤ stop.toNat - start.toNat := by
    rw [Access.Within]
    dsimp only
    omega
  rw [ElfInside, ElfFits, header]
  refine and_congr_right fun _ => forall₂_congr fun h _ => and_congr
    (within_iff_offset bounds _ _ _) (imp_congr_right fun _ => and_congr
      (within_iff_offset bounds _ _ _) (and_iff_left_of_imp fun order => ?_))
  exact UInt32.toNat_sub_of_le _ _ order

/-- What a run has read and emitted: the code of its program headers, all of which lie inside
the module, as do the sources of their segments. -/
def TakesInside (reached : Loader) (taken : Mem) (m : UInt32) : Prop :=
  reached = .emitted taken ((elfHeaders taken m).flatMap HeaderRead.code ++
      kernelJumpBytes (elfEntry taken m)) ∧
    ElfInside (load32 taken m.toNat) (load32 taken (m.toNat + 4)) (elfHeaders taken m)

/-- An ELF image that is accepted keeps the starter inside its module. -/
def AcceptsInside (mem : Mem) (mbi : UInt32) : Prop :=
  ∀ jump reached taken m, ElfPath mem mbi jump reached taken m →
    load32 taken m.toNat < load32 taken (m.toNat + 4) → TakesInside reached taken m

/-- Nothing of the image but its identification and the size of its program headers is
checked, so the starter stays inside the module exactly if the offsets and sizes in an accepted
image fit. -/
theorem startModule_elf_inside_iff (mem : Mem) (mbi : UInt32) :
    AcceptsInside mem mbi ↔
      ∀ taken m, ElfAccepted mem mbi taken m (load32 taken m.toNat) →
        load32 taken m.toNat < load32 taken (m.toNat + 4) →
          ElfFits (load32 taken m.toNat) (load32 taken (m.toNat + 4)) (elfHeaders taken m) := by
  constructor
  · intro inside taken m accepted bounds
    exact (elfInside_iff bounds).mp (inside _ _ taken m (.of_accepted accepted) bounds).2
  · intro fits jump reached taken m path bounds
    have emits := startModule_emits_read path.accepted
    rw [path.run] at emits
    cases emits
    exact ⟨rfl, (elfInside_iff bounds).mpr (fits taken m path.accepted bounds)⟩

/-- The image with five bytes for a segment that takes up three bytes of memory. -/
def underflowMemory : Mem :=
  write imageMemory 0x100044 (le32 5 ++ le32 3)

def underflowTaken : Mem :=
  (takeModule 0x1000 ⟨underflowMemory, trampolineAddress⟩).state.mem

/-- The image is started, and nearly four gigabytes are to be filled behind the segment. -/
theorem startModule_takes_underflow : ¬ AcceptsInside underflowMemory 0x1000 := by
  have accepted : ElfAccepted underflowMemory 0x1000 underflowTaken 0x2000 0x100000 := by
    constructor
    · decide +kernel
    · rfl
    · decide +kernel
    · decide
    · decide +kernel
    · decide +kernel
  have header : readHeader underflowTaken 0x2000 0x100000 0 ∈ elfHeaders underflowTaken 0x2000 := by
    rw [elfHeaders, accepted.image, headersRead, write_nil, if_pos (by decide +kernel)]
    exact List.mem_cons_self
  intro inside
  have takes := inside _ _ underflowTaken 0x2000 (.of_accepted accepted) (by decide +kernel)
  have sizes := ((takes.2.2 _ header).2 (by decide +kernel)).2.1
  exact absurd sizes (by decide +kernel)

end Bounds

end Sable
