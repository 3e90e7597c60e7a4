import Sable.AlignedBlocks
import Sable.ElfBounds

/-!
# Kernels with addresses in their multiboot header

`start_module` looks for the multiboot header of a kernel and emits one segment for it.  The
lengths of the segment are differences of addresses where the kernel is to lie.  The source
is taken from the place of the header in the module, and the two are mixed up if the kernel
leaves out where it ends.
-/

namespace Sable

open ByteMemory HaltingProgram

section Header

/-- The field `checksum` of `struct mbh`. -/
def mbhChecksum (mem : Mem) (mb : UInt32) : UInt32 :=
  load32 mem (mb.toNat + 8)

/-- The header is at the first of the words from `start` on that have the magic number. -/
def FirstMagic (mem : Mem) (start mb : UInt32) : Prop :=
  ∃ k, mb = start + UInt32.ofNat (4 * k) ∧ load32 mem mb.toNat = mbiMagic1 ∧
    ∀ j < k, load32 mem (start + UInt32.ofNat (4 * j)).toNat ≠ mbiMagic1

theorem searchMbh_first {mem : Mem} {stop : UInt32} {fuel : Nat} {ptr : UInt32}
    (found : load32 mem (searchMbh mem stop fuel ptr).toNat = mbiMagic1) :
    FirstMagic mem ptr (searchMbh mem stop fuel ptr) := by
  have here (magic : load32 mem ptr.toNat = mbiMagic1) : FirstMagic mem ptr ptr :=
    ⟨0, (UInt32.add_zero ptr).symm, magic, fun j inside => absurd inside (Nat.not_lt_zero j)⟩
  induction fuel generalizing ptr with
  | zero => exact here found
  | succ fuel ih =>
      rw [searchMbh] at found ⊢
      by_cases inside : ptr < stop
      swap
      · rw [if_neg inside] at found ⊢
        exact here found
      rw [if_pos inside] at found ⊢
      by_cases magic : load32 mem ptr.toNat = mbiMagic1
      · rw [if_pos magic]
        exact here magic
      rw [if_neg magic] at found ⊢
      obtain ⟨k, place, last, before⟩ := ih found fun magic =>
        ⟨0, (UInt32.add_zero _).symm, magic, fun j inside => absurd inside (Nat.not_lt_zero j)⟩
      have next (j : Nat) : ptr + 4 + UInt32.ofNat (4 * j) = ptr + UInt32.ofNat (4 * (j + 1)) := by
        rw [UInt32.add_assoc, Nat.mul_add_one, Nat.add_comm (4 * j), UInt32.ofNat_add]
        rfl
      refine ⟨k + 1, by rw [place, next], last, fun j earlier => ?_⟩
      cases j with
      | zero => rwa [Nat.mul_zero, show UInt32.ofNat 0 = 0 from rfl, UInt32.add_zero]
      | succ j =>
          rw [← next]
          exact before j (by omega)

end Header

section Segment

variable (h : Mbh) (mb stop : UInt32)

/-- The address behind the bytes to copy, as the starter has it. -/
def multibootLoadEnd : UInt32 :=
  if h.loadEndAddr = 0 then stop else h.loadEndAddr

def multibootSource : UInt32 :=
  mb - ((h.headerAddr - h.loadAddr) &&& 0xFFFFFFFC)

def multibootLength : UInt32 :=
  multibootLoadEnd h stop - h.loadAddr

def multibootFill : UInt32 :=
  if h.bssEndAddr = 0 then 0 else h.bssEndAddr - multibootLoadEnd h stop

/-- The code of the segment. -/
def multibootCode : List UInt8 :=
  X86.movBytes .edi h.loadAddr ++ (X86.movBytes .esi (multibootSource h mb) ++
    (X86.movBytes .ecx (multibootLength h stop) ++ (X86.repMovsbBytes ++
      (X86.movBytes .ecx (multibootFill h stop) ++ X86.repStosbBytes))))

end Segment

section Start

variable {mem taken : Mem} {mbi m : UInt32}

/-- Where the header is found in the module with the descriptor `m`. -/
def multibootHeader (taken : Mem) (m : UInt32) : UInt32 :=
  searchMbh taken (load32 taken m.toNat + 32768) 8193 (load32 taken m.toNat)

/-- A run that takes the multiboot path: `taken` is the memory when the module with the
descriptor `m` has been taken off the list. -/
structure MultibootPath (mem : Mem) (mbi : UInt32) (jump : Jump) (reached : Loader) (taken : Mem)
    (m : UInt32) : Prop where
  run : startModule mbi ⟨mem, trampolineAddress⟩ = .ok (.ok jump) reached
  takes : takeModule mbi ⟨mem, trampolineAddress⟩ = .ok m ⟨taken, trampolineAddress⟩
  multiboot : isMultiboot taken (multibootHeader taken m)

/-- All that is emitted for a header: the entry point is read behind the code of the segment. -/
def multibootTrampoline (taken : Mem) (m mb : UInt32) : List UInt8 :=
  let code := multibootCode (Mbh.load taken mb) mb (load32 taken (m.toNat + 4))
  code ++ kernelJumpBytes (Mbh.load (write taken trampolineAddress.toNat
    (code ++ X86.movBytes .eax mbiMagic2)) mb).entryAddr

theorem length_multibootCode (h : Mbh) (mb stop : UInt32) :
    (multibootCode h mb stop).length = 24 :=
  rfl

theorem multibootSegment_run (mb : UInt32) :
    multibootSegment m mb ⟨taken, trampolineAddress⟩ = .ok ()
      (.emitted taken (multibootCode (Mbh.load taken mb) mb (load32 taken (m.toNat + 4)))) := by
  have emits := @genElfSegment_emits taken [] (Mbh.load taken mb).loadAddr
    (multibootSource (Mbh.load taken mb) mb)
    (multibootLength (Mbh.load taken mb) (load32 taken (m.toNat + 4)))
    (multibootFill (Mbh.load taken mb) (load32 taken (m.toNat + 4))) (by decide)
  rw [List.nil_append, Loader.emitted_nil] at emits
  have memory : getMem ⟨taken, trampolineAddress⟩ = .ok taken ⟨taken, trampolineAddress⟩ := rfl
  rw [multibootSegment, Prog.bind_ok memory, multibootCode]
  unfold multibootSource multibootLength multibootFill multibootLoadEnd at *
  exact emits

/-- A module is taken off the list and its header is found. -/
structure MultibootAccepted (mem : Mem) (mbi : UInt32) (taken : Mem) (m mb : UInt32) : Prop where
  listed : load32 mem (mbi.toNat + 20) ≠ 0
  takes : takeModule mbi ⟨mem, trampolineAddress⟩ = .ok m ⟨taken, trampolineAddress⟩
  present : load32 taken m.toNat ≠ 0
  found : searchMbh taken (load32 taken m.toNat + 32768) 8193 (load32 taken m.toNat) = mb
  multiboot : isMultiboot taken mb

theorem startModule_emits_multiboot {mb : UInt32}
    (accepted : MultibootAccepted mem mbi taken m mb) :
    startModule mbi ⟨mem, trampolineAddress⟩ = .ok (.ok ⟨0, trampolineAddress, mbi⟩)
      (.emitted taken (multibootTrampoline taken m mb)) := by
  have memory (s : Loader) : getMem s = .ok s.mem s := rfl
  have place : trampolineAddress.toNat = 0x7c00 := rfl
  have segment := @multibootSegment_run taken m mb
  have length := length_multibootCode (Mbh.load taken mb) mb (load32 taken (m.toNat + 4))
  have trampoline : multibootTrampoline taken m mb =
    multibootCode (Mbh.load taken mb) mb (load32 taken (m.toNat + 4)) ++
      kernelJumpBytes (Mbh.load (write taken trampolineAddress.toNat
        (multibootCode (Mbh.load taken mb) mb (load32 taken (m.toNat + 4)) ++
          X86.movBytes .eax mbiMagic2)) mb).entryAddr := rfl
  rw [trampoline]
  generalize multibootCode (Mbh.load taken mb) mb (load32 taken (m.toNat + 4)) = code at *
  rw [startModule, Prog.bind_ok (memory _), if_neg accepted.listed, Prog.bind_ok accepted.takes,
    Prog.bind_ok (memory _)]
  dsimp only
  rw [nonNull, if_neg accepted.present, pure_bind, accepted.found, if_pos accepted.multiboot,
    Prog.bind_ok segment, Prog.bind_ok (genMov_emitted _ _ (by omega)), Prog.bind_ok (memory _)]
  have finish := @finishModule_emitted taken (code ++ X86.movBytes .eax mbiMagic2) mbi
    (Mbh.load (write taken trampolineAddress.toNat (code ++ X86.movBytes .eax mbiMagic2))
      mb).entryAddr (by
        rw [List.length_append]
        change trampolineAddress.toNat + (_ + 5) + 7 < 2 ^ 32
        omega)
  rw [List.append_assoc] at finish
  exact finish

theorem MultibootPath.accepted {jump : Jump} {reached : Loader}
    (path : MultibootPath mem mbi jump reached taken m) :
    MultibootAccepted mem mbi taken m (multibootHeader taken m) := by
  have memory (s : Loader) : getMem s = .ok s.mem s := rfl
  have run := path.run
  rw [startModule, Prog.bind_ok (memory _)] at run
  by_cases listed : load32 mem (mbi.toNat + 20) = 0
  · rw [if_pos listed] at run
    cases run
  rw [if_neg listed, Prog.bind_ok path.takes, Prog.bind_ok (memory _)] at run
  dsimp only at run
  by_cases present : load32 taken m.toNat = 0
  · rw [nonNull, if_pos present] at run
    cases run
  · exact ⟨listed, path.takes, present, rfl, path.multiboot⟩

end Start

section Law

variable {start stop mb checksum : UInt32} {h : Mbh}

/-- What the multiboot specification asks: the header is in the first 8192 bytes of the module
and has the right sum.  The segment is copied from where the header is and up to where the
kernel ends, and what is left of its memory is filled. -/
structure MultibootLoads (start stop mb : UInt32) (h : Mbh) (checksum src len fill : UInt32) :
    Prop where
  inside : Access.Within start (min 8192 (stop.toNat - start.toNat)) ⟨mb, 32⟩
  sum : h.magic + h.flags + checksum = 0
  source : src = mb - (h.headerAddr - h.loadAddr)
  length : if h.loadEndAddr = 0 then src.toNat + len.toNat = stop.toNat
    else h.loadAddr.toNat + len.toNat = h.loadEndAddr.toNat
  fill : if h.bssEndAddr = 0 then fill = 0
    else h.loadAddr.toNat + len.toNat + fill.toNat = h.bssEndAddr.toNat

/-- A header that the starter gets right: it is at its place, the distance of the addresses is
a number of words, and the addresses are in their order.  If the end of the kernel is left
out, the module has to lie where the kernel is to lie. -/
structure MultibootFits (start stop mb : UInt32) (h : Mbh) (checksum : UInt32) : Prop where
  inside : Access.Within start (min 8192 (stop.toNat - start.toNat)) ⟨mb, 32⟩
  sum : h.magic + h.flags + checksum = 0
  words : (h.headerAddr - h.loadAddr) &&& 3 = 0
  length : if h.loadEndAddr = 0 then h.headerAddr = mb ∧ h.loadAddr ≤ stop
    else h.loadAddr ≤ h.loadEndAddr
  fill : h.bssEndAddr ≠ 0 →
    (if h.loadEndAddr = 0 then stop else h.loadEndAddr) ≤ h.bssEndAddr

/-- The difference of two word pointers is exact if it is a number of words. -/
theorem multibootSource_eq_iff :
    multibootSource h mb = mb - (h.headerAddr - h.loadAddr) ↔
      (h.headerAddr - h.loadAddr) &&& 3 = 0 := by
  rw [multibootSource]
  generalize h.headerAddr - h.loadAddr = distance
  have small := distance.toNat_lt
  have first := mb.toNat_lt
  have whole : (distance &&& 0xFFFFFFFC).toNat = distance.toNat / 4 * 4 := by
    have mask := AlignedBlock.and_mask (e := 2) (by decide) small
    rw [UInt32.toNat_and]
    exact mask
  have rest : (distance &&& 3).toNat = distance.toNat % 4 := by
    rw [UInt32.toNat_and]
    exact Nat.and_two_pow_sub_one_eq_mod distance.toNat 2
  rw [← UInt32.toNat_inj, ← UInt32.toNat_inj, UInt32.toNat_sub, UInt32.toNat_sub, whole, rest]
  change _ ↔ distance.toNat % 4 = 0
  omega

theorem multibootLength_iff {src : UInt32} (source : src = mb - (h.headerAddr - h.loadAddr)) :
    (if h.loadEndAddr = 0 then src.toNat + (multibootLength h stop).toNat = stop.toNat
        else h.loadAddr.toNat + (multibootLength h stop).toNat = h.loadEndAddr.toNat) ↔
      if h.loadEndAddr = 0 then h.headerAddr = mb ∧ h.loadAddr ≤ stop
        else h.loadAddr ≤ h.loadEndAddr := by
  have header := h.headerAddr.toNat_lt
  have load := h.loadAddr.toNat_lt
  have place := mb.toNat_lt
  rw [multibootLength, multibootLoadEnd, UInt32.toNat_sub, UInt32.le_iff_toNat_le,
    UInt32.le_iff_toNat_le, ← UInt32.toNat_inj (a := h.headerAddr), source, UInt32.toNat_sub,
    UInt32.toNat_sub]
  by_cases leftOut : h.loadEndAddr = 0
  · have last := stop.toNat_lt
    rw [if_pos leftOut, if_pos leftOut, if_pos leftOut]
    omega
  · have last := h.loadEndAddr.toNat_lt
    rw [if_neg leftOut, if_neg leftOut, if_neg leftOut]
    omega

theorem multibootFill_iff (ends : h.loadAddr.toNat + (multibootLength h stop).toNat =
      (multibootLoadEnd h stop).toNat) :
    (if h.bssEndAddr = 0 then multibootFill h stop = 0
        else h.loadAddr.toNat + (multibootLength h stop).toNat + (multibootFill h stop).toNat =
          h.bssEndAddr.toNat) ↔
      (h.bssEndAddr ≠ 0 → multibootLoadEnd h stop ≤ h.bssEndAddr) := by
  rw [ends, multibootFill, UInt32.le_iff_toNat_le]
  generalize multibootLoadEnd h stop = loadEnd
  by_cases empty : h.bssEndAddr = 0
  · rw [if_pos empty, if_pos empty]
    exact iff_of_true rfl fun filled => absurd empty filled
  · have first := loadEnd.toNat_lt
    have last := h.bssEndAddr.toNat_lt
    rw [if_neg empty, if_neg empty, UInt32.toNat_sub, forall_prop_of_true empty]
    omega

theorem multibootLoads_iff :
    MultibootLoads start stop mb h checksum (multibootSource h mb) (multibootLength h stop)
        (multibootFill h stop) ↔
      MultibootFits start stop mb h checksum := by
  have ends (source : multibootSource h mb = mb - (h.headerAddr - h.loadAddr))
      (length : if h.loadEndAddr = 0 then h.headerAddr = mb ∧ h.loadAddr ≤ stop
        else h.loadAddr ≤ h.loadEndAddr) :
      h.loadAddr.toNat + (multibootLength h stop).toNat = (multibootLoadEnd h stop).toNat := by
    have whole := (multibootLength_iff source).mpr length
    rw [multibootLoadEnd]
    by_cases leftOut : h.loadEndAddr = 0
    · rw [if_pos leftOut] at whole length ⊢
      have place : multibootSource h mb = h.loadAddr := by
        have first := mb.toNat_lt
        have second := h.loadAddr.toNat_lt
        rw [source, length.1, ← UInt32.toNat_inj, UInt32.toNat_sub, UInt32.toNat_sub]
        omega
      rwa [place] at whole
    · rw [if_neg leftOut] at whole ⊢
      exact whole
  constructor
  · intro loads
    have length := (multibootLength_iff loads.source).mp loads.length
    exact ⟨loads.inside, loads.sum, multibootSource_eq_iff.mp loads.source, length,
      (multibootFill_iff (ends loads.source length)).mp loads.fill⟩
  · intro fits
    have source : multibootSource h mb = mb - (h.headerAddr - h.loadAddr) :=
      multibootSource_eq_iff.mpr fits.words
    exact ⟨fits.inside, fits.sum, source, (multibootLength_iff source).mpr fits.length,
      (multibootFill_iff (ends source fits.length)).mpr fits.fill⟩

/-- The starter emits one segment for the first header of the module, and the segment is what
the specification asks for exactly if the header fits. -/
theorem startModule_multiboot_iff {mem taken : Mem} {mbi m : UInt32} {jump : Jump}
    {reached : Loader} (path : MultibootPath mem mbi jump reached taken m) :
    ∃ mb, FirstMagic taken (load32 taken m.toNat) mb ∧
      reached = .emitted taken (multibootTrampoline taken m mb) ∧
      (MultibootLoads (load32 taken m.toNat) (load32 taken (m.toNat + 4)) mb (Mbh.load taken mb)
          (mbhChecksum taken mb) (multibootSource (Mbh.load taken mb) mb)
          (multibootLength (Mbh.load taken mb) (load32 taken (m.toNat + 4)))
          (multibootFill (Mbh.load taken mb) (load32 taken (m.toNat + 4))) ↔
        MultibootFits (load32 taken m.toNat) (load32 taken (m.toNat + 4)) mb (Mbh.load taken mb)
          (mbhChecksum taken mb)) := by
  have emits := startModule_emits_multiboot path.accepted
  rw [path.run] at emits
  cases emits
  exact ⟨multibootHeader taken m, searchMbh_first path.multiboot.2, rfl, multibootLoads_iff⟩

/-- A module list with a kernel of 128 bytes that is to lie at `0x200000`, behind its header;
`loadEnd` is the address where it says that it ends. -/
def kernelMemory (loadEnd : UInt32) : Mem :=
  let header := le32 mbiMagic1 ++ le32 0x10000 ++ le32 0xe4514ffe ++ le32 0x200000 ++
    le32 0x200000 ++ le32 loadEnd ++ le32 0 ++ le32 0x200020
  write (write (write (fun _ => 0) 0x1014 (le32 1 ++ le32 0x2000)) 0x2000
    (le32 0x100000 ++ le32 0x100080)) 0x100000 header

def kernelTaken (loadEnd : UInt32) : Mem :=
  (takeModule 0x1000 ⟨kernelMemory loadEnd, trampolineAddress⟩).state.mem

theorem MultibootPath.of_accepted {mem taken : Mem} {mbi m mb : UInt32}
    (accepted : MultibootAccepted mem mbi taken m mb) :
    MultibootPath mem mbi ⟨0, trampolineAddress, mbi⟩
      (.emitted taken (multibootTrampoline taken m mb)) taken m :=
  ⟨startModule_emits_multiboot accepted, accepted.takes, by
    rw [multibootHeader, accepted.found]
    exact accepted.multiboot⟩

/-- The search ends at once if the module starts with a header. -/
theorem MultibootAccepted.at_start {mem taken : Mem} {mbi m start : UInt32}
    (listed : load32 mem (mbi.toNat + 20) ≠ 0)
    (takes : takeModule mbi ⟨mem, trampolineAddress⟩ = .ok m ⟨taken, trampolineAddress⟩)
    (image : load32 taken m.toNat = start) (present : start ≠ 0)
    (multiboot : isMultiboot taken start) : MultibootAccepted mem mbi taken m start := by
  refine ⟨listed, takes, image ▸ present, ?_, multiboot⟩
  have magic : load32 taken start.toNat = mbiMagic1 := multiboot.2
  rw [image, searchMbh]
  by_cases inside : start < start + 32768
  · rw [if_pos inside, if_pos magic]
  · rw [if_neg inside]

theorem kernel_accepted : MultibootAccepted (kernelMemory 0x200080) 0x1000
    (kernelTaken 0x200080) 0x2000 0x100000 := by
  apply MultibootAccepted.at_start
  · decide +kernel
  · rfl
  · decide +kernel
  · decide
  · decide +kernel

theorem startModule_multiboot_iff_kernel :
    ∃ mb, FirstMagic (kernelTaken 0x200080) (load32 (kernelTaken 0x200080) (0x2000 : UInt32).toNat)
        mb ∧
      Loader.emitted (kernelTaken 0x200080) (multibootTrampoline (kernelTaken 0x200080) 0x2000
          0x100000) =
        .emitted (kernelTaken 0x200080) (multibootTrampoline (kernelTaken 0x200080) 0x2000 mb) ∧
      (MultibootLoads (load32 (kernelTaken 0x200080) (0x2000 : UInt32).toNat)
          (load32 (kernelTaken 0x200080) ((0x2000 : UInt32).toNat + 4)) mb
          (Mbh.load (kernelTaken 0x200080) mb) (mbhChecksum (kernelTaken 0x200080) mb)
          (multibootSource (Mbh.load (kernelTaken 0x200080) mb) mb)
          (multibootLength (Mbh.load (kernelTaken 0x200080) mb)
            (load32 (kernelTaken 0x200080) ((0x2000 : UInt32).toNat + 4)))
          (multibootFill (Mbh.load (kernelTaken 0x200080) mb)
            (load32 (kernelTaken 0x200080) ((0x2000 : UInt32).toNat + 4))) ↔
        MultibootFits (load32 (kernelTaken 0x200080) (0x2000 : UInt32).toNat)
          (load32 (kernelTaken 0x200080) ((0x2000 : UInt32).toNat + 4)) mb
          (Mbh.load (kernelTaken 0x200080) mb) (mbhChecksum (kernelTaken 0x200080) mb)) :=
  startModule_multiboot_iff (.of_accepted kernel_accepted)

/-- A kernel that leaves out where it ends is copied with nearly four gigabytes behind it. -/
theorem startModule_multiboot_overlong :
    ∃ jump reached, MultibootPath (kernelMemory 0) 0x1000 jump reached (kernelTaken 0) 0x2000 ∧
      reached = .emitted (kernelTaken 0) (multibootTrampoline (kernelTaken 0) 0x2000 0x100000) ∧
      multibootLength (Mbh.load (kernelTaken 0) 0x100000) 0x100080 = 0xfff00080 ∧
      ¬ MultibootLoads 0x100000 0x100080 0x100000 (Mbh.load (kernelTaken 0) 0x100000)
        (mbhChecksum (kernelTaken 0) 0x100000)
        (multibootSource (Mbh.load (kernelTaken 0) 0x100000) 0x100000)
        (multibootLength (Mbh.load (kernelTaken 0) 0x100000) 0x100080)
        (multibootFill (Mbh.load (kernelTaken 0) 0x100000) 0x100080) := by
  have accepted : MultibootAccepted (kernelMemory 0) 0x1000 (kernelTaken 0) 0x2000 0x100000 := by
    apply MultibootAccepted.at_start
    · decide +kernel
    · rfl
    · decide +kernel
    · decide
    · decide +kernel
  refine ⟨_, _, .of_accepted accepted, rfl, by decide +kernel, fun loads => ?_⟩
  have leftOut : (Mbh.load (kernelTaken 0) 0x100000).loadEndAddr = 0 := by decide +kernel
  have length := loads.length
  rw [if_pos leftOut] at length
  exact absurd length (by decide +kernel)

end Law

end Sable
