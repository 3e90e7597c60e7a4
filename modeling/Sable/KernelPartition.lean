import Sable.LinuxRecords
import Sable.SinitSelection

/-!
# The two parts of a kernel image

An image is cut behind the sectors that its header counts.  The checks do not compare their
number with the size of the image, and they round the place of a relocatable kernel with a mask
that only fits alignments that are powers of two.
-/

namespace Sable

open ByteMemory BigEndian HaltingProgram

section Rounding

/-- A mask splits a number. -/
theorem toNat_and_add_and_not (value mask : UInt32) :
    (value &&& ~~~mask).toNat + (value &&& mask).toNat = value.toNat := by
  have apart : (value &&& ~~~mask).toBitVec &&& (value &&& mask).toBitVec = 0 := by
    simp only [UInt32.toBitVec_and, UInt32.toBitVec_not]
    ext i inside
    simp
    intro one
    simp [one]
  have whole : (value &&& ~~~mask) + (value &&& mask) = value := by
    apply UInt32.toBitVec_inj.mp
    rw [UInt32.toBitVec_add, BitVec.add_eq_or_of_and_eq_zero _ _ apart]
    simp only [UInt32.toBitVec_and, UInt32.toBitVec_not]
    ext i inside
    simp
    cases value.toBitVec[i] <;> cases mask.toBitVec[i] <;> rfl
  have first : (value &&& ~~~mask).toNat ≤ value.toNat := by
    rw [UInt32.toNat_and]
    exact Nat.and_le_left
  have second : (value &&& mask).toNat ≤ value.toNat := by
    rw [UInt32.toNat_and]
    exact Nat.and_le_left
  have bound := value.toNat_lt
  have sum := congrArg UInt32.toNat whole
  rw [UInt32.toNat_add] at sum
  omega

/-- The mask of an alignment clears what is left of the division by it. -/
def RoundsUp (start alignment : Nat) : Prop :=
  (start + alignment - 1) &&& (alignment - 1) = (start + alignment - 1) % alignment

/-- The mask of a power of two always does. -/
theorem roundsUp_two_pow (start e : Nat) : RoundsUp start (2 ^ e) :=
  Nat.and_two_pow_sub_one_eq_mod _ _

/-- The lowest multiple of the alignment from the start on. -/
def roundUp (start alignment : Nat) : Nat :=
  (start + alignment - 1) / alignment * alignment

variable {start alignment : UInt32}

/-- The value that is rounded does not overflow. -/
theorem toNat_raised (room : plusOverflow start (alignment - 1) = false) (some : alignment ≠ 0) :
    (start + alignment - 1).toNat = start.toNat + alignment.toNat - 1 ∧
      (alignment - 1).toNat = alignment.toNat - 1 := by
  have positive : 0 < alignment.toNat := Nat.pos_of_ne_zero fun none =>
    some (UInt32.toNat_inj.mp none)
  have one : (1 : UInt32).toNat = 1 := rfl
  have small := alignment.toNat_lt
  have mask : (alignment - 1).toNat = alignment.toNat - 1 := by
    rw [UInt32.toNat_sub, one]
    omega
  have bounded := plusOverflow_eq_false.mp room
  refine ⟨?_, mask⟩
  rw [UInt32.toNat_sub, UInt32.toNat_add, one]
  omega

/-- The place is never below the start, and it is a multiple of the alignment exactly if the
mask clears the remainder. -/
theorem rounded_iff (room : plusOverflow start (alignment - 1) = false) :
    start ≤ (start + alignment - 1) &&& ~~~(alignment - 1) ∧
      (alignment.toNat ∣ ((start + alignment - 1) &&& ~~~(alignment - 1)).toNat ↔
        RoundsUp start.toNat alignment.toNat) ∧
      (RoundsUp start.toNat alignment.toNat →
        ((start + alignment - 1) &&& ~~~(alignment - 1)).toNat =
          roundUp start.toNat alignment.toNat) := by
  by_cases none : alignment = 0
  · subst none
    have bounded := plusOverflow_eq_false.mp room
    have zero : start = 0 := by
      apply UInt32.toNat_inj.mp
      change start.toNat + (2 ^ 32 - 1) < 2 ^ 32 at bounded
      change start.toNat = 0
      omega
    subst zero
    exact ⟨by decide, iff_of_true (by decide) rfl, fun _ => by decide⟩
  · obtain ⟨value, mask⟩ := toNat_raised room none
    have parts := toNat_and_add_and_not (start + alignment - 1) (alignment - 1)
    have cleared : ((start + alignment - 1) &&& (alignment - 1)).toNat ≤ alignment.toNat - 1 := by
      rw [UInt32.toNat_and, mask]
      exact Nat.and_le_right
    have positive : 0 < alignment.toNat := Nat.pos_of_ne_zero fun zero =>
      none (UInt32.toNat_inj.mp zero)
    rw [RoundsUp, roundUp, UInt32.le_iff_toNat_le, ← value, ← mask, ← UInt32.toNat_and]
    generalize ((start + alignment - 1) &&& ~~~(alignment - 1)).toNat = base at *
    generalize ((start + alignment - 1) &&& (alignment - 1)).toNat = rest at *
    generalize (start + alignment - 1).toNat = raised at *
    have division := Nat.div_add_mod raised alignment.toNat
    refine ⟨by omega, ⟨?_, ?_⟩, ?_⟩
    · rintro ⟨q, rfl⟩
      rw [← parts, Nat.mul_add_mod, Nat.mod_eq_of_lt (by omega)]
    · intro same
      refine ⟨raised / alignment.toNat, ?_⟩
      omega
    · intro same
      rw [Nat.mul_comm]
      omega

end Rounding

section Placement

variable {globals : LinuxGlobals} {args : LinuxArgs} {m reached : LinuxMachine}

/-- The number of bytes in front of the protected-mode part, as the header has it. -/
def headerSetupSize (mem : Mem) (hdr : UInt32) : UInt32 :=
  ((word8 mem hdr 0).toUInt32 + 1) * 512

theorem toNat_headerSetupSize (mem : Mem) (hdr : UInt32) :
    (headerSetupSize mem hdr).toNat = ((word8 mem hdr 0).toNat + 1) * 512 := by
  have small := (word8 mem hdr 0).toNat_lt
  have one : (1 : UInt32).toNat = 1 := rfl
  have sector : (512 : UInt32).toNat = 512 := rfl
  rw [headerSetupSize, UInt32.toNat_mul, UInt32.toNat_add, UInt8.toNat_toUInt32, one, sector]
  omega

/-- A relocatable kernel is put behind the loader and its context. -/
def KernelRelocated (globals : LinuxGlobals) (mem : Mem) (hdr base : UInt32) : Prop :=
  ∃ ctxEnd start, getLoaderCtxEnd mem globals.mbi = some ctxEnd ∧
    start.toNat = max globals.tbootMemEnd.toNat ctxEnd.toNat ∧
    plusOverflow start (word32 mem (hdr + 63) 0 - 1) = false ∧
    base = (start + word32 mem (hdr + 63) 0 - 1) &&& ~~~(word32 mem (hdr + 63) 0 - 1)

theorem relocateKernel_ok {mem : Mem} {hdr ctxEnd base : UInt32}
    (run : relocateKernel globals hdr ctxEnd m = .ok (some base) reached) (same : m.mem = mem)
    (context : getLoaderCtxEnd mem globals.mbi = some ctxEnd) :
    KernelRelocated globals mem hdr base := by
  subst same
  let start := if ctxEnd > globals.tbootMemEnd then ctxEnd else globals.tbootMemEnd
  have latest : start.toNat = max globals.tbootMemEnd.toNat ctxEnd.toNat := by
    by_cases later : ctxEnd > globals.tbootMemEnd
    · have order := UInt32.lt_iff_toNat_lt.mp later
      rw [show start = ctxEnd from if_pos later]
      omega
    · have order : ¬ globals.tbootMemEnd.toNat < ctxEnd.toNat := fun order =>
        later (UInt32.lt_iff_toNat_lt.mpr order)
      rw [show start = globals.tbootMemEnd from if_neg later]
      omega
  rw [relocateKernel, Prog.bind_eq_ok] at run
  obtain ⟨alignment, between, read, run⟩ := run
  cases read
  rw [Prog.ite_pure_eq_ok (by simp)] at run
  obtain ⟨room, run⟩ := run
  rw [Prog.bind_eq_ok] at run
  obtain ⟨-, stored, -, run⟩ := run
  cases run
  exact ⟨ctxEnd, start, context, latest, eq_false_of_ne_true room, rfl⟩

theorem protectedModeBase_ok {hdr size base : UInt32}
    (run : protectedModeBase globals hdr size m = .ok (some base) reached) :
    (word8 m.mem (hdr + 67) 0 ≠ 0 → KernelRelocated globals m.mem hdr base) ∧
      (word8 m.mem (hdr + 67) 0 = 0 →
        loadHigh globals m.mem (word8 m.mem (hdr + 32) 0) size = some base) := by
  rw [protectedModeBase, Prog.bind_get, Prog.bind_eq_ok] at run
  obtain ⟨relocatableKernel, next, read, run⟩ := run
  cases read
  constructor
  · intro relocatable
    rw [if_pos relocatable] at run
    cases context : getLoaderCtxEnd m.mem globals.mbi with
    | none =>
        rw [context] at run
        cases run
    | some ctxEnd =>
        rw [context] at run
        exact relocateKernel_ok run rfl context
  · intro fixed
    rw [if_neg (not_not_intro fixed), Prog.bind_eq_ok] at run
    obtain ⟨loadflags, last, read, run⟩ := run
    cases read
    exact (Outcome.ok.inj run).1

/-- What an accepted image says about the place of its parts. -/
structure KernelPlaced (globals : LinuxGlobals) (args : LinuxArgs) (mem : Mem)
    (placement : KernelPlacement) : Prop where
  realModeBase : placement.realModeBase = realModeBase globals mem
  realModeSize : placement.realModeSize = headerSetupSize mem args.hdr
  room : ¬ headerSetupSize mem args.hdr + 0x1000 > 0x8D00
  protectedModeSize : placement.protectedModeSize =
    args.linuxSize - headerSetupSize mem args.hdr
  relocated : word8 mem (args.hdr + 67) 0 ≠ 0 →
    KernelRelocated globals mem args.hdr placement.protectedModeBase
  loadedHigh : word8 mem (args.hdr + 67) 0 = 0 →
    loadHigh globals mem (word8 mem (args.hdr + 32) 0)
      (args.linuxSize - headerSetupSize mem args.hdr) = some placement.protectedModeBase

theorem placeKernel_ok {placement : KernelPlacement}
    (run : placeKernel globals args m = .ok (some placement) reached) :
    KernelPlaced globals args m.mem placement := by
  rw [placeKernel, Prog.bind_get, Prog.bind_eq_ok] at run
  obtain ⟨setupSects, between, read, run⟩ := run
  cases read
  rw [Prog.ite_pure_eq_ok (by simp)] at run
  obtain ⟨room, run⟩ := run
  rw [Prog.bind_eq_ok] at run
  obtain ⟨base?, placed, place, run⟩ := run
  cases base? with
  | none => cases run
  | some base =>
      cases run
      obtain ⟨relocated, loadedHigh⟩ := protectedModeBase_ok place
      exact ⟨rfl, rfl, room, rfl, relocated, loadedHigh⟩

theorem placeLinuxImage_ok {placement : KernelPlacement}
    (run : placeLinuxImage globals args m = .ok (some placement) reached) :
    ∃ ready, prepareLinuxImage globals args m = .ok true ready ∧
      placeKernel globals args ready = .ok (some placement) reached := by
  rw [placeLinuxImage, Prog.bind_eq_ok] at run
  obtain ⟨prepared, ready, prepares, run⟩ := run
  cases prepared with
  | false => cases run
  | true => exact ⟨ready, prepares, run⟩

end Placement

section Partition

variable {globals : LinuxGlobals} {args : LinuxArgs} {mem : Mem}

/-- The parts of an image make up the image, nothing else is read, and a relocatable kernel is
aligned, behind the loader and its context, and below four gigabytes. -/
structure Partitioned (globals : LinuxGlobals) (args : LinuxArgs) (mem : Mem)
    (placement : KernelPlacement) (reads : List Access) : Prop where
  sizes : placement.realModeSize.toNat + placement.protectedModeSize.toNat =
    args.linuxSize.toNat
  inside : ∀ access ∈ reads, access.Among args.linuxImage args.linuxSize.toNat
  relocated : word8 mem (args.hdr + 67) 0 ≠ 0 →
    ∀ ctxEnd, getLoaderCtxEnd mem globals.mbi = some ctxEnd →
      (word32 mem (args.hdr + 63) 0).toNat ∣ placement.protectedModeBase.toNat ∧
      globals.tbootMemEnd ≤ placement.protectedModeBase ∧
      ctxEnd ≤ placement.protectedModeBase ∧
      placement.protectedModeBase.toNat + placement.protectedModeSize.toNat ≤ 2 ^ 32

/-- An image that has the sectors its header counts.  A relocatable kernel has an alignment
that can be rounded to with a mask, and room behind the loader. -/
structure PartitionFits (globals : LinuxGlobals) (args : LinuxArgs) (mem : Mem) : Prop where
  header : 0x1F1 + 119 ≤ args.linuxSize.toNat
  sectors : ((word8 mem args.hdr 0).toNat + 1) * 512 ≤ args.linuxSize.toNat
  relocated : word8 mem (args.hdr + 67) 0 ≠ 0 →
    ∀ ctxEnd, getLoaderCtxEnd mem globals.mbi = some ctxEnd →
      RoundsUp (max globals.tbootMemEnd.toNat ctxEnd.toNat)
        (word32 mem (args.hdr + 63) 0).toNat ∧
      roundUp (max globals.tbootMemEnd.toNat ctxEnd.toNat) (word32 mem (args.hdr + 63) 0).toNat +
        (args.linuxSize.toNat - ((word8 mem args.hdr 0).toNat + 1) * 512) ≤ 2 ^ 32

/-- The header is in the image if its last byte is. -/
theorem inHeader_among (whole : 0x1F1 + 119 ≤ args.linuxSize.toNat) {access : Access}
    (inside : InHeader args.hdr access) : access.Among args.linuxImage args.linuxSize.toNat := by
  rw [InHeader, Access.Among] at inside
  have start : (0x1F1 : UInt32).toNat = 0x1F1 := rfl
  have image := args.linuxImage.toNat_lt
  have first := access.addr.toNat_lt
  rw [LinuxArgs.hdr, UInt32.toNat_sub, UInt32.toNat_add, start] at inside
  rw [Access.Among, UInt32.toNat_sub]
  omega

theorem among_first {length : Nat} :
    Access.Among args.linuxImage args.linuxSize.toNat ⟨args.linuxImage, length⟩ ↔
      length ≤ args.linuxSize.toNat := by
  rw [Access.Among, UInt32.sub_self]
  change 0 + length ≤ _ ↔ _
  rw [Nat.zero_add]

theorem among_behind {offset : UInt32} {length : Nat} :
    Access.Among args.linuxImage args.linuxSize.toNat ⟨args.linuxImage + offset, length⟩ ↔
      offset.toNat + length ≤ args.linuxSize.toNat := by
  have place : args.linuxImage + offset - args.linuxImage = offset := by
    rw [UInt32.add_comm, UInt32.add_sub_cancel]
  rw [Access.Among, place]

variable {placement : KernelPlacement} {placed : LinuxMachine}

/-- The image is left exactly if its header or its sectors are not all there. -/
theorem inside_iff (kernel : KernelPlaced globals args mem placement)
    (reads : ∀ access ∈ placed.reads, InHeader args.hdr access) :
    (∀ access ∈ (partsLoaded args placement placed).reads,
        access.Among args.linuxImage args.linuxSize.toNat) ↔
      0x1F1 + 119 ≤ args.linuxSize.toNat ∧
        ((word8 mem args.hdr 0).toNat + 1) * 512 ≤ args.linuxSize.toNat := by
  have size := toNat_headerSetupSize mem args.hdr
  rw [← size, partsLoaded_reads, List.forall_mem_append, kernel.realModeSize,
    kernel.protectedModeSize]
  constructor
  · rintro ⟨parts, -⟩
    exact ⟨among_behind.mp (parts ⟨args.hdr, 119⟩ (by simp)),
      among_first.mp (parts ⟨args.linuxImage, (headerSetupSize mem args.hdr).toNat⟩ (by simp))⟩
  · rintro ⟨header, sectors⟩
    refine ⟨?_, fun access member => inHeader_among header (reads access member)⟩
    have rest : (args.linuxSize - headerSetupSize mem args.hdr).toNat =
        args.linuxSize.toNat - (headerSetupSize mem args.hdr).toNat :=
      UInt32.toNat_sub_of_le _ _ (UInt32.le_iff_toNat_le.mpr sectors)
    simp only [List.forall_mem_cons, List.not_mem_nil, false_imp_iff, implies_true, and_true]
    exact ⟨among_first.mpr sectors, among_behind.mpr (by omega), among_behind.mpr header⟩

theorem sizes_iff (kernel : KernelPlaced globals args mem placement) :
    placement.realModeSize.toNat + placement.protectedModeSize.toNat = args.linuxSize.toNat ↔
      ((word8 mem args.hdr 0).toNat + 1) * 512 ≤ args.linuxSize.toNat := by
  have size := toNat_headerSetupSize mem args.hdr
  have first := args.linuxSize.toNat_lt
  have second := (headerSetupSize mem args.hdr).toNat_lt
  rw [kernel.realModeSize, kernel.protectedModeSize, UInt32.toNat_sub, ← size]
  omega

theorem relocated_iff (kernel : KernelPlaced globals args mem placement)
    (sectors : ((word8 mem args.hdr 0).toNat + 1) * 512 ≤ args.linuxSize.toNat)
    (relocatable : word8 mem (args.hdr + 67) 0 ≠ 0) {ctxEnd : UInt32}
    (context : getLoaderCtxEnd mem globals.mbi = some ctxEnd) :
    ((word32 mem (args.hdr + 63) 0).toNat ∣ placement.protectedModeBase.toNat ∧
        globals.tbootMemEnd ≤ placement.protectedModeBase ∧
        ctxEnd ≤ placement.protectedModeBase ∧
        placement.protectedModeBase.toNat + placement.protectedModeSize.toNat ≤ 2 ^ 32) ↔
      RoundsUp (max globals.tbootMemEnd.toNat ctxEnd.toNat)
          (word32 mem (args.hdr + 63) 0).toNat ∧
        roundUp (max globals.tbootMemEnd.toNat ctxEnd.toNat)
            (word32 mem (args.hdr + 63) 0).toNat +
          (args.linuxSize.toNat - ((word8 mem args.hdr 0).toNat + 1) * 512) ≤ 2 ^ 32 := by
  obtain ⟨found, start, same, latest, room, base⟩ := kernel.relocated relocatable
  obtain rfl : found = ctxEnd := Option.some.inj (same.symm.trans context)
  obtain ⟨above, aligned, place⟩ := rounded_iff room
  rw [← base] at above aligned place
  rw [latest] at aligned place
  have size := toNat_headerSetupSize mem args.hdr
  have rest : placement.protectedModeSize.toNat =
      args.linuxSize.toNat - ((word8 mem args.hdr 0).toNat + 1) * 512 := by
    rw [← size] at sectors ⊢
    rw [kernel.protectedModeSize]
    exact UInt32.toNat_sub_of_le _ _ (UInt32.le_iff_toNat_le.mpr sectors)
  have start_le := UInt32.le_iff_toNat_le.mp above
  have behind : globals.tbootMemEnd ≤ placement.protectedModeBase ∧
      found ≤ placement.protectedModeBase := by
    rw [UInt32.le_iff_toNat_le, UInt32.le_iff_toNat_le]
    omega
  rw [aligned, rest]
  constructor
  · rintro ⟨rounds, -, -, ends⟩
    exact ⟨rounds, place rounds ▸ ends⟩
  · rintro ⟨rounds, ends⟩
    exact ⟨rounds, behind.1, behind.2, (place rounds).symm ▸ ends⟩

theorem partitioned_iff (kernel : KernelPlaced globals args mem placement)
    (reads : ∀ access ∈ placed.reads, InHeader args.hdr access) :
    Partitioned globals args mem placement (partsLoaded args placement placed).reads ↔
      PartitionFits globals args mem := by
  constructor
  · intro partitioned
    obtain ⟨header, sectors⟩ := (inside_iff kernel reads).mp partitioned.inside
    exact ⟨header, sectors, fun relocatable ctxEnd context =>
      (relocated_iff kernel sectors relocatable context).mp
        (partitioned.relocated relocatable ctxEnd context)⟩
  · intro fits
    exact ⟨(sizes_iff kernel).mpr fits.sectors,
      (inside_iff kernel reads).mpr ⟨fits.header, fits.sectors⟩,
      fun relocatable ctxEnd context =>
        (relocated_iff kernel fits.sectors relocatable context).mpr
          (fits.relocated relocatable ctxEnd context)⟩

/-- In every run that passes the checks, the parts that are copied are those of the image
exactly if the image is as its header says. -/
theorem expandLinuxImage_partition_iff
    (accepted : placeLinuxImage globals args (.start mem) = .ok (some placement) placed) :
    ∃ ready more, prepareLinuxImage globals args (.start mem) = .ok true ready ∧
      (expandLinuxImage globals args (.start mem)).state.copies = more ++
        ⟨placement.realModeBase, args.linuxImage, placement.realModeSize⟩ ::
        ⟨placement.protectedModeBase, args.linuxImage + placement.realModeSize,
          placement.protectedModeSize⟩ :: placed.copies ∧
      (Partitioned globals args ready.mem placement
          (expandLinuxImage globals args (.start mem)).state.reads ↔
        PartitionFits globals args ready.mem) := by
  obtain ⟨ready, prepares, places⟩ := placeLinuxImage_ok accepted
  obtain ⟨more, copies⟩ := expandLinuxImage_copies accepted
  have checks : Recording (InHeader args.hdr) (fun _ => False) (placeLinuxImage globals args) :=
    placeLinuxImage_recording globals args
  have records := checks (.start mem)
  rw [accepted] at records
  obtain ⟨found, reads, header⟩ := records.reads
  have only : ∀ access ∈ placed.reads, InHeader args.hdr access := by
    intro access member
    rw [show placed.reads = found ++ [] from reads, List.append_nil] at member
    exact header access member
  refine ⟨ready, more, prepares, copies, ?_⟩
  rw [expandLinuxImage_reads accepted]
  exact partitioned_iff (placeKernel_ok places) only

end Partition

section Images

/-- Memory with an image at `0x100000` and an empty loader context at `0x9000`. -/
def linuxMemory (setupSects relocatable : UInt8) (initrdAddrMax alignment : UInt32) : Mem :=
  write (fun _ => 0) (0x100000 + 0x1F1)
    ([setupSects] ++ List.replicate 16 0 ++ le32 0x53726448 ++ le16 0x020F ++
      List.replicate 36 0 ++ le32 initrdAddrMax ++ le32 alignment ++ [relocatable])

/-- Ram up to two gigabytes and behind a gap. -/
def gappedTable : E820Table :=
  ⟨fun i => if i = 0 then ⟨20, 0x100000, 0x7FF00000, e820Ram⟩
    else ⟨20, 0x80100000, 0x0FF00000, e820Ram⟩, 2⟩

def imageGlobals : LinuxGlobals :=
  ⟨0x9000, 0x900000, 0xA00000, gappedTable, fun _ => ⟨0, 0⟩⟩

def imageArgs (linuxSize initrdSize : UInt32) : LinuxArgs :=
  ⟨0x100000, linuxSize, 0x200000, initrdSize, 0x50000, true⟩

theorem expandLinuxImage_partition_iff_aligned :
    ∃ ready more placed,
      prepareLinuxImage imageGlobals (imageArgs 0x4000 0)
          (.start (linuxMemory 4 1 0x7FFFFFFF 0x1000)) = .ok true ready ∧
      (expandLinuxImage imageGlobals (imageArgs 0x4000 0)
          (.start (linuxMemory 4 1 0x7FFFFFFF 0x1000))).state.copies = more ++
        ⟨0x90000, 0x100000, 0xA00⟩ :: ⟨0x900000, 0x100A00, 0x3600⟩ :: placed ∧
      Partitioned imageGlobals (imageArgs 0x4000 0) ready.mem ⟨0x90000, 0xA00, 0x900000, 0x3600⟩
        (expandLinuxImage imageGlobals (imageArgs 0x4000 0)
          (.start (linuxMemory 4 1 0x7FFFFFFF 0x1000))).state.reads := by
  obtain ⟨placed, accepted⟩ := Outcome.eq_ok_of_value?
    (show (placeLinuxImage imageGlobals (imageArgs 0x4000 0)
        (.start (linuxMemory 4 1 0x7FFFFFFF 0x1000))).value? =
      some (some ⟨0x90000, 0xA00, 0x900000, 0x3600⟩) by decide +kernel)
  obtain ⟨ready, more, prepares, copies, same⟩ := expandLinuxImage_partition_iff accepted
  refine ⟨ready, more, placed.copies, prepares, copies, same.mpr ?_⟩
  have prepared : ready = (prepareLinuxImage imageGlobals (imageArgs 0x4000 0)
      (.start (linuxMemory 4 1 0x7FFFFFFF 0x1000))).state := by
    rw [prepares]
    rfl
  have sectors : word8 ready.mem (imageArgs 0x4000 0).hdr 0 = 4 := by
    rw [prepared]
    decide +kernel
  have alignment : word32 ready.mem ((imageArgs 0x4000 0).hdr + 63) 0 = 0x1000 := by
    rw [prepared]
    decide +kernel
  have context : getLoaderCtxEnd ready.mem imageGlobals.mbi = some 0xA000 := by
    rw [prepared]
    decide +kernel
  refine ⟨by decide, by rw [sectors]; decide, fun _ ctxEnd found => ?_⟩
  rw [context] at found
  cases found
  rw [alignment, sectors]
  exact ⟨roundsUp_two_pow _ 12, by decide⟩

/-- An image of two sectors whose header counts four is cut into parts of `0xA00` and nearly
`2 ^ 32` bytes. -/
theorem expandLinuxImage_truncated :
    ∃ ready placed,
      prepareLinuxImage imageGlobals (imageArgs 0x400 0)
          (.start (linuxMemory 4 1 0x7FFFFFFF 0x1000)) = .ok true ready ∧
      placeLinuxImage imageGlobals (imageArgs 0x400 0)
          (.start (linuxMemory 4 1 0x7FFFFFFF 0x1000)) =
        .ok (some ⟨0x90000, 0xA00, 0x900000, 0xFFFFFA00⟩) placed ∧
      ¬ Partitioned imageGlobals (imageArgs 0x400 0) ready.mem
        ⟨0x90000, 0xA00, 0x900000, 0xFFFFFA00⟩
        (expandLinuxImage imageGlobals (imageArgs 0x400 0)
          (.start (linuxMemory 4 1 0x7FFFFFFF 0x1000))).state.reads := by
  obtain ⟨placed, accepted⟩ := Outcome.eq_ok_of_value?
    (show (placeLinuxImage imageGlobals (imageArgs 0x400 0)
        (.start (linuxMemory 4 1 0x7FFFFFFF 0x1000))).value? =
      some (some ⟨0x90000, 0xA00, 0x900000, 0xFFFFFA00⟩) by decide +kernel)
  obtain ⟨ready, prepares, -⟩ := placeLinuxImage_ok accepted
  exact ⟨ready, placed, prepares, accepted, fun partitioned =>
    absurd partitioned.sizes (by decide)⟩

end Images

end Sable
