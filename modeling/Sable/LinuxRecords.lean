import Sable.Linux
import Sable.ReadRanges

/-!
# What the kernel loader keeps on record

The loader reads nothing of an image but its header until all checks are made.  Then the two
parts are copied, and the image is not looked at again.
-/

namespace Sable

open ByteMemory BigEndian HaltingProgram

/-- Only allowed reads and writes of the map are added to the record, and copies stay on it. -/
structure Records (allowed mapped : Access → Prop) (before after : LinuxMachine) : Prop where
  reads : ∃ more, after.reads = more ++ before.reads ∧ ∀ access ∈ more, allowed access
  copies : ∃ more, after.copies = more ++ before.copies
  mapWrites : ∃ more, after.mapWrites = more ++ before.mapWrites ∧ ∀ access ∈ more, mapped access

def Recording {α : Type} (allowed mapped : Access → Prop) (program : Prog Halt LinuxMachine α) :
    Prop :=
  Prog.Steps (Records allowed mapped) program

section Rules

variable {α β : Type} {allowed mapped : Access → Prop}

theorem Records.refl (m : LinuxMachine) : Records allowed mapped m m :=
  ⟨⟨[], rfl, by simp⟩, ⟨[], rfl⟩, ⟨[], rfl, by simp⟩⟩

theorem Records.trans {first second third : LinuxMachine}
    (one : Records allowed mapped first second) (two : Records allowed mapped second third) :
    Records allowed mapped first third := by
  obtain ⟨early, earlyReads, earlyAllowed⟩ := one.reads
  obtain ⟨late, lateReads, lateAllowed⟩ := two.reads
  obtain ⟨before, earlyCopies⟩ := one.copies
  obtain ⟨after, lateCopies⟩ := two.copies
  obtain ⟨former, earlyWrites, earlyMapped⟩ := one.mapWrites
  obtain ⟨latter, lateWrites, lateMapped⟩ := two.mapWrites
  refine ⟨⟨late ++ early, ?_, List.forall_mem_append.mpr ⟨lateAllowed, earlyAllowed⟩⟩,
    ⟨after ++ before, ?_⟩,
    ⟨latter ++ former, ?_, List.forall_mem_append.mpr ⟨lateMapped, earlyMapped⟩⟩⟩
  · rw [lateReads, earlyReads, List.append_assoc]
  · rw [lateCopies, earlyCopies, List.append_assoc]
  · rw [lateWrites, earlyWrites, List.append_assoc]

theorem Recording.ret (value : α) : Recording allowed mapped (pure value) :=
  Records.refl

theorem Recording.halt (reason : Halt) :
    Recording allowed mapped (Prog.halt reason : Prog _ _ α) :=
  Records.refl

theorem Recording.get : Recording allowed mapped Prog.get :=
  Records.refl

theorem Recording.bind {program : Prog Halt LinuxMachine α} {next : α → Prog Halt LinuxMachine β}
    (first : Recording allowed mapped program)
    (second : ∀ value, Recording allowed mapped (next value)) :
    Recording allowed mapped (program >>= next) :=
  Prog.Steps.bind Records.trans first second

theorem Recording.ite {condition : Prop} [Decidable condition]
    {yes no : Prog Halt LinuxMachine α} (first : Recording allowed mapped yes)
    (second : Recording allowed mapped no) :
    Recording allowed mapped (if condition then yes else no) :=
  Prog.Steps.ite first second

theorem Recording.mono {narrow : Access → Prop} {program : Prog Halt LinuxMachine α}
    (recording : Recording narrow mapped program)
    (wider : ∀ access, narrow access → allowed access) :
    Recording allowed mapped program := by
  intro m
  obtain ⟨⟨more, reads, inside⟩, copies, writes⟩ := recording m
  exact ⟨⟨more, reads, fun access member => wider access (inside access member)⟩, copies, writes⟩

theorem linuxStore_recording (addr : UInt32) (bytes : List UInt8) :
    Recording allowed mapped (linuxStore addr bytes) :=
  fun _ => ⟨⟨[], rfl, by simp⟩, ⟨[], rfl⟩, ⟨[], rfl, by simp⟩⟩

theorem linuxClear_recording (addr : UInt32) (len : Nat) :
    Recording allowed mapped (linuxClear addr len) :=
  fun _ => ⟨⟨[], rfl, by simp⟩, ⟨[], rfl⟩, ⟨[], rfl, by simp⟩⟩

theorem linuxCopy_recording (dst src len : UInt32) :
    Recording allowed mapped (linuxCopy dst src len) :=
  fun _ => ⟨⟨[], rfl, by simp⟩, ⟨[⟨dst, src, len⟩], rfl⟩, ⟨[], rfl, by simp⟩⟩

variable {addr : UInt32}

theorem mapStore_recording {bytes : List UInt8} (inside : mapped ⟨addr, bytes.length⟩) :
    Recording allowed mapped (mapStore addr bytes) :=
  fun _ => ⟨⟨[], rfl, by simp⟩, ⟨[], rfl⟩, ⟨[⟨addr, bytes.length⟩], rfl, by simpa using inside⟩⟩

theorem imageRead_recording {len : Nat} (inside : allowed ⟨addr, len⟩) :
    Recording allowed mapped (imageRead addr len) :=
  fun _ => ⟨⟨[⟨addr, len⟩], rfl, by simpa using inside⟩, ⟨[], rfl⟩, ⟨[], rfl, by simp⟩⟩

theorem imageByte_recording (inside : allowed ⟨addr, 1⟩) :
    Recording allowed mapped (imageByte addr) :=
  (imageRead_recording inside).bind fun _ => Recording.get.bind fun _ => .ret _

theorem imageHalf_recording (inside : allowed ⟨addr, 2⟩) :
    Recording allowed mapped (imageHalf addr) :=
  (imageRead_recording inside).bind fun _ => Recording.get.bind fun _ => .ret _

theorem imageWord_recording (inside : allowed ⟨addr, 4⟩) :
    Recording allowed mapped (imageWord addr) :=
  (imageRead_recording inside).bind fun _ => Recording.get.bind fun _ => .ret _

end Rules

section Checks

variable {mapped : Access → Prop} (globals : LinuxGlobals) (args : LinuxArgs)

/-- The range is in the header. -/
def InHeader (hdr : UInt32) (access : Access) : Prop :=
  access.Among hdr 119

theorem inHeader_field (hdr : UInt32) {offset : UInt32} {len : Nat}
    (inside : offset.toNat + len ≤ 119) : InHeader hdr ⟨hdr + offset, len⟩ := by
  have place : hdr + offset - hdr = offset := by
    rw [UInt32.add_comm, UInt32.add_sub_cancel]
  rw [InHeader, Access.Among, place]
  exact inside

theorem inHeader_first (hdr : UInt32) : InHeader hdr ⟨hdr, 1⟩ := by
  rw [InHeader, Access.Among, UInt32.sub_self]
  exact (by decide : 0 + 1 ≤ 119)

theorem linuxParseCmdline_recording {allowed : Access → Prop} :
    Recording allowed mapped (linuxParseCmdline globals) := by
  refine Recording.get.bind fun m => .ite (.ret _) ?_
  cases cstring m.mem (getCmdline m.mem globals.mbi) with
  | none => exact .halt _
  | some string => exact .ret _

theorem prepareHeader_recording (hdr : UInt32) :
    Recording (InHeader hdr) mapped (prepareHeader globals hdr) := by
  have sectors : Recording (InHeader hdr) mapped (imageByte hdr) :=
    imageByte_recording (inHeader_first hdr)
  refine sectors.bind fun _ => .bind (.ite (linuxStore_recording _ _) (.ret _)) fun _ =>
    sectors.bind fun _ => .ite (.ret _) ?_
  refine (linuxParseCmdline_recording globals).bind fun options =>
    (linuxStore_recording _ _).bind fun _ => ?_
  refine (imageWord_recording (inHeader_field hdr (by decide))).bind fun _ => .ite (.ret _) ?_
  refine (imageHalf_recording (inHeader_field hdr (by decide))).bind fun _ => .ite (.ret _) ?_
  refine (linuxStore_recording _ _).bind fun _ => ?_
  refine (imageByte_recording (inHeader_field hdr (by decide))).bind fun _ => ?_
  exact (linuxStore_recording _ _).bind fun _ => (linuxStore_recording _ _).bind fun _ => .ret _

theorem placeInitrd_recording (options : LinuxOptions) :
    Recording (InHeader args.hdr) mapped (placeInitrd globals args options) := by
  refine .ite ?_ (.ret _)
  dsimp only
  cases initrdInRam (getHighestSizedRam globals.table args.initrdSize.toUInt64
    (memLimit options.mem)) args.initrdSize with
  | none => exact .ret _
  | some initrdBase =>
      refine Recording.bind (imageWord_recording (inHeader_field args.hdr (by decide)))
        fun max => ?_
      cases initrdBelow max args.initrdSize initrdBase >>= initrdBeside
          (getHighestSizedRam globals.table args.initrdSize.toUInt64 (memLimit options.mem))
          args.linuxImage args.linuxSize args.initrdSize with
      | none => exact .ret _
      | some initrdBase => exact (linuxCopy_recording _ _ _).bind fun _ => .ret _

theorem prepareLinuxImage_recording :
    Recording (InHeader args.hdr) mapped (prepareLinuxImage globals args) := by
  refine .ite (.ret _) ((prepareHeader_recording globals args.hdr).bind fun options => ?_)
  cases options with
  | none => exact .ret _
  | some options =>
      refine (placeInitrd_recording globals args options).bind fun initrdBase => ?_
      cases initrdBase with
      | none => exact .ret _
      | some initrdBase =>
          exact (linuxStore_recording _ _).bind fun _ => (linuxStore_recording _ _).bind fun _ =>
            .ret _

theorem relocateKernel_recording (hdr ctxEnd : UInt32) :
    Recording (InHeader hdr) mapped (relocateKernel globals hdr ctxEnd) :=
  (imageWord_recording (inHeader_field hdr (by decide))).bind fun _ => .ite (.ret _) <|
    (linuxStore_recording _ _).bind fun _ => .ret _

theorem protectedModeBase_recording (hdr protectedModeSize : UInt32) :
    Recording (InHeader hdr) mapped (protectedModeBase globals hdr protectedModeSize) := by
  refine Recording.get.bind fun m => ?_
  refine (imageByte_recording (inHeader_field hdr (by decide))).bind fun relocatable => .ite ?_ ?_
  · cases getLoaderCtxEnd m.mem globals.mbi with
    | none => exact .halt _
    | some ctxEnd => exact relocateKernel_recording globals hdr ctxEnd
  · exact (imageByte_recording (inHeader_field hdr (by decide))).bind fun _ => .ret _

theorem placeKernel_recording : Recording (InHeader args.hdr) mapped (placeKernel globals args) :=
  Recording.get.bind fun _ => (imageByte_recording (inHeader_first args.hdr)).bind fun _ =>
    .ite (.ret _) ((protectedModeBase_recording globals args.hdr _).bind fun _ => .ret _)

theorem placeLinuxImage_recording :
    Recording (InHeader args.hdr) mapped (placeLinuxImage globals args) :=
  (prepareLinuxImage_recording globals args).bind fun _ =>
    .ite (placeKernel_recording globals args) (.ret _)

end Checks

section Loading

variable {allowed mapped : Access → Prop} (globals : LinuxGlobals) (args : LinuxArgs)

theorem setBootParams_recording (placement : KernelPlacement) (header : List UInt8) :
    Recording allowed mapped (setBootParams globals placement header) := by
  refine Recording.get.bind fun m => ?_
  dsimp only
  cases cstring m.mem (getCmdline m.mem globals.mbi) with
  | none => exact .halt _
  | some string =>
      exact (linuxClear_recording _ _).bind fun _ => (linuxCopy_recording _ _ _).bind fun _ =>
        (linuxClear_recording _ _).bind fun _ => linuxStore_recording _ _

theorem copyMapLoop_recording (e820Map last : UInt32) (fuel : Nat) (p : UInt32) (i : Nat) :
    Recording allowed (fun _ => True) (copyMapLoop e820Map last fuel p i) := by
  induction fuel generalizing p i with
  | zero => exact .halt _
  | succ fuel ih =>
      refine .ite ?_ (.ret _)
      exact Recording.get.bind fun _ => (mapStore_recording trivial).bind fun _ =>
        Recording.get.bind fun _ => (mapStore_recording trivial).bind fun _ =>
        Recording.get.bind fun _ => (mapStore_recording trivial).bind fun _ => ih _ _

theorem handOverMap_recording (bootParams : UInt32) :
    Recording allowed (fun _ => True) (handOverMap globals bootParams) :=
  Recording.get.bind fun _ => .ite
    ((copyMapLoop_recording _ _ _ _ _).bind fun _ => linuxStore_recording _ _) (.ret _)

theorem finishBootParams_recording (bootParams : UInt32) :
    Recording allowed (fun _ => True) (finishBootParams globals args bootParams) :=
  (linuxStore_recording _ _).bind fun _ => (linuxStore_recording _ _).bind fun _ =>
    (linuxStore_recording _ _).bind fun _ => (linuxStore_recording _ _).bind fun _ =>
    (linuxStore_recording _ _).bind fun _ => (linuxStore_recording _ _).bind fun _ =>
    .ite (linuxStore_recording _ _) (.ret _)

/-- What is left to do when the parts have been copied. -/
def finishLinuxImage (placement : KernelPlacement) (header : List UInt8) :
    Prog Halt LinuxMachine (Option UInt32) := do
  setBootParams globals placement header
  handOverMap globals placement.bootParams
  finishBootParams globals args placement.bootParams
  return some (ofBe32 ((header.drop 35).take 4).reverse)

theorem finishLinuxImage_recording (placement : KernelPlacement) (header : List UInt8) :
    Recording allowed (fun _ => True) (finishLinuxImage globals args placement header) :=
  (setBootParams_recording globals placement header).bind fun _ =>
    (handOverMap_recording globals _).bind fun _ =>
    (finishBootParams_recording globals args _).bind fun _ => .ret _

variable {globals args} {m placed : LinuxMachine} {placement : KernelPlacement}

/-- The machine when the parts have been copied. -/
def partsLoaded (args : LinuxArgs) (placement : KernelPlacement) (placed : LinuxMachine) :
    LinuxMachine :=
  (loadParts args placement placed).state

theorem loadLinuxImage_accepted
    (accepted : placeLinuxImage globals args m = .ok (some placement) placed) :
    loadLinuxImage globals args m = (loadParts args placement >>= fun header =>
      setBootParams globals placement header >>= fun _ => pure (some (placement, header)))
        placed := by
  rw [loadLinuxImage, Prog.bind_ok accepted]

theorem expandLinuxImage_accepted
    (accepted : placeLinuxImage globals args m = .ok (some placement) placed) :
    expandLinuxImage globals args m =
      (loadParts args placement >>= finishLinuxImage globals args placement) placed := by
  rw [expandLinuxImage, Prog.bind_eq_bind (loadLinuxImage_accepted accepted), Prog.bind_bind]
  refine congrFun (congrArg _ (funext fun header => ?_)) placed
  exact Prog.bind_bind _ _ _

theorem expandLinuxImage_loaded
    (accepted : placeLinuxImage globals args m = .ok (some placement) placed) :
    ∃ header, expandLinuxImage globals args m =
      finishLinuxImage globals args placement header (partsLoaded args placement placed) := by
  obtain ⟨header, parts⟩ : ∃ header,
      loadParts args placement placed = .ok header (partsLoaded args placement placed) := ⟨_, rfl⟩
  exact ⟨header, (expandLinuxImage_accepted accepted).trans (Prog.bind_ok parts _)⟩

/-- A run that fails a check ends there. -/
theorem expandLinuxImage_none (rejected : placeLinuxImage globals args m = .ok none placed) :
    expandLinuxImage globals args m = .ok none placed := by
  have load : loadLinuxImage globals args m = .ok none placed := by
    rw [loadLinuxImage, Prog.bind_ok rejected]
    rfl
  rw [expandLinuxImage, Prog.bind_ok load]
  rfl

theorem expandLinuxImage_halt {reason : Halt}
    (stuck : placeLinuxImage globals args m = .halt reason placed) :
    expandLinuxImage globals args m = .halt reason placed := by
  have load : loadLinuxImage globals args m = .halt reason placed := by
    rw [loadLinuxImage, Prog.bind_halt stuck]
  rw [expandLinuxImage, Prog.bind_halt load]

theorem partsLoaded_reads : (partsLoaded args placement placed).reads =
    [⟨args.linuxImage, placement.realModeSize.toNat⟩,
      ⟨args.linuxImage + placement.realModeSize, placement.protectedModeSize.toNat⟩,
      ⟨args.hdr, 119⟩] ++ placed.reads :=
  rfl

theorem loadParts_recording (placement : KernelPlacement) :
    Recording (fun _ => True) mapped (loadParts args placement) :=
  (linuxStore_recording _ _).bind fun _ => (imageRead_recording trivial).bind fun _ =>
    Recording.get.bind fun _ =>
    ((imageRead_recording trivial).bind fun _ => linuxCopy_recording _ _ _).bind fun _ =>
    ((imageRead_recording trivial).bind fun _ => linuxCopy_recording _ _ _).bind fun _ => .ret _

/-- What was copied before the kernel is placed stays on the record. -/
theorem expandLinuxImage_prepared {ready : LinuxMachine}
    (prepared : prepareLinuxImage globals args m = .ok true ready) :
    ∃ more, (expandLinuxImage globals args m).state.copies = more ++ ready.copies := by
  have place : placeLinuxImage globals args m = placeKernel globals args ready :=
    Prog.bind_ok prepared _
  have first : Recording (fun _ => True) (fun _ => True) (placeKernel globals args) :=
    (placeKernel_recording globals args).mono fun _ _ => trivial
  have before := (first ready).copies
  rw [← place] at before
  cases accepted : placeLinuxImage globals args m with
  | halt reason placed =>
      rw [accepted] at before
      rw [expandLinuxImage_halt accepted]
      exact before
  | ok placement? placed =>
      rw [accepted] at before
      cases placement? with
      | none =>
          rw [expandLinuxImage_none accepted]
          exact before
      | some placement =>
          have rest : Recording (fun _ => True) (fun _ => True)
              (loadParts args placement >>= finishLinuxImage globals args placement) :=
            (loadParts_recording placement).bind fun header =>
              finishLinuxImage_recording globals args placement header
          obtain ⟨placing, copied⟩ := before
          obtain ⟨loading, later⟩ := (rest placed).copies
          have copied : placed.copies = placing ++ ready.copies := copied
          rw [expandLinuxImage_accepted accepted]
          exact ⟨loading ++ placing, by rw [later, copied, List.append_assoc]⟩

/-- A run that is rejected before the kernel is placed, or gets stuck. -/
theorem expandLinuxImage_rejected
    (rejected : ∀ ready, prepareLinuxImage globals args m ≠ .ok true ready) :
    (expandLinuxImage globals args m).state = (prepareLinuxImage globals args m).state := by
  cases prepared : prepareLinuxImage globals args m with
  | halt reason ready =>
      rw [expandLinuxImage_halt (by rw [placeLinuxImage, Prog.bind_halt prepared])]
      rfl
  | ok value ready =>
      cases value with
      | true => exact absurd prepared (rejected ready)
      | false =>
          have place : placeLinuxImage globals args m = .ok none ready := Prog.bind_ok prepared _
          rw [expandLinuxImage_none place]
          rfl

/-- The image is not looked at again when its parts have been copied. -/
theorem expandLinuxImage_reads
    (accepted : placeLinuxImage globals args m = .ok (some placement) placed) :
    (expandLinuxImage globals args m).state.reads =
      (partsLoaded args placement placed).reads := by
  obtain ⟨header, run⟩ := expandLinuxImage_loaded accepted
  have steps : Recording (fun _ => False) (fun _ => True)
      (finishLinuxImage globals args placement header) :=
    finishLinuxImage_recording globals args placement header
  obtain ⟨more, reads, none⟩ := (steps (partsLoaded args placement placed)).reads
  rw [run, reads, List.eq_nil_iff_forall_not_mem.mpr none, List.nil_append]

theorem expandLinuxImage_copies
    (accepted : placeLinuxImage globals args m = .ok (some placement) placed) :
    ∃ more, (expandLinuxImage globals args m).state.copies =
      more ++ (partsLoaded args placement placed).copies := by
  obtain ⟨header, run⟩ := expandLinuxImage_loaded accepted
  have steps : Recording (fun _ => False) (fun _ => True)
      (finishLinuxImage globals args placement header) :=
    finishLinuxImage_recording globals args placement header
  rw [run]
  exact (steps (partsLoaded args placement placed)).copies

end Loading

end Sable
