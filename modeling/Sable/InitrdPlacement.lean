import Sable.AlignedBlocks
import Sable.HeapInitialisation
import Sable.KernelPartition

/-!
# The place of the initrd

The initrd is put as high as the chosen region of RAM allows, then moved below
`initrd_addr_max`, then below the kernel image.  Only the last of these steps looks at the
region again.
-/

namespace Sable

open ByteMemory BigEndian HaltingProgram

section Regions

variable {ram : SizedRam} {linuxImage linuxSize initrdAddrMax initrdSize base : UInt32}

theorem toNat_and_pageMask (addr : UInt32) :
    (addr &&& pageMask).toNat = addr.toNat / 4096 * 4096 := by
  have mask := AlignedBlock.and_mask (e := 12) (by decide) addr.toNat_lt
  rw [UInt32.toNat_and]
  exact mask

theorem memLimit_le (mem : UInt64) : memLimit mem ≤ fourGigabytes := by
  rw [memLimit]
  by_cases large : mem > fourGigabytes ∨ mem = 0
  · rw [if_pos large]
    exact UInt64.le_refl _
  · rw [if_neg large]
    exact UInt64.not_lt.mp fun order => large (.inl order)

/-- The regions that do not end by the limit are never chosen. -/
theorem highestSizedRamLoop_limit {size limit : UInt64} (entries : List MemoryMap)
    {lastFit : SizedRam} (fits : lastFit.base + lastFit.size ≤ limit) :
    (highestSizedRamLoop size limit entries lastFit).base +
      (highestSizedRamLoop size limit entries lastFit).size ≤ limit := by
  induction entries generalizing lastFit with
  | nil => exact fits
  | cons entry rest ih =>
      rw [highestSizedRamLoop]
      by_cases kind : entry.type = e820Ram
      · rw [if_pos kind]
        by_cases high : entry.baseAddr + entry.length > limit
        · rw [if_pos high]
          exact fits
        · rw [if_neg high]
          by_cases large : size ≤ entry.length
          · rw [if_pos large]
            exact ih (UInt64.not_lt.mp high)
          · rw [if_neg large]
            exact ih fits
      · rw [if_neg kind]
        exact ih fits

/-- The sum of the base and the size may wrap around. -/
theorem getHighestSizedRam_limit (table : E820Table) (size mem : UInt64) :
    ((getHighestSizedRam table size (memLimit mem)).base.toNat +
      (getHighestSizedRam table size (memLimit mem)).size.toNat) % 2 ^ 64 ≤ 2 ^ 32 := by
  have fits := @highestSizedRamLoop_limit size (memLimit mem) table.entries ⟨0, 0⟩ UInt64.zero_le
  have bounded := UInt64.le_iff_toNat_le.mp (UInt64.le_trans fits (memLimit_le mem))
  rw [UInt64.toNat_add] at bounded
  exact bounded

/-- The last address from which the initrd ends by the end of the region. -/
def lastStart (ram : SizedRam) (initrdSize : UInt32) : Nat :=
  (ram.base.toNat + ram.size.toNat - initrdSize.toNat) % 2 ^ 32

/-- The highest page from which the initrd ends by the end of the region and by
`initrd_addr_max`. -/
def highestPlace (ram : SizedRam) (initrdAddrMax initrdSize : UInt32) : Nat :=
  min (lastStart ram initrdSize) (initrdAddrMax.toNat - initrdSize.toNat) / 4096 * 4096

/-- The place at the end of the region. -/
structure InRam (ram : SizedRam) (initrdSize base : UInt32) : Prop where
  place : base.toNat = lastStart ram initrdSize / 4096 * 4096
  above : ram.base.toNat ≤ lastStart ram initrdSize
  inside : lastStart ram initrdSize + initrdSize.toNat ≤ ram.base.toNat + ram.size.toNat
  last : lastStart ram initrdSize + initrdSize.toNat = ram.base.toNat + ram.size.toNat ∨
    2 ^ 32 ≤ lastStart ram initrdSize + initrdSize.toNat

theorem initrdInRam_ok (filled : 0 < initrdSize.toNat)
    (limit : (ram.base.toNat + ram.size.toNat) % 2 ^ 64 ≤ 2 ^ 32)
    (found : initrdInRam ram initrdSize = some base) : InRam ram initrdSize base := by
  rw [initrdInRam, Option.ite_none_left_eq_some, Option.ite_none_left_eq_some,
    Option.ite_none_left_eq_some, Option.ite_none_left_eq_some] at found
  obtain ⟨-, small, low, room, place⟩ := found
  have first := ram.base.toNat_lt
  have second := ram.size.toNat_lt
  have third := initrdSize.toNat_lt
  have fits : initrdSize.toNat ≤ ram.size.toNat := by
    have order := UInt64.le_iff_toNat_le.mp (UInt64.not_lt.mp small)
    rwa [UInt32.toNat_toUInt64] at order
  have start : ram.base.toNat ≤ 2 ^ 32 - 1 := UInt64.le_iff_toNat_le.mp (UInt64.not_lt.mp low)
  have bounded := plusOverflow_eq_false.mp (eq_false_of_ne_true room)
  rw [UInt64.toNat_toUInt32, UInt64.toNat_toUInt32, UInt64.toNat_sub, UInt32.toNat_toUInt64]
    at bounded
  have value : (ram.base + ram.size - initrdSize.toUInt64).toUInt32.toNat =
      lastStart ram initrdSize := by
    rw [lastStart, UInt64.toNat_toUInt32, UInt64.toNat_sub, UInt64.toNat_add,
      UInt32.toNat_toUInt64]
    omega
  refine ⟨?_, ?_, ?_, ?_⟩
  · rw [← Option.some.inj place, toNat_and_pageMask, value]
  all_goals
    rw [lastStart]
    omega

end Regions

section Places

variable {ram : SizedRam} {linuxImage linuxSize initrdAddrMax initrdSize base place : UInt32}

/-- What the place of an initrd should be like. -/
structure InitrdPlaced (ram : SizedRam)
    (linuxImage linuxSize initrdAddrMax initrdSize base : UInt32) : Prop where
  aligned : base.toNat % 4096 = 0
  inRam : ram.base.toNat ≤ base.toNat ∧
    base.toNat + initrdSize.toNat ≤ ram.base.toNat + ram.size.toNat
  below : base.toNat + initrdSize.toNat ≤ initrdAddrMax.toNat
  apart : base.toNat + initrdSize.toNat ≤ linuxImage.toNat ∨
    linuxImage.toNat + linuxSize.toNat ≤ base.toNat

/-- When it is like that: the initrd ends below four gigabytes at the end of the region, the
highest place is in the region, and there is room below an image that is in the way. -/
structure InitrdFits (ram : SizedRam) (linuxImage linuxSize initrdAddrMax initrdSize : UInt32) :
    Prop where
  ends : lastStart ram initrdSize / 4096 * 4096 + initrdSize.toNat < 2 ^ 32
  inRam : ram.base.toNat ≤ highestPlace ram initrdAddrMax initrdSize
  apart : if overlapsImage linuxImage linuxSize
      (UInt32.ofNat (highestPlace ram initrdAddrMax initrdSize)) initrdSize then
      initrdSize ≤ linuxImage
    else linuxImage.toNat + linuxSize.toNat < 2 ^ 32 ∨
      highestPlace ram initrdAddrMax initrdSize + initrdSize.toNat ≤ linuxImage.toNat

theorem overlapsImage_iff : overlapsImage linuxImage linuxSize base initrdSize = true ↔
    base.toNat < (linuxImage.toNat + linuxSize.toNat) % 2 ^ 32 ∧
      linuxImage.toNat < (base.toNat + initrdSize.toNat) % 2 ^ 32 := by
  rw [overlapsImage, decide_eq_true_iff, UInt32.lt_iff_toNat_lt, UInt32.lt_iff_toNat_lt,
    UInt32.toNat_add, UInt32.toNat_add]

/-- Unless the initrd ends behind four gigabytes, it is at the highest place. -/
theorem initrdBelow_ok (inRam : InRam ram initrdSize base)
    (ends : lastStart ram initrdSize / 4096 * 4096 + initrdSize.toNat < 2 ^ 32)
    (moved : initrdBelow initrdAddrMax initrdSize base = some place) :
    place.toNat = highestPlace ram initrdAddrMax initrdSize ∧
      initrdSize.toNat ≤ initrdAddrMax.toNat := by
  have start := inRam.place
  have sum : (base + initrdSize).toNat = base.toNat + initrdSize.toNat := by
    rw [UInt32.toNat_add, start]
    omega
  rw [initrdBelow] at moved
  rw [highestPlace]
  by_cases behind : base + initrdSize > initrdAddrMax
  · have late := UInt32.lt_iff_toNat_lt.mp behind
    rw [if_pos behind, Option.ite_none_left_eq_some] at moved
    obtain ⟨large, moved⟩ := moved
    have order : initrdSize.toNat ≤ initrdAddrMax.toNat :=
      UInt32.le_iff_toNat_le.mp (UInt32.not_lt.mp large)
    rw [← Option.some.inj moved, toNat_and_pageMask,
      UInt32.toNat_sub_of_le _ _ (UInt32.le_iff_toNat_le.mpr order)]
    exact ⟨by omega, order⟩
  · have early := mt UInt32.lt_iff_toNat_lt.mpr behind
    rw [if_neg behind] at moved
    rw [← Option.some.inj moved]
    omega

/-- An initrd that ends behind four gigabytes is not moved below `initrd_addr_max`. -/
theorem initrdBelow_wrapped (inRam : InRam ram initrdSize base)
    (ends : 2 ^ 32 ≤ lastStart ram initrdSize / 4096 * 4096 + initrdSize.toNat)
    (moved : initrdBelow initrdAddrMax initrdSize base = some place) : place = base := by
  have start := inRam.place
  have first := base.toNat_lt
  have second := initrdSize.toNat_lt
  rw [initrdBelow] at moved
  by_cases behind : base + initrdSize > initrdAddrMax
  · have late := UInt32.lt_iff_toNat_lt.mp behind
    rw [UInt32.toNat_add] at late
    have small : initrdAddrMax < initrdSize := UInt32.lt_iff_toNat_lt.mpr (by omega)
    rw [if_pos behind, if_pos small] at moved
    cases moved
  · rw [if_neg behind] at moved
    exact (Option.some.inj moved).symm

/-- An initrd that is moved below the image. -/
theorem initrdBeside_moved (overlaps : overlapsImage linuxImage linuxSize place initrdSize = true)
    (moved : initrdBeside ram linuxImage linuxSize initrdSize place = some base) :
    ram.base.toNat ≤ base.toNat ∧
      base.toNat = (2 ^ 32 - initrdSize.toNat + linuxImage.toNat) % 2 ^ 32 / 4096 * 4096 := by
  rw [initrdBeside, if_pos overlaps, Option.ite_none_left_eq_some, UInt64.lt_iff_toNat_lt,
    UInt32.toNat_toUInt64] at moved
  obtain ⟨above, moved⟩ := moved
  obtain rfl := Option.some.inj moved
  refine ⟨Nat.le_of_not_lt above, ?_⟩
  rw [toNat_and_pageMask, UInt32.toNat_sub]

theorem initrdBeside_kept
    (apart : ¬ overlapsImage linuxImage linuxSize place initrdSize = true)
    (moved : initrdBeside ram linuxImage linuxSize initrdSize place = some base) :
    base = place := by
  rw [initrdBeside, if_neg apart] at moved
  exact (Option.some.inj moved).symm

variable {start : UInt32}

/-- An initrd that ends behind four gigabytes is never where it should be. -/
theorem not_initrdPlaced_wrapped (inRam : InRam ram initrdSize start)
    (wrapped : 2 ^ 32 ≤ lastStart ram initrdSize / 4096 * 4096 + initrdSize.toNat)
    (beside : initrdBeside ram linuxImage linuxSize initrdSize start = some base) :
    ¬ InitrdPlaced ram linuxImage linuxSize initrdAddrMax initrdSize base := by
  intro placed
  have ends := placed.below
  have max := initrdAddrMax.toNat_lt
  have place := inRam.place
  by_cases overlaps : overlapsImage linuxImage linuxSize start initrdSize = true
  · obtain ⟨-, moved⟩ := initrdBeside_moved overlaps beside
    obtain ⟨behind, before⟩ := overlapsImage_iff.mp overlaps
    have size := initrdSize.toNat_lt
    have apart := placed.apart
    omega
  · rw [initrdBeside_kept overlaps beside] at ends
    omega

theorem initrdPlaced_iff (inRam : InRam ram initrdSize start) (filled : 0 < initrdSize.toNat)
    (moved : (initrdBelow initrdAddrMax initrdSize start >>=
      initrdBeside ram linuxImage linuxSize initrdSize) = some base) :
    InitrdPlaced ram linuxImage linuxSize initrdAddrMax initrdSize base ↔
      InitrdFits ram linuxImage linuxSize initrdAddrMax initrdSize := by
  obtain ⟨place, below, beside⟩ := Option.bind_eq_some_iff.mp moved
  by_cases wrapped : 2 ^ 32 ≤ lastStart ram initrdSize / 4096 * 4096 + initrdSize.toNat
  · rw [initrdBelow_wrapped inRam wrapped below] at beside
    exact iff_of_false (not_initrdPlaced_wrapped inRam wrapped beside)
      fun fits => absurd fits.ends (Nat.not_lt.mpr wrapped)
  have ends := Nat.lt_of_not_le wrapped
  obtain ⟨highest, small⟩ := initrdBelow_ok inRam ends below
  have same : UInt32.ofNat (highestPlace ram initrdAddrMax initrdSize) = place := by
    rw [← highest, UInt32.ofNat_toNat]
  have inside := inRam.inside
  have last := inRam.last
  have max := initrdAddrMax.toNat_lt
  have image := linuxImage.toNat_lt
  have value := highest
  rw [highestPlace] at value
  by_cases overlaps : overlapsImage linuxImage linuxSize place initrdSize = true
  · obtain ⟨above, moved⟩ := initrdBeside_moved overlaps beside
    obtain ⟨behind, before⟩ := overlapsImage_iff.mp overlaps
    have room : InitrdFits ram linuxImage linuxSize initrdAddrMax initrdSize ↔
        ram.base.toNat ≤ place.toNat ∧ initrdSize.toNat ≤ linuxImage.toNat := by
      constructor
      · intro fits
        have apart := fits.apart
        rw [same, if_pos overlaps] at apart
        exact ⟨highest ▸ fits.inRam, UInt32.le_iff_toNat_le.mp apart⟩
      · rintro ⟨inRam, apart⟩
        refine ⟨ends, highest ▸ inRam, ?_⟩
        rw [same, if_pos overlaps]
        exact UInt32.le_iff_toNat_le.mpr apart
    rw [room]
    constructor
    · intro placed
      have apart := placed.apart
      have below := placed.below
      have region := placed.inRam
      omega
    · rintro ⟨-, apart⟩
      exact ⟨by omega, by omega, by omega, by omega⟩
  · obtain rfl := initrdBeside_kept overlaps beside
    have room : InitrdFits ram linuxImage linuxSize initrdAddrMax initrdSize ↔
        ram.base.toNat ≤ base.toNat ∧ (linuxImage.toNat + linuxSize.toNat < 2 ^ 32 ∨
          base.toNat + initrdSize.toNat ≤ linuxImage.toNat) := by
      constructor
      · intro fits
        have apart := fits.apart
        rw [same, if_neg overlaps, ← highest] at apart
        exact ⟨highest ▸ fits.inRam, apart⟩
      · rintro ⟨inRam, apart⟩
        refine ⟨ends, highest ▸ inRam, ?_⟩
        rw [same, if_neg overlaps, ← highest]
        exact apart
    have separate := mt overlapsImage_iff.mpr overlaps
    rw [room]
    constructor
    · intro placed
      have apart := placed.apart
      exact ⟨placed.inRam.1, by omega⟩
    · rintro ⟨region, apart⟩
      exact ⟨by omega, ⟨region, by omega⟩, by omega, by omega⟩

end Places

section Fields

variable {mem : Mem} {base : UInt32}

theorem distance_offsets {i j : UInt32} (order : i ≤ j) :
    distance (base + i) (base + j) = j.toNat - i.toNat := by
  have first := base.toNat_lt
  have second := i.toNat_lt
  have third := j.toNat_lt
  have small := UInt32.le_iff_toNat_le.mp order
  rw [distance, UInt32.toNat_add, UInt32.toNat_add]
  omega

theorem word32_storeFrom_outside {addr ptr : UInt32} {len : Nat} {bytes : Nat → UInt8}
    (outside : len ≤ distance addr ptr) (room : distance addr ptr + 4 ≤ 2 ^ 32) :
    word32 (storeFrom mem addr len bytes) ptr 0 = word32 mem ptr 0 := by
  apply load32_congr
  intro a lower upper
  obtain ⟨i, rfl⟩ := Nat.exists_eq_add_of_le lower
  exact flat_storeFrom_outside (by omega) (by omega)

/-- The program copies nothing and leaves a field of the header alone. -/
abbrev Patches {α : Type} (hdr offset : UInt32) (program : Prog Halt LinuxMachine α) : Prop :=
  Prog.Preserves (fun m => (word32 m.mem (hdr + offset) 0, m.copies)) program

variable {hdr offset : UInt32}

/-- A field in front of it is stored. -/
theorem linuxStore_patches {i : UInt32} {bytes : List UInt8}
    (before : i.toNat + bytes.length ≤ offset.toNat) (small : offset.toNat + 4 ≤ 2 ^ 32) :
    Patches hdr offset (linuxStore (hdr + i) bytes) := by
  have order : i ≤ offset := UInt32.le_iff_toNat_le.mpr (by omega)
  have apart := @distance_offsets hdr i offset order
  apply Prog.Steps.modify
  intro m
  dsimp only
  rw [word32_storeFrom_outside (by omega) (by omega)]

theorem patches_of_same {α : Type} {program : Prog Halt LinuxMachine α}
    (same : ∀ m, (program m).state.mem = m.mem ∧ (program m).state.copies = m.copies) :
    Patches hdr offset program := by
  intro m
  obtain ⟨mem, copies⟩ := same m
  exact Prod.ext (congrArg (fun mem => word32 mem (hdr + offset) 0) mem) copies

theorem linuxParseCmdline_same (globals : LinuxGlobals) (m : LinuxMachine) :
    (linuxParseCmdline globals m).state = m := by
  rw [linuxParseCmdline, Prog.bind_get]
  by_cases absent : getCmdline m.mem globals.mbi = 0
  · rw [if_pos absent]
    rfl
  · rw [if_neg absent]
    cases cstring m.mem (getCmdline m.mem globals.mbi) with
    | none => rfl
    | some string => rfl

/-- No patch of the header touches `initrd_addr_max`. -/
theorem prepareHeader_patches (globals : LinuxGlobals) :
    Patches hdr 59 (prepareHeader globals hdr) := by
  have byte (addr : UInt32) : Patches hdr 59 (imageByte addr) := patches_of_same fun _ => ⟨rfl, rfl⟩
  have half (addr : UInt32) : Patches hdr 59 (imageHalf addr) := patches_of_same fun _ => ⟨rfl, rfl⟩
  have word (addr : UInt32) : Patches hdr 59 (imageWord addr) := patches_of_same fun _ => ⟨rfl, rfl⟩
  have ret (value : Option LinuxOptions) : Patches hdr 59 (pure value) :=
    patches_of_same fun _ => ⟨rfl, rfl⟩
  have first : Patches hdr 59 (linuxStore hdr [4]) := by
    have store := @linuxStore_patches hdr 59 0 [4] (by decide) (by decide)
    rwa [UInt32.add_zero] at store
  have sectors (setupSects : UInt8) : Patches hdr 59 (defaultSects hdr setupSects) :=
    .ite first (patches_of_same fun _ => ⟨rfl, rfl⟩)
  have options : Patches hdr 59 (linuxParseCmdline globals) :=
    patches_of_same fun m => by rw [linuxParseCmdline_same globals m]; exact ⟨rfl, rfl⟩
  refine (byte _).bind fun _ => (sectors _).bind fun _ => (byte _).bind fun _ => .ite (ret _) ?_
  refine options.bind fun _ => (linuxStore_patches (by simp [le16]) (by decide)).bind fun _ => ?_
  refine (word _).bind fun _ => .ite (ret _) ((half _).bind fun _ => .ite (ret _) ?_)
  refine (linuxStore_patches (by decide) (by decide)).bind fun _ => (byte _).bind fun _ => ?_
  exact (linuxStore_patches (by simp) (by decide)).bind fun _ =>
    (linuxStore_patches (by decide) (by decide)).bind fun _ => ret _

end Fields

section Runs

variable {globals : LinuxGlobals} {args : LinuxArgs} {m : LinuxMachine}

theorem imageWord_run (addr : UInt32) (m : LinuxMachine) :
    imageWord addr m = .ok (word32 m.mem addr 0) { m with reads := ⟨addr, 4⟩ :: m.reads } :=
  rfl

/-- The region that is chosen for the initrd. -/
def chosenRam (globals : LinuxGlobals) (args : LinuxArgs) (options : LinuxOptions) : SizedRam :=
  getHighestSizedRam globals.table args.initrdSize.toUInt64 (memLimit options.mem)

/-- The place that passes all checks. -/
def FindsPlace (ram : SizedRam) (args : LinuxArgs) (initrdAddrMax base : UInt32) : Prop :=
  ∃ start, initrdInRam ram args.initrdSize = some start ∧
    (initrdBelow initrdAddrMax args.initrdSize start >>=
      initrdBeside ram args.linuxImage args.linuxSize args.initrdSize) = some base

/-- The initrd is copied to the place that was found, or it is given up. -/
theorem placeInitrd_cases (options : LinuxOptions) (filled : args.initrdSize > 0) :
    (∃ base reached, FindsPlace (chosenRam globals args options) args
          (word32 m.mem (args.hdr + 59) 0) base ∧
        placeInitrd globals args options m = .ok (some base) reached ∧
        reached.copies = ⟨base, args.initrdImage, args.initrdSize⟩ :: m.copies) ∨
      ∃ reached, placeInitrd globals args options m = .ok none reached ∧
        reached.copies = m.copies := by
  have read := imageWord_run (args.hdr + 59) m
  have ram : getHighestSizedRam globals.table args.initrdSize.toUInt64 (memLimit options.mem) =
    chosenRam globals args options := rfl
  rw [placeInitrd, if_pos filled, ram]
  cases place : initrdInRam (chosenRam globals args options) args.initrdSize with
  | none => exact .inr ⟨m, rfl, rfl⟩
  | some start =>
      dsimp only
      rw [Prog.bind_ok read]
      cases moved : initrdBelow (word32 m.mem (args.hdr + 59) 0) args.initrdSize start >>=
          initrdBeside (chosenRam globals args options) args.linuxImage args.linuxSize
            args.initrdSize with
      | none => exact .inr ⟨_, rfl, rfl⟩
      | some base => exact .inl ⟨base, _, ⟨start, place, moved⟩, rfl, rfl⟩

/-- Before the kernel is placed, at most the initrd is copied. -/
theorem prepareLinuxImage_cases (filled : args.initrdSize > 0) :
    (∃ options checked base ready,
        prepareHeader globals args.hdr m = .ok (some options) checked ∧
        FindsPlace (chosenRam globals args options) args
          (word32 checked.mem (args.hdr + 59) 0) base ∧
        prepareLinuxImage globals args m = .ok true ready ∧
        ready.copies = ⟨base, args.initrdImage, args.initrdSize⟩ :: m.copies) ∨
      (∀ ready, prepareLinuxImage globals args m ≠ .ok true ready) ∧
        (prepareLinuxImage globals args m).state.copies = m.copies := by
  rw [prepareLinuxImage]
  by_cases valid : args.valid = true
  swap
  · rw [if_pos valid]
    exact .inr ⟨fun ready run => (by cases run), rfl⟩
  rw [if_neg (not_not_intro valid)]
  have patches := @prepareHeader_patches args.hdr globals m
  have copies := congrArg Prod.snd patches
  dsimp only at copies
  cases checks : prepareHeader globals args.hdr m with
  | halt reason checked =>
      rw [checks] at copies
      rw [Prog.bind_halt checks]
      exact .inr ⟨fun ready run => (by cases run), copies⟩
  | ok options? checked =>
      rw [checks] at copies
      rw [Prog.bind_ok checks]
      cases options? with
      | none => exact .inr ⟨fun ready run => (by cases run), copies⟩
      | some options =>
          rcases @placeInitrd_cases globals args checked options filled with
            ⟨base, reached, finds, run, copied⟩ | ⟨reached, run, kept⟩
          · dsimp only
            rw [Prog.bind_ok run]
            refine .inl ⟨options, checked, base, _, rfl, finds, rfl, ?_⟩
            rw [← show checked.copies = m.copies from copies]
            exact copied
          · dsimp only
            rw [Prog.bind_ok run]
            exact .inr ⟨fun ready run => (by cases run), kept.trans copies⟩

/-- In every run that copies the initrd, it is where it should be exactly if it fits. -/
theorem expandLinuxImage_initrd_iff {mem : Mem} {copy : Copy} (filled : args.initrdSize > 0)
    (copied : (expandLinuxImage globals args (.start mem)).state.copies.getLast? = some copy) :
    ∃ options checked,
      prepareHeader globals args.hdr (.start mem) = .ok (some options) checked ∧
      copy.src = args.initrdImage ∧ copy.len = args.initrdSize ∧
      (InitrdPlaced (chosenRam globals args options) args.linuxImage args.linuxSize
          (word32 mem (args.hdr + 59) 0) args.initrdSize copy.dst ↔
        InitrdFits (chosenRam globals args options) args.linuxImage args.linuxSize
          (word32 mem (args.hdr + 59) 0) args.initrdSize) := by
  rcases @prepareLinuxImage_cases globals args (.start mem) filled with
    ⟨options, checked, base, ready, checks, ⟨start, inRam, moved⟩, run, first⟩ | ⟨rejected, none⟩
  · obtain ⟨more, copies⟩ := expandLinuxImage_prepared run
    rw [copies, first, show (LinuxMachine.start mem).copies = [] from rfl,
      List.getLast?_append_of_ne_nil _ (by simp), List.getLast?_singleton] at copied
    obtain rfl := Option.some.inj copied
    have patches := (@prepareHeader_patches args.hdr globals).eq_of_ok checks
    have max : word32 checked.mem (args.hdr + 59) 0 = word32 mem (args.hdr + 59) 0 :=
      congrArg Prod.fst patches
    have positive := UInt32.lt_iff_toNat_lt.mp filled
    rw [max] at moved
    refine ⟨options, checked, checks, rfl, rfl, initrdPlaced_iff ?_ positive moved⟩
    exact initrdInRam_ok positive (getHighestSizedRam_limit _ _ _) inRam
  · rw [expandLinuxImage_rejected rejected, none] at copied
    cases copied

theorem expandLinuxImage_initrd_iff_low :
    ∃ options checked,
      prepareHeader imageGlobals (imageArgs 0x4000 0x100000).hdr
          (.start (linuxMemory 4 1 0xFFFFFFFF 0x1000)) = .ok (some options) checked ∧
      (0x200000 : UInt32) = (imageArgs 0x4000 0x100000).initrdImage ∧
      (0x100000 : UInt32) = (imageArgs 0x4000 0x100000).initrdSize ∧
      (InitrdPlaced (chosenRam imageGlobals (imageArgs 0x4000 0x100000) options) 0x100000 0x4000
          (word32 (linuxMemory 4 1 0xFFFFFFFF 0x1000) ((imageArgs 0x4000 0x100000).hdr + 59) 0)
          0x100000 0x8FF00000 ↔
        InitrdFits (chosenRam imageGlobals (imageArgs 0x4000 0x100000) options) 0x100000 0x4000
          (word32 (linuxMemory 4 1 0xFFFFFFFF 0x1000) ((imageArgs 0x4000 0x100000).hdr + 59) 0)
          0x100000) :=
  expandLinuxImage_initrd_iff (by decide)
    (show (expandLinuxImage imageGlobals (imageArgs 0x4000 0x100000)
        (.start (linuxMemory 4 1 0xFFFFFFFF 0x1000))).state.copies.getLast? =
      some ⟨0x8FF00000, 0x200000, 0x100000⟩ by decide +kernel)

/-- With `initrd_addr_max` at two gigabytes, the initrd leaves the region above it that was
chosen. -/
theorem expandLinuxImage_initrd_outside :
    (expandLinuxImage imageGlobals (imageArgs 0x4000 0x100000)
        (.start (linuxMemory 4 1 0x7FFFFFFF 0x1000))).state.copies.getLast? =
      some ⟨0x7FEFF000, 0x200000, 0x100000⟩ ∧
    word32 (linuxMemory 4 1 0x7FFFFFFF 0x1000) ((imageArgs 0x4000 0x100000).hdr + 59) 0 =
      0x7FFFFFFF ∧
    chosenRam imageGlobals (imageArgs 0x4000 0x100000) ⟨0, 0⟩ = ⟨0x80100000, 0x0FF00000⟩ ∧
    ¬ InitrdPlaced ⟨0x80100000, 0x0FF00000⟩ 0x100000 0x4000 0x7FFFFFFF 0x100000 0x7FEFF000 :=
  ⟨by decide +kernel, by decide +kernel, by decide,
    fun placed => absurd placed.inRam.1 (by decide)⟩

end Runs

end Sable
