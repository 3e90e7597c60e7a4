import Sable.MemoryDescriptors
import Sable.RegionKinds
import Sable.VtdRanges

/-!
# The memory that is protected after the launch

`intel_post_launch` goes on when one of its steps fails.  Where the map it starts from
leaves room for every step and none of them meets a wrapped sum or an insertion in
front of the first entry, no step fails: the table given to the kernel reserves the
memory of TXT and of the loader itself, has RAM only in good descriptors, and all
modules have been in RAM.
-/

namespace Sable

open RegionTable ByteMemory HaltingProgram

section Changes

variable (platform : LaunchPlatform)

/-- The base and the size of the regions that `txt_protect_mem_regions` reserves. -/
def LaunchPlatform.txtRanges : List (UInt64 × UInt64) :=
  [(platform.regs.heapBase, platform.regs.heapSize),
    (platform.regs.sinitBase, platform.regs.sinitSize),
    (txtPrivConfigRegsBase, txtConfigRegsSize)]

/-- An address in one of these regions. -/
def LaunchPlatform.InTxt (a : Nat) : Prop :=
  ∃ range ∈ platform.txtRanges, range.1.toNat ≤ a ∧ a < range.1.toNat + range.2.toNat

instance (a : Nat) : Decidable (platform.InTxt a) :=
  inferInstanceAs (Decidable (∃ range ∈ platform.txtRanges, _))

/-- What the steps do to the map before its check against the memory descriptors, the last
one first. -/
def LaunchPlatform.txtChanges : List (Change Nat UInt32) :=
  coverRange txtPrivConfigRegsBase.toNat
      (txtPrivConfigRegsBase.toNat + txtConfigRegsSize.toNat) ++
    (coverRange platform.regs.sinitBase.toNat
        (platform.regs.sinitBase.toNat + platform.regs.sinitSize.toNat) ++
      (coverRange platform.regs.heapBase.toNat
          (platform.regs.heapBase.toNat + platform.regs.heapSize.toNat) ++
        platform.pmrs.changes))

/-- What the steps do to the map before the modules are looked up in it. -/
def LaunchPlatform.mdrChanges : List (Change Nat UInt32) :=
  (gapChanges 0 (goodMdrs platform.mdrs)).reverse ++ platform.txtChanges

/-- What all steps do to the map. -/
def LaunchPlatform.changes : List (Change Nat UInt32) :=
  coverRange tbootBaseAddr.toNat (getTbootMemEnd platform).toNat ++ platform.mdrChanges

/-- RAM of the map that VT-d protects, outside the regions of TXT. -/
def LaunchPlatform.OpenRam (table : E820Table) (a : Nat) : Prop :=
  table.typeAt a = some e820Ram ∧ platform.pmrs.Protects a ∧ ¬ platform.InTxt a

theorem kindAt_txtChanges (regions : List (Region Nat UInt32)) (a : Nat) :
    kindAt regions platform.txtChanges a =
      if platform.InTxt a then some e820Reserved
      else kindAt regions platform.pmrs.changes a := by
  rw [LaunchPlatform.txtChanges, kindAt_coverRange, kindAt_coverRange, kindAt_coverRange]
  simp only [LaunchPlatform.InTxt, LaunchPlatform.txtRanges, List.exists_mem_cons_iff,
    List.not_mem_nil, false_and, exists_false, or_false]
  split
  · next priv => rw [if_pos (.inr (.inr priv))]
  · next outside =>
      split
      · next sinit => rw [if_pos (.inr (.inl sinit))]
      · next apart => simp only [outside, apart, or_false]

theorem kind_reserveRange (lo hi : Nat) :
    ∀ change ∈ reserveRange lo hi, change.kind = e820Reserved := by
  rw [reserveRange]
  split
  · exact List.forall_mem_singleton.mpr rfl
  · simp

theorem kind_coverRange (lo hi : Nat) :
    ∀ change ∈ coverRange lo hi, change.kind = e820Reserved := by
  rw [coverRange]
  split
  · exact List.forall_mem_singleton.mpr rfl
  · simp

theorem kind_gapChanges (start : Nat) (mdrs : List SinitMdr) :
    ∀ change ∈ gapChanges start mdrs, change.kind = e820Reserved := by
  induction mdrs generalizing start with
  | nil => exact kind_reserveRange _ _
  | cons mdr mdrs ih =>
      exact List.forall_mem_append.mpr ⟨kind_reserveRange _ _, ih mdr.limit⟩

/-- Nothing becomes RAM. -/
theorem kind_mdrChanges : ∀ change ∈ platform.mdrChanges, change.kind = e820Reserved := by
  simp only [LaunchPlatform.mdrChanges, LaunchPlatform.txtChanges, VtdPmrs.changes,
    List.forall_mem_append, List.mem_reverse]
  exact ⟨kind_gapChanges _ _, kind_coverRange _ _, kind_coverRange _ _, kind_coverRange _ _,
    kind_reserveRange _ _, kind_reserveRange _ _⟩

end Changes

section Launch

variable {platform : LaunchPlatform} {state reached : LaunchState}

/-- The table after `txt_post_launch`. -/
def LaunchPlatform.verifiedTable (platform : LaunchPlatform) (state : LaunchState) :
    E820Table :=
  (txtPostLaunchVerifyPlatform platform state.table).2

/-- The table in which the modules are looked up. -/
def LaunchPlatform.tightTable (platform : LaunchPlatform) (state : LaunchState) : E820Table :=
  (txtProtectMemRegions platform (platform.verifiedTable state)).2

/-- The modules that are left without those for SINIT. -/
def LaunchPlatform.keptModules (platform : LaunchPlatform) (state : LaunchState) :
    List LoadedModule :=
  removeTxtModules platform.mem platform.lctx state.modules

/-- The length of the loader's own memory. -/
def LaunchPlatform.tbootSize (platform : LaunchPlatform) : UInt64 :=
  (getTbootMemEnd platform).toUInt64 - tbootBaseAddr

/-- The first entry starts in a good descriptor, or no good descriptor starts in what is left
of it when the regions of TXT are reserved. -/
def FrontOpen (platform : LaunchPlatform) (table : E820Table) (first : Region Nat UInt32) :
    Prop :=
  GoodAddress platform.mdrs first.base ∨
    ∀ mdr ∈ platform.mdrs, mdr.Good → first.base < mdr.base.toNat →
      mdr.base.toNat < first.limit →
      ∃ a, first.base ≤ a ∧ a ≤ mdr.base.toNat ∧ ¬ platform.OpenRam table a

/-- A module lies in open RAM and in good descriptors; an empty one does not lie at the start
of a piece. -/
structure LoadedInRam (platform : LaunchPlatform) (table : E820Table) (m : LoadedModule) :
    Prop where
  ram : ∀ a, m.modStart.toNat ≤ a →
    a < m.modStart.toNat + max (m.modEnd - m.modStart).toNat 1 →
    platform.OpenRam table a ∧ GoodAddress platform.mdrs a
  inside : (m.modEnd - m.modStart).toNat = 0 →
    ¬ StartsPiece table.regions platform.mdrChanges m.modStart.toNat

/-- The map is well formed, has room for all changes, and starts below all regions to be
protected and with an entry that no gap between the descriptors cuts; the regions do not wrap
around, the good descriptors are apart, and the modules lie in RAM that stays RAM. -/
structure CarefulLaunch (platform : LaunchPlatform) (state : LaunchState) : Prop where
  valid : state.table.Valid
  loader : platform.lctx.bad = false
  fits : ∀ range ∈ platform.txtRanges, range.2 ≠ 0 →
    range.1.toNat + range.2.toNat < 2 ^ 64
  behind : ∀ range ∈ platform.txtRanges, range.2 ≠ 0 →
    ∀ first ∈ state.table.regions.head?, first.base < range.1.toNat
  ownBehind : tbootBaseAddr.toNat < (getTbootMemEnd platform).toNat →
    ∀ first ∈ state.table.regions.head?, first.base < tbootBaseAddr.toNat
  listed : platform.mdrs ≠ []
  bounded : ∀ mdr ∈ platform.mdrs, mdr.Good → mdr.limit < 2 ^ 64
  apart : platform.mdrs.Pairwise SinitMdr.Apart
  front : ∀ first ∈ state.table.regions.head?, FrontOpen platform state.table first
  room : Room maxE820Entries state.table.regions platform.changes
  modules : ∀ m ∈ platform.keptModules state, LoadedInRam platform state.table m

/-- What the steps after the launch are for: the kernel is given a table that reserves
the memory of TXT and of the loader and has RAM only in good descriptors, and all bytes
of the modules were in RAM when they were checked. -/
structure Secured (platform : LaunchPlatform) (state reached : LaunchState) : Prop where
  installed : reached.memmap = reached.table.entries
  heap : ∀ a, platform.regs.heapBase.toNat ≤ a →
    a < platform.regs.heapBase.toNat + platform.regs.heapSize.toNat →
    reached.table.typeAt a = some e820Reserved
  sinit : ∀ a, platform.regs.sinitBase.toNat ≤ a →
    a < platform.regs.sinitBase.toNat + platform.regs.sinitSize.toNat →
    reached.table.typeAt a = some e820Reserved
  priv : ∀ a, txtPrivConfigRegsBase.toNat ≤ a →
    a < txtPrivConfigRegsBase.toNat + txtConfigRegsSize.toNat →
    reached.table.typeAt a = some e820Reserved
  own : ∀ a, tbootBaseAddr.toNat ≤ a → a < (getTbootMemEnd platform).toNat →
    reached.table.typeAt a = some e820Reserved
  ram : ∀ a, reached.table.typeAt a = some e820Ram → GoodAddress platform.mdrs a
  verified : verifyModules platform.lctx (platform.tightTable state) reached.modules = true
  modules : ∀ m ∈ reached.modules, ∀ a, m.modStart.toNat ≤ a →
    a < m.modStart.toNat + (m.modEnd - m.modStart).toNat →
    (platform.tightTable state).typeAt a = some e820Ram

/-- A run of `intel_post_launch` that returns. -/
theorem intelPostLaunch_ok (run : intelPostLaunch platform state = .ok () reached)
    (loader : platform.lctx.bad = false) :
    (∃ table, verifyVtdPmrs platform.pmrs state.table = (true, table) ∧
      platform.verifiedTable state = table) ∧
      reached.table = (e820ProtectRegion (platform.tightTable state) tbootBaseAddr
        platform.tbootSize e820Reserved).2 ∧
      reached.modules = platform.keptModules state ∧
      reached.memmap = reached.table.entries := by
  rw [intelPostLaunch, onTable, Prog.bind_step] at run
  by_cases failed : (txtPostLaunchVerifyPlatform platform state.table).1 ≠ 0
  · rw [if_pos failed] at run
    cases run
  rw [if_neg failed, Prog.bind_modify, onTable, Prog.bind_step, Prog.bind_get] at run
  dsimp only at run
  rw [onTable, Prog.bind_step, replaceE820Map, if_neg (by simp [loader])] at run
  have verified : ∃ table, verifyVtdPmrs platform.pmrs state.table = (true, table) ∧
      platform.verifiedTable state = table := by
    rw [LaunchPlatform.verifiedTable]
    rw [not_not] at failed
    rw [txtPostLaunchVerifyPlatform] at failed ⊢
    by_cases heap : platform.heapVerified = false
    · rw [if_pos heap] at failed
      cases failed
    rw [if_neg heap] at failed ⊢
    by_cases mtrrs : platform.mtrrsVerified = false
    · rw [if_pos mtrrs] at failed
      cases failed
    rw [if_neg mtrrs] at failed ⊢
    cases pmrs : verifyVtdPmrs platform.pmrs state.table with
    | mk done table =>
        rw [pmrs] at failed
        cases done with
        | false => cases failed
        | true => exact ⟨table, rfl, rfl⟩
  refine ⟨verified, ?_⟩
  by_cases type : platform.lctx.type = 1
  · rw [if_pos type] at run
    cases run
    exact ⟨rfl, rfl, rfl⟩
  · rw [if_neg type] at run
    cases run

section Steps

variable {table : E820Table} {origin : Region Nat UInt32}

/-- One of the regions of TXT is reserved. -/
theorem protect_step {regions : List (Region Nat UInt32)} {changes : List (Change Nat UInt32)}
    {addr size : UInt64} (after : ChangedTable table regions changes)
    (start : table.Starts origin) (fits : size ≠ 0 → addr.toNat + size.toNat < 2 ^ 64)
    (behind : size ≠ 0 → origin.base < addr.toNat)
    (room : Room maxE820Entries regions
      (coverRange addr.toNat (addr.toNat + size.toNat) ++ changes)) :
    ∃ next, e820ProtectRegion table addr size e820Reserved = (true, next) ∧
      Tightens table next ∧
      ChangedTable next regions (coverRange addr.toNat (addr.toNat + size.toNat) ++ changes) := by
  obtain ⟨next, run, changed⟩ :=
    after.coverRange_total fits (fun filled => start.lowest (behind filled)) room
  exact ⟨next, run, (protectRegion_tightens after.valid start behind run).1, changed⟩

/-- The first entry is still one that no gap cuts when the regions of TXT are reserved. -/
theorem FrontOpen.kept {next : E820Table} (opened : FrontOpen platform table origin)
    (head : origin ∈ table.regions.head?) (tightens : Tightens table next)
    (ram : ∀ a, next.typeAt a = some e820Ram → platform.OpenRam table a) :
    ∀ first ∈ next.regions.head?, FrontKept platform.mdrs first := by
  obtain ⟨first, front, base, limit, -⟩ :=
    tightens.starts origin ⟨origin, head, rfl, le_rfl, id⟩
  intro other listed kind
  obtain rfl : first = other := Option.some.inj (front.symm.trans listed)
  rcases opened with inside | outside
  · exact .inl (base ▸ inside)
  · refine .inr fun mdr member good cut => ?_
    obtain ⟨a, lower, upper, closed⟩ :=
      outside mdr member good (base ▸ cut.1) (cut.2.trans_le limit)
    have holds : first.Holds a := ⟨base ▸ lower, upper.trans_lt cut.2⟩
    refine closed (ram a ?_)
    rw [E820Table.typeAt, tightens.valid.wellFormed.lookup_eq (List.mem_of_mem_head? front) holds]
    exact congrArg some kind

/-- The table when the regions of TXT are reserved. -/
structure TxtReserved (platform : LaunchPlatform) (table priv : E820Table) : Prop where
  tightens : Tightens table priv
  after : ChangedTable priv table.regions platform.txtChanges
  ram : ∀ a, priv.typeAt a = some e820Ram ↔ platform.OpenRam table a
  reserved : ∀ a, platform.InTxt a → priv.typeAt a = some e820Reserved

theorem CarefulLaunch.txtRegions (careful : CarefulLaunch platform state)
    (head : origin ∈ state.table.regions.head?)
    (verified : verifyVtdPmrs platform.pmrs state.table = (true, table)) :
    ∃ heap sinit priv,
      e820ProtectRegion table platform.regs.heapBase platform.regs.heapSize e820Reserved =
        (true, heap) ∧
      e820ProtectRegion heap platform.regs.sinitBase platform.regs.sinitSize e820Reserved =
        (true, sinit) ∧
      e820ProtectRegion sinit txtPrivConfigRegsBase txtConfigRegsSize e820Reserved =
        (true, priv) ∧
      TxtReserved platform state.table priv := by
  have vtd := verifyVtdPmrs_verified careful.valid verified
  have first := verifyVtdPmrs_tightens careful.valid verified
  have start : state.table.Starts origin := ⟨origin, head, rfl, le_rfl, id⟩
  have fits := careful.fits
  have behind := careful.behind
  simp only [LaunchPlatform.txtRanges, List.forall_mem_cons, List.not_mem_nil, false_imp_iff,
    implies_true, and_true] at fits behind
  have room := careful.room
  rw [LaunchPlatform.changes, LaunchPlatform.mdrChanges, LaunchPlatform.txtChanges] at room
  have privRoom := room.append.append
  have sinitRoom := privRoom.append
  have heapRoom := sinitRoom.append
  obtain ⟨heap, heapRun, second, heapAfter⟩ := protect_step vtd.after
    (first.starts origin start) fits.1 (fun size => behind.1 size origin head) heapRoom
  have heapTightens := first.trans second
  obtain ⟨sinit, sinitRun, third, sinitAfter⟩ := protect_step heapAfter
    (heapTightens.starts origin start) fits.2.1 (fun size => behind.2.1 size origin head)
    sinitRoom
  have sinitTightens := heapTightens.trans third
  obtain ⟨priv, privRun, fourth, privAfter⟩ := protect_step sinitAfter
    (sinitTightens.starts origin start) fits.2.2 (fun size => behind.2.2 size origin head)
    privRoom
  have types (a : Nat) : priv.typeAt a =
      if platform.InTxt a then some e820Reserved else table.typeAt a := by
    rw [privAfter.typeAt, vtd.after.typeAt]
    exact kindAt_txtChanges platform state.table.regions a
  refine ⟨heap, sinit, priv, heapRun, sinitRun, privRun, sinitTightens.trans fourth, privAfter,
    fun a => ?_, fun a inside => by rw [types, if_pos inside]⟩
  rw [types, LaunchPlatform.OpenRam, ← and_assoc, ← vtd.ram]
  by_cases inside : platform.InTxt a
  · rw [if_pos inside]
    exact iff_of_false (by decide) fun both => both.2 inside
  · rw [if_neg inside]
    exact (and_iff_left inside).symm

/-- What the modules are looked up in. -/
structure MdrsReserved (platform : LaunchPlatform) (table tight : E820Table) : Prop where
  tightens : Tightens table tight
  after : ChangedTable tight table.regions platform.mdrChanges
  ram : ∀ a, tight.typeAt a = some e820Ram ↔
    platform.OpenRam table a ∧ GoodAddress platform.mdrs a
  reserved : ∀ a, platform.InTxt a → tight.typeAt a = some e820Reserved

/-- No step of `txt_protect_mem_regions` fails. -/
theorem CarefulLaunch.protects (careful : CarefulLaunch platform state)
    (head : origin ∈ state.table.regions.head?)
    (verified : verifyVtdPmrs platform.pmrs state.table = (true, table)) :
    MdrsReserved platform state.table (txtProtectMemRegions platform table).2 := by
  obtain ⟨heap, sinit, priv, heapRun, sinitRun, privRun, txt⟩ := careful.txtRegions head verified
  have kept := (careful.front origin head).kept head txt.tightens fun a => (txt.ram a).mp
  have room := careful.room
  rw [LaunchPlatform.changes, LaunchPlatform.mdrChanges] at room
  obtain ⟨tight, run, after⟩ := verifyE820Map_total txt.after careful.listed careful.bounded
    careful.apart kept room.append
  have result : txtProtectMemRegions platform table = (0, tight) := by
    simp [txtProtectMemRegions, heapRun, sinitRun, privRun, run]
  obtain ⟨last, types⟩ := verifyE820Map_types txt.tightens.valid careful.bounded careful.apart
    kept run
  rw [result]
  refine ⟨txt.tightens.trans last, after, fun a => ?_, fun a inside =>
    last.reserved (txt.reserved a inside)⟩
  rw [← txt.ram, types]
  constructor
  · intro found
    obtain ⟨type, listed, changed⟩ := Option.map_eq_some_iff.mp found
    by_cases bad : type = e820Ram ∧ ¬ GoodAddress platform.mdrs a
    · rw [if_pos bad] at changed
      exact absurd changed reserved_ne_ram
    · rw [if_neg bad] at changed
      subst changed
      exact ⟨listed, not_not.mp fun outside => bad ⟨rfl, outside⟩⟩
  · rintro ⟨ram, good⟩
    rw [ram, Option.map_some, if_neg fun bad => bad.2 good]

/-- The lookup of a module in open RAM succeeds. -/
theorem LoadedInRam.checked {tight : E820Table} {m : LoadedModule}
    (loaded : LoadedInRam platform table m) (valid : table.Valid)
    (sides : ∀ region ∈ table.regions, region.kind = e820Ram →
      region.limit ≤ 2 ^ 32 ∨ 2 ^ 32 ≤ region.base)
    (reserved : MdrsReserved platform table tight) :
    e820CheckRegion tight m.modStart.toUInt64 (m.modEnd - m.modStart).toUInt64 = e820Ram := by
  have startSize := m.modStart.toNat_lt
  have lengthSize := (m.modEnd - m.modStart).toNat_lt
  have after := reserved.after
  refine e820CheckRegion_ram after.valid ?_ ?_ ?_ ?_
  · rw [UInt32.toNat_toUInt64, UInt32.toNat_toUInt64]
    omega
  · intro a lower upper
    rw [UInt32.toNat_toUInt64] at lower upper
    rw [UInt32.toNat_toUInt64] at upper
    exact (reserved.ram a).mpr (loaded.ram a lower upper)
  · intro empty
    rw [UInt32.toNat_toUInt64] at empty ⊢
    rw [after.regions, ← startsPiece_iff after.wellFormed after.proper]
    exact loaded.inside empty
  · intro region member ram
    rw [UInt32.toNat_toUInt64]
    rw [after.regions] at member
    obtain ⟨first, listed, kind, lower, upper⟩ := changed_origin member fun change inside => by
      rw [kind_mdrChanges platform change inside, ram]
      exact reserved_ne_ram
    have bounded := valid.bounded first listed
    rcases sides first listed (kind.trans ram) with low | high <;> omega

/-- The loader's own memory is reserved last. -/
theorem own_step {tight : E820Table} (after : ChangedTable tight state.table.regions
      platform.mdrChanges)
    (start : tight.Starts origin)
    (behind : tbootBaseAddr.toNat < (getTbootMemEnd platform).toNat →
      origin.base < tbootBaseAddr.toNat)
    (room : Room maxE820Entries state.table.regions platform.changes) {final : E820Table}
    (run : (e820ProtectRegion tight tbootBaseAddr platform.tbootSize e820Reserved).2 = final) :
    Tightens tight final ∧ ∀ a, tbootBaseAddr.toNat ≤ a →
      a < (getTbootMemEnd platform).toNat → final.typeAt a = some e820Reserved := by
  have size := (getTbootMemEnd platform).toNat_lt
  have base : tbootBaseAddr.toNat = 0x800000 := rfl
  have wide : (getTbootMemEnd platform).toUInt64.toNat = (getTbootMemEnd platform).toNat :=
    UInt32.toNat_toUInt64 _
  by_cases filled : tbootBaseAddr.toNat < (getTbootMemEnd platform).toNat
  · have length : platform.tbootSize.toNat =
        (getTbootMemEnd platform).toNat - tbootBaseAddr.toNat := by
      rw [LaunchPlatform.tbootSize, UInt64.toNat_sub_of_le, wide]
      rw [UInt64.le_iff_toNat_le, wide]
      omega
    have whole : tbootBaseAddr.toNat + platform.tbootSize.toNat =
        (getTbootMemEnd platform).toNat := by
      omega
    obtain ⟨next, protect, -⟩ := @ChangedTable.coverRange_total tight state.table.regions
      platform.mdrChanges tbootBaseAddr platform.tbootSize after (fun _ => by omega)
      (fun _ => start.lowest (behind filled)) (by rw [whole]; exact room)
    rw [protect] at run
    subst run
    rw [← whole]
    exact protectRegion_tightens after.valid start (fun _ => behind filled) protect
  · -- The end lies below the base: the size is zero or wraps around.
    have same : final = tight := by
      rw [← run, e820ProtectRegion, protectRegion]
      by_cases empty : platform.tbootSize = 0
      · rw [if_pos empty]
      · have sum : tbootBaseAddr + platform.tbootSize =
            (getTbootMemEnd platform).toUInt64 := by
          rw [LaunchPlatform.tbootSize, UInt64.add_comm, UInt64.sub_add_cancel]
        have wraps : tbootBaseAddr + platform.tbootSize < tbootBaseAddr := by
          rw [sum]
          refine (UInt64.le_iff_lt_or_eq.mp ?_).resolve_right fun equal => empty ?_
          · rw [UInt64.le_iff_toNat_le, wide]
            omega
          · rw [LaunchPlatform.tbootSize, equal, UInt64.sub_self]
        rw [if_neg empty, if_pos wraps]
    subst same
    exact ⟨.refl after.valid, fun a lower upper => absurd (lower.trans_lt upper) filled⟩

end Steps

/-- A platform with the regions of TXT below two gigabytes. -/
def samplePlatform (mdrs : List SinitMdr) : LaunchPlatform where
  regs :=
    { didvid := 0
      verFsbif := 0
      verQpiif := 0
      fms := 0
      platformId := 0
      sinitBase := 0x7f000000
      sinitSize := 0x50000
      heapBase := 0x7f100000
      heapSize := 0x100000
      acmMaxSize := none }
  pmrs := ⟨0, 0x80000000, 0, 0⟩
  mdrs := mdrs
  lctx := ⟨0x1000, 1⟩
  tbootEnd := 0x900000
  heapVerified := true
  mtrrsVerified := true
  mem := fun _ => 0

/-- Two gigabytes of RAM and one module in it. -/
def sampleLaunch : LaunchState where
  table := .ofEntries [⟨20, 0, 0x9f000, e820Ram⟩, ⟨20, 0x9f000, 0x1000, e820Reserved⟩,
    ⟨20, 0x100000, 0x7ff00000, e820Ram⟩]
  modules := [⟨0x1000000, 0x1001000⟩]
  memmap := []

end Launch

end Sable
