import Sable.Mtrrs
import Sable.AlignedBlocks

/-!
# The range that gets a memory type

`set_mem_type` maps blocks of the range one after the other, each with its own pair
of registers.  The blocks are aligned, so that the pages that the registers match
are the pages of the range.
-/

namespace Sable

open AlignedBlock

section Fields

namespace VarMtrr

theorem shiftRight_field (low : UInt64) (field : UInt32) :
    (low &&& (0xfff : UInt64) ||| field.toUInt64 <<< 12) >>> 12 = field.toUInt64 := by
  have bound := field.toNat_lt
  have small : field.toNat <<< 12 < 2 ^ 64 := by
    rw [Nat.shiftLeft_eq]
    omega
  apply UInt64.toNat_inj.mp
  rw [UInt64.toNat_shiftRight, UInt64.toNat_or, UInt64.toNat_and, UInt64.toNat_shiftLeft,
    UInt32.toNat_toUInt64]
  change (low.toNat &&& (2 ^ 12 - 1) ||| field.toNat <<< 12 % 2 ^ 64) >>> 12 = field.toNat
  rw [Nat.mod_eq_of_lt small]
  apply Nat.eq_of_testBit_eq
  intro i
  rw [Nat.testBit_shiftRight, Nat.testBit_or, Nat.testBit_and, Nat.testBit_two_pow_sub_one,
    Nat.testBit_shiftLeft]
  simp

theorem toNat_bit_eleven (word : UInt64) :
    (word >>> 11 &&& 1).toNat = (word.toNat.testBit 11).toNat := by
  rw [UInt64.toNat_and, UInt64.toNat_shiftRight]
  change word.toNat >>> 11 &&& 1 = _
  rw [Nat.testBit_eq_decide_div_mod_eq, Nat.and_one_is_mod, Nat.shiftRight_eq_div_pow]
  rcases Nat.mod_two_eq_zero_or_one (word.toNat / 2 ^ 11) with even | odd
  · rw [even]
    rfl
  · rw [odd]
    rfl

/-- The base register after its lowest byte has been set. -/
theorem toNat_setType (mtrr : VarMtrr) (type : UInt32) :
    (mtrr.setType type).physbase.toNat =
      mtrr.physbase.toNat / 2 ^ 8 * 2 ^ 8 + type.toUInt8.toNat := by
  have bound := type.toUInt8.toNat_lt
  rw [setType, UInt64.toNat_or, UInt64.toNat_and, UInt8.toNat_toUInt64]
  change mtrr.physbase.toNat &&& (2 ^ 64 - 2 ^ 8) ||| type.toUInt8.toNat = _
  rw [and_mask (by decide) mtrr.physbase.toNat_lt, Nat.mul_comm,
    ← Nat.two_pow_add_eq_or_of_lt bound]

@[simp]
theorem type_setType (mtrr : VarMtrr) (type : UInt32) :
    (mtrr.setType type).type = type.toUInt8 := by
  have bound := type.toUInt8.toNat_lt
  apply UInt8.toNat_inj.mp
  rw [VarMtrr.type, UInt64.toNat_toUInt8, toNat_setType]
  omega

@[simp]
theorem base_setType (mtrr : VarMtrr) (type : UInt32) :
    (mtrr.setType type).base = mtrr.base := by
  have bound := type.toUInt8.toNat_lt
  apply UInt64.toNat_inj.mp
  rw [VarMtrr.base, VarMtrr.base, UInt64.toNat_shiftRight, UInt64.toNat_shiftRight,
    toNat_setType]
  change (_ : Nat) >>> 12 = _ >>> 12
  rw [Nat.shiftRight_eq_div_pow, Nat.shiftRight_eq_div_pow]
  omega

@[simp]
theorem base_setBase (mtrr : VarMtrr) (base : UInt32) :
    (mtrr.setBase base).base = base.toUInt64 :=
  shiftRight_field _ _

@[simp]
theorem mask_setMask (mtrr : VarMtrr) (mask : UInt32) :
    (mtrr.setMask mask).mask = mask.toUInt64 :=
  shiftRight_field _ _

@[simp]
theorem base_setMask (mtrr : VarMtrr) (mask : UInt32) : (mtrr.setMask mask).base = mtrr.base :=
  rfl

@[simp]
theorem type_setMask (mtrr : VarMtrr) (mask : UInt32) : (mtrr.setMask mask).type = mtrr.type :=
  rfl

@[simp]
theorem base_enable (mtrr : VarMtrr) : mtrr.enable.base = mtrr.base :=
  rfl

@[simp]
theorem type_enable (mtrr : VarMtrr) : mtrr.enable.type = mtrr.type :=
  rfl

@[simp]
theorem mask_enable (mtrr : VarMtrr) : mtrr.enable.mask = mtrr.mask := by
  apply UInt64.toNat_inj.mp
  rw [mask, mask, enable, UInt64.toNat_shiftRight, UInt64.toNat_shiftRight, UInt64.toNat_or]
  change (_ ||| 0x800) >>> 12 = _ >>> 12
  rw [Nat.shiftRight_or_distrib]
  exact Nat.or_zero _

@[simp]
theorem v_enable (mtrr : VarMtrr) : mtrr.enable.v = 1 := by
  have set : Nat.testBit 0x800 11 = true := by decide
  apply UInt64.toNat_inj.mp
  rw [v, enable, toNat_bit_eleven, UInt64.toNat_or, Nat.testBit_or]
  change (_ || Nat.testBit 0x800 11).toNat = 1
  rw [set, Bool.or_true]
  rfl

@[simp]
theorem v_disable (mtrr : VarMtrr) : mtrr.disable.v = 0 := by
  have clear : Nat.testBit (~~~(0x800 : UInt64)).toNat 11 = false := by decide
  apply UInt64.toNat_inj.mp
  rw [v, disable, toNat_bit_eleven, UInt64.toNat_and, Nat.testBit_and, clear, Bool.and_false]
  rfl

end VarMtrr

end Fields

section Loops

/-- Map blocks of the given numbers of pages until the registers are used up. -/
def mapBlocks (memType : UInt32) (vcnt : Nat) : List Nat → Mapping → Bool × Mapping
  | [], mapping => (true, mapping)
  | pages :: rest, mapping =>
      let mapping := mapping.mapPages memType pages
      if mapping.ndx = vcnt then (false, mapping) else mapBlocks memType vcnt rest mapping

/-- The numbers of pages of the blocks into which the two loops cut a range. -/
def blockSizes (mtrrS numPages : Nat) : List Nat :=
  List.replicate (numPages / mtrrS) mtrrS ++ powers (numPages % mtrrS) (numPages % mtrrS)

variable {memType : UInt32} {mtrrS vcnt fuel : Nat} {mapping reached : Mapping}

theorem mapBlocks_append (first second : List Nat) (mapping : Mapping) :
    mapBlocks memType vcnt (first ++ second) mapping =
      (let (done, mapping) := mapBlocks memType vcnt first mapping
       if done then mapBlocks memType vcnt second mapping else (false, mapping)) := by
  induction first generalizing mapping with
  | nil => rfl
  | cons pages rest ih =>
      rw [List.cons_append, mapBlocks, mapBlocks]
      dsimp only
      by_cases last : (mapping.mapPages memType pages).ndx = vcnt
      · rw [if_pos last, if_pos last]
        rfl
      · rw [if_neg last, if_neg last, ih]

/-- The registers suffice if one of them is left over. -/
theorem mapBlocks_done (blocks : List Nat) (inside : mapping.ndx < vcnt) :
    (mapBlocks memType vcnt blocks mapping).1 = true ↔ mapping.ndx + blocks.length < vcnt := by
  induction blocks generalizing mapping with
  | nil => simpa [mapBlocks] using inside
  | cons pages rest ih =>
      have next : (mapping.mapPages memType pages).ndx = mapping.ndx + 1 := rfl
      rw [mapBlocks, List.length_cons]
      by_cases last : (mapping.mapPages memType pages).ndx = vcnt
      · rw [if_pos last]
        exact iff_of_false Bool.false_ne_true (by omega)
      · rw [if_neg last, ih (by omega), next]
        omega

theorem mapBlocks_counts {blocks : List Nat}
    (run : mapBlocks memType vcnt blocks mapping = (true, reached)) :
    reached.numPages = mapping.numPages - blocks.sum ∧
      reached.ndx = mapping.ndx + blocks.length := by
  induction blocks generalizing mapping with
  | nil =>
      cases run
      exact ⟨rfl, rfl⟩
  | cons pages rest ih =>
      have left : (mapping.mapPages memType pages).numPages = mapping.numPages - pages := rfl
      have next : (mapping.mapPages memType pages).ndx = mapping.ndx + 1 := rfl
      rw [mapBlocks] at run
      by_cases last : (mapping.mapPages memType pages).ndx = vcnt
      · rw [if_pos last] at run
        cases run
      · rw [if_neg last] at run
        obtain ⟨numPages, ndx⟩ := ih run
        rw [List.sum_cons, List.length_cons]
        omega

theorem mapAligned_eq (positive : 0 < mtrrS) (enough : mapping.numPages ≤ fuel) :
    mapAligned memType mtrrS vcnt fuel mapping =
      mapBlocks memType vcnt (List.replicate (mapping.numPages / mtrrS) mtrrS) mapping := by
  induction fuel generalizing mapping with
  | zero =>
      have none : mapping.numPages = 0 := by omega
      rw [none, Nat.zero_div]
      rfl
  | succ fuel ih =>
      have next : (mapping.mapPages memType mtrrS).numPages = mapping.numPages - mtrrS := rfl
      rw [mapAligned]
      by_cases more : mapping.numPages ≥ mtrrS
      · rw [if_pos more, Nat.div_eq_sub_div positive more, List.replicate_succ, mapBlocks]
        dsimp only
        rw [ih (by omega), next]
      · rw [if_neg more, Nat.div_eq_of_lt (by omega)]
        rfl

theorem mapRemaining_eq :
    mapRemaining memType vcnt fuel mapping =
      mapBlocks memType vcnt (powers fuel mapping.numPages) mapping := by
  induction fuel generalizing mapping with
  | zero => rfl
  | succ fuel ih =>
      rw [mapRemaining, powers]
      by_cases none : mapping.numPages = 0
      · rw [if_neg (by omega), if_pos none]
        rfl
      · have size : 1 <<< (fls mapping.numPages - 1) = 2 ^ mapping.numPages.log2 := by
          rw [fls, if_neg none, Nat.add_sub_cancel, Nat.shiftLeft_eq, Nat.one_mul]
        rw [if_pos (Nat.pos_of_ne_zero none), if_neg none, mapBlocks, size]
        dsimp only
        rw [ih]
        rfl

/-- The two loops map the blocks one after the other. -/
theorem mapAligned_mapRemaining (positive : 0 < mtrrS) :
    (let (done, reached) := mapAligned memType mtrrS vcnt mapping.numPages mapping
     if done then mapRemaining memType vcnt reached.numPages reached else (false, reached)) =
      mapBlocks memType vcnt (blockSizes mtrrS mapping.numPages) mapping := by
  rw [mapAligned_eq positive le_rfl, blockSizes, mapBlocks_append]
  cases run : mapBlocks memType vcnt
      (List.replicate (mapping.numPages / mtrrS) mtrrS) mapping with
  | mk done reached =>
      cases done with
      | false => rfl
      | true =>
          have left : reached.numPages = mapping.numPages % mtrrS := by
            rw [(mapBlocks_counts run).1, List.sum_replicate_nat, Nat.mod_def, Nat.mul_comm]
          dsimp only
          rw [mapRemaining_eq, left]

end Loops

section Setting

variable {base size memType : UInt32} {msrs : MtrrMsrs}

theorem disableLoop_apply (count start : Nat) (msrs : MtrrMsrs) :
    disableLoop count start msrs =
      { msrs with varMtrrs := fun ndx =>
          if start ≤ ndx ∧ ndx < start + count then (msrs.varMtrrs ndx).disable
          else msrs.varMtrrs ndx } := by
  induction count generalizing start msrs with
  | zero =>
      have outside (ndx : Nat) : ¬ (start ≤ ndx ∧ ndx < start + 0) := by omega
      simp only [if_neg (outside _)]
      rfl
  | succ count ih =>
      rw [disableLoop, ih]
      congr 1
      funext ndx
      by_cases here : ndx = start
      · subst here
        rw [if_neg (by omega), if_pos (by omega)]
        simp
      · simp only [Function.update_of_ne here]
        by_cases later : start + 1 ≤ ndx ∧ ndx < start + 1 + count
        · rw [if_pos later, if_pos (by omega)]
        · rw [if_neg later, if_neg (by omega)]

/-- The number of lower zero bits is found for every base but zero. -/
theorem zeroBits_some {fuel : Nat} {word : UInt32} (small : word.toNat < 2 ^ fuel)
    (nonzero : word.toNat ≠ 0) :
    ∃ i < fuel, zeroBits fuel word = some i ∧ 2 ^ i ∣ word.toNat := by
  induction fuel generalizing word with
  | zero => omega
  | succ fuel ih =>
      have bit : (word &&& 1).toNat = word.toNat % 2 := by
        rw [UInt32.toNat_and]
        exact Nat.and_one_is_mod _
      have half : (word >>> 1).toNat = word.toNat / 2 := by
        rw [UInt32.toNat_shiftRight]
        exact Nat.shiftRight_one _
      rw [zeroBits]
      by_cases even : word &&& 1 = 0
      · have zero : word.toNat % 2 = 0 := by
          rw [← bit, even]
          rfl
        rw [Nat.pow_succ] at small
        obtain ⟨i, less, found, divides⟩ := @ih (word >>> 1) (by omega) (by omega)
        rw [if_pos even, found]
        refine ⟨i + 1, by omega, rfl, ?_⟩
        rw [half] at divides
        have whole : word.toNat = word.toNat / 2 * 2 := by omega
        rw [whole, Nat.pow_succ]
        exact Nat.mul_dvd_mul_right divides 2
      · rw [if_neg even]
        exact ⟨0, by omega, rfl, Nat.one_dvd _⟩

theorem mtrrSize_eq (j : Nat) : mtrrSize j = 2 ^ j := by
  induction j with
  | zero => rfl
  | succ j ih => rw [mtrrSize, ih, Nat.pow_succ]

theorem pageUp_eq (size : UInt32) : (pageUp size).toNat = (pageUp size >>> 12).toNat * 0x1000 := by
  have value : (pageUp size).toNat = (size + 0x1000 - 1).toNat / 2 ^ 12 * 2 ^ 12 := by
    rw [pageUp, UInt32.toNat_and]
    change _ &&& (2 ^ 32 - 2 ^ 12) = _
    rw [and_mask (by decide) (UInt32.toNat_lt _)]
  rw [UInt32.toNat_shiftRight]
  change (pageUp size).toNat = (pageUp size).toNat >>> 12 * 0x1000
  rw [Nat.shiftRight_eq_div_pow, value]
  omega

/-- The mask register of a block of `2 ^ e` pages. -/
theorem toNat_blockMask {e : Nat} (small : e ≤ 20) :
    (~~~(UInt32.ofNat (2 ^ e) - 1) &&& sinitMtrrMask).toUInt64.toNat = 2 ^ 24 - 2 ^ e := by
  revert e
  decide

/-- The base register of a block that starts at a page. -/
theorem toNat_blockBase {page : Nat} (small : page < 2 ^ 20) :
    (UInt32.ofNat (page * 0x1000) >>> 12 &&& sinitMtrrMask).toUInt64.toNat = page := by
  rw [UInt32.toNat_toUInt64, UInt32.toNat_and, UInt32.toNat_shiftRight, UInt32.toNat_ofNat']
  change (page * 0x1000 % 2 ^ 32) >>> 12 &&& (2 ^ 24 - 1) = page
  rw [Nat.mod_eq_of_lt (by omega), Nat.shiftRight_eq_div_pow, Nat.and_two_pow_sub_one_eq_mod]
  omega

/-- An enabled register that maps an aligned block with the type. -/
structure MapsBlock (memType : UInt32) (mtrr : VarMtrr) : Prop where
  type : mtrr.type = memType.toUInt8
  aligned : ∃ e ≤ 24, mtrr.mask.toNat = 2 ^ 24 - 2 ^ e ∧ 2 ^ e ∣ mtrr.base.toNat

/-- The register matches a page. -/
def VarMtrr.MatchesPage (mtrr : VarMtrr) (page : UInt64) : Prop :=
  mtrr.v ≠ 0 ∧ page &&& mtrr.mask = mtrr.base &&& mtrr.mask

/-- The registers below `ndx` map the pages from `start` to `stop`. -/
structure MappedTo (memType : UInt32) (start stop : Nat) (mapping : Mapping) : Prop where
  base : mapping.base = UInt32.ofNat (stop * 0x1000)
  blocks : ∀ j < mapping.ndx, MapsBlock memType (mapping.msrs.varMtrrs j)
  covers : ∀ page : UInt64, page.toNat < 2 ^ 24 →
    ((∃ j < mapping.ndx, (mapping.msrs.varMtrrs j).MatchesPage page) ↔
      start ≤ page.toNat ∧ page.toNat < stop)

variable {start stop : Nat} {mapping reached : Mapping} {vcnt : Nat}

theorem MappedTo.next (mapped : MappedTo memType start stop mapping) (order : start ≤ stop)
    {e : Nat} (divides : 2 ^ e ∣ stop) (inside : stop + 2 ^ e ≤ 2 ^ 20) :
    MappedTo memType start (stop + 2 ^ e) (mapping.mapPages memType (2 ^ e)) := by
  have positive := Nat.two_pow_pos e
  have small : e ≤ 20 := by
    by_contra above
    have more : 2 ^ 21 ≤ 2 ^ e := Nat.pow_le_pow_right (by decide) (by omega)
    omega
  obtain ⟨mtrr, new⟩ : ∃ mtrr, mtrr = (mapping.mapPages memType (2 ^ e)).msrs.varMtrrs
      mapping.ndx := ⟨_, rfl⟩
  have mask : mtrr.mask.toNat = 2 ^ 24 - 2 ^ e := by
    rw [new, Mapping.mapPages]
    simp only [Function.update_self, VarMtrr.mask_enable, VarMtrr.mask_setMask]
    exact toNat_blockMask small
  have start_ : mtrr.base.toNat = stop := by
    rw [new, Mapping.mapPages, mapped.base]
    simp only [Function.update_self, VarMtrr.base_enable, VarMtrr.base_setMask,
      VarMtrr.base_setType, VarMtrr.base_setBase]
    exact toNat_blockBase (by omega)
  have type : mtrr.type = memType.toUInt8 := by
    rw [new, Mapping.mapPages]
    simp only [Function.update_self, VarMtrr.type_enable, VarMtrr.type_setMask,
      VarMtrr.type_setType]
  have enabled : mtrr.v ≠ 0 := by
    rw [new, Mapping.mapPages]
    simp only [Function.update_self, VarMtrr.v_enable]
    decide
  have old (j : Nat) (before : j < mapping.ndx) :
      (mapping.mapPages memType (2 ^ e)).msrs.varMtrrs j = mapping.msrs.varMtrrs j :=
    Function.update_of_ne (by omega) _ _
  have count : (mapping.mapPages memType (2 ^ e)).ndx = mapping.ndx + 1 := rfl
  constructor
  case base =>
    rw [Mapping.mapPages, mapped.base, ← UInt32.ofNat_add, Nat.add_mul]
  case blocks =>
    intro j before
    by_cases last : j = mapping.ndx
    · subst last
      rw [← new]
      exact ⟨type, e, by omega, mask, start_ ▸ divides⟩
    · rw [old j (by omega)]
      exact mapped.blocks j (by omega)
  case covers =>
    intro page bound
    have here : mtrr.MatchesPage page ↔ stop ≤ page.toNat ∧ page.toNat < stop + 2 ^ e := by
      rw [VarMtrr.MatchesPage, and_iff_right enabled, ← UInt64.toNat_inj, UInt64.toNat_and,
        UInt64.toNat_and, mask, start_]
      exact and_mask_eq_iff (by omega) bound (by omega) divides
    have split : (∃ j < (mapping.mapPages memType (2 ^ e)).ndx,
        ((mapping.mapPages memType (2 ^ e)).msrs.varMtrrs j).MatchesPage page) ↔
          (∃ j < mapping.ndx, (mapping.msrs.varMtrrs j).MatchesPage page) ∨
            mtrr.MatchesPage page := by
      constructor
      · rintro ⟨j, before, holds⟩
        by_cases last : j = mapping.ndx
        · subst last
          rw [← new] at holds
          exact .inr holds
        · rw [old j (by omega)] at holds
          exact .inl ⟨j, by omega, holds⟩
      · rintro (⟨j, before, holds⟩ | holds)
        · refine ⟨j, by omega, ?_⟩
          rw [old j before]
          exact holds
        · refine ⟨mapping.ndx, by omega, ?_⟩
          rw [← new]
          exact holds
    rw [split, mapped.covers page bound, here]
    omega

/-- The registers that a run leaves alone. -/
theorem mapBlocks_kept (blocks : List Nat) (mapping : Mapping) :
    (mapBlocks memType vcnt blocks mapping).2.msrs.mtrrDefType = mapping.msrs.mtrrDefType ∧
      mapping.ndx ≤ (mapBlocks memType vcnt blocks mapping).2.ndx ∧
      ∀ j, (mapBlocks memType vcnt blocks mapping).2.ndx ≤ j →
        (mapBlocks memType vcnt blocks mapping).2.msrs.varMtrrs j = mapping.msrs.varMtrrs j := by
  induction blocks generalizing mapping with
  | nil => exact ⟨rfl, le_rfl, fun _ _ => rfl⟩
  | cons pages rest ih =>
      have count : (mapping.mapPages memType pages).ndx = mapping.ndx + 1 := rfl
      have old (j : Nat) (after : mapping.ndx + 1 ≤ j) :
          (mapping.mapPages memType pages).msrs.varMtrrs j = mapping.msrs.varMtrrs j :=
        Function.update_of_ne (by omega) _ _
      rw [mapBlocks]
      by_cases last : (mapping.mapPages memType pages).ndx = vcnt
      · rw [if_pos last]
        exact ⟨rfl, by simp only [count]; omega,
          fun j after => old j (by simpa [count] using after)⟩
      · rw [if_neg last]
        obtain ⟨default, further, kept⟩ := ih (mapping.mapPages memType pages)
        refine ⟨default, by omega, fun j after => ?_⟩
        rw [kept j after, old j (by omega)]

theorem MappedTo.blocks_done {blocks : List Nat} (aligned : AlignedFrom stop blocks)
    (mapped : MappedTo memType start stop mapping) (order : start ≤ stop)
    (inside : stop + blocks.sum ≤ 2 ^ 20)
    (run : mapBlocks memType vcnt blocks mapping = (true, reached)) :
    MappedTo memType start (stop + blocks.sum) reached := by
  induction blocks generalizing stop mapping with
  | nil =>
      cases run
      exact mapped
  | cons size rest ih =>
      obtain ⟨⟨e, rfl⟩, divides, aligned⟩ := aligned
      rw [List.sum_cons] at inside
      rw [mapBlocks] at run
      by_cases last : (mapping.mapPages memType (2 ^ e)).ndx = vcnt
      · rw [if_pos last] at run
        cases run
      · rw [if_neg last] at run
        have next := ih aligned (mapped.next order divides (by omega)) (by omega) (by omega) run
        rw [List.sum_cons, ← Nat.add_assoc]
        exact next

/-- The registers when the loops start: fixed ranges off, uncachable by default, and no
variable range enabled. -/
def MtrrMsrs.cleared (msrs : MtrrMsrs) : MtrrMsrs :=
  disableLoop msrs.vcnt 0 { msrs with mtrrDefType := msrs.mtrrDefType &&& ~~~0x4ff }

theorem vcnt_cleared (msrs : MtrrMsrs) : msrs.cleared.vcnt = msrs.vcnt := by
  rw [MtrrMsrs.cleared, disableLoop_apply]
  rfl

theorem mtrrDefType_cleared (msrs : MtrrMsrs) :
    msrs.cleared.mtrrDefType = msrs.mtrrDefType &&& ~~~0x4ff := by
  rw [MtrrMsrs.cleared, disableLoop_apply]

theorem v_cleared {j : Nat} (inside : j < msrs.vcnt) : (msrs.cleared.varMtrrs j).v = 0 := by
  rw [MtrrMsrs.cleared, disableLoop_apply]
  simp only
  rw [if_pos (by omega), VarMtrr.v_disable]

/-- The blocks of the range that `set_mem_type` maps. -/
def rangeBlocks (base size : UInt32) : Option (List Nat) :=
  (zeroBits 32 base).map fun i =>
    blockSizes (mtrrSize (i - 12)) (pageUp size >>> 12).toNat

/-- What `set_mem_type` does is to map the blocks of the range. -/
theorem setMemType_eq (base size memType : UInt32) (msrs : MtrrMsrs) :
    setMemType base size memType msrs = (rangeBlocks base size).map fun blocks =>
      let (done, mapping) := mapBlocks memType msrs.vcnt blocks
        ⟨base, (pageUp size >>> 12).toNat, 0, msrs.cleared⟩
      (done, mapping.msrs) := by
  rw [setMemType, rangeBlocks]
  cases bits : zeroBits 32 base with
  | none => rfl
  | some i =>
      have positive : 0 < mtrrSize (i - 12) := by
        rw [mtrrSize_eq]
        exact Nat.two_pow_pos _
      have loops := @mapAligned_mapRemaining memType (mtrrSize (i - 12)) msrs.vcnt
        ⟨base, (pageUp size >>> 12).toNat, 0, msrs.cleared⟩ positive
      simp only [Option.map_some]
      rw [← loops]
      change (let (done, mapping) := mapAligned memType (mtrrSize (i - 12)) msrs.cleared.vcnt
                (pageUp size >>> 12).toNat ⟨base, (pageUp size >>> 12).toNat, 0, msrs.cleared⟩
              if done then
                let (done, mapping) :=
                  mapRemaining memType msrs.cleared.vcnt mapping.numPages mapping
                some (done, mapping.msrs)
              else some (false, mapping.msrs)) = _
      rw [vcnt_cleared]
      cases mapAligned memType (mtrrSize (i - 12)) msrs.vcnt (pageUp size >>> 12).toNat
          ⟨base, (pageUp size >>> 12).toNat, 0, msrs.cleared⟩ with
      | mk done mapping =>
          cases done with
          | false => rfl
          | true => rfl

theorem rangeBlocks_aligned (size : UInt32) (nonzero : base ≠ 0) :
    ∃ blocks, rangeBlocks base size = some blocks ∧
      AlignedFrom (base.toNat / 0x1000) blocks ∧
      blocks.sum = (pageUp size >>> 12).toNat := by
  obtain ⟨i, -, found, divides⟩ := @zeroBits_some 32 base base.toNat_lt fun zero =>
    nonzero (UInt32.toNat_inj.mp zero)
  have part : 2 ^ (i - 12) ∣ base.toNat / 0x1000 := by
    by_cases large : 12 ≤ i
    · obtain ⟨q, whole⟩ := divides
      refine ⟨q, ?_⟩
      have power : 2 ^ i = 2 ^ (i - 12) * 0x1000 := by
        rw [← Nat.pow_sub_mul_pow 2 large]
      rw [whole, power, Nat.mul_right_comm, Nat.mul_div_cancel _ (by decide)]
    · rw [Nat.sub_eq_zero_of_le (by omega)]
      exact Nat.one_dvd _
  refine ⟨blockSizes (mtrrSize (i - 12)) (pageUp size >>> 12).toNat, ?_, ?_, ?_⟩
  · rw [rangeBlocks, found]
    rfl
  · rw [blockSizes, mtrrSize_eq]
    refine (alignedFrom_replicate part _).append ?_
    rw [List.sum_replicate_nat]
    exact alignedFrom_powers _ (Nat.mod_lt _ (Nat.two_pow_pos _))
      (Nat.dvd_add part (Nat.dvd_mul_left _ _))
  · rw [blockSizes, List.sum_append, List.sum_replicate_nat, powers_sum _ le_rfl,
      Nat.mul_comm]
    exact Nat.div_add_mod _ _

/-- What a successful `set_mem_type` leaves in the registers. -/
structure TypesRange (base size memType : UInt32) (vcnt : Nat) (reached : MtrrMsrs) : Prop where
  blocks : ∀ j < vcnt, (reached.varMtrrs j).v ≠ 0 → MapsBlock memType (reached.varMtrrs j)
  covers : ∀ page : UInt64, page.toNat < 2 ^ 24 →
    ((∃ j < vcnt, (reached.varMtrrs j).MatchesPage page) ↔
      base.toNat ≤ page.toNat * 0x1000 ∧
        page.toNat * 0x1000 < base.toNat + (pageUp size).toNat)
  defType : reached.mtrrDefType.toUInt8 = mtrrTypeUncachable
  fixed : reached.mtrrDefType >>> 10 &&& 1 = 0

theorem defType_cleared (word : UInt64) :
    (word &&& ~~~(0x4ff : UInt64)).toUInt8 = mtrrTypeUncachable ∧
      (word &&& ~~~(0x4ff : UInt64)) >>> 10 &&& 1 = 0 := by
  constructor
  · have low : (word &&& ~~~(0x4ff : UInt64)) &&& 0xff = 0 := by
      rw [UInt64.and_assoc, show ~~~(0x4ff : UInt64) &&& 0xff = 0 from by decide,
        UInt64.and_zero]
    have value := congrArg UInt64.toNat low
    rw [UInt64.toNat_and] at value
    change (word &&& ~~~(0x4ff : UInt64)).toNat &&& (2 ^ 8 - 1) = 0 at value
    apply UInt8.toNat_inj.mp
    rw [UInt64.toNat_toUInt8, ← Nat.and_two_pow_sub_one_eq_mod, value]
    rfl
  · have clear : ~~~(0x4ff : UInt64) >>> 10 &&& 1 = 0 := by decide
    rw [UInt64.shiftRight_and, UInt64.and_assoc, clear, UInt64.and_zero]

/-- After `set_mem_type` has succeeded, the enabled registers match exactly the pages of the
range. -/
theorem setMemType_types (base size memType : UInt32) (msrs reached : MtrrMsrs)
    (page : base.toNat % 0x1000 = 0) (nonzero : base ≠ 0)
    (fits : base.toNat + (pageUp size).toNat ≤ 2 ^ 32) (registers : 1 ≤ msrs.vcnt)
    (run : setMemType base size memType msrs = some (true, reached)) :
    TypesRange base size memType msrs.vcnt reached := by
  obtain ⟨blocks, found, aligned, sum⟩ := rangeBlocks_aligned size nonzero
  have length := pageUp_eq size
  rw [setMemType_eq, found, Option.map_some, Option.some.injEq] at run
  cases loop : mapBlocks memType msrs.vcnt blocks
      ⟨base, (pageUp size >>> 12).toNat, 0, msrs.cleared⟩ with
  | mk done mapping =>
      rw [loop] at run
      obtain ⟨rfl, rfl⟩ := Prod.mk.inj run
      have start : MappedTo memType (base.toNat / 0x1000) (base.toNat / 0x1000)
          ⟨base, (pageUp size >>> 12).toNat, 0, msrs.cleared⟩ := by
        refine ⟨?_, fun j before => absurd before (Nat.not_lt_zero j), fun _ _ => ?_⟩
        · apply UInt32.toNat_inj.mp
          rw [UInt32.toNat_ofNat', Nat.div_mul_cancel (Nat.dvd_of_mod_eq_zero page)]
          exact (Nat.mod_eq_of_lt base.toNat_lt).symm
        · refine iff_of_false ?_ (by omega)
          rintro ⟨j, before, -⟩
          exact Nat.not_lt_zero j before
      have mapped := start.blocks_done aligned le_rfl (by omega) loop
      obtain ⟨default, -, kept⟩ := @mapBlocks_kept memType msrs.vcnt blocks
        ⟨base, (pageUp size >>> 12).toNat, 0, msrs.cleared⟩
      rw [loop] at default kept
      have used : mapping.ndx < msrs.vcnt := by
        have counts := (mapBlocks_counts loop).2
        have done := (@mapBlocks_done memType msrs.vcnt
          ⟨base, (pageUp size >>> 12).toNat, 0, msrs.cleared⟩ blocks registers).mp
          (by rw [loop])
        omega
      constructor
      case blocks =>
        intro j inside enabled
        by_cases before : j < mapping.ndx
        · exact mapped.blocks j before
        · rw [kept j (Nat.le_of_not_lt before)] at enabled
          exact (enabled (v_cleared inside)).elim
      case covers =>
        intro number bound
        have exact_ := mapped.covers number bound
        have split : (∃ j < msrs.vcnt, (mapping.msrs.varMtrrs j).MatchesPage number) ↔
            ∃ j < mapping.ndx, (mapping.msrs.varMtrrs j).MatchesPage number := by
          constructor
          · rintro ⟨j, inside, holds⟩
            by_cases before : j < mapping.ndx
            · exact ⟨j, before, holds⟩
            · rw [kept j (Nat.le_of_not_lt before)] at holds
              exact (holds.1 (v_cleared inside)).elim
          · rintro ⟨j, before, holds⟩
            exact ⟨j, by omega, holds⟩
        rw [split, exact_, sum]
        omega
      case defType =>
        rw [default, mtrrDefType_cleared]
        exact (defType_cleared _).1
      case fixed =>
        rw [default, mtrrDefType_cleared]
        exact (defType_cleared _).2

/-- The number of pairs of registers that the blocks of a range need. -/
def registersNeeded (base size : UInt32) : Nat :=
  ((rangeBlocks base size).getD []).length

theorem setMemType_returns (size memType : UInt32) (nonzero : base ≠ 0)
    (registers : 1 ≤ msrs.vcnt) :
    (∃ reached, setMemType base size memType msrs = some (true, reached)) ↔
      registersNeeded base size < msrs.vcnt := by
  obtain ⟨blocks, found, -, -⟩ := @rangeBlocks_aligned base size nonzero
  have done := @mapBlocks_done memType msrs.vcnt
    ⟨base, (pageUp size >>> 12).toNat, 0, msrs.cleared⟩ blocks registers
  rw [Nat.zero_add] at done
  rw [setMemType_eq, registersNeeded, found, Option.map_some, Option.getD_some, ← done]
  cases mapBlocks memType msrs.vcnt blocks
      ⟨base, (pageUp size >>> 12).toNat, 0, msrs.cleared⟩ with
  | mk result mapping =>
      constructor
      · rintro ⟨reached, run⟩
        exact congrArg Prod.fst (Option.some.inj run)
      · rintro rfl
        exact ⟨mapping.msrs, rfl⟩

/-- A range for which there are enough registers is refused exactly when it needs all of
them. -/
theorem setMemType_complete_iff (base size memType : UInt32) (msrs : MtrrMsrs)
    (nonzero : base ≠ 0) (registers : 1 ≤ msrs.vcnt) :
    (registersNeeded base size ≤ msrs.vcnt →
      ∃ reached, setMemType base size memType msrs = some (true, reached)) ↔
      registersNeeded base size ≠ msrs.vcnt := by
  rw [setMemType_returns size memType nonzero registers]
  omega

/-- Eight pairs of registers that are all zero. -/
def eightMtrrs : MtrrMsrs :=
  ⟨8, 0, fun _ => ⟨0, 0⟩⟩

theorem setMemType_complete_two :
    registersNeeded 0x80000000 0x11000 = 2 ∧
      ∃ reached, setMemType 0x80000000 0x11000 6 eightMtrrs = some (true, reached) := by
  have needed : registersNeeded 0x80000000 0x11000 = 2 := by decide
  refine ⟨needed, (setMemType_complete_iff 0x80000000 0x11000 6 eightMtrrs (by decide)
    (by decide)).mpr ?_ ?_⟩
  · rw [needed]
    decide
  · rw [needed]
    decide

theorem setMemType_types_two :
    ∃ reached, setMemType 0x80000000 0x11000 6 eightMtrrs = some (true, reached) ∧
      TypesRange 0x80000000 0x11000 6 8 reached := by
  have needed : registersNeeded 0x80000000 0x11000 = 2 := by decide
  obtain ⟨reached, run⟩ := (@setMemType_returns 0x80000000 eightMtrrs 0x11000 6 (by decide)
    (by decide)).mpr (by rw [needed]; decide)
  exact ⟨reached, run, setMemType_types _ _ _ _ _ (by decide) (by decide) (by decide)
    (by decide) run⟩

/-- Eight pages that start at an odd page need eight pairs of registers. -/
theorem setMemType_not_complete :
    ¬ ∀ (base size memType : UInt32) (msrs : MtrrMsrs), base.toNat % 0x1000 = 0 → base ≠ 0 →
      base.toNat + (pageUp size).toNat ≤ 2 ^ 32 → 1 ≤ msrs.vcnt →
      registersNeeded base size ≤ msrs.vcnt →
      ∃ reached, setMemType base size memType msrs = some (true, reached) := by
  intro complete
  have needed : registersNeeded 0x1000 0x8000 = 8 := by decide
  have returns := complete 0x1000 0x8000 6 eightMtrrs (by decide) (by decide) (by decide)
    (by decide) (by rw [needed]; decide)
  rw [setMemType_returns _ _ (by decide) (by decide), needed] at returns
  exact absurd returns (by decide)

end Setting

end Sable
