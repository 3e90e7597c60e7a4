import Mathlib.Data.List.Pairwise
import Mathlib.Data.Set.Insert
import Mathlib.Data.Set.Subsingleton
import Sable.Mtrrs

/-!
# The types of pages under validated range registers

The architecture defines the type of a page by the set of the types of the ranges
that contain it.  Validated registers leave no page with an undefined type, and the
order of the registers does not matter.
-/

namespace Sable

open AddressMask

section Architecture

/-- The type of memory in ranges of the given types. -/
inductive EffectiveType (default : UInt8) (types : Set UInt8) : UInt8 → Prop
  | unmatched (empty : types = ∅) : EffectiveType default types default
  | uncachable (member : mtrrTypeUncachable ∈ types) :
      EffectiveType default types mtrrTypeUncachable
  | single {type : UInt8} (only : types = {type}) : EffectiveType default types type
  | writeThrough (both : types = {mtrrTypeWrthrough, mtrrTypeWrback}) :
      EffectiveType default types mtrrTypeWrthrough

/-- The combinations of types that the architecture defines. -/
def Compatible (types : Set UInt8) : Prop :=
  mtrrTypeUncachable ∈ types ∨ types.Subsingleton ∨
    types ⊆ {mtrrTypeWrthrough, mtrrTypeWrback}

variable {default first second : UInt8} {types : Set UInt8}

theorem writeThrough_ne_singleton (type : UInt8) :
    ({mtrrTypeWrthrough, mtrrTypeWrback} : Set UInt8) ≠ {type} := by
  intro same
  have one : mtrrTypeWrthrough = type := Set.mem_singleton_iff.mp (same ▸ by simp)
  have two : mtrrTypeWrback = type := Set.mem_singleton_iff.mp (same ▸ by simp)
  exact absurd (one.trans two.symm) (by decide)

theorem EffectiveType.eq_uncachable (effective : EffectiveType default types first)
    (member : mtrrTypeUncachable ∈ types) : first = mtrrTypeUncachable := by
  cases effective with
  | unmatched empty => simp [empty] at member
  | uncachable => rfl
  | single only =>
      rw [only] at member
      exact (Set.mem_singleton_iff.mp member).symm
  | writeThrough both =>
      rw [both] at member
      exact absurd member (by simp [mtrrTypeUncachable, mtrrTypeWrthrough, mtrrTypeWrback])

/-- There is at most one effective type. -/
theorem EffectiveType.unique (one : EffectiveType default types first)
    (two : EffectiveType default types second) : first = second := by
  cases one with
  | uncachable member => exact (two.eq_uncachable member).symm
  | unmatched empty =>
      cases two with
      | unmatched => rfl
      | uncachable member => simp [empty] at member
      | single only => exact absurd (empty.symm.trans only).symm (Set.singleton_ne_empty _)
      | writeThrough both =>
          exact absurd (empty.symm.trans both).symm (Set.insert_nonempty _ _).ne_empty
  | single only =>
      cases two with
      | unmatched empty => exact absurd (empty.symm.trans only).symm (Set.singleton_ne_empty _)
      | uncachable member => exact (@EffectiveType.single default _ _ only).eq_uncachable member
      | single other => exact Set.singleton_injective (only.symm.trans other)
      | writeThrough both => exact absurd (both.symm.trans only) (writeThrough_ne_singleton _)
  | writeThrough both =>
      cases two with
      | unmatched empty =>
          exact absurd (empty.symm.trans both).symm (Set.insert_nonempty _ _).ne_empty
      | uncachable member => exact (@EffectiveType.writeThrough default _ both).eq_uncachable member
      | single only => exact absurd (both.symm.trans only) (writeThrough_ne_singleton _)
      | writeThrough => rfl

/-- Types that are pairwise equal or cached are compatible. -/
theorem compatible_of_pairs
    (pairs : ∀ first ∈ types, ∀ second ∈ types, mtrrTypeUncachable ∈ types ∨ first = second ∨
      first ∈ ({mtrrTypeWrthrough, mtrrTypeWrback} : Set UInt8) ∧
        second ∈ ({mtrrTypeWrthrough, mtrrTypeWrback} : Set UInt8)) :
    Compatible types := by
  by_cases uncachable : mtrrTypeUncachable ∈ types
  · exact .inl uncachable
  · right
    by_cases cached : types ⊆ {mtrrTypeWrthrough, mtrrTypeWrback}
    · exact .inr cached
    · left
      obtain ⟨odd, member, different⟩ := Set.not_subset.mp cached
      have same : ∀ type ∈ types, type = odd := by
        intro type inside
        rcases pairs type inside odd member with bad | equal | ⟨-, bad⟩
        · exact absurd bad uncachable
        · exact equal
        · exact absurd bad different
      intro one oneIn two twoIn
      rw [same one oneIn, same two twoIn]

end Architecture

section Limit

variable (platform : MtrrPlatform)

/-- The limit is a power of two. -/
theorem getMaxphyaddrMask_eq :
    ∃ bits < 63, (getMaxphyaddrMask platform).toNat = 2 ^ bits - 1 := by
  unfold getMaxphyaddrMask
  split
  · exact ⟨24, by decide, by decide⟩
  · generalize (platform.cpuidEax 0x80000008 &&& 0xff).toUInt64 = amount
    have small : amount.toNat % 64 < 64 := Nat.mod_lt _ (by decide)
    have power : (1 <<< amount : UInt64).toNat = 2 ^ (amount.toNat % 64) := by
      rw [UInt64.toNat_shiftLeft]
      change 1 <<< (amount.toNat % 64) % 2 ^ 64 = _
      rw [Nat.one_shiftLeft, Nat.mod_eq_of_lt (Nat.pow_lt_pow_right (by decide) small)]
    have positive := Nat.two_pow_pos (amount.toNat % 64)
    have less : ((1 <<< amount : UInt64) - 1).toNat = 2 ^ (amount.toNat % 64) - 1 := by
      rw [UInt64.toNat_sub_of_le _ _ (UInt64.le_iff_toNat_le.mpr (by rw [power]; exact positive)),
        power]
      rfl
    refine ⟨amount.toNat % 64 - 12, by omega, ?_⟩
    rw [UInt64.toNat_shiftRight, less]
    change (2 ^ (amount.toNat % 64) - 1) >>> 12 = _
    rw [Nat.shiftRight_eq_div_pow]
    rcases Nat.lt_or_ge (amount.toNat % 64) 12 with few | many
    · have below : 2 ^ (amount.toNat % 64) ≤ 2 ^ 12 :=
        Nat.pow_le_pow_right (by decide) (by omega)
      rw [Nat.sub_eq_zero_of_le (by omega : amount.toNat % 64 ≤ 12), Nat.div_eq_of_lt (by omega)]
      rfl
    · obtain ⟨rest, total⟩ := Nat.exists_eq_add_of_le many
      rw [total, Nat.pow_add, Nat.add_sub_cancel_left]
      have some := Nat.two_pow_pos rest
      omega

end Limit

section Masks

variable {platform : MtrrPlatform}

/-- Where a scan stops. -/
theorem maskScan_bit {found : UInt64 → Bool} {last : Nat} (small : last < 63) {fuel start : Nat}
    (order : start ≤ last) (enough : last < start + fuel) :
    ∃ stop, start ≤ stop ∧ stop ≤ last ∧ maskScan found (bit last) fuel (bit start) = bit stop ∧
      (∀ i, start ≤ i → i < stop → found (bit i) = false) ∧
      (stop < last → found (bit stop) = true) := by
  induction fuel generalizing start with
  | zero => omega
  | succ fuel ih =>
      rw [maskScan]
      by_cases finished : start = last
      · refine ⟨start, Nat.le_refl _, order, ?_, fun i lower upper => by omega,
          fun less => by omega⟩
        rw [finished, if_neg (by simp)]
      · have different : bit start ≠ bit last := fun same =>
          finished (bit_inj (by omega) (by omega) same)
        rw [if_pos different]
        by_cases hit : found (bit start) = true
        · rw [if_pos hit]
          exact ⟨start, Nat.le_refl _, order, rfl, fun i lower upper => by omega, fun _ => hit⟩
        · rw [if_neg hit, bit_shiftLeft_one (by omega)]
          obtain ⟨stop, lower, upper, result, before, reached⟩ :=
            ih (by omega : start + 1 ≤ last) (by omega)
          refine ⟨stop, by omega, upper, result, fun i first second => ?_, reached⟩
          rcases Nat.eq_or_lt_of_le first with same | later
          · rw [← same]
            simpa using hit
          · exact before i later second

/-- The number of pages is the first bit above the limit. -/
theorem maxPages_eq {bits : Nat} (small : bits < 63)
    (limit : (getMaxphyaddrMask platform).toNat = 2 ^ bits - 1) :
    getMaxphyaddrMask platform + 1 = bit bits := by
  have positive := Nat.two_pow_pos bits
  have below : 2 ^ bits < 2 ^ 64 := Nat.pow_lt_pow_right (by decide) (by omega)
  apply UInt64.toNat_inj.mp
  rw [UInt64.toNat_add, limit, toNat_bit (by omega)]
  change (2 ^ bits - 1 + 1) % 2 ^ 64 = _
  rw [Nat.sub_add_cancel positive, Nat.mod_eq_of_lt below]

/-- The two scans accept contiguous masks only. -/
theorem maskContiguous_sound {mask : UInt64} (accepted : maskContiguous platform mask = true) :
    Contiguous (getMaxphyaddrMask platform) mask := by
  obtain ⟨bits, small, limit⟩ := getMaxphyaddrMask_eq platform
  have pages := maxPages_eq small limit
  have select {i : Nat} (inside : i < 64) : bit i &&& mask &&& getMaxphyaddrMask platform ≠ 0 ↔
      (mask &&& getMaxphyaddrMask platform).toNat.testBit i = true := by
    rw [UInt64.and_assoc, bit_and_ne_zero inside]
  simp only [maskContiguous, pages, decide_eq_true_eq] at accepted
  obtain ⟨low, -, lowLast, first, before, -⟩ := @maskScan_bit
    (fun tb => tb &&& mask &&& getMaxphyaddrMask platform ≠ 0) bits small 64 0 (by omega)
    (by omega)
  obtain ⟨stop, -, stopLast, second, between, -⟩ := @maskScan_bit
    (fun tb => tb &&& mask &&& getMaxphyaddrMask platform = 0) bits small 64 low lowLast
    (by omega)
  have one : bit 0 = 1 := rfl
  rw [one] at first
  rw [first, second] at accepted
  obtain rfl := bit_inj (by omega) (by omega) accepted
  refine ⟨low, fun i => ?_⟩
  have within : (getMaxphyaddrMask platform).toNat.testBit i = decide (i < stop) := by
    rw [limit, Nat.testBit_two_pow_sub_one]
  rw [within]
  by_cases below : i < stop
  · by_cases above : low ≤ i
    · have set := between i above below
      simp only [decide_eq_false_iff_not] at set
      rw [(select (by omega)).mp set]
      simp [above, below]
    · have clear := before i (by omega) (by omega)
      simp only [decide_eq_false_iff_not] at clear
      rw [Bool.eq_false_iff.mpr (mt (select (by omega)).mpr clear)]
      simp [above]
  · rw [UInt64.toNat_and, Nat.testBit_and, within]
    simp [below]

theorem masksLoop_sound {mtrrs : List VarMtrr} (accepted : masksLoop platform mtrrs = true) :
    ∀ mtrr ∈ mtrrs, mtrr.v ≠ 0 → Contiguous (getMaxphyaddrMask platform) mtrr.mask := by
  induction mtrrs with
  | nil => simp
  | cons first rest ih =>
      rw [masksLoop] at accepted
      intro mtrr inside valid
      rcases List.mem_cons.mp inside with rfl | later
      · rw [if_neg valid] at accepted
        by_cases contiguous : maskContiguous platform mtrr.mask = true
        · exact maskContiguous_sound contiguous
        · rw [if_pos contiguous] at accepted
          cases accepted
      · split at accepted
        · exact ih accepted mtrr later valid
        · split at accepted
          · cases accepted
          · exact ih accepted mtrr later valid

end Masks

section Overlaps

variable {platform : MtrrPlatform} {state : MtrrState}

/-- The range contains the page. -/
def VarMtrr.Holds (platform : MtrrPlatform) (page : UInt64) (mtrr : VarMtrr) : Prop :=
  mtrr.v ≠ 0 ∧ Matches (getMaxphyaddrMask platform) mtrr.mask mtrr.base page

/-- The types of the ranges that contain a page. -/
def typesAt (platform : MtrrPlatform) (page : UInt64) (mtrrs : List VarMtrr) : Set UInt8 :=
  {type | ∃ mtrr ∈ mtrrs, mtrr.Holds platform page ∧ mtrr.type = type}

/-- On common pages the types of two ranges can be combined. -/
def Combine (platform : MtrrPlatform) (state : MtrrState) (first second : VarMtrr) : Prop :=
  ∀ page, first.Holds platform page → second.Holds platform page →
    mtrrTypeUncachable ∈ typesAt platform page state.varMtrrs ∨ first.type = second.type ∨
      first.type ∈ ({mtrrTypeWrthrough, mtrrTypeWrback} : Set UInt8) ∧
        second.type ∈ ({mtrrTypeWrthrough, mtrrTypeWrback} : Set UInt8)

theorem Combine.symm {first second : VarMtrr} (combine : Combine platform state first second) :
    Combine platform state second first := by
  intro page two one
  rcases combine page one two with uncachable | same | ⟨left, right⟩
  · exact .inl uncachable
  · exact .inr (.inl same.symm)
  · exact .inr (.inr ⟨right, left⟩)

/-- The third range contains the pages of one of the two. -/
theorem containingLoop_sound {first second : VarMtrr} {mtrrs : List VarMtrr}
    (found : containingLoop platform first second mtrrs = true) {page : UInt64}
    (one : first.Holds platform page) (two : second.Holds platform page) :
    mtrrTypeUncachable ∈ typesAt platform page mtrrs := by
  induction mtrrs with
  | nil => cases found
  | cons third rest ih =>
      have later (more : containingLoop platform first second rest = true) :
          mtrrTypeUncachable ∈ typesAt platform page (third :: rest) := by
        obtain ⟨mtrr, inside, holds, type⟩ := ih more
        exact ⟨mtrr, List.mem_cons_of_mem _ inside, holds, type⟩
      rw [containingLoop] at found
      by_cases valid : third.v = 0
      · rw [if_pos valid] at found
        exact later found
      rw [if_neg valid] at found
      by_cases type : third.type ≠ mtrrTypeUncachable
      · rw [if_pos type] at found
        exact later found
      rw [if_neg type] at found
      have here (matching : Matches (getMaxphyaddrMask platform) third.mask third.base page) :
          mtrrTypeUncachable ∈ typesAt platform page (third :: rest) :=
        ⟨third, List.mem_cons_self, ⟨valid, matching⟩, not_not.mp type⟩
      split at found
      next covers => exact here (one.2.contained (within_of_and_not covers.2) covers.1)
      next =>
        split at found
        next covers => exact here (two.2.contained (within_of_and_not covers.2) covers.1)
        next => exact later found

/-- Two ranges with a common page are not told to be disjoint. -/
theorem overlap_of_holds {first second : VarMtrr} {page : UInt64}
    (firstRun : Contiguous (getMaxphyaddrMask platform) first.mask)
    (secondRun : Contiguous (getMaxphyaddrMask platform) second.mask)
    (one : first.Holds platform page) (two : second.Holds platform page) :
    ¬ (first.base &&& first.mask &&& second.mask &&& getMaxphyaddrMask platform ≠
          second.base &&& second.mask &&& getMaxphyaddrMask platform ∧
        second.base &&& second.mask &&& first.mask &&& getMaxphyaddrMask platform ≠
          first.base &&& first.mask &&& getMaxphyaddrMask platform) := by
  rintro ⟨left, right⟩
  rcases contiguous_within firstRun secondRun with within | within
  · exact left (bases_agree within one.2 two.2)
  · exact right (bases_agree within two.2 one.2)

theorem overlapLoop_sound {first : VarMtrr} {mtrrs : List VarMtrr}
    (accepted : overlapLoop platform state first mtrrs = true)
    (firstRun : Contiguous (getMaxphyaddrMask platform) first.mask)
    (runs : ∀ mtrr ∈ mtrrs, mtrr.v ≠ 0 → Contiguous (getMaxphyaddrMask platform) mtrr.mask)
    (firstIn : first ∈ state.varMtrrs) (saved : ∀ mtrr ∈ mtrrs, mtrr ∈ state.varMtrrs) :
    ∀ second ∈ mtrrs, Combine platform state first second := by
  induction mtrrs with
  | nil => simp
  | cons next rest ih =>
      have later (more : overlapLoop platform state first rest = true) :=
        ih more (fun mtrr inside => runs mtrr (List.mem_cons_of_mem _ inside))
          (fun mtrr inside => saved mtrr (List.mem_cons_of_mem _ inside))
      have all (here : Combine platform state first next)
          (more : overlapLoop platform state first rest = true) :
          ∀ second ∈ next :: rest, Combine platform state first second := by
        intro second inside
        rcases List.mem_cons.mp inside with rfl | behind
        · exact here
        · exact later more second behind
      rw [overlapLoop] at accepted
      split at accepted
      next invalid => exact all (fun page one two => absurd invalid two.1) accepted
      next valid =>
      split at accepted
      next apart =>
        exact all (fun page one two => absurd apart
          (overlap_of_holds firstRun (runs next List.mem_cons_self valid) one two)) accepted
      next =>
      split at accepted
      next same => exact all (fun page one two => .inr (.inl same)) accepted
      next =>
      split at accepted
      next uncachable =>
        refine all (fun page one two => .inl ?_) accepted
        rcases uncachable with type | type
        · exact ⟨first, firstIn, one, type⟩
        · exact ⟨next, saved next List.mem_cons_self, two, type⟩
      next =>
      split at accepted
      next types =>
        exact all (fun page one two => .inr (.inr (by simp [types.1, types.2]))) accepted
      next =>
      split at accepted
      next types =>
        exact all (fun page one two => .inr (.inr (by simp [types.1, types.2]))) accepted
      next =>
      split at accepted
      next third =>
        exact all (fun page one two => .inl (containingLoop_sound third one two)) accepted
      next => cases accepted

theorem overlapsLoop_sound {mtrrs : List VarMtrr}
    (accepted : overlapsLoop platform state mtrrs = true)
    (runs : ∀ mtrr ∈ mtrrs, mtrr.v ≠ 0 → Contiguous (getMaxphyaddrMask platform) mtrr.mask)
    (saved : ∀ mtrr ∈ mtrrs, mtrr ∈ state.varMtrrs) :
    mtrrs.Pairwise (Combine platform state) := by
  induction mtrrs with
  | nil => exact .nil
  | cons first rest ih =>
      have restRuns : ∀ mtrr ∈ rest, mtrr.v ≠ 0 →
          Contiguous (getMaxphyaddrMask platform) mtrr.mask :=
        fun mtrr inside => runs mtrr (List.mem_cons_of_mem _ inside)
      have restSaved : ∀ mtrr ∈ rest, mtrr ∈ state.varMtrrs :=
        fun mtrr inside => saved mtrr (List.mem_cons_of_mem _ inside)
      rw [overlapsLoop] at accepted
      split at accepted
      next invalid =>
        exact .cons (fun second _ page one _ => absurd invalid one.1)
          (ih accepted restRuns restSaved)
      next valid =>
        split at accepted
        next => cases accepted
        next good =>
          exact .cons (overlapLoop_sound (not_not.mp good)
            (runs first List.mem_cons_self valid) restRuns (saved first List.mem_cons_self)
            restSaved) (ih accepted restRuns restSaved)

/-- Validated registers have compatible types on every page. -/
theorem compatible_of_pairwise (pairs : state.varMtrrs.Pairwise (Combine platform state))
    (page : UInt64) : Compatible (typesAt platform page state.varMtrrs) := by
  have symmetric : Std.Symm (Combine platform state) := ⟨fun _ _ combine => combine.symm⟩
  have all := List.Pairwise.forall_of_forall
    (fun mtrr _ page _ _ => .inr (.inl rfl) : ∀ mtrr ∈ state.varMtrrs,
      Combine platform state mtrr mtrr) pairs
  apply compatible_of_pairs
  rintro _ ⟨first, firstIn, one, rfl⟩ _ ⟨second, secondIn, two, rfl⟩
  exact all firstIn secondIn page one two

end Overlaps

section Pages

variable {platform : MtrrPlatform} {state : MtrrState} {page : UInt64}

theorem typesAt_cons_of_holds {mtrr : VarMtrr} {rest : List VarMtrr}
    (holds : mtrr.Holds platform page) :
    typesAt platform page (mtrr :: rest) = {mtrr.type} ∪ typesAt platform page rest := by
  ext type
  constructor
  · rintro ⟨other, inside, matching, rfl⟩
    rcases List.mem_cons.mp inside with rfl | later
    · exact .inl rfl
    · exact .inr ⟨other, later, matching, rfl⟩
  · rintro (rfl | ⟨other, later, matching, rfl⟩)
    · exact ⟨mtrr, List.mem_cons_self, holds, rfl⟩
    · exact ⟨other, List.mem_cons_of_mem _ later, matching, rfl⟩

theorem typesAt_cons_of_not_holds {mtrr : VarMtrr} {rest : List VarMtrr}
    (holds : ¬ mtrr.Holds platform page) :
    typesAt platform page (mtrr :: rest) = typesAt platform page rest := by
  ext type
  constructor
  · rintro ⟨other, inside, matching, rfl⟩
    rcases List.mem_cons.mp inside with rfl | later
    · exact absurd matching holds
    · exact ⟨other, later, matching, rfl⟩
  · rintro ⟨other, later, matching, rfl⟩
    exact ⟨other, List.mem_cons_of_mem _ later, matching, rfl⟩

/-- What the variables of the loop say about the types met so far. -/
structure Met (seen : Set UInt8) (type : Option UInt8) (wt : Bool) : Prop where
  absent : type = none → seen = ∅
  present : ∀ last, type = some last → last ∈ seen
  wt : wt = true ↔ mtrrTypeWrthrough ∈ seen
  cachable : mtrrTypeUncachable ∉ seen

theorem pageTypeLoop_nil (type : Option UInt8) (wt : Bool) :
    pageTypeLoop platform state page [] type wt =
      if wt then mtrrTypeWrthrough else type.getD state.defType := by
  cases type <;> rfl

/-- The end of the loop. -/
theorem Met.effective {seen : Set UInt8} {type : Option UInt8} {wt : Bool}
    (met : Met seen type wt) (compatible : Compatible seen) :
    EffectiveType state.defType seen (pageTypeLoop platform state page [] type wt) := by
  rw [pageTypeLoop_nil]
  rcases compatible with uncachable | alone | cached
  · exact absurd uncachable met.cachable
  · cases wt with
    | true =>
        have member := met.wt.mp rfl
        exact .single (alone.eq_singleton_of_mem member)
    | false =>
        cases type with
        | none => exact .unmatched (met.absent rfl)
        | some last => exact .single (alone.eq_singleton_of_mem (met.present last rfl))
  · cases wt with
    | true =>
        have member := met.wt.mp rfl
        by_cases both : mtrrTypeWrback ∈ seen
        · apply EffectiveType.writeThrough
          apply Set.Subset.antisymm cached
          rintro other (rfl | rfl)
          · exact member
          · exact both
        · apply EffectiveType.single
          ext other
          constructor
          · intro inside
            rcases cached inside with through | back
            · exact through
            · exact absurd (back ▸ inside) both
          · rintro rfl
            exact member
    | false =>
        have through : mtrrTypeWrthrough ∉ seen := fun member => by simpa using met.wt.mpr member
        cases type with
        | none => exact .unmatched (met.absent rfl)
        | some last =>
            have back : ∀ other ∈ seen, other = mtrrTypeWrback := by
              intro other inside
              rcases cached inside with bad | good
              · exact absurd (bad ▸ inside) through
              · exact good
            have member := met.present last rfl
            apply EffectiveType.single
            ext other
            constructor
            · intro inside
              exact (back other inside).trans (back last member).symm
            · rintro rfl
              exact member

/-- One more range that contains the page. -/
theorem Met.next {seen : Set UInt8} {type : Option UInt8} {wt : Bool} (met : Met seen type wt)
    {next : UInt8} (cachable : next ≠ mtrrTypeUncachable) :
    Met (seen ∪ {next}) (some next) (wt || next = mtrrTypeWrthrough) := by
  constructor
  · intro absent
    cases absent
  · rintro last ⟨⟩
    exact .inr rfl
  · rw [Bool.or_eq_true, decide_eq_true_eq, met.wt]
    constructor
    · rintro (before | now)
      · exact .inl before
      · exact .inr now.symm
    · rintro (before | now)
      · exact .inl before
      · exact .inr now.symm
  · rintro (before | now)
    · exact met.cachable before
    · exact cachable now.symm

theorem pageTypeLoop_effective {mtrrs : List VarMtrr} {seen : Set UInt8} {type : Option UInt8}
    {wt : Bool} (met : Met seen type wt)
    (compatible : Compatible (seen ∪ typesAt platform page mtrrs)) :
    EffectiveType state.defType (seen ∪ typesAt platform page mtrrs)
      (pageTypeLoop platform state page mtrrs type wt) := by
  induction mtrrs generalizing seen type wt with
  | nil =>
      have empty : typesAt platform page [] = ∅ := by
        ext type
        simp [typesAt]
      rw [empty, Set.union_empty] at compatible ⊢
      exact met.effective compatible
  | cons mtrr rest ih =>
      rw [pageTypeLoop]
      by_cases valid : mtrr.v = 0
      · rw [if_pos valid]
        have skipped := @typesAt_cons_of_not_holds platform page mtrr rest
          (fun holds => holds.1 valid)
        rw [skipped] at compatible ⊢
        exact ih met compatible
      rw [if_neg valid]
      by_cases matching : page &&& mtrr.mask &&& getMaxphyaddrMask platform =
        mtrr.base &&& mtrr.mask &&& getMaxphyaddrMask platform
      swap
      · rw [if_pos matching]
        have skipped := @typesAt_cons_of_not_holds platform page mtrr rest
          (fun holds => matching holds.2)
        rw [skipped] at compatible ⊢
        exact ih met compatible
      rw [if_neg (not_not.mpr matching)]
      have added := @typesAt_cons_of_holds platform page mtrr rest ⟨valid, matching⟩
      by_cases uncachable : mtrr.type = mtrrTypeUncachable
      · rw [if_pos uncachable]
        apply EffectiveType.uncachable
        rw [added, uncachable]
        exact .inr (.inl rfl)
      · rw [if_neg uncachable]
        rw [added, ← Set.union_assoc] at compatible ⊢
        exact ih (met.next uncachable) compatible

/-- Where the types are compatible, `get_page_type` returns the effective one. -/
theorem getPageType_effective {base : UInt32}
    (compatible : Compatible (typesAt platform (base >>> 12).toUInt64 state.varMtrrs)) :
    EffectiveType state.defType (typesAt platform (base >>> 12).toUInt64 state.varMtrrs)
      (getPageType platform state base) := by
  have start : Met ∅ none false :=
    ⟨fun _ => rfl, fun _ absent => (nomatch absent), by simp, by simp⟩
  have result := @pageTypeLoop_effective platform state (base >>> 12).toUInt64 state.varMtrrs
    ∅ none false start (by rwa [Set.empty_union])
  rwa [Set.empty_union] at result

theorem typesAt_perm {mtrrs others : List VarMtrr} (permuted : mtrrs.Perm others) :
    typesAt platform page mtrrs = typesAt platform page others := by
  ext type
  simp only [typesAt, Set.mem_ofPred_eq, permuted.mem_iff]

theorem validateMtrrs_eq_true (enabled : state.e ≠ 0)
    (accepted : validateMtrrs platform state = true) :
    masksLoop platform state.varMtrrs = true ∧
      overlapsLoop platform state state.varMtrrs = true := by
  rw [validateMtrrs, if_neg enabled] at accepted
  split at accepted
  · cases accepted
  split at accepted
  · cases accepted
  next masks =>
    split at accepted
    · cases accepted
    next overlaps => exact ⟨not_not.mp masks, not_not.mp overlaps⟩

/-- Validated registers give every page a defined type, whatever their order. -/
theorem validateMtrrs_sound (enabled : state.e ≠ 0)
    (accepted : validateMtrrs platform state = true) :
    (∀ mtrr ∈ state.varMtrrs, mtrr.v ≠ 0 →
      Contiguous (getMaxphyaddrMask platform) mtrr.mask) ∧
    (∀ page, Compatible (typesAt platform page state.varMtrrs)) ∧
    (∀ base : UInt32,
      EffectiveType state.defType (typesAt platform (base >>> 12).toUInt64 state.varMtrrs)
        (getPageType platform state base)) ∧
    ∀ permuted : MtrrState, permuted.mtrrDefType = state.mtrrDefType →
      permuted.varMtrrs.Perm state.varMtrrs →
      ∀ base, getPageType platform permuted base = getPageType platform state base := by
  obtain ⟨masks, overlaps⟩ := validateMtrrs_eq_true enabled accepted
  have runs := masksLoop_sound masks
  have compatible := compatible_of_pairwise
    (overlapsLoop_sound overlaps runs fun _ inside => inside)
  refine ⟨runs, compatible, fun base => getPageType_effective (compatible _), ?_⟩
  intro permuted same order base
  have types := @typesAt_perm platform (base >>> 12).toUInt64 _ _ order
  have other := @getPageType_effective platform permuted base (by
    rw [types]
    exact compatible _)
  have default : permuted.defType = state.defType := congrArg UInt64.toUInt8 same
  rw [types, default] at other
  exact other.unique (getPageType_effective (compatible _))

/-- A processor with 36 address bits. -/
def smallPlatform : MtrrPlatform where
  cpuidEax := fun leaf => if leaf = 0x80000008 then 36 else 0x80000008
  mtrrCap := 8
  ioapicAddress := some 0xfec00000
  mcfgBaseAddress := none

/-- One gigabyte of write-back memory, whose first megabyte is write-through, and
uncachable memory elsewhere. -/
def smallMtrrs : MtrrState where
  mtrrDefType := 0x800
  varMtrrs := [⟨6, 0xfc0000800⟩, ⟨4, 0xffff00800⟩, ⟨0, 0⟩]

theorem validateMtrrs_sound_small :
    validateMtrrs smallPlatform smallMtrrs = true ∧
      EffectiveType 0 (typesAt smallPlatform 0 smallMtrrs.varMtrrs)
        (getPageType smallPlatform smallMtrrs 0) ∧
      getPageType smallPlatform ⟨0x800, smallMtrrs.varMtrrs.reverse⟩ 0 =
        getPageType smallPlatform smallMtrrs 0 := by
  have accepted : validateMtrrs smallPlatform smallMtrrs = true := by decide +kernel
  obtain ⟨-, -, effective, permuted⟩ := validateMtrrs_sound (by decide) accepted
  exact ⟨accepted, effective 0,
    permuted ⟨0x800, smallMtrrs.varMtrrs.reverse⟩ rfl (List.reverse_perm _) 0⟩

end Pages

end Sable
