import Mathlib.Algebra.Group.Nat.Defs
import Mathlib.Data.Finset.Card
import Mathlib.Data.List.Pairwise
import Mathlib.Order.MinMax
import Mathlib.Tactic.Common

/-!
# Tables of address regions

A table lists half-open ranges of addresses, each with a kind.  Looking up an
address finds the kind of the first region that holds it.  Two changes are
studied: overwriting a range with one kind, and giving a new kind to the
selected regions inside a range.  How many regions are left after a row of
such changes is counted on the regions before them.
-/

namespace RegionTable

structure Region (ι κ : Type*) where
  base : ι
  limit : ι
  kind : κ
  deriving DecidableEq

variable {ι κ : Type*} [LinearOrder ι]

def Region.Holds (region : Region ι κ) (a : ι) : Prop :=
  region.base ≤ a ∧ a < region.limit

instance (region : Region ι κ) (a : ι) : Decidable (region.Holds a) :=
  inferInstanceAs (Decidable (_ ∧ _))

/-- The kind of the first region that holds an address. -/
def lookup : List (Region ι κ) → ι → Option κ
  | [], _ => none
  | region :: regions, a =>
      if region.Holds a then some region.kind else lookup regions a

/-- Regions in ascending order, none of them empty and no two overlapping. -/
structure WellFormed (regions : List (Region ι κ)) : Prop where
  nonempty : ∀ region ∈ regions, region.base < region.limit
  ascending : regions.Pairwise fun first second => first.limit ≤ second.base

section Lookup

theorem lookup_append (front back : List (Region ι κ)) (a : ι) :
    lookup (front ++ back) a = (lookup front a).or (lookup back a) := by
  induction front with
  | nil => rfl
  | cons region front ih =>
      rw [List.cons_append, lookup, lookup]
      by_cases holds : region.Holds a
      · simp only [if_pos holds, Option.some_or]
      · simp only [if_neg holds, ih]

theorem lookup_eq_none {regions : List (Region ι κ)} {a : ι}
    (outside : ∀ region ∈ regions, ¬ region.Holds a) : lookup regions a = none := by
  induction regions with
  | nil => rfl
  | cons region regions ih =>
      rw [List.forall_mem_cons] at outside
      rw [lookup, if_neg outside.1]
      exact ih outside.2

/-- A region found by a lookup. -/
theorem exists_of_lookup {regions : List (Region ι κ)} {a : ι} {kind : κ}
    (found : lookup regions a = some kind) :
    ∃ region ∈ regions, region.Holds a ∧ region.kind = kind := by
  induction regions with
  | nil => cases found
  | cons region regions ih =>
      rw [lookup] at found
      by_cases holds : region.Holds a
      · rw [if_pos holds] at found
        exact ⟨region, List.mem_cons_self, holds, Option.some.inj found⟩
      · rw [if_neg holds] at found
        obtain ⟨other, member, rest⟩ := ih found
        exact ⟨other, List.mem_cons_of_mem _ member, rest⟩

/-- In a well-formed table every region is the one its addresses find. -/
theorem WellFormed.lookup_eq {regions : List (Region ι κ)} (valid : WellFormed regions)
    {region : Region ι κ} (member : region ∈ regions) {a : ι} (holds : region.Holds a) :
    lookup regions a = some region.kind := by
  induction regions with
  | nil => cases member
  | cons first regions ih =>
      rw [lookup]
      rcases List.mem_cons.mp member with rfl | later
      · rw [if_pos holds]
      · have order := List.rel_of_pairwise_cons valid.ascending later
        rw [if_neg fun early => absurd (early.2.trans_le order) holds.1.not_gt]
        exact ih ⟨fun other member =>
          valid.nonempty other (List.mem_cons_of_mem _ member), valid.ascending.tail⟩ later

end Lookup

namespace WellFormed

theorem nil : WellFormed ([] : List (Region ι κ)) :=
  ⟨by simp, List.Pairwise.nil⟩

theorem singleton {region : Region ι κ} (nonempty : region.base < region.limit) :
    WellFormed [region] :=
  ⟨by simpa using nonempty, List.pairwise_singleton _ _⟩

theorem append_iff {front back : List (Region ι κ)} :
    WellFormed (front ++ back) ↔ WellFormed front ∧ WellFormed back ∧
      ∀ first ∈ front, ∀ second ∈ back, first.limit ≤ second.base := by
  constructor
  · rintro ⟨nonempty, ascending⟩
    rw [List.pairwise_append] at ascending
    rw [List.forall_mem_append] at nonempty
    exact ⟨⟨nonempty.1, ascending.1⟩, ⟨nonempty.2, ascending.2.1⟩, ascending.2.2⟩
  · rintro ⟨first, second, apart⟩
    exact ⟨List.forall_mem_append.mpr ⟨first.nonempty, second.nonempty⟩,
      List.pairwise_append.mpr ⟨first.ascending, second.ascending, apart⟩⟩

theorem cons_iff {region : Region ι κ} {regions : List (Region ι κ)} :
    WellFormed (region :: regions) ↔ region.base < region.limit ∧ WellFormed regions ∧
      ∀ second ∈ regions, region.limit ≤ second.base := by
  constructor
  · rintro ⟨nonempty, ascending⟩
    rw [List.pairwise_cons] at ascending
    rw [List.forall_mem_cons] at nonempty
    exact ⟨nonempty.1, ⟨nonempty.2, ascending.2⟩, ascending.1⟩
  · rintro ⟨nonempty, valid, apart⟩
    exact ⟨List.forall_mem_cons.mpr ⟨nonempty, valid.nonempty⟩,
      List.pairwise_cons.mpr ⟨apart, valid.ascending⟩⟩

/-- Subdividing every region of a well-formed table. -/
theorem flatMap {regions : List (Region ι κ)} (valid : WellFormed regions)
    {divide : Region ι κ → List (Region ι κ)}
    (parts : ∀ region, region.base < region.limit → WellFormed (divide region))
    (inside : ∀ region, ∀ part ∈ divide region,
      region.base ≤ part.base ∧ part.limit ≤ region.limit) :
    WellFormed (regions.flatMap divide) := by
  induction regions with
  | nil => exact nil
  | cons region regions ih =>
      obtain ⟨nonempty, rest, apart⟩ := cons_iff.mp valid
      rw [List.flatMap_cons]
      refine append_iff.mpr ⟨parts region nonempty, ih rest, ?_⟩
      intro first firstMember second secondMember
      obtain ⟨origin, originMember, partMember⟩ := List.mem_flatMap.mp secondMember
      calc
        first.limit ≤ region.limit := (inside region first firstMember).2
        _ ≤ origin.base := apart origin originMember
        _ ≤ second.base := (inside origin second partMember).1

/-- Replacing every region by at most one part of it. -/
theorem filterMap {regions : List (Region ι κ)} (valid : WellFormed regions)
    {cut : Region ι κ → Option (Region ι κ)}
    (nonempty : ∀ region part, region.base < region.limit → cut region = some part →
      part.base < part.limit)
    (inside : ∀ region part, cut region = some part →
      region.base ≤ part.base ∧ part.limit ≤ region.limit) :
    WellFormed (regions.filterMap cut) := by
  constructor
  · intro part member
    obtain ⟨region, origin, cutEq⟩ := List.mem_filterMap.mp member
    exact nonempty region part (valid.nonempty region origin) cutEq
  · apply valid.ascending.filterMap
    intro first second order part partEq other otherEq
    calc
      part.limit ≤ first.limit := (inside first part partEq).2
      _ ≤ second.base := order
      _ ≤ other.base := (inside second other otherEq).1

end WellFormed

section Cut

/-- The part of a region below an address. -/
def cutBelow (lo : ι) (region : Region ι κ) : Option (Region ι κ) :=
  if region.base < lo then some { region with limit := min region.limit lo } else none

/-- The part of a region from an address on. -/
def cutAbove (hi : ι) (region : Region ι κ) : Option (Region ι κ) :=
  if hi < region.limit then some { region with base := max region.base hi } else none

theorem cutBelow_some {lo : ι} {region part : Region ι κ}
    (cut : cutBelow lo region = some part) :
    region.base < lo ∧ part = { region with limit := min region.limit lo } := by
  rw [cutBelow] at cut
  by_cases below : region.base < lo
  · rw [if_pos below] at cut
    exact ⟨below, (Option.some.inj cut).symm⟩
  · rw [if_neg below] at cut
    cases cut

theorem cutAbove_some {hi : ι} {region part : Region ι κ}
    (cut : cutAbove hi region = some part) :
    hi < region.limit ∧ part = { region with base := max region.base hi } := by
  rw [cutAbove] at cut
  by_cases above : hi < region.limit
  · rw [if_pos above] at cut
    exact ⟨above, (Option.some.inj cut).symm⟩
  · rw [if_neg above] at cut
    cases cut

theorem cutBelow_of_le {lo : ι} {region : Region ι κ} (nonempty : region.base < region.limit)
    (below : region.limit ≤ lo) : cutBelow lo region = some region := by
  rw [cutBelow, if_pos (nonempty.trans_le below), min_eq_left below]

theorem cutBelow_of_ge {lo : ι} {region : Region ι κ} (above : lo ≤ region.base) :
    cutBelow lo region = none := by
  rw [cutBelow, if_neg above.not_gt]

theorem cutAbove_of_ge {hi : ι} {region : Region ι κ} (nonempty : region.base < region.limit)
    (above : hi ≤ region.base) : cutAbove hi region = some region := by
  rw [cutAbove, if_pos (above.trans_lt nonempty), max_eq_left above]

theorem cutAbove_of_le {hi : ι} {region : Region ι κ} (below : region.limit ≤ hi) :
    cutAbove hi region = none := by
  rw [cutAbove, if_neg below.not_gt]

theorem WellFormed.cutBelow {regions : List (Region ι κ)} (valid : WellFormed regions)
    (lo : ι) : WellFormed (regions.filterMap (cutBelow lo)) := by
  apply valid.filterMap
  · intro region part nonempty cut
    obtain ⟨below, rfl⟩ := cutBelow_some cut
    exact lt_min nonempty below
  · intro region part cut
    obtain ⟨-, rfl⟩ := cutBelow_some cut
    exact ⟨le_rfl, min_le_left _ _⟩

theorem WellFormed.cutAbove {regions : List (Region ι κ)} (valid : WellFormed regions)
    (hi : ι) : WellFormed (regions.filterMap (cutAbove hi)) := by
  apply valid.filterMap
  · intro region part nonempty cut
    obtain ⟨above, rfl⟩ := cutAbove_some cut
    exact max_lt nonempty above
  · intro region part cut
    obtain ⟨-, rfl⟩ := cutAbove_some cut
    exact ⟨le_max_left _ _, le_rfl⟩

/-- A table below an address is cut nowhere. -/
theorem filterMap_cutBelow_of_le {regions : List (Region ι κ)} (valid : WellFormed regions)
    {lo : ι} (below : ∀ region ∈ regions, region.limit ≤ lo) :
    regions.filterMap (cutBelow lo) = regions := by
  induction regions with
  | nil => rfl
  | cons region regions ih =>
      obtain ⟨nonempty, rest, -⟩ := WellFormed.cons_iff.mp valid
      rw [List.forall_mem_cons] at below
      rw [List.filterMap_cons_some (cutBelow_of_le nonempty below.1), ih rest below.2]

theorem filterMap_cutBelow_of_ge {regions : List (Region ι κ)} {lo : ι}
    (above : ∀ region ∈ regions, lo ≤ region.base) :
    regions.filterMap (cutBelow lo) = [] := by
  rw [List.filterMap_eq_nil_iff]
  exact fun region member => cutBelow_of_ge (above region member)

theorem filterMap_cutAbove_of_ge {regions : List (Region ι κ)} (valid : WellFormed regions)
    {hi : ι} (above : ∀ region ∈ regions, hi ≤ region.base) :
    regions.filterMap (cutAbove hi) = regions := by
  induction regions with
  | nil => rfl
  | cons region regions ih =>
      obtain ⟨nonempty, rest, -⟩ := WellFormed.cons_iff.mp valid
      rw [List.forall_mem_cons] at above
      rw [List.filterMap_cons_some (cutAbove_of_ge nonempty above.1), ih rest above.2]

theorem filterMap_cutAbove_of_le {regions : List (Region ι κ)} {hi : ι}
    (below : ∀ region ∈ regions, region.limit ≤ hi) :
    regions.filterMap (cutAbove hi) = [] := by
  rw [List.filterMap_eq_nil_iff]
  exact fun region member => cutAbove_of_le (below region member)

/-- The first region that reaches above an address is the only one cut there. -/
theorem filterMap_cutAbove_cons {region : Region ι κ} {regions : List (Region ι κ)}
    (valid : WellFormed (region :: regions)) {hi : ι} (above : hi < region.limit) :
    (region :: regions).filterMap (cutAbove hi) =
      { region with base := max region.base hi } :: regions := by
  obtain ⟨-, rest, apart⟩ := WellFormed.cons_iff.mp valid
  rw [List.filterMap_cons_some (by rw [cutAbove, if_pos above]),
    filterMap_cutAbove_of_ge rest fun other member => above.le.trans (apart other member)]

theorem holds_min (region : Region ι κ) (lo a : ι) :
    Region.Holds { region with limit := min region.limit lo } a ↔ region.Holds a ∧ a < lo := by
  simp only [Region.Holds, lt_min_iff, and_assoc]

theorem holds_max (region : Region ι κ) (hi a : ι) :
    Region.Holds { region with base := max region.base hi } a ↔ region.Holds a ∧ hi ≤ a := by
  simp only [Region.Holds, max_le_iff]
  tauto

theorem lookup_cutBelow (regions : List (Region ι κ)) (lo a : ι) :
    lookup (regions.filterMap (cutBelow lo)) a =
      if a < lo then lookup regions a else none := by
  induction regions with
  | nil => simp [lookup]
  | cons region regions ih =>
      by_cases below : region.base < lo
      · rw [List.filterMap_cons_some (by rw [cutBelow, if_pos below]), lookup, lookup, ih]
        by_cases early : a < lo
        · simp only [holds_min, early, and_true, if_true]
        · simp only [holds_min, early, and_false, if_false]
      · rw [List.filterMap_cons_none (cutBelow_of_ge (not_lt.mp below)), ih, lookup]
        by_cases early : a < lo
        · have outside : ¬ region.Holds a := fun holds => below (holds.1.trans_lt early)
          simp only [outside, if_false]
        · simp only [early, if_false]

theorem lookup_cutAbove (regions : List (Region ι κ)) (hi a : ι) :
    lookup (regions.filterMap (cutAbove hi)) a =
      if hi ≤ a then lookup regions a else none := by
  induction regions with
  | nil => simp [lookup]
  | cons region regions ih =>
      by_cases above : hi < region.limit
      · rw [List.filterMap_cons_some (by rw [cutAbove, if_pos above]), lookup, lookup, ih]
        by_cases late : hi ≤ a
        · simp only [holds_max, late, and_true, if_true]
        · simp only [holds_max, late, and_false, if_false]
      · rw [List.filterMap_cons_none (cutAbove_of_le (not_lt.mp above)), ih, lookup]
        by_cases late : hi ≤ a
        · have outside : ¬ region.Holds a := fun holds => above (late.trans_lt holds.2)
          simp only [outside, if_false]
        · simp only [late, if_false]

end Cut

section Overwrite

/-- Give one kind to all addresses of a range, listed or not. -/
def overwrite (new : Region ι κ) (regions : List (Region ι κ)) : List (Region ι κ) :=
  regions.filterMap (cutBelow new.base) ++ new :: regions.filterMap (cutAbove new.limit)

theorem WellFormed.overwrite {regions : List (Region ι κ)} (valid : WellFormed regions)
    {new : Region ι κ} (nonempty : new.base < new.limit) :
    WellFormed (overwrite new regions) := by
  refine append_iff.mpr ⟨valid.cutBelow _, cons_iff.mpr ⟨nonempty, valid.cutAbove _, ?_⟩, ?_⟩
  · intro second member
    obtain ⟨region, -, cut⟩ := List.mem_filterMap.mp member
    obtain ⟨-, rfl⟩ := cutAbove_some cut
    exact le_max_right _ _
  · intro first firstMember second secondMember
    obtain ⟨region, -, cut⟩ := List.mem_filterMap.mp firstMember
    obtain ⟨-, rfl⟩ := cutBelow_some cut
    rcases List.mem_cons.mp secondMember with rfl | later
    · exact min_le_right _ _
    · obtain ⟨other, -, otherCut⟩ := List.mem_filterMap.mp later
      obtain ⟨-, rfl⟩ := cutAbove_some otherCut
      calc
        min region.limit new.base ≤ new.base := min_le_right _ _
        _ ≤ new.limit := nonempty.le
        _ ≤ max other.base new.limit := le_max_right _ _

/-- The new region and what it leaves of the old ones end below a bound. -/
theorem overwrite_limit_lt {regions : List (Region ι κ)} {new : Region ι κ} {bound : ι}
    (old : ∀ region ∈ regions, region.limit < bound) (fits : new.limit < bound)
    {region : Region ι κ} (member : region ∈ overwrite new regions) :
    region.limit < bound := by
  rcases List.mem_append.mp member with below | above
  · obtain ⟨origin, originMember, cut⟩ := List.mem_filterMap.mp below
    obtain ⟨-, rfl⟩ := cutBelow_some cut
    exact (min_le_left _ _).trans_lt (old origin originMember)
  · rcases List.mem_cons.mp above with rfl | above
    · exact fits
    · obtain ⟨origin, originMember, cut⟩ := List.mem_filterMap.mp above
      obtain ⟨-, rfl⟩ := cutAbove_some cut
      exact old origin originMember

theorem lookup_overwrite (regions : List (Region ι κ)) {new : Region ι κ}
    (nonempty : new.base < new.limit) (a : ι) :
    lookup (overwrite new regions) a =
      if new.Holds a then some new.kind else lookup regions a := by
  rw [overwrite, lookup_append, lookup, lookup_cutBelow, lookup_cutAbove]
  by_cases early : a < new.base
  · have before : ¬ new.limit ≤ a := not_le.mpr (early.trans nonempty)
    have outside : ¬ new.Holds a := fun holds => holds.1.not_gt early
    simp only [early, before, outside, if_true, if_false, Option.or_none]
  · by_cases late : new.limit ≤ a
    · have outside : ¬ new.Holds a := fun holds => late.not_gt holds.2
      simp only [early, late, outside, if_true, if_false, Option.none_or]
    · have inside : new.Holds a := ⟨not_lt.mp early, not_le.mp late⟩
      simp only [early, inside, if_true, if_false, Option.none_or]

end Overwrite

section Bases

variable {regions : List (Region ι κ)} {new : Region ι κ} {a : ι}

theorem isSome_lookup :
    (lookup regions a).isSome ↔ ∃ region ∈ regions, region.Holds a := by
  constructor
  · intro found
    obtain ⟨kind, same⟩ := Option.isSome_iff_exists.mp found
    obtain ⟨region, member, holds, -⟩ := exists_of_lookup same
    exact ⟨region, member, holds⟩
  · rintro ⟨region, member, holds⟩
    induction regions with
    | nil => cases member
    | cons first rest ih =>
        rw [lookup]
        by_cases found : first.Holds a
        · rw [if_pos found]
          rfl
        · rw [if_neg found]
          rcases List.mem_cons.mp member with rfl | later
          · exact (found holds).elim
          · exact ih later

theorem mem_bases_cutBelow {lo : ι} :
    a ∈ (regions.filterMap (cutBelow lo)).map Region.base ↔
      a ∈ regions.map Region.base ∧ a < lo := by
  simp only [List.mem_map, List.mem_filterMap]
  constructor
  · rintro ⟨part, ⟨region, member, cut⟩, rfl⟩
    obtain ⟨below, rfl⟩ := cutBelow_some cut
    exact ⟨⟨region, member, rfl⟩, below⟩
  · rintro ⟨⟨region, member, rfl⟩, below⟩
    exact ⟨_, ⟨region, member, if_pos below⟩, rfl⟩

theorem mem_bases_cutAbove {hi : ι} (nonempty : ∀ region ∈ regions, region.base < region.limit) :
    a ∈ (regions.filterMap (cutAbove hi)).map Region.base ↔
      a ∈ regions.map Region.base ∧ hi < a ∨ a = hi ∧ (lookup regions a).isSome := by
  simp only [isSome_lookup, List.mem_map, List.mem_filterMap]
  constructor
  · rintro ⟨part, ⟨region, member, cut⟩, rfl⟩
    obtain ⟨above, rfl⟩ := cutAbove_some cut
    rcases lt_or_ge hi region.base with later | early
    · rw [max_eq_left later.le]
      exact .inl ⟨⟨region, member, rfl⟩, later⟩
    · rw [max_eq_right early]
      exact .inr ⟨rfl, region, member, early, above⟩
  · rintro (⟨⟨region, member, rfl⟩, above⟩ | ⟨rfl, region, member, lower, upper⟩)
    · exact ⟨_, ⟨region, member, if_pos (above.trans (nonempty region member))⟩,
        max_eq_left above.le⟩
    · exact ⟨_, ⟨region, member, if_pos upper⟩, max_eq_right lower⟩

/-- Where the regions start after a range has been overwritten. -/
theorem mem_bases_overwrite (nonempty : ∀ region ∈ regions, region.base < region.limit)
    (filled : new.base < new.limit) :
    a ∈ (overwrite new regions).map Region.base ↔
      if new.Holds a then a = new.base
      else a ∈ regions.map Region.base ∨ a = new.limit ∧ (lookup regions a).isSome := by
  rw [overwrite, List.map_append, List.map_cons, List.mem_append, List.mem_cons,
    mem_bases_cutBelow, mem_bases_cutAbove nonempty]
  by_cases holds : new.Holds a
  · rw [if_pos holds]
    have lower : ¬ a < new.base := holds.1.not_gt
    have upper : ¬ new.limit < a := holds.2.not_gt
    have inside : a ≠ new.limit := holds.2.ne
    simp only [lower, upper, inside, and_false, false_and, or_false, false_or]
  · rw [if_neg holds]
    rcases lt_or_ge a new.base with early | late
    · have low : a < new.limit := early.trans filled
      simp only [early, early.ne, low.not_gt, low.ne, and_true, and_false, false_and, or_false]
    · have above : new.limit ≤ a := not_lt.mp fun below => holds ⟨late, below⟩
      have start : a ≠ new.base := (filled.trans_le above).ne'
      rcases above.eq_or_lt with rfl | above
      · have held : new.limit ∈ regions.map Region.base →
            (lookup regions new.limit).isSome := by
          intro member
          obtain ⟨region, inside, same⟩ := List.mem_map.mp member
          exact isSome_lookup.mpr ⟨region, inside, same.le, same ▸ nonempty region inside⟩
        simp only [filled.not_gt, start, lt_irrefl, and_false, true_and, false_or,
          or_iff_right_of_imp held]
      · simp only [late.not_gt, start, above, above.ne', and_false, and_true, false_and,
          false_or]

theorem overwrite_origin {part : Region ι κ} (member : part ∈ overwrite new regions)
    (kept : new.kind ≠ part.kind) :
    ∃ origin ∈ regions, origin.kind = part.kind ∧ origin.base ≤ part.base ∧
      part.limit ≤ origin.limit := by
  rw [overwrite, List.mem_append, List.mem_cons, List.mem_filterMap, List.mem_filterMap]
    at member
  rcases member with ⟨origin, listed, cut⟩ | rfl | ⟨origin, listed, cut⟩
  · obtain ⟨-, rfl⟩ := cutBelow_some cut
    exact ⟨origin, listed, rfl, le_rfl, min_le_left _ _⟩
  · exact absurd rfl kept
  · obtain ⟨-, rfl⟩ := cutAbove_some cut
    exact ⟨origin, listed, rfl, le_max_left _ _, le_rfl⟩

theorem WellFormed.eq_of_holds (valid : WellFormed regions) {first second : Region ι κ}
    (firstMember : first ∈ regions) (secondMember : second ∈ regions)
    (firstHolds : first.Holds a) (secondHolds : second.Holds a) : first = second := by
  induction regions with
  | nil => cases firstMember
  | cons head tail ih =>
      obtain ⟨-, rest, apart⟩ := WellFormed.cons_iff.mp valid
      rcases List.mem_cons.mp firstMember with rfl | firstLater <;>
        rcases List.mem_cons.mp secondMember with rfl | secondLater
      · rfl
      · exact absurd (firstHolds.2.trans_le (apart _ secondLater)) secondHolds.1.not_gt
      · exact absurd (secondHolds.2.trans_le (apart _ firstLater)) firstHolds.1.not_gt
      · exact ih rest firstLater secondLater

/-- An address lies behind the start of the region that holds it if no region starts there. -/
theorem WellFormed.inside_iff (valid : WellFormed regions) (kind : κ) :
    (∃ region ∈ regions, region.kind = kind ∧ region.base < a ∧ a < region.limit) ↔
      lookup regions a = some kind ∧ a ∉ regions.map Region.base := by
  rw [List.mem_map]
  constructor
  · rintro ⟨region, member, rfl, lower, upper⟩
    refine ⟨valid.lookup_eq member ⟨lower.le, upper⟩, ?_⟩
    rintro ⟨other, otherMember, start⟩
    have held : other.Holds a := ⟨start.le, start ▸ valid.nonempty other otherMember⟩
    have same := valid.eq_of_holds member otherMember ⟨lower.le, upper⟩ held
    exact lower.ne (same ▸ start)
  · rintro ⟨found, starts⟩
    obtain ⟨region, member, ⟨lower, upper⟩, selected⟩ := exists_of_lookup found
    exact ⟨region, member, selected, lower.lt_of_ne fun start => starts ⟨region, member, start⟩,
      upper⟩

theorem WellFormed.nodup_bases (valid : WellFormed regions) :
    (regions.map Region.base).Nodup := by
  rw [List.Nodup, List.pairwise_map]
  exact valid.ascending.imp_of_mem fun member _ order =>
    ((valid.nonempty _ member).trans_le order).ne

end Bases

section Recolour

/-- The part of a region inside a range, with a new kind. -/
def cutInside (lo hi : ι) (kind : κ) (region : Region ι κ) : Option (Region ι κ) :=
  if max region.base lo < min region.limit hi then
    some ⟨max region.base lo, min region.limit hi, kind⟩
  else none

theorem cutInside_some {lo hi : ι} {kind : κ} {region part : Region ι κ}
    (cut : cutInside lo hi kind region = some part) :
    max region.base lo < min region.limit hi ∧
      part = ⟨max region.base lo, min region.limit hi, kind⟩ := by
  rw [cutInside] at cut
  by_cases inside : max region.base lo < min region.limit hi
  · rw [if_pos inside] at cut
    exact ⟨inside, (Option.some.inj cut).symm⟩
  · rw [if_neg inside] at cut
    cases cut

theorem toList_wellFormed {part : Option (Region ι κ)}
    (nonempty : ∀ region, part = some region → region.base < region.limit) :
    WellFormed part.toList := by
  cases part with
  | none => exact .nil
  | some region => exact .singleton (nonempty region rfl)

variable [DecidableEq κ]

/-- A region split at the ends of a range, if it has the kind `old`. -/
def splitRegion (lo hi : ι) (old new : κ) (region : Region ι κ) : List (Region ι κ) :=
  if region.kind = old then
    (cutBelow lo region).toList ++ (cutInside lo hi new region).toList ++
      (cutAbove hi region).toList
  else [region]

/-- Give the kind `new` to the addresses of kind `old` in a range. -/
def recolour (lo hi : ι) (old new : κ) (regions : List (Region ι κ)) :
    List (Region ι κ) :=
  regions.flatMap (splitRegion lo hi old new)

theorem splitRegion_inside {lo hi : ι} {old new : κ} {region part : Region ι κ}
    (member : part ∈ splitRegion lo hi old new region) :
    region.base ≤ part.base ∧ part.limit ≤ region.limit := by
  rw [splitRegion] at member
  by_cases selected : region.kind = old
  · simp only [if_pos selected, List.mem_append, Option.mem_toList] at member
    rcases member with (cut | cut) | cut
    · obtain ⟨-, rfl⟩ := cutBelow_some cut
      exact ⟨le_rfl, min_le_left _ _⟩
    · obtain ⟨-, rfl⟩ := cutInside_some cut
      exact ⟨le_max_left _ _, min_le_left _ _⟩
    · obtain ⟨-, rfl⟩ := cutAbove_some cut
      exact ⟨le_max_left _ _, le_rfl⟩
  · rw [if_neg selected, List.mem_singleton] at member
    subst member
    exact ⟨le_rfl, le_rfl⟩

theorem splitRegion_wellFormed {lo hi : ι} (range : lo ≤ hi) (old new : κ)
    {region : Region ι κ} (nonempty : region.base < region.limit) :
    WellFormed (splitRegion lo hi old new region) := by
  rw [splitRegion]
  by_cases selected : region.kind = old
  · rw [if_pos selected]
    refine WellFormed.append_iff.mpr ⟨WellFormed.append_iff.mpr
      ⟨toList_wellFormed ?_, toList_wellFormed ?_, ?_⟩, toList_wellFormed ?_, ?_⟩
    · intro part cut
      obtain ⟨below, rfl⟩ := cutBelow_some cut
      exact lt_min nonempty below
    · intro part cut
      obtain ⟨inside, rfl⟩ := cutInside_some cut
      exact inside
    · intro first firstCut second secondCut
      obtain ⟨-, rfl⟩ := cutBelow_some (Option.mem_toList.mp firstCut)
      obtain ⟨-, rfl⟩ := cutInside_some (Option.mem_toList.mp secondCut)
      exact (min_le_right _ _).trans (le_max_right _ _)
    · intro part cut
      obtain ⟨above, rfl⟩ := cutAbove_some cut
      exact max_lt nonempty above
    · intro first firstCut second secondCut
      obtain ⟨-, rfl⟩ := cutAbove_some (Option.mem_toList.mp secondCut)
      rcases List.mem_append.mp firstCut with below | inside
      · obtain ⟨-, rfl⟩ := cutBelow_some (Option.mem_toList.mp below)
        exact (min_le_right _ _).trans (range.trans (le_max_right _ _))
      · obtain ⟨-, rfl⟩ := cutInside_some (Option.mem_toList.mp inside)
        exact (min_le_right _ _).trans (le_max_right _ _)
  · rw [if_neg selected]
    exact .singleton nonempty

theorem WellFormed.recolour {regions : List (Region ι κ)} (valid : WellFormed regions)
    {lo hi : ι} (range : lo ≤ hi) (old new : κ) :
    WellFormed (recolour lo hi old new regions) :=
  valid.flatMap (fun _ nonempty => splitRegion_wellFormed range old new nonempty)
    fun _ _ member => splitRegion_inside member

theorem lookup_splitRegion (lo hi : ι) (old new : κ)
    (region : Region ι κ) (a : ι) :
    lookup (splitRegion lo hi old new region) a =
      if region.Holds a then
        some (if region.kind = old ∧ lo ≤ a ∧ a < hi then new else region.kind)
      else none := by
  have below := lookup_cutBelow [region] lo a
  have above := lookup_cutAbove [region] hi a
  have inside : lookup (cutInside lo hi new region).toList a =
      if region.Holds a ∧ lo ≤ a ∧ a < hi then some new else none := by
    rw [cutInside]
    by_cases filled : max region.base lo < min region.limit hi
    · have same : Region.Holds ⟨max region.base lo, min region.limit hi, new⟩ a ↔
          region.Holds a ∧ lo ≤ a ∧ a < hi := by
        simp only [Region.Holds, max_le_iff, lt_min_iff, and_and_and_comm]
      simp only [if_pos filled, Option.toList_some, lookup, same]
    · rw [if_neg filled, if_neg, Option.toList_none, lookup]
      rintro ⟨holds, lower, upper⟩
      exact filled ((max_le holds.1 lower).trans_lt (lt_min holds.2 upper))
  have single (part : Option (Region ι κ)) (cut : Region ι κ → Option (Region ι κ))
      (same : cut region = part) : [region].filterMap cut = part.toList := by
    cases part <;> simp [same]
  rw [single _ _ rfl] at below above
  rw [splitRegion]
  by_cases selected : region.kind = old
  · rw [if_pos selected, lookup_append, lookup_append, below, above, inside]
    simp only [lookup]
    by_cases holds : region.Holds a
    · by_cases early : a < lo
      · simp [holds, early, not_le.mpr early]
      · by_cases late : hi ≤ a
        · simp [holds, early, late, not_lt.mpr late]
        · simp [holds, early, late, selected, not_lt.mp early, not_le.mp late]
    · simp [holds]
  · simp [selected, lookup]

/-- After recolouring, only selected addresses in the range have changed. -/
theorem lookup_recolour (regions : List (Region ι κ)) (lo hi : ι)
    (old new : κ) (a : ι) :
    lookup (recolour lo hi old new regions) a =
      (lookup regions a).map fun kind =>
        if kind = old ∧ lo ≤ a ∧ a < hi then new else kind := by
  induction regions with
  | nil => rfl
  | cons region regions ih =>
      rw [recolour, List.flatMap_cons, lookup_append, lookup_splitRegion, ← recolour, ih,
        lookup]
      by_cases holds : region.Holds a
      · simp only [if_pos holds, Option.some_or, Option.map_some]
      · simp only [if_neg holds, Option.none_or]

theorem splitRegion_of_le {lo hi : ι} {old new : κ} {region : Region ι κ}
    (nonempty : region.base < region.limit) (range : lo ≤ hi) (below : region.limit ≤ lo) :
    splitRegion lo hi old new region = [region] := by
  have outside : ¬ max region.base lo < min region.limit hi :=
    not_lt.mpr ((min_le_left _ _).trans (below.trans (le_max_right _ _)))
  simp only [splitRegion, cutBelow_of_le nonempty below, cutInside, if_neg outside,
    cutAbove_of_le (below.trans range)]
  split <;> rfl

theorem splitRegion_of_ge {lo hi : ι} {old new : κ} {region : Region ι κ}
    (nonempty : region.base < region.limit) (range : lo ≤ hi) (above : hi ≤ region.base) :
    splitRegion lo hi old new region = [region] := by
  have outside : ¬ max region.base lo < min region.limit hi :=
    not_lt.mpr ((min_le_right _ _).trans (above.trans (le_max_left _ _)))
  simp only [splitRegion, cutBelow_of_ge (range.trans above), cutInside, if_neg outside,
    cutAbove_of_ge nonempty above]
  split <;> rfl

theorem splitRegion_of_ne {lo hi : ι} {old new : κ} {region : Region ι κ}
    (other : region.kind ≠ old) : splitRegion lo hi old new region = [region] :=
  if_neg other

section Split

variable {lo hi : ι} {old new : κ} {region : Region ι κ}

/-- How far a range reaches behind a region does not matter. -/
theorem splitRegion_of_reach {other : ι} (upper : region.limit ≤ hi)
    (reach : region.limit ≤ other) :
    splitRegion lo hi old new region = splitRegion lo other old new region := by
  rw [splitRegion, splitRegion, cutAbove_of_le upper, cutAbove_of_le reach, cutInside, cutInside,
    min_eq_left upper, min_eq_left reach]

theorem splitRegion_of_covered (nonempty : region.base < region.limit)
    (selected : region.kind = old) (lower : lo ≤ region.base) (upper : region.limit ≤ hi) :
    splitRegion lo hi old new region = [{ region with kind := new }] := by
  rw [splitRegion, if_pos selected, cutBelow_of_ge lower, cutAbove_of_le upper, cutInside,
    max_eq_left lower, min_eq_left upper, if_pos nonempty]
  rfl

theorem splitRegion_of_front (selected : region.kind = old) (lower : lo ≤ region.base)
    (inside : region.base < hi) (upper : hi < region.limit) :
    splitRegion lo hi old new region =
      [⟨region.base, hi, new⟩, { region with base := hi }] := by
  rw [splitRegion, if_pos selected, cutBelow_of_ge lower, cutAbove, if_pos upper, cutInside,
    max_eq_left lower, min_eq_right upper.le, if_pos inside, max_eq_right inside.le]
  rfl

theorem splitRegion_of_back (selected : region.kind = old) (lower : region.base < lo)
    (inside : lo < region.limit) (upper : region.limit ≤ hi) :
    splitRegion lo hi old new region =
      [{ region with limit := lo }, ⟨lo, region.limit, new⟩] := by
  rw [splitRegion, if_pos selected, cutBelow, if_pos lower, cutAbove_of_le upper, cutInside,
    max_eq_right lower.le, min_eq_left upper, if_pos inside, min_eq_right inside.le]
  rfl

theorem splitRegion_of_middle (selected : region.kind = old) (lower : region.base < lo)
    (range : lo < hi) (upper : hi < region.limit) :
    splitRegion lo hi old new region =
      [{ region with limit := lo }, ⟨lo, hi, new⟩, { region with base := hi }] := by
  rw [splitRegion, if_pos selected, cutBelow, if_pos lower, cutAbove, if_pos upper, cutInside,
    max_eq_right lower.le, min_eq_right upper.le, if_pos range,
    min_eq_right (range.trans upper).le, max_eq_right (lower.trans range).le]
  rfl

end Split

theorem recolour_limit_lt {regions : List (Region ι κ)} {lo hi bound : ι} {old new : κ}
    (bounded : ∀ region ∈ regions, region.limit < bound) {region : Region ι κ}
    (member : region ∈ recolour lo hi old new regions) : region.limit < bound := by
  obtain ⟨origin, originMember, part⟩ := List.mem_flatMap.mp member
  exact (splitRegion_inside part).2.trans_lt (bounded origin originMember)

/-- A table above the range stays as it is. -/
theorem recolour_of_ge {regions : List (Region ι κ)} {lo hi : ι} {old new : κ}
    (nonempty : ∀ region ∈ regions, region.base < region.limit) (range : lo ≤ hi)
    (above : ∀ region ∈ regions, hi ≤ region.base) :
    recolour lo hi old new regions = regions := by
  induction regions with
  | nil => rfl
  | cons region regions ih =>
      rw [List.forall_mem_cons] at nonempty above
      rw [recolour, List.flatMap_cons, splitRegion_of_ge nonempty.1 range above.1, ← recolour,
        ih nonempty.2 above.2]
      rfl

/-- The first part of a region starts where the region does.  It has the new kind, or
the kind of the region, which is then not selected or starts outside the range. -/
theorem splitRegion_first (lo hi : ι) (old new : κ) {region : Region ι κ}
    (nonempty : region.base < region.limit) :
    ∃ part rest, splitRegion lo hi old new region = part :: rest ∧
      part.base = region.base ∧ part.limit ≤ region.limit ∧
      (part.kind = new ∨ part.kind = region.kind ∧
        (region.kind = old → region.base < lo ∨ hi ≤ region.base ∧ part = region)) := by
  by_cases selected : region.kind = old
  · rw [splitRegion, if_pos selected]
    by_cases below : region.base < lo
    · rw [cutBelow, if_pos below]
      exact ⟨_, _, rfl, rfl, min_le_left _ _, .inr ⟨rfl, fun _ => .inl below⟩⟩
    · have lower : lo ≤ region.base := not_lt.mp below
      rw [cutBelow_of_ge lower, cutInside, max_eq_left lower]
      by_cases inside : region.base < min region.limit hi
      · rw [if_pos inside]
        exact ⟨_, _, rfl, rfl, min_le_left _ _, .inl rfl⟩
      · have upper : hi ≤ region.base := by
          rcases le_or_gt hi region.base with above | early
          · exact above
          · exact absurd (lt_min nonempty early) inside
        rw [if_neg inside, cutAbove_of_ge nonempty upper]
        exact ⟨_, _, rfl, rfl, le_rfl, .inr ⟨rfl, fun _ => .inr ⟨upper, rfl⟩⟩⟩
  · rw [splitRegion_of_ne selected]
    exact ⟨_, _, rfl, rfl, le_rfl, .inr ⟨rfl, fun isOld => absurd isOld selected⟩⟩

/-- The first region of a recoloured table is a part of the first region. -/
theorem recolour_first {regions : List (Region ι κ)} {lo hi : ι} {old new : κ}
    (nonempty : ∀ region ∈ regions, region.base < region.limit) {region : Region ι κ}
    (head : region ∈ regions.head?) :
    ∃ part ∈ (recolour lo hi old new regions).head?,
      part.base = region.base ∧ part.limit ≤ region.limit ∧
      (part.kind = new ∨ part.kind = region.kind ∧
        (region.kind = old → region.base < lo ∨ hi ≤ region.base ∧ part = region)) := by
  cases regions with
  | nil => cases head
  | cons first regions =>
      cases head
      obtain ⟨part, rest, parts, shape⟩ :=
        splitRegion_first lo hi old new (nonempty region List.mem_cons_self)
      refine ⟨part, ?_, shape⟩
      rw [recolour, List.flatMap_cons, parts]
      rfl

/-- The first region keeps the old kind only outside the range. -/
theorem recolour_head {regions : List (Region ι κ)} {lo hi : ι} {old new : κ}
    (differ : old ≠ new) (nonempty : ∀ region ∈ regions, region.base < region.limit)
    {part : Region ι κ} (head : part ∈ (recolour lo hi old new regions).head?)
    (kept : part.kind = old) :
    part.base < lo ∨ hi ≤ part.base ∧ part ∈ regions.head? := by
  cases regions with
  | nil => cases head
  | cons region regions =>
      obtain ⟨first, found, start, -, kinds⟩ :=
        @recolour_first _ _ _ _ (region :: regions) lo hi old new nonempty region rfl
      rw [Option.mem_def] at head found
      have same : part = first := Option.some.inj (head.symm.trans found)
      subst same
      rcases kinds with changed | ⟨kind, outside⟩
      · exact absurd (kept.symm.trans changed) differ
      · rcases outside (kind.symm.trans kept) with below | ⟨above, whole⟩
        · exact .inl (start ▸ below)
        · subst whole
          exact .inr ⟨above, rfl⟩

end Recolour

section Changes

/-- A change of the kinds: a region is laid over what is there, or the addresses of one kind in
a range get another kind. -/
inductive Change (ι κ : Type*) where
  | cover (new : Region ι κ)
  | retype (lo hi : ι) (old new : κ)

variable [DecidableEq κ]

namespace Change

def apply : Change ι κ → List (Region ι κ) → List (Region ι κ)
  | cover new => overwrite new
  | retype lo hi old new => recolour lo hi old new

/-- The range of the change is not empty. -/
def Proper : Change ι κ → Prop
  | cover new => new.base < new.limit
  | retype lo hi _ _ => lo < hi

def ends : Change ι κ → List ι
  | cover new => [new.base, new.limit]
  | retype lo hi _ _ => [lo, hi]

/-- The kind that addresses get. -/
def kind : Change ι κ → κ
  | cover new => new.kind
  | retype _ _ _ new => new

end Change

/-- The regions that changes leave, of which the last one comes first. -/
def changed (regions : List (Region ι κ)) (changes : List (Change ι κ)) :
    List (Region ι κ) :=
  changes.foldr Change.apply regions

/-- The kind of an address after changes. -/
def kindAt (regions : List (Region ι κ)) : List (Change ι κ) → ι → Option κ
  | [], a => lookup regions a
  | .cover new :: changes, a =>
      if new.Holds a then some new.kind else kindAt regions changes a
  | .retype lo hi old new :: changes, a =>
      (kindAt regions changes a).map fun kind =>
        if kind = old ∧ lo ≤ a ∧ a < hi then new else kind

/-- A region starts at the address after changes.  A region that is laid over the others is one
piece, and what reaches over its end starts there; a range cuts the regions whose kind it
changes at both ends. -/
def StartsPiece (regions : List (Region ι κ)) : List (Change ι κ) → ι → Prop
  | [], a => a ∈ regions.map Region.base
  | .cover new :: changes, a =>
      if new.Holds a then a = new.base
      else StartsPiece regions changes a ∨
        a = new.limit ∧ (kindAt regions changes a).isSome
  | .retype lo hi old _ :: changes, a =>
      StartsPiece regions changes a ∨
        (a = lo ∨ a = hi) ∧ kindAt regions changes a = some old

instance decidableStartsPiece (regions : List (Region ι κ)) :
    (changes : List (Change ι κ)) → (a : ι) → Decidable (StartsPiece regions changes a)
  | [], a => inferInstanceAs (Decidable (a ∈ regions.map Region.base))
  | .cover new :: changes, a =>
      have := decidableStartsPiece regions changes a
      inferInstanceAs (Decidable (if new.Holds a then a = new.base
        else StartsPiece regions changes a ∨
          a = new.limit ∧ (kindAt regions changes a).isSome))
  | .retype lo hi old _ :: changes, a =>
      have := decidableStartsPiece regions changes a
      inferInstanceAs (Decidable (StartsPiece regions changes a ∨
        (a = lo ∨ a = hi) ∧ kindAt regions changes a = some old))

/-- The number of regions that changes leave. -/
def pieces (regions : List (Region ι κ)) (changes : List (Change ι κ)) : Nat :=
  ((regions.map Region.base ++ changes.flatMap Change.ends).toFinset.filter
    (StartsPiece regions changes)).card

/-- The number of regions that one more change adds before it takes any away. -/
def Change.slots (regions : List (Region ι κ)) (changes : List (Change ι κ)) :
    Change ι κ → Nat
  | cover new =>
      if (kindAt regions changes new.base).isSome ∧ ¬ StartsPiece regions changes new.base
      then 2 else 1
  | retype lo hi old _ =>
      (if kindAt regions changes lo = some old ∧ ¬ StartsPiece regions changes lo
        then 1 else 0) +
      (if kindAt regions changes hi = some old ∧ ¬ StartsPiece regions changes hi
        then 1 else 0)

/-- During each of the changes there are at most `limit` regions. -/
def Room (limit : Nat) (regions : List (Region ι κ)) : List (Change ι κ) → Prop
  | [] => True
  | change :: changes =>
      pieces regions changes + change.slots regions changes ≤ limit ∧
        Room limit regions changes

instance decidableRoom (limit : Nat) (regions : List (Region ι κ)) :
    (changes : List (Change ι κ)) → Decidable (Room limit regions changes)
  | [] => inferInstanceAs (Decidable True)
  | _ :: changes =>
      have := decidableRoom limit regions changes
      inferInstanceAs (Decidable (_ ≤ limit ∧ Room limit regions changes))

variable {regions : List (Region ι κ)} {changes : List (Change ι κ)} {a : ι}

theorem mem_bases_splitRegion {lo hi : ι} {old kind : κ} {region : Region ι κ}
    (nonempty : region.base < region.limit) (range : lo < hi) :
    a ∈ (splitRegion lo hi old kind region).map Region.base ↔
      a = region.base ∨ region.kind = old ∧ region.Holds a ∧ (a = lo ∨ a = hi) := by
  by_cases selected : region.kind = old
  · rw [splitRegion, if_pos selected]
    simp only [selected, true_and, List.mem_map, List.mem_append, Option.mem_toList]
    constructor
    · rintro ⟨part, (below | inside) | above, rfl⟩
      · obtain ⟨-, rfl⟩ := cutBelow_some below
        exact .inl rfl
      · obtain ⟨filled, rfl⟩ := cutInside_some inside
        have upper := filled.trans_le (min_le_left _ _)
        rcases max_choice region.base lo with same | same
        · exact .inl same
        · exact .inr ⟨⟨le_max_left _ _, upper⟩, .inl same⟩
      · obtain ⟨upper, rfl⟩ := cutAbove_some above
        rcases max_choice region.base hi with same | same
        · exact .inl same
        · exact .inr ⟨⟨le_max_left _ _, max_lt nonempty upper⟩, .inr same⟩
    · rintro (rfl | ⟨⟨lower, upper⟩, rfl | rfl⟩)
      · rcases lt_or_ge region.base lo with below | above
        · exact ⟨_, .inl (.inl (if_pos below)), rfl⟩
        · rcases lt_or_ge region.base hi with inside | behind
          · have filled : max region.base lo < min region.limit hi := by
              rw [max_eq_left above]
              exact lt_min nonempty inside
            exact ⟨_, .inl (.inr (if_pos filled)), max_eq_left above⟩
          · exact ⟨_, .inr (if_pos (behind.trans_lt nonempty)), max_eq_left behind⟩
      · have filled : max region.base a < min region.limit hi := by
          rw [max_eq_right lower]
          exact lt_min upper range
        exact ⟨_, .inl (.inr (if_pos filled)), max_eq_right lower⟩
      · exact ⟨_, .inr (if_pos upper), max_eq_right lower⟩
  · rw [splitRegion_of_ne selected]
    simp [selected]

/-- Where the regions start after the kind of a range has changed. -/
theorem mem_bases_recolour (valid : WellFormed regions) {lo hi : ι} (range : lo < hi)
    (old kind : κ) :
    a ∈ (recolour lo hi old kind regions).map Region.base ↔
      a ∈ regions.map Region.base ∨ (a = lo ∨ a = hi) ∧ lookup regions a = some old := by
  have parts (region : Region ι κ) (member : region ∈ regions) :=
    @mem_bases_splitRegion _ _ _ _ a lo hi old kind region (valid.nonempty region member) range
  simp only [recolour, List.map_flatMap, List.mem_flatMap]
  constructor
  · rintro ⟨region, member, part⟩
    rcases (parts region member).mp part with rfl | ⟨selected, holds, place⟩
    · exact .inl (List.mem_map_of_mem member)
    · exact .inr ⟨place, selected ▸ valid.lookup_eq member holds⟩
  · rintro (start | ⟨place, found⟩)
    · obtain ⟨region, member, rfl⟩ := List.mem_map.mp start
      exact ⟨region, member, (parts region member).mpr (.inl rfl)⟩
    · obtain ⟨region, member, holds, selected⟩ := exists_of_lookup found
      exact ⟨region, member, (parts region member).mpr (.inr ⟨selected, holds, place⟩)⟩

theorem changed_wellFormed (valid : WellFormed regions)
    (proper : ∀ change ∈ changes, change.Proper) : WellFormed (changed regions changes) := by
  induction changes with
  | nil => exact valid
  | cons change changes ih =>
      rw [List.forall_mem_cons] at proper
      cases change with
      | cover new => exact (ih proper.2).overwrite proper.1
      | retype lo hi old new => exact (ih proper.2).recolour proper.1.le old new

theorem lookup_changed (proper : ∀ change ∈ changes, change.Proper) (a : ι) :
    lookup (changed regions changes) a = kindAt regions changes a := by
  induction changes with
  | nil => rfl
  | cons change changes ih =>
      rw [List.forall_mem_cons] at proper
      cases change with
      | cover new =>
          rw [kindAt, ← ih proper.2]
          exact lookup_overwrite _ proper.1 a
      | retype lo hi old new =>
          rw [kindAt, ← ih proper.2]
          exact lookup_recolour _ lo hi old new a

theorem startsPiece_iff (valid : WellFormed regions)
    (proper : ∀ change ∈ changes, change.Proper) :
    StartsPiece regions changes a ↔ a ∈ (changed regions changes).map Region.base := by
  induction changes with
  | nil => exact Iff.rfl
  | cons change changes ih =>
      rw [List.forall_mem_cons] at proper
      have before := changed_wellFormed valid proper.2
      cases change with
      | cover new =>
          rw [StartsPiece, ih proper.2, ← lookup_changed proper.2]
          exact (mem_bases_overwrite before.nonempty proper.1).symm
      | retype lo hi old new =>
          rw [StartsPiece, ih proper.2, ← lookup_changed proper.2]
          exact (mem_bases_recolour before proper.1 old new).symm

theorem StartsPiece.mem (starts : StartsPiece regions changes a) :
    a ∈ regions.map Region.base ++ changes.flatMap Change.ends := by
  induction changes with
  | nil => exact List.mem_append_left _ starts
  | cons change changes ih =>
      rw [List.flatMap_cons, List.mem_append, List.mem_append]
      have later (below : StartsPiece regions changes a) :
          a ∈ regions.map Region.base ∨ a ∈ change.ends ∨ a ∈ changes.flatMap Change.ends :=
        (List.mem_append.mp (ih below)).imp_right .inr
      cases change with
      | cover new =>
          rw [StartsPiece] at starts
          by_cases holds : new.Holds a
          · rw [if_pos holds] at starts
            exact .inr (.inl (by simp [Change.ends, starts]))
          · rw [if_neg holds] at starts
            rcases starts with below | ⟨rfl, -⟩
            · exact later below
            · exact .inr (.inl (by simp [Change.ends]))
      | retype lo hi old new =>
          rcases starts with below | ⟨place, -⟩
          · exact later below
          · exact .inr (.inl (by simpa [Change.ends] using place))

/-- As many regions are left as there are pieces. -/
theorem length_changed (valid : WellFormed regions)
    (proper : ∀ change ∈ changes, change.Proper) :
    (changed regions changes).length = pieces regions changes := by
  have after := changed_wellFormed valid proper
  have same : (regions.map Region.base ++ changes.flatMap Change.ends).toFinset.filter
      (StartsPiece regions changes) =
        ((changed regions changes).map Region.base).toFinset := by
    ext a
    rw [Finset.mem_filter, List.mem_toFinset, List.mem_toFinset, ← startsPiece_iff valid proper]
    exact and_iff_right_of_imp StartsPiece.mem
  rw [pieces, same, List.toFinset_card_of_nodup after.nodup_bases, List.length_map]

theorem splitRegion_origin {lo hi : ι} {old new : κ} {region part : Region ι κ}
    (member : part ∈ splitRegion lo hi old new region) (kept : new ≠ part.kind) :
    region.kind = part.kind ∧ region.base ≤ part.base ∧ part.limit ≤ region.limit := by
  refine ⟨?_, splitRegion_inside member⟩
  rw [splitRegion] at member
  by_cases selected : region.kind = old
  · simp only [if_pos selected, List.mem_append, Option.mem_toList] at member
    rcases member with (cut | cut) | cut
    · obtain ⟨-, rfl⟩ := cutBelow_some cut
      rfl
    · obtain ⟨-, rfl⟩ := cutInside_some cut
      exact absurd rfl kept
    · obtain ⟨-, rfl⟩ := cutAbove_some cut
      rfl
  · rw [if_neg selected, List.mem_singleton] at member
    rw [member]

/-- A region of a kind that no change gives is part of one that was there before. -/
theorem changed_origin {part : Region ι κ} (member : part ∈ changed regions changes)
    (kept : ∀ change ∈ changes, change.kind ≠ part.kind) :
    ∃ origin ∈ regions, origin.kind = part.kind ∧ origin.base ≤ part.base ∧
      part.limit ≤ origin.limit := by
  induction changes generalizing part with
  | nil => exact ⟨part, member, rfl, le_rfl, le_rfl⟩
  | cons change changes ih =>
      rw [List.forall_mem_cons] at kept
      have whole : ∃ middle ∈ changed regions changes, middle.kind = part.kind ∧
          middle.base ≤ part.base ∧ part.limit ≤ middle.limit := by
        cases change with
        | cover new => exact overwrite_origin member kept.1
        | retype lo hi old new =>
            obtain ⟨middle, listed, split⟩ := List.mem_flatMap.mp member
            exact ⟨middle, listed, splitRegion_origin split kept.1⟩
      obtain ⟨middle, listed, kind, lower, upper⟩ := whole
      obtain ⟨origin, first, same, start, reach⟩ :=
        ih listed fun change inside => kind ▸ kept.2 change inside
      exact ⟨origin, first, same.trans kind, start.trans lower, upper.trans reach⟩

theorem Room.append {limit : Nat} {later : List (Change ι κ)}
    (room : Room limit regions (later ++ changes)) : Room limit regions changes := by
  induction later with
  | nil => exact room
  | cons change later ih => exact ih room.2

end Changes

end RegionTable
