import Mathlib.Data.List.Perm.Basic
import Mathlib.Data.List.Sort
import Sable.MapUpdates
import Sable.PostLaunch
import Sable.SelectionSort

/-!
# The memory map against the memory descriptors

The sort of `verify_e820_map` puts the descriptors in order, and the sweep over
them reserves the RAM in the gaps.  It does so faithfully when the good
descriptors are apart and no gap ends inside a first entry that it covers from
the start.
-/

namespace Sable

open RegionTable

namespace SinitMdr

/-- The end of the memory that a descriptor is about. -/
def limit (mdr : SinitMdr) : Nat :=
  mdr.base.toNat + mdr.length.toNat

def Good (mdr : SinitMdr) : Prop :=
  mdr.memType = mdrMemtypeGood

instance (mdr : SinitMdr) : Decidable mdr.Good :=
  inferInstanceAs (Decidable (_ = _))

/-- The order of the sort: by start, then by length. -/
def Ordered (first second : SinitMdr) : Prop :=
  first.base.toNat < second.base.toNat ∨
    first.base.toNat = second.base.toNat ∧ first.length.toNat ≤ second.length.toNat

theorem not_good_iff {mdr : SinitMdr} : mdr.memType > mdrMemtypeGood ↔ ¬ mdr.Good := by
  rw [Good, gt_iff_lt, UInt8.lt_iff_toNat_lt, ← UInt8.toNat_inj]
  exact Nat.pos_iff_ne_zero

theorem ordered_of_not_precedes {first second : SinitMdr}
    (kept : ¬ second.precedes first) : Ordered first second := by
  simp only [precedes, decide_eq_true_eq, not_or, not_and, gt_iff_lt, UInt64.not_lt,
    UInt64.le_iff_toNat_le, ← UInt64.toNat_inj] at kept
  rw [Ordered]
  omega

theorem ordered_of_precedes {first second : SinitMdr} (less : first.precedes second) :
    Ordered first second := by
  simp only [precedes, decide_eq_true_eq, gt_iff_lt, UInt64.lt_iff_toNat_lt,
    ← UInt64.toNat_inj] at less
  rw [Ordered]
  omega

theorem Ordered.refl (mdr : SinitMdr) : Ordered mdr mdr :=
  .inr ⟨rfl, le_rfl⟩

instance : DecidableRel Ordered := fun _ _ =>
  inferInstanceAs (Decidable (_ ∨ _))

instance : Std.Total Ordered where
  total first second := by
    rw [Ordered, Ordered]
    omega

theorem Ordered.trans {first second third : SinitMdr} (one : Ordered first second)
    (two : Ordered second third) : Ordered first third := by
  rw [Ordered] at *
  omega

instance : IsTrans SinitMdr Ordered where
  trans _ _ _ := Ordered.trans

/-- Good descriptors with the same place are the same. -/
theorem Ordered.antisymm {first second : SinitMdr} (firstGood : first.Good)
    (secondGood : second.Good) (one : Ordered first second) (two : Ordered second first) :
    first = second := by
  have base : first.base = second.base := by
    rw [← UInt64.toNat_inj]
    rw [Ordered] at one two
    omega
  have length : first.length = second.length := by
    rw [← UInt64.toNat_inj]
    rw [Ordered] at one two
    omega
  cases first
  cases second
  cases base
  cases length
  rw [Good] at firstGood secondGood
  cases firstGood
  cases secondGood
  rfl

/-- Two good descriptors share no address. -/
def Apart (first second : SinitMdr) : Prop :=
  first.Good → second.Good →
    first.limit ≤ second.base.toNat ∨ second.limit ≤ first.base.toNat

theorem Apart.symm {first second : SinitMdr} (apart : Apart first second) :
    Apart second first :=
  fun secondGood firstGood => (apart firstGood secondGood).symm

/-- In the order of the sort, the first of two descriptors that are apart ends
before the second one. -/
theorem Apart.limit_le {first second : SinitMdr} (apart : Apart first second)
    (order : Ordered first second) (firstGood : first.Good) (secondGood : second.Good) :
    first.limit ≤ second.base.toNat := by
  rcases apart firstGood secondGood with before | after
  · exact before
  · rw [limit] at *
    rw [Ordered] at order
    omega

end SinitMdr

section Sorting

theorem SinitMdr.tests : SelectionSort.Tests SinitMdr.precedes SinitMdr.Ordered where
  refl := Ordered.refl
  trans := Ordered.trans
  of_before := ordered_of_precedes
  of_not_before := ordered_of_not_precedes

theorem leastMdr_eq (mdrs : List SinitMdr) (j : Nat) (tmpEntry : SinitMdr) (pos : Nat) :
    leastMdr mdrs j tmpEntry pos =
      SelectionSort.least SinitMdr.precedes mdrs j tmpEntry pos := by
  induction mdrs generalizing j tmpEntry pos with
  | nil => rfl
  | cons mdr mdrs ih => rw [leastMdr, SelectionSort.least, ih, ih]

/-- The descriptors are sorted with one exchange in each round. -/
theorem sortMdrs_eq (count : Nat) (mdrs : List SinitMdr) :
    sortMdrs count mdrs = SelectionSort.sort SinitMdr.precedes count mdrs := by
  induction count generalizing mdrs with
  | zero => rfl
  | succ count ih =>
      cases mdrs with
      | nil => rfl
      | cons mdr mdrs =>
          simp only [sortMdrs, SelectionSort.sort, leastMdr_eq, ih]

theorem sortMdrs_perm (count : Nat) (mdrs : List SinitMdr) :
    (sortMdrs count mdrs).Perm mdrs := by
  rw [sortMdrs_eq]
  exact SelectionSort.sort_perm SinitMdr.tests count mdrs

theorem sortMdrs_ordered {count : Nat} {mdrs : List SinitMdr}
    (enough : mdrs.length ≤ count) : (sortMdrs count mdrs).Pairwise SinitMdr.Ordered := by
  rw [sortMdrs_eq]
  exact SelectionSort.sort_ordered SinitMdr.tests enough

/-- The good descriptors in the order of the sort. -/
def goodMdrs (mdrs : List SinitMdr) : List SinitMdr :=
  (mdrs.filter fun mdr => mdr.Good).insertionSort SinitMdr.Ordered

theorem filter_sortMdrs (mdrs : List SinitMdr) :
    ((sortMdrs mdrs.length mdrs).filter fun mdr => mdr.Good) = goodMdrs mdrs := by
  have good (mdr : SinitMdr) {list : List SinitMdr}
      (member : mdr ∈ list.filter fun mdr => mdr.Good) : mdr.Good :=
    of_decide_eq_true (List.mem_filter.mp member).2
  refine List.Perm.eq_of_pairwise (fun first second left right one two => ?_)
    ((sortMdrs_ordered le_rfl).filter _)
    (List.pairwise_insertionSort SinitMdr.Ordered (mdrs.filter fun mdr => mdr.Good)) ?_
  · exact SinitMdr.Ordered.antisymm (good first left)
      (good second ((List.perm_insertionSort SinitMdr.Ordered _).mem_iff.mp right)) one two
  · exact ((sortMdrs_perm mdrs.length mdrs).filter _).trans
      (List.perm_insertionSort SinitMdr.Ordered _).symm

/-- The RAM in the gaps between descriptors becomes reserved, from an address on. -/
def gapChanges : Nat → List SinitMdr → List (Change Nat UInt32)
  | start, [] => reserveRange start (2 ^ 64 - 1)
  | start, mdr :: mdrs => reserveRange start mdr.base.toNat ++ gapChanges mdr.limit mdrs

end Sorting

/-- An address in a good descriptor. -/
def GoodAddress (mdrs : List SinitMdr) (a : Nat) : Prop :=
  ∃ mdr ∈ mdrs, mdr.Good ∧ mdr.base.toNat ≤ a ∧ a < mdr.limit

instance (mdrs : List SinitMdr) (a : Nat) : Decidable (GoodAddress mdrs a) :=
  inferInstanceAs (Decidable (∃ mdr ∈ mdrs, _))

/-- A first entry of RAM that starts in no good descriptor has no good descriptor
starting inside it. -/
def FrontKept (mdrs : List SinitMdr) (first : Region Nat UInt32) : Prop :=
  first.kind = e820Ram → GoodAddress mdrs first.base ∨
    ∀ mdr ∈ mdrs, mdr.Good → ¬ (first.base < mdr.base.toNat ∧ mdr.base.toNat < first.limit)

section Sweep

variable {table reached : E820Table} {mdr : SinitMdr} {mdrs : List SinitMdr} {base : UInt64}

theorem goodAddress_cons {a : Nat} : GoodAddress (mdr :: mdrs) a ↔
    (mdr.Good ∧ mdr.base.toNat ≤ a ∧ a < mdr.limit) ∨ GoodAddress mdrs a := by
  simp only [GoodAddress, List.mem_cons, exists_eq_or_imp]

theorem goodAddress_perm {others : List SinitMdr} (perm : mdrs.Perm others) (a : Nat) :
    GoodAddress mdrs a ↔ GoodAddress others a := by
  simp only [GoodAddress, perm.mem_iff]

theorem FrontKept.tail {first : Region Nat UInt32} (kept : FrontKept (mdr :: mdrs) first)
    (behind : mdr.Good → mdr.limit ≤ first.base) : FrontKept mdrs first := by
  intro ram
  rcases kept ram with inside | outside
  · rcases goodAddress_cons.mp inside with ⟨good, -, before⟩ | later
    · exact absurd before (behind good).not_gt
    · exact .inl later
  · exact .inr fun other member => outside other (List.mem_cons_of_mem _ member)

/-- A first region that is still RAM behind the start of a reserved range has not
been changed. -/
theorem e820ReserveRam_head {length : UInt64} (valid : table.Valid)
    (fits : base.toNat + length.toNat < 2 ^ 64)
    (safe : ∀ first ∈ table.entries.head?, ¬ CutsFront base (base + length) first)
    (run : e820ReserveRam table base length = (true, reached))
    {first : Region Nat UInt32} (head : first ∈ reached.regions.head?)
    (ram : first.kind = e820Ram) (behind : base.toNat ≤ first.base) :
    first ∈ table.regions.head? := by
  by_cases empty : length = 0
  · rw [e820ReserveRam, if_pos empty] at run
    cases run
    exact head
  · rw [e820ReserveRam_regions valid empty fits safe run] at head
    rcases recolour_head (by decide) valid.wellFormed.nonempty head ram with
      before | ⟨-, same⟩
    · exact absurd before behind.not_gt
    · exact same

/-- The kinds after the gap in front of a descriptor and everything behind it. -/
theorem reserve_twice {type : UInt32} {lo middle upper a : Nat} {Rest : Prop}
    [Decidable Rest] (order : lo ≤ middle) (next : middle ≤ upper)
    (rest : Rest → upper ≤ a) :
    (if (if type = e820Ram ∧ lo ≤ a ∧ a < middle then e820Reserved else type) = e820Ram ∧
        upper ≤ a ∧ ¬ Rest then e820Reserved
      else if type = e820Ram ∧ lo ≤ a ∧ a < middle then e820Reserved else type) =
    if type = e820Ram ∧ lo ≤ a ∧ ¬ ((middle ≤ a ∧ a < upper) ∨ Rest) then e820Reserved
    else type := by
  have differ : e820Reserved ≠ e820Ram := by decide
  by_cases ram : type = e820Ram
  · by_cases gap : lo ≤ a ∧ a < middle
    · have outside : ¬ ((middle ≤ a ∧ a < upper) ∨ Rest) := by
        rintro (inside | later)
        · omega
        · have := rest later
          omega
      simp only [ram, gap, outside, differ, not_false_eq_true, and_self, if_true,
        false_and, if_false]
    · simp only [ram, gap, true_and, if_false]
      congr 1
      apply propext
      constructor
      · rintro ⟨behind, outside⟩
        exact ⟨by omega, not_or.mpr ⟨by omega, outside⟩⟩
      · rintro ⟨above, outside⟩
        rw [not_or] at outside
        exact ⟨by omega, outside.2⟩
  · simp only [ram, false_and, if_false]

/-- A listed address lies below `2 ^ 64 - 1`. -/
theorem E820Table.Valid.typeAt_lt (valid : table.Valid) {a : Nat} {type : UInt32}
    (found : table.typeAt a = some type) : a < 2 ^ 64 - 1 := by
  obtain ⟨region, member, holds, -⟩ := exists_of_lookup found
  have bounded := valid.bounded region member
  have inside := holds.2
  omega

theorem last_gap_length (base : UInt64) :
    base.toNat + (0xffffffffffffffff - base).toNat = 2 ^ 64 - 1 := by
  have size := base.toNat_lt
  have length : (0xffffffffffffffff - base).toNat = 2 ^ 64 - 1 - base.toNat :=
    UInt64.toNat_sub_of_le _ _ (by rw [UInt64.le_iff_toNat_le]; exact Nat.le_of_lt_succ size)
  omega

theorem last_gap_safe (valid : table.Valid) (base : UInt64) :
    ∀ first ∈ table.entries.head?,
      ¬ CutsFront base (base + (0xffffffffffffffff - base)) first := by
  have whole := last_gap_length base
  have limit : (base + (0xffffffffffffffff - base)).toNat = 2 ^ 64 - 1 := by
    rw [UInt64.toNat_add, whole, Nat.mod_eq_of_lt (by decide)]
  rintro first head ⟨-, -, -, upper⟩
  have bounded := valid.bounded _ (List.mem_map_of_mem (List.mem_of_mem_head? head))
  omega

/-- The last gap. -/
theorem reserve_last_gap (valid : table.Valid)
    (run : e820ReserveRam table base (0xffffffffffffffff - base) = (true, reached)) :
    Tightens table reached ∧ ∀ a, reached.typeAt a = (table.typeAt a).map fun type =>
      if type = e820Ram ∧ base.toNat ≤ a then e820Reserved else type := by
  have whole := last_gap_length base
  have safe := last_gap_safe valid base
  have fits : base.toNat + (0xffffffffffffffff - base).toNat < 2 ^ 64 := by omega
  obtain ⟨-, types⟩ := e820ReserveRam_spec valid fits safe run
  refine ⟨e820ReserveRam_tightens valid fits safe run, fun a => ?_⟩
  rw [types]
  cases found : table.typeAt a with
  | none => rfl
  | some type =>
      have below := valid.typeAt_lt found
      have range : a < base.toNat + (0xffffffffffffffff - base).toNat ↔ True := by
        rw [iff_true]
        omega
      simp only [Option.map_some, range, and_true]

theorem gap_length (start : base.toNat ≤ mdr.base.toNat) :
    base.toNat + (mdr.base - base).toNat = mdr.base.toNat := by
  rw [UInt64.toNat_sub_of_le _ _ (by rw [UInt64.le_iff_toNat_le]; exact start)]
  omega

/-- The gap in front of a good descriptor does not cut off the front of the table. -/
theorem gap_safe (good : mdr.Good)
    (later : ∀ other ∈ mdrs, other.Good → mdr.limit ≤ other.base.toNat)
    (front : ∀ first ∈ table.regions.head?, base.toNat ≤ first.base →
      FrontKept (mdr :: mdrs) first) :
    ∀ first ∈ table.entries.head?, ¬ CutsFront base (base + (mdr.base - base)) first := by
  have whole : base + (mdr.base - base) = mdr.base := by
    rw [UInt64.add_comm, UInt64.sub_add_cancel]
  have wide : mdr.base.toNat ≤ mdr.limit := Nat.le_add_right _ _
  rw [whole]
  rintro first head ⟨ram, lower, inside, upper⟩
  have headRegion : first.region ∈ table.regions.head? := by
    rw [E820Table.regions, List.head?_map, Option.mem_def.mp head]
    rfl
  rcases front _ headRegion lower ram with ⟨other, member, otherGood, before, -⟩ | outside
  · rcases List.mem_cons.mp member with rfl | behind
    · omega
    · have := later other behind otherGood
      omega
  · exact outside mdr List.mem_cons_self good ⟨inside, upper⟩

/-- The gap in front of a good descriptor. -/
theorem reserve_gap (valid : table.Valid) (good : mdr.Good)
    (start : base.toNat ≤ mdr.base.toNat)
    (later : ∀ other ∈ mdrs, other.Good → mdr.limit ≤ other.base.toNat)
    (front : ∀ first ∈ table.regions.head?, base.toNat ≤ first.base →
      FrontKept (mdr :: mdrs) first)
    (run : e820ReserveRam table base (mdr.base - base) = (true, reached)) :
    Tightens table reached ∧
      (∀ a, reached.typeAt a = (table.typeAt a).map fun type =>
        if type = e820Ram ∧ base.toNat ≤ a ∧ a < mdr.base.toNat then e820Reserved
        else type) ∧
      ∀ first ∈ reached.regions.head?, mdr.limit ≤ first.base → FrontKept mdrs first := by
  have size := mdr.base.toNat_lt
  have limit := gap_length start
  have wide : mdr.base.toNat ≤ mdr.limit := Nat.le_add_right _ _
  have safe := gap_safe good later front
  have fits : base.toNat + (mdr.base - base).toNat < 2 ^ 64 := by omega
  obtain ⟨-, types⟩ := e820ReserveRam_spec valid fits safe run
  rw [limit] at types
  refine ⟨e820ReserveRam_tightens valid fits safe run, types, fun first head behind ram => ?_⟩
  have old := e820ReserveRam_head valid fits safe run head ram (by omega)
  exact (front first old (by omega)).tail (fun _ => behind) ram

/-- The sweep reserves a gap also where it is empty. -/
theorem reserveGaps_good (good : mdr.Good)
    (run : reserveGaps (mdr :: mdrs) base table = (true, reached)) :
    ∃ middle, e820ReserveRam table base (mdr.base - base) = (true, middle) ∧
      reserveGaps mdrs (mdr.base + mdr.length) middle = (true, reached) := by
  rw [reserveGaps, if_neg fun other => SinitMdr.not_good_iff.mp other good] at run
  dsimp only at run
  by_cases filled : mdr.base - base > 0
  · rw [if_pos filled] at run
    cases reserve : e820ReserveRam table base (mdr.base - base) with
    | mk reserved middle =>
        rw [reserve] at run
        cases reserved with
        | false => simp at run
        | true => exact ⟨middle, rfl, run⟩
  · have empty : mdr.base - base = 0 := by
      rw [← UInt64.toNat_inj]
      exact Nat.eq_zero_of_not_pos filled
    rw [if_neg filled] at run
    refine ⟨table, ?_, run⟩
    rw [e820ReserveRam, if_pos empty]

/-- The sweep over descriptors in order reserves the RAM outside the good ones. -/
theorem reserveGaps_spec (valid : table.Valid)
    (bounded : ∀ mdr ∈ mdrs, mdr.Good → mdr.limit < 2 ^ 64)
    (start : ∀ mdr ∈ mdrs, mdr.Good → base.toNat ≤ mdr.base.toNat)
    (chain : mdrs.Pairwise fun first second =>
      first.Good → second.Good → first.limit ≤ second.base.toNat)
    (front : ∀ first ∈ table.regions.head?, base.toNat ≤ first.base → FrontKept mdrs first)
    (run : reserveGaps mdrs base table = (true, reached)) :
    Tightens table reached ∧ ∀ a, reached.typeAt a = (table.typeAt a).map fun type =>
      if type = e820Ram ∧ base.toNat ≤ a ∧ ¬ GoodAddress mdrs a then e820Reserved
      else type := by
  induction mdrs generalizing base table with
  | nil =>
      obtain ⟨tightens, types⟩ := reserve_last_gap valid run
      refine ⟨tightens, fun a => ?_⟩
      have none : ¬ GoodAddress [] a := by simp [GoodAddress]
      simp only [types, none, not_false_eq_true, and_true]
  | cons mdr mdrs ih =>
      rw [List.forall_mem_cons] at bounded start
      obtain ⟨later, rest⟩ := List.pairwise_cons.mp chain
      by_cases good : mdr.Good
      · obtain ⟨middle, gap, run⟩ := reserveGaps_good good run
        obtain ⟨gapTightens, gapTypes, middleFront⟩ := reserve_gap valid good (start.1 good)
          (fun other member => later other member good) front gap
        have limit : (mdr.base + mdr.length).toNat = mdr.limit := by
          rw [UInt64.toNat_add]
          exact Nat.mod_eq_of_lt (bounded.1 good)
        obtain ⟨tightens, types⟩ := ih gapTightens.valid bounded.2
          (by rw [limit]; exact fun other member => later other member good) rest
          (by rw [limit]; exact middleFront) run
        refine ⟨gapTightens.trans tightens, fun a => ?_⟩
        have above : GoodAddress mdrs a → mdr.limit ≤ a := by
          rintro ⟨other, member, otherGood, before, -⟩
          exact (later other member good otherGood).trans before
        rw [types, gapTypes, Option.map_map, limit]
        simp only [goodAddress_cons, good, true_and]
        congr 1
        funext type
        exact reserve_twice (start.1 good) (Nat.le_add_right _ _) above
      · rw [reserveGaps, if_pos (SinitMdr.not_good_iff.mpr good)] at run
        obtain ⟨tightens, types⟩ := ih valid bounded.2 start.2 rest
          (fun first head behind =>
            (front first head behind).tail fun isGood => absurd isGood good) run
        refine ⟨tightens, fun a => ?_⟩
        simp only [types, goodAddress_cons, good, false_and, false_or]

/-- The sweep goes on behind a gap that has been reserved. -/
theorem reserveGaps_continues (good : mdr.Good) {middle : E820Table}
    (gap : e820ReserveRam table base (mdr.base - base) = (true, middle)) :
    reserveGaps (mdr :: mdrs) base table = reserveGaps mdrs (mdr.base + mdr.length) middle := by
  rw [reserveGaps, if_neg fun other => SinitMdr.not_good_iff.mp other good]
  dsimp only
  by_cases filled : mdr.base - base > 0
  · rw [if_pos filled, gap]
    rfl
  · have empty : mdr.base - base = 0 := by
      rw [← UInt64.toNat_inj]
      exact Nat.eq_zero_of_not_pos filled
    rw [e820ReserveRam, if_pos empty] at gap
    cases gap
    rw [if_neg filled]

theorem reverse_reserveRange (lo hi : Nat) : (reserveRange lo hi).reverse = reserveRange lo hi := by
  rw [reserveRange]
  split <;> rfl

/-- The sweep finds room for all gaps if the entries before it leave it. -/
theorem reserveGaps_total {regions : List (Region Nat UInt32)}
    {changes : List (Change Nat UInt32)} (after : ChangedTable table regions changes)
    (bounded : ∀ mdr ∈ mdrs, mdr.Good → mdr.limit < 2 ^ 64)
    (start : ∀ mdr ∈ mdrs, mdr.Good → base.toNat ≤ mdr.base.toNat)
    (chain : mdrs.Pairwise fun first second =>
      first.Good → second.Good → first.limit ≤ second.base.toNat)
    (front : ∀ first ∈ table.regions.head?, base.toNat ≤ first.base → FrontKept mdrs first)
    (room : Room maxE820Entries regions
      ((gapChanges base.toNat (mdrs.filter fun mdr => mdr.Good)).reverse ++ changes)) :
    ∃ reached, reserveGaps mdrs base table = (true, reached) ∧
      ChangedTable reached regions
        ((gapChanges base.toNat (mdrs.filter fun mdr => mdr.Good)).reverse ++ changes) := by
  induction mdrs generalizing base table changes with
  | nil =>
      have whole := last_gap_length base
      have total := @ChangedTable.reserveRange_total table regions changes base
        (0xffffffffffffffff - base) after (by omega) (last_gap_safe after.valid base)
      rw [whole] at total
      rw [List.filter_nil, gapChanges, reverse_reserveRange] at room ⊢
      exact total room
  | cons mdr mdrs ih =>
      rw [List.forall_mem_cons] at bounded start
      obtain ⟨later, rest⟩ := List.pairwise_cons.mp chain
      by_cases good : mdr.Good
      · have behind (other : SinitMdr) (member : other ∈ mdrs) (otherGood : other.Good) :=
          later other member good otherGood
        have limit : (mdr.base + mdr.length).toNat = mdr.limit := by
          rw [UInt64.toNat_add]
          exact Nat.mod_eq_of_lt (bounded.1 good)
        have whole := gap_length (start.1 good)
        have size := mdr.base.toNat_lt
        rw [List.filter_cons_of_pos (by simpa using good), gapChanges, List.reverse_append,
          reverse_reserveRange, List.append_assoc, ← limit] at room ⊢
        have here := room.append
        rw [← whole] at here
        obtain ⟨middle, gap, middleAfter⟩ := after.reserveRange_total (by omega)
          (gap_safe good behind front) here
        obtain ⟨-, -, middleFront⟩ := reserve_gap after.valid good (start.1 good) behind front gap
        rw [whole] at middleAfter
        rw [reserveGaps_continues good gap]
        exact ih middleAfter bounded.2 (by rw [limit]; exact behind) rest
          (by rw [limit]; exact middleFront) room
      · rw [List.filter_cons_of_neg (by simpa using good)] at room ⊢
        rw [reserveGaps, if_pos (SinitMdr.not_good_iff.mpr good)]
        exact ih after bounded.2 start.2 rest
          (fun first head lower => (front first head lower).tail fun isGood => absurd isGood good)
          room

end Sweep

/-- What `verify_e820_map` is for. -/
structure FollowsMdrs (mdrs : List SinitMdr) (table reached : E820Table) : Prop where
  ram : ∀ a, reached.typeAt a = some e820Ram → GoodAddress mdrs a
  reserved : ∀ a, table.typeAt a = some e820Ram → ¬ GoodAddress mdrs a →
    reached.typeAt a = some e820Reserved
  unchanged : ∀ a, ¬ (table.typeAt a = some e820Ram ∧ ¬ GoodAddress mdrs a) →
    reached.typeAt a = table.typeAt a
  valid : reached.Valid

section Verify

variable {table reached : E820Table} {mdrs : List SinitMdr}

/-- In the order of the sort every good descriptor ends before the next one. -/
theorem sortMdrs_chain (apart : mdrs.Pairwise SinitMdr.Apart) :
    (sortMdrs mdrs.length mdrs).Pairwise fun first second =>
      first.Good → second.Good → first.limit ≤ second.base.toNat := by
  have sortedApart : (sortMdrs mdrs.length mdrs).Pairwise SinitMdr.Apart :=
    ((sortMdrs_perm mdrs.length mdrs).pairwise_iff fun apart => apart.symm).mpr apart
  exact sortedApart.imp₂ (fun _ _ apart order => apart.limit_le order) (sortMdrs_ordered le_rfl)

theorem sortMdrs_front {first : Region Nat UInt32} (kept : FrontKept mdrs first) :
    FrontKept (sortMdrs mdrs.length mdrs) first := by
  have perm := sortMdrs_perm mdrs.length mdrs
  simpa only [FrontKept, goodAddress_perm perm, perm.mem_iff] using kept

/-- The types after a successful `verify_e820_map`. -/
theorem verifyE820Map_types (valid : table.Valid)
    (bounded : ∀ mdr ∈ mdrs, mdr.Good → mdr.limit < 2 ^ 64)
    (apart : mdrs.Pairwise SinitMdr.Apart)
    (front : ∀ first ∈ table.regions.head?, FrontKept mdrs first)
    (run : verifyE820Map table mdrs = (true, reached)) :
    Tightens table reached ∧ ∀ a, reached.typeAt a = (table.typeAt a).map fun type =>
      if type = e820Ram ∧ ¬ GoodAddress mdrs a then e820Reserved else type := by
  have perm := sortMdrs_perm mdrs.length mdrs
  have filled : ¬ mdrs.length = 0 := by
    intro empty
    rw [verifyE820Map, if_pos empty] at run
    cases run
  rw [verifyE820Map, if_neg filled] at run
  obtain ⟨tightens, types⟩ := reserveGaps_spec valid
    (fun mdr member => bounded mdr (perm.mem_iff.mp member)) (fun _ _ _ => Nat.zero_le _)
    (sortMdrs_chain apart) (fun first head _ => sortMdrs_front (front first head)) run
  refine ⟨tightens, fun a => ?_⟩
  have zero : (0 : UInt64).toNat ≤ a := Nat.zero_le _
  simp only [types, goodAddress_perm perm, zero, true_and]

/-- No RAM is left outside the good descriptors. -/
theorem verifyE820Map_ram (valid : table.Valid)
    (bounded : ∀ mdr ∈ mdrs, mdr.Good → mdr.limit < 2 ^ 64)
    (apart : mdrs.Pairwise SinitMdr.Apart)
    (front : ∀ first ∈ table.regions.head?, FrontKept mdrs first)
    (run : verifyE820Map table mdrs = (true, reached)) (a : Nat)
    (found : reached.typeAt a = some e820Ram) : GoodAddress mdrs a := by
  obtain ⟨-, types⟩ := verifyE820Map_types valid bounded apart front run
  rw [types, Option.map_eq_some_iff] at found
  obtain ⟨type, -, changed⟩ := found
  by_contra bad
  by_cases ram : type = e820Ram
  · rw [if_pos ⟨ram, bad⟩] at changed
    exact absurd changed (by decide)
  · rw [if_neg fun both => ram both.1] at changed
    exact ram changed

/-- `verify_e820_map` succeeds if there is room for the gaps. -/
theorem verifyE820Map_total {regions : List (Region Nat UInt32)}
    {changes : List (Change Nat UInt32)} (after : ChangedTable table regions changes)
    (listed : mdrs ≠ []) (bounded : ∀ mdr ∈ mdrs, mdr.Good → mdr.limit < 2 ^ 64)
    (apart : mdrs.Pairwise SinitMdr.Apart)
    (front : ∀ first ∈ table.regions.head?, FrontKept mdrs first)
    (room : Room maxE820Entries regions ((gapChanges 0 (goodMdrs mdrs)).reverse ++ changes)) :
    ∃ reached, verifyE820Map table mdrs = (true, reached) ∧
      ChangedTable reached regions ((gapChanges 0 (goodMdrs mdrs)).reverse ++ changes) := by
  have perm := sortMdrs_perm mdrs.length mdrs
  rw [verifyE820Map, if_neg fun empty => listed (List.length_eq_zero_iff.mp empty),
    ← filter_sortMdrs] at *
  exact reserveGaps_total after (fun mdr member => bounded mdr (perm.mem_iff.mp member))
    (fun _ _ _ => Nat.zero_le _) (sortMdrs_chain apart)
    (fun first head _ => sortMdrs_front (front first head)) room

/-- A successful `verify_e820_map` on descriptors that are apart, with no gap that
ends inside a first entry it covers from the start. -/
theorem verifyE820Map_follows (valid : table.Valid)
    (bounded : ∀ mdr ∈ mdrs, mdr.base.toNat + mdr.length.toNat < 2 ^ 64)
    (apart : mdrs.Pairwise SinitMdr.Apart)
    (front : ∀ first ∈ table.regions.head?, FrontKept mdrs first)
    (run : verifyE820Map table mdrs = (true, reached)) : FollowsMdrs mdrs table reached := by
  have ends (mdr : SinitMdr) (member : mdr ∈ mdrs) (_ : mdr.Good) : mdr.limit < 2 ^ 64 :=
    bounded mdr member
  obtain ⟨tightens, types⟩ := verifyE820Map_types valid ends apart front run
  constructor
  case valid => exact tightens.valid
  case ram => exact verifyE820Map_ram valid ends apart front run
  case reserved =>
    intro a found bad
    rw [types, found, Option.map_some, if_pos ⟨rfl, bad⟩]
  case unchanged =>
    intro a kept
    rw [types]
    cases found : table.typeAt a with
    | none => rfl
    | some type =>
        rw [found] at kept
        rw [Option.map_some, if_neg fun both => kept ⟨congrArg some both.1, both.2⟩]

theorem verifyE820Map_follows_descending :
    ∃ reached, verifyE820Map (.ofEntries [⟨20, 0x1000, 0x3000, e820Ram⟩])
        [⟨0x3000, 0x1000, 0⟩, ⟨0, 0x2000, 0⟩] = (true, reached) ∧
      FollowsMdrs [⟨0x3000, 0x1000, 0⟩, ⟨0, 0x2000, 0⟩]
        (.ofEntries [⟨20, 0x1000, 0x3000, e820Ram⟩]) reached := by
  have returns : (verifyE820Map (.ofEntries [⟨20, 0x1000, 0x3000, e820Ram⟩])
      [⟨0x3000, 0x1000, 0⟩, ⟨0, 0x2000, 0⟩]).1 = true := by
    decide
  obtain ⟨reached, run⟩ := exists_reached returns
  refine ⟨reached, run, verifyE820Map_follows ⟨⟨?_, ?_⟩, ?_⟩ ?_ ?_ ?_ run⟩
  · decide
  · decide
  · decide
  · decide
  · exact List.pairwise_pair.mpr fun _ _ => .inr (by decide)
  · rintro first head -
    cases head
    exact .inl (by decide)

/-- A gap that ends inside the first entry gives the memory behind it the type of
whatever follows the table. -/
theorem verifyE820Map_loses_good_ram :
    ∃ (table : E820Table) (mdrs : List SinitMdr) (reached : E820Table),
      table.Valid ∧ mdrs ≠ [] ∧
      (∀ mdr ∈ mdrs, mdr.base.toNat + mdr.length.toNat < 2 ^ 64) ∧
      table.nrMap + 2 * mdrs.length ≤ maxE820Entries ∧
      verifyE820Map table mdrs = (true, reached) ∧ ¬ FollowsMdrs mdrs table reached := by
  have returns : (verifyE820Map (.ofEntries [⟨20, 0x1000, 0x2000, e820Ram⟩])
      [⟨0x2000, 0x1000, 0⟩]).1 = true := by
    decide
  have changed : (verifyE820Map (.ofEntries [⟨20, 0x1000, 0x2000, e820Ram⟩])
      [⟨0x2000, 0x1000, 0⟩]).2.typeAt 0x2000 = some 0 := by
    decide
  obtain ⟨reached, run⟩ := exists_reached returns
  rw [run] at changed
  refine ⟨.ofEntries [⟨20, 0x1000, 0x2000, e820Ram⟩], [⟨0x2000, 0x1000, 0⟩], reached,
    ⟨⟨?_, ?_⟩, ?_⟩, ?_, ?_, ?_, run, fun follows => ?_⟩
  · decide
  · decide
  · decide
  · decide
  · decide
  · decide
  · have kept := follows.unchanged 0x2000 (by decide)
    rw [changed] at kept
    exact absurd kept (by decide)

/-- A good descriptor inside another one moves the sweep back. -/
example : (verifyE820Map (.ofEntries [⟨20, 0x1000, 0x8000, e820Ram⟩])
    [⟨0x1000, 0x4000, 0⟩, ⟨0x2000, 0x1000, 0⟩]).2.typeAt 0x3000 = some e820Reserved := by
  decide

end Verify

end Sable
