import Sable.E820Regions

/-!
# The kind of a checked range

`e820_check_region` walks over the pieces of the address space: the entries, the
gaps in front of them and the gap behind the last one.  It merges the kinds of
the pieces that the range overlaps, but a piece whose length wraps around when
the length of the range is added to it is taken for one that does not overlap.
-/

namespace Sable

open RegionTable

section CommonKind

instance decidableAllKind (rest : List UInt32) (first : UInt32) :
    Decidable (∀ kind ∈ rest, kind = first) :=
  List.decidableBAll _ _

/-- The kind of a range that covers parts of the given kinds. -/
def commonKind : List UInt32 → UInt32
  | [] => 0
  | first :: rest =>
      if e820Gap ∈ first :: rest then e820Gap
      else if ∀ kind ∈ rest, kind = first then first
      else e820Mixed

variable {kinds fewer : List UInt32} {kind : UInt32}

theorem commonKind_gap (gap : e820Gap ∈ kinds) : commonKind kinds = e820Gap := by
  cases kinds with
  | nil => cases gap
  | cons first rest => rw [commonKind, if_pos gap]

theorem commonKind_same (member : kind ∈ kinds) (same : ∀ other ∈ kinds, other = kind) :
    commonKind kinds = kind := by
  cases kinds with
  | nil => cases member
  | cons first rest =>
      obtain ⟨rfl, others⟩ := List.forall_mem_cons.mp same
      rw [commonKind]
      by_cases gap : e820Gap ∈ first :: rest
      · rw [if_pos gap]
        exact same _ gap
      · rw [if_neg gap, if_pos others]

theorem commonKind_mixed (covered : e820Gap ∉ kinds) {other : UInt32} (first : kind ∈ kinds)
    (second : other ∈ kinds) (differ : kind ≠ other) : commonKind kinds = e820Mixed := by
  cases kinds with
  | nil => cases first
  | cons head rest =>
      rw [commonKind, if_neg covered, if_neg]
      intro same
      have all : ∀ entry ∈ head :: rest, entry = head :=
        List.forall_mem_cons.mpr ⟨rfl, same⟩
      exact differ ((all _ first).trans (all _ second).symm)

/-- Merging one more kind, as the loop does. -/
theorem mergeType_commonKind (proper : ∀ other ∈ kinds, other ≠ 0 ∧ other ≠ e820Mixed)
    (valid : kind ≠ e820Mixed) :
    mergeType (commonKind kinds) kind = commonKind (kinds ++ [kind]) := by
  have last : kind ∈ kinds ++ [kind] := by simp
  by_cases gap : e820Gap ∈ kinds
  · rw [commonKind_gap gap, commonKind_gap (List.mem_append_left _ gap), mergeType,
      if_neg (by decide)]
    by_cases same : e820Gap = kind
    · rw [if_pos same]
    · rw [if_neg same, if_pos rfl]
  cases kinds with
  | nil =>
      rw [commonKind, mergeType, if_pos rfl, commonKind_same last]
      simp
  | cons first rest =>
      have head : first ∈ first :: rest := List.mem_cons_self
      have noGap : first ≠ e820Gap := fun equal => gap (equal ▸ head)
      by_cases same : ∀ other ∈ first :: rest, other = first
      · rw [commonKind_same head same, mergeType, if_neg (proper first head).1]
        by_cases equal : first = kind
        · subst equal
          rw [if_pos rfl, commonKind_same last]
          intro other member
          rcases List.mem_append.mp member with old | new
          · exact same other old
          · exact List.mem_singleton.mp new
        rw [if_neg equal, if_neg noGap]
        by_cases new : kind = e820Gap
        · subst new
          rw [if_pos rfl, commonKind_gap last]
        · rw [if_neg new, commonKind_mixed ?_ (List.mem_append_left _ head) last equal]
          intro member
          rcases List.mem_append.mp member with old | added
          · exact gap old
          · exact new (List.mem_singleton.mp added).symm
      · push Not at same
        obtain ⟨other, member, differ⟩ := same
        rw [commonKind_mixed gap member head differ, mergeType, if_neg (by decide),
          if_neg valid.symm, if_neg (by decide)]
        by_cases new : kind = e820Gap
        · subst new
          rw [if_pos rfl, commonKind_gap last]
        · rw [if_neg new, commonKind_mixed ?_ (List.mem_append_left _ member)
            (List.mem_append_left _ head) differ]
          intro found
          rcases List.mem_append.mp found with old | added
          · exact gap old
          · exact new (List.mem_singleton.mp added).symm

theorem commonKind_ne_zero (nonempty : kinds ≠ [])
    (proper : ∀ other ∈ kinds, other ≠ 0 ∧ other ≠ e820Mixed) : commonKind kinds ≠ 0 := by
  obtain ⟨first, rest, rfl⟩ := List.exists_cons_of_ne_nil nonempty
  by_cases gap : e820Gap ∈ first :: rest
  · rw [commonKind_gap gap]
    decide
  by_cases same : ∀ other ∈ first :: rest, other = first
  · rw [commonKind_same List.mem_cons_self same]
    exact (proper first List.mem_cons_self).1
  · push Not at same
    obtain ⟨other, member, differ⟩ := same
    rw [commonKind_mixed gap member List.mem_cons_self differ]
    decide

/-- When some of the kinds are enough to find the common kind. -/
theorem commonKind_eq_iff (subset : ∀ other ∈ fewer, other ∈ kinds) (nonempty : kinds ≠ [])
    (proper : ∀ other ∈ kinds, other ≠ 0 ∧ other ≠ e820Mixed) :
    commonKind fewer = commonKind kinds ↔
      ∀ other ∈ kinds, other ∈ fewer ∨ e820Gap ∈ fewer ∨
        (other ≠ e820Gap ∧ ∃ one ∈ fewer, ∃ two ∈ fewer, one ≠ two) := by
  by_cases gap : e820Gap ∈ fewer
  · rw [commonKind_gap gap, commonKind_gap (subset _ gap)]
    exact iff_of_true rfl fun _ _ => .inr (.inl gap)
  simp only [gap, false_or]
  by_cases several : ∃ one ∈ fewer, ∃ two ∈ fewer, one ≠ two
  · obtain ⟨one, first, two, second, differ⟩ := several
    rw [commonKind_mixed gap first second differ]
    by_cases all : e820Gap ∈ kinds
    · rw [commonKind_gap all]
      refine iff_of_false (by decide) fun found => ?_
      rcases found _ all with seen | ⟨noGap, -⟩
      · exact gap seen
      · exact noGap rfl
    · rw [commonKind_mixed all (subset _ first) (subset _ second) differ]
      refine iff_of_true rfl fun other member => .inr ⟨?_, one, first, two, second, differ⟩
      rintro rfl
      exact all member
  simp only [several, and_false, or_false]
  cases fewer with
  | nil =>
      obtain ⟨first, rest, rfl⟩ := List.exists_cons_of_ne_nil nonempty
      refine iff_of_false ?_ fun found => ?_
      · rw [commonKind]
        exact (commonKind_ne_zero nonempty proper).symm
      · cases found first List.mem_cons_self
  | cons first rest =>
      have head : first ∈ first :: rest := List.mem_cons_self
      have same : ∀ other ∈ first :: rest, other = first := by
        intro other member
        by_contra differ
        exact several ⟨other, member, first, head, differ⟩
      rw [commonKind_same head same]
      constructor
      · intro equal other member
        by_cases differ : other = first
        · rw [differ]
          exact head
        exfalso
        by_cases all : e820Gap ∈ kinds
        · rw [commonKind_gap all] at equal
          exact gap (equal ▸ head)
        · rw [commonKind_mixed all member (subset _ head) differ] at equal
          exact (proper _ (subset _ head)).2 equal
      · intro found
        rw [commonKind_same (subset _ head)]
        exact fun other member => same other (found other member)

end CommonKind

section Pieces

/-- The pieces of the address space from `start` on: a gap in front of each region, and the
gap behind the last one. -/
def pieces : Nat → List (Region Nat UInt32) → List (Region Nat UInt32)
  | start, [] => [⟨start, 2 ^ 64 - 1, e820Gap⟩]
  | start, region :: rest =>
      ⟨start, region.base, e820Gap⟩ :: region :: pieces region.limit rest

/-- The range overlaps the piece; an empty range does when it lies behind the start of the
piece. -/
def Overlaps (lo hi : Nat) (piece : Region Nat UInt32) : Prop :=
  piece.base < piece.limit ∧ piece.base < hi ∧ lo < piece.limit

/-- The lengths of the range and the piece have a sum that does not wrap around. -/
def SumFits (lo hi : Nat) (piece : Region Nat UInt32) : Prop :=
  hi - lo + (piece.limit - piece.base) < 2 ^ 64

instance (lo hi : Nat) : DecidablePred (Overlaps lo hi) := fun _ =>
  inferInstanceAs (Decidable (_ ∧ _ ∧ _))

instance (lo hi : Nat) : DecidablePred (SumFits lo hi) := fun _ =>
  inferInstanceAs (Decidable (_ < _))

/-- The kinds of the pieces that `e820_check_region` finds to overlap the range. -/
def seenKinds (lo hi : Nat) (list : List (Region Nat UInt32)) : List UInt32 :=
  (list.filter fun piece => Overlaps lo hi piece ∧ SumFits lo hi piece).map Region.kind

/-- The kinds of all pieces that overlap the range. -/
def overlappedKinds (lo hi : Nat) (list : List (Region Nat UInt32)) : List UInt32 :=
  (list.filter fun piece => Overlaps lo hi piece).map Region.kind

variable {base limit e820Base e820End e820Length : UInt64} {type : UInt32}
  {kinds : List UInt32}

theorem isOverlapped_iff (range : base.toNat ≤ limit.toNat)
    (piece : e820Base.toNat ≤ e820End.toNat) :
    isOverlapped base limit e820Base e820End = true ↔
      e820Base.toNat < limit.toNat ∧ base.toNat < e820End.toNat ∧
        limit.toNat - base.toNat + (e820End.toNat - e820Base.toNat) < 2 ^ 64 := by
  have small := limit.toNat_lt
  have lengths := e820End.toNat_lt
  have length : (limit - base).toNat = limit.toNat - base.toNat :=
    UInt64.toNat_sub_of_le _ _ (UInt64.le_iff_toNat_le.mpr range)
  have e820Length : (e820End - e820Base).toNat = e820End.toNat - e820Base.toNat :=
    UInt64.toNat_sub_of_le _ _ (UInt64.le_iff_toNat_le.mpr piece)
  have least : (if base < e820Base then base else e820Base).toNat =
      min base.toNat e820Base.toNat := by
    split
    case isTrue below => exact (min_eq_left (Nat.le_of_lt below)).symm
    case isFalse above => exact (min_eq_right (Nat.le_of_not_lt above)).symm
  have greatest : (if limit > e820End then limit else e820End).toNat =
      max limit.toNat e820End.toNat := by
    split
    case isTrue above => exact (max_eq_left (Nat.le_of_lt above)).symm
    case isFalse below => exact (max_eq_right (Nat.le_of_not_lt below)).symm
  have span : ((if limit > e820End then limit else e820End) -
      (if base < e820Base then base else e820Base)).toNat =
      max limit.toNat e820End.toNat - min base.toNat e820Base.toNat := by
    rw [UInt64.toNat_sub_of_le _ _ (by rw [UInt64.le_iff_toNat_le, least, greatest]; omega),
      least, greatest]
  have sum : (limit - base + (e820End - e820Base)).toNat =
      (limit.toNat - base.toNat + (e820End.toNat - e820Base.toNat)) % 2 ^ 64 := by
    rw [UInt64.toNat_add, length, e820Length]
  rw [isOverlapped]
  generalize (if limit > e820End then limit else e820End) -
    (if base < e820Base then base else e820Base) = difference at span
  by_cases less : difference < limit - base + (e820End - e820Base)
  · rw [if_pos less]
    rw [UInt64.lt_iff_toNat_lt, span, sum] at less
    exact iff_of_true rfl (by omega)
  · rw [if_neg less, decide_eq_true_iff]
    simp only [UInt64.lt_iff_toNat_lt, ← UInt64.toNat_inj, gt_iff_lt, UInt64.toNat_zero, span,
      sum, length, e820Length] at less ⊢
    omega

/-- A kind that an entry or a gap can have. -/
def ProperKind (kind : UInt32) : Prop :=
  kind ≠ 0 ∧ kind ≠ e820Mixed

theorem properKind_gap : ProperKind e820Gap := by
  unfold ProperKind
  decide

theorem properKind_of_type (known : 1 ≤ type ∧ type ≤ 5) : ProperKind type := by
  constructor
  · rintro rfl
    exact absurd known.1 (by decide)
  · rintro rfl
    exact absurd known.2 (by decide)

theorem seenKinds_cons (lo hi : Nat) (piece : Region Nat UInt32)
    (list : List (Region Nat UInt32)) :
    seenKinds lo hi (piece :: list) = seenKinds lo hi [piece] ++ seenKinds lo hi list := by
  rw [seenKinds, seenKinds, seenKinds, ← List.map_append, ← List.filter_append,
    List.singleton_append]

theorem seenKinds_seen {lo hi : Nat} {piece : Region Nat UInt32}
    (seen : Overlaps lo hi piece ∧ SumFits lo hi piece) :
    seenKinds lo hi [piece] = [piece.kind] := by
  rw [seenKinds, List.filter_cons_of_pos (by rwa [decide_eq_true_iff])]
  rfl

theorem seenKinds_unseen {lo hi : Nat} {piece : Region Nat UInt32}
    (unseen : ¬ (Overlaps lo hi piece ∧ SumFits lo hi piece)) :
    seenKinds lo hi [piece] = [] := by
  rw [seenKinds, List.filter_cons_of_neg (by rwa [decide_eq_true_iff])]
  rfl

theorem seenKinds_proper {lo hi : Nat} {list : List (Region Nat UInt32)}
    (proper : ∀ piece ∈ list, Overlaps lo hi piece → ProperKind piece.kind) :
    ∀ kind ∈ seenKinds lo hi list, ProperKind kind := by
  intro kind member
  obtain ⟨piece, found, rfl⟩ := List.mem_map.mp member
  obtain ⟨listed, seen⟩ := List.mem_filter.mp found
  exact proper piece listed (of_decide_eq_true seen).1

theorem checkRange_commonKind (range : base.toNat ≤ limit.toNat)
    (fits : e820Base.toNat + e820Length.toNat < 2 ^ 64)
    (proper : ∀ kind ∈ kinds, ProperKind kind)
    (known : Overlaps base.toNat limit.toNat
      ⟨e820Base.toNat, e820Base.toNat + e820Length.toNat, type⟩ → ProperKind type) :
    checkRange base limit e820Base e820Length type (commonKind kinds) =
      commonKind (kinds ++ seenKinds base.toNat limit.toNat
        [⟨e820Base.toNat, e820Base.toNat + e820Length.toNat, type⟩]) := by
  have reach : (e820Base + e820Length).toNat = e820Base.toNat + e820Length.toNat := by
    rw [UInt64.toNat_add, Nat.mod_eq_of_lt fits]
  have overlapped := @isOverlapped_iff base limit e820Base (e820Base + e820Length) range
    (by omega)
  rw [reach] at overlapped
  rw [checkRange]
  by_cases empty : e820Length = 0
  · rw [if_pos empty, seenKinds_unseen, List.append_nil]
    rintro ⟨⟨filled, -⟩, -⟩
    rw [empty] at filled
    exact Nat.lt_irrefl _ filled
  rw [if_neg empty]
  have positive : 0 < e820Length.toNat := Nat.pos_of_ne_zero fun zero =>
    empty (UInt64.toNat_inj.mp zero)
  by_cases seen : isOverlapped base limit e820Base (e820Base + e820Length) = true
  · obtain ⟨lower, upper, sums⟩ := overlapped.mp seen
    have overlaps : Overlaps base.toNat limit.toNat
        ⟨e820Base.toNat, e820Base.toNat + e820Length.toNat, type⟩ :=
      ⟨Nat.lt_add_of_pos_right positive, lower, upper⟩
    rw [if_pos seen, mergeType_commonKind proper (known overlaps).2, seenKinds_seen]
    exact ⟨overlaps, sums⟩
  · rw [if_neg seen, seenKinds_unseen, List.append_nil]
    rintro ⟨⟨-, lower, upper⟩, sums⟩
    exact seen (overlapped.mpr ⟨lower, upper, sums⟩)

variable {table : E820Table} {front rest : List MemoryMap}

/-- The loop and the check of the last gap merge the kinds of the pieces found to overlap. -/
theorem checkRegionLoop_commonKind (split : table.entries = front ++ rest)
    (range : base.toNat ≤ limit.toNat) (valid : WellFormed (rest.map MemoryMap.region))
    (bounded : ∀ entry ∈ rest, entry.region.limit < 2 ^ 64)
    (known : ∀ entry ∈ rest, Overlaps base.toNat limit.toNat entry.region →
      ProperKind entry.type) {start : UInt64}
    (below : ∀ entry ∈ rest, start.toNat ≤ entry.region.base)
    (proper : ∀ kind ∈ kinds, ProperKind kind) :
    (let (e820End, ret) := checkRegionLoop table base limit rest.length front.length start
        (commonKind kinds)
     if isOverlapped base limit e820End 0xffffffffffffffff then e820Gap else ret) =
      commonKind (kinds ++ seenKinds base.toNat limit.toNat
        (pieces start.toNat (rest.map MemoryMap.region))) := by
  induction rest generalizing front start kinds with
  | nil =>
      have last : (0xffffffffffffffff : UInt64).toNat = 2 ^ 64 - 1 := rfl
      have top := limit.toNat_lt
      have size := start.toNat_lt
      have overlapped := @isOverlapped_iff base limit start 0xffffffffffffffff range (by omega)
      rw [last] at overlapped
      rw [List.length_nil, checkRegionLoop, List.map_nil, pieces]
      dsimp only
      by_cases seen : isOverlapped base limit start 0xffffffffffffffff = true
      · obtain ⟨lower, upper, sums⟩ := overlapped.mp seen
        have found : Overlaps base.toNat limit.toNat ⟨start.toNat, 2 ^ 64 - 1, e820Gap⟩ :=
          ⟨by dsimp only; omega, lower, upper⟩
        rw [if_pos seen, seenKinds_seen ⟨found, sums⟩, commonKind_gap]
        simp
      · rw [if_neg seen, seenKinds_unseen, List.append_nil]
        rintro ⟨⟨-, lower, upper⟩, sums⟩
        exact seen (overlapped.mpr ⟨lower, upper, sums⟩)
  | cons entry rest ih =>
      obtain ⟨nonempty, restValid, apart⟩ := WellFormed.cons_iff.mp valid
      have here : start.toNat ≤ entry.baseAddr.toNat := below entry List.mem_cons_self
      have fits : entry.baseAddr.toNat + entry.length.toNat < 2 ^ 64 :=
        bounded entry List.mem_cons_self
      have gap : (entry.baseAddr - start).toNat = entry.baseAddr.toNat - start.toNat :=
        UInt64.toNat_sub_of_le _ _ (UInt64.le_iff_toNat_le.mpr here)
      have reach : (entry.baseAddr + entry.length).toNat = entry.region.limit := by
        rw [UInt64.toNat_add, Nat.mod_eq_of_lt fits]
        rfl
      have moved : table.entries = (front ++ [entry]) ++ rest := by simpa using split
      have gapKinds : ∀ kind ∈ kinds ++ seenKinds base.toNat limit.toNat
          [⟨start.toNat, entry.baseAddr.toNat, e820Gap⟩], ProperKind kind := by
        refine List.forall_mem_append.mpr ⟨proper, seenKinds_proper ?_⟩
        exact fun piece member _ => List.mem_singleton.mp member ▸ properKind_gap
      have entryKinds : ∀ kind ∈ (kinds ++ seenKinds base.toNat limit.toNat
          [⟨start.toNat, entry.baseAddr.toNat, e820Gap⟩]) ++ seenKinds base.toNat limit.toNat
          [entry.region], ProperKind kind := by
        refine List.forall_mem_append.mpr ⟨gapKinds, seenKinds_proper ?_⟩
        exact fun piece member overlaps => by
          obtain rfl := List.mem_singleton.mp member
          exact known entry List.mem_cons_self overlaps
      have first := @checkRange_commonKind base limit start (entry.baseAddr - start) e820Gap
        kinds range (by omega) proper fun _ => properKind_gap
      rw [gap, Nat.add_sub_cancel' here] at first
      have second := @checkRange_commonKind base limit entry.baseAddr entry.length entry.type
        _ range fits gapKinds (known entry List.mem_cons_self)
      have behind : ∀ other ∈ rest,
          (entry.baseAddr + entry.length).toNat ≤ other.region.base := by
        intro other member
        rw [reach]
        exact apart _ (List.mem_map_of_mem member)
      have tail := ih moved restValid (fun other member => bounded other (.tail _ member))
        (fun other member => known other (.tail _ member)) behind entryKinds
      rw [List.length_append, List.length_singleton, reach] at tail
      rw [List.length_cons, checkRegionLoop]
      simp only [E820Table.map_of_split split]
      rw [first, second, List.map_cons, pieces,
        seenKinds_cons _ _ _ (entry.region :: pieces _ _),
        seenKinds_cons _ _ entry.region (pieces _ _), ← List.append_assoc, ← List.append_assoc]
      exact tail

end Pieces

section Kinds

variable {table : E820Table} {base length : UInt64}

/-- What `e820_check_region` is to return for a range of addresses. -/
structure CoversKind (table : E820Table) (lo hi : Nat) (kind : UInt32) : Prop where
  gap : (∃ a, lo ≤ a ∧ a < hi ∧ table.typeAt a = none) → kind = e820Gap
  common : ∀ type, (∀ a, lo ≤ a → a < hi → table.typeAt a = some type) → kind = type
  mixed : (∀ a, lo ≤ a → a < hi → table.typeAt a ≠ none) →
    (¬ ∃ type, ∀ a, lo ≤ a → a < hi → table.typeAt a = some type) → kind = e820Mixed

/-- The piece that holds an address has the kind of that address. -/
theorem pieces_kind {start : Nat} {regions : List (Region Nat UInt32)}
    (valid : WellFormed regions) (below : ∀ region ∈ regions, start ≤ region.base)
    {piece : Region Nat UInt32} (member : piece ∈ pieces start regions) {a : Nat}
    (holds : piece.Holds a) : start ≤ a ∧ piece.kind = (lookup regions a).getD e820Gap := by
  induction regions generalizing start with
  | nil =>
      rw [pieces, List.mem_singleton] at member
      subst member
      exact ⟨holds.1, rfl⟩
  | cons region rest ih =>
      obtain ⟨nonempty, restValid, apart⟩ := WellFormed.cons_iff.mp valid
      have first := below region List.mem_cons_self
      rw [pieces, List.mem_cons, List.mem_cons] at member
      rcases member with rfl | rfl | later
      · refine ⟨holds.1, ?_⟩
        rw [lookup_eq_none]
        · rfl
        · rintro other inside ⟨start, -⟩
          have early : a < region.base := holds.2
          rcases List.mem_cons.mp inside with rfl | more
          · omega
          · have order := apart other more
            omega
      · refine ⟨first.trans holds.1, ?_⟩
        rw [lookup, if_pos holds]
        rfl
      · obtain ⟨late, kind⟩ := ih restValid apart later
        refine ⟨by omega, ?_⟩
        rw [lookup, if_neg, kind]
        rintro ⟨-, early⟩
        omega

/-- Every address below the last one belongs to a piece. -/
theorem exists_piece {start : Nat} {regions : List (Region Nat UInt32)} {a : Nat}
    (above : start ≤ a) (inside : a < 2 ^ 64 - 1) :
    ∃ piece ∈ pieces start regions, piece.Holds a := by
  induction regions generalizing start with
  | nil => exact ⟨_, List.mem_singleton.mpr rfl, above, inside⟩
  | cons region rest ih =>
      rw [pieces]
      by_cases before : a < region.base
      · exact ⟨_, List.mem_cons_self, above, before⟩
      by_cases within : a < region.limit
      · exact ⟨region, .tail _ List.mem_cons_self, Nat.le_of_not_lt before, within⟩
      · obtain ⟨piece, member, holds⟩ := @ih region.limit (Nat.le_of_not_lt within)
        exact ⟨piece, .tail _ (.tail _ member), holds⟩

/-- The kinds of the overlapped pieces are the kinds of the addresses of the range. -/
theorem mem_overlappedKinds (valid : table.Valid) {lo hi : Nat} (filled : lo < hi)
    (fits : hi < 2 ^ 64) (kind : UInt32) :
    kind ∈ overlappedKinds lo hi (pieces 0 table.regions) ↔
      ∃ a, lo ≤ a ∧ a < hi ∧ (table.typeAt a).getD e820Gap = kind := by
  rw [overlappedKinds, List.mem_map]
  constructor
  · rintro ⟨piece, found, rfl⟩
    obtain ⟨member, overlaps⟩ := List.mem_filter.mp found
    obtain ⟨nonempty, lower, upper⟩ := of_decide_eq_true overlaps
    have holds : piece.Holds (max lo piece.base) := ⟨by omega, by omega⟩
    have result := pieces_kind valid.wellFormed (fun _ _ => Nat.zero_le _) member holds
    exact ⟨max lo piece.base, by omega, by omega, result.2.symm⟩
  · rintro ⟨a, lower, upper, rfl⟩
    obtain ⟨piece, member, holds⟩ := @exists_piece 0 table.regions a (Nat.zero_le a) (by omega)
    have result := pieces_kind valid.wellFormed (fun _ _ => Nat.zero_le _) member holds
    have start := holds.1
    have reach := holds.2
    refine ⟨piece, List.mem_filter.mpr ⟨member, decide_eq_true ?_⟩, result.2⟩
    exact ⟨by omega, by omega, by omega⟩

theorem coversKind_iff (valid : table.Valid) {lo hi : Nat} (filled : lo < hi)
    (fits : hi < 2 ^ 64) (known : ∀ region ∈ table.regions, region.kind ≠ e820Gap)
    (kind : UInt32) :
    CoversKind table lo hi kind ↔
      kind = commonKind (overlappedKinds lo hi (pieces 0 table.regions)) := by
  have members := mem_overlappedKinds valid filled fits
  have covered (a : Nat) (gap : (table.typeAt a).getD e820Gap = e820Gap) :
      table.typeAt a = none := by
    cases found : table.typeAt a with
    | none => rfl
    | some type =>
        obtain ⟨region, member, -, rfl⟩ := exists_of_lookup found
        rw [found] at gap
        exact (known region member gap).elim
  by_cases gap : e820Gap ∈ overlappedKinds lo hi (pieces 0 table.regions)
  · obtain ⟨a, lower, upper, missing⟩ := (members e820Gap).mp gap
    have none := covered a missing
    rw [commonKind_gap gap]
    constructor
    · exact fun covers => covers.gap ⟨a, lower, upper, none⟩
    · rintro rfl
      refine ⟨fun _ => rfl, fun type all => ?_, fun all => (all a lower upper none).elim⟩
      rw [all a lower upper] at none
      cases none
  have present (a : Nat) (lower : lo ≤ a) (upper : a < hi) : table.typeAt a ≠ none := by
    intro none
    refine gap ((members e820Gap).mpr ⟨a, lower, upper, ?_⟩)
    rw [none]
    rfl
  have start : (table.typeAt lo).getD e820Gap ∈ overlappedKinds lo hi (pieces 0 table.regions) :=
    (members _).mpr ⟨lo, le_rfl, filled, rfl⟩
  have typed {type : UInt32}
      (all : ∀ other ∈ overlappedKinds lo hi (pieces 0 table.regions), other = type) (a : Nat)
      (lower : lo ≤ a) (upper : a < hi) : table.typeAt a = some type := by
    obtain ⟨found, at_⟩ := Option.ne_none_iff_exists'.mp (present a lower upper)
    have same := all _ ((members _).mpr ⟨a, lower, upper, rfl⟩)
    rw [at_, Option.getD_some] at same
    rw [at_, same]
  by_cases same : ∀ other ∈ overlappedKinds lo hi (pieces 0 table.regions),
      other = (table.typeAt lo).getD e820Gap
  · rw [commonKind_same start same]
    constructor
    · exact fun covers => covers.common _ (typed same)
    · rintro rfl
      refine ⟨fun ⟨a, lower, upper, absent⟩ => (present a lower upper absent).elim,
        fun type all => ?_, fun _ differ => (differ ⟨_, typed same⟩).elim⟩
      rw [all lo le_rfl filled]
      rfl
  · push Not at same
    obtain ⟨other, member, differ⟩ := same
    obtain ⟨b, lower, upper, rfl⟩ := (members other).mp member
    rw [commonKind_mixed gap member start differ]
    constructor
    · refine fun covers => covers.mixed present ?_
      rintro ⟨type, all⟩
      rw [all b lower upper, all lo le_rfl filled] at differ
      exact differ rfl
    · rintro rfl
      refine ⟨fun ⟨a, above, below, absent⟩ => (present a above below absent).elim,
        fun type all => ?_, fun _ _ => rfl⟩
      rw [all b lower upper, all lo le_rfl filled] at differ
      exact (differ rfl).elim

theorem pieces_bounded {start : Nat} {regions : List (Region Nat UInt32)}
    (bounded : ∀ region ∈ regions, region.base < region.limit ∧ region.limit < 2 ^ 64) :
    ∀ piece ∈ pieces start regions, piece.limit < 2 ^ 64 := by
  induction regions generalizing start with
  | nil =>
      intro piece member
      rw [pieces, List.mem_singleton] at member
      subst member
      exact Nat.sub_lt (by decide) (by decide)
  | cons region rest ih =>
      obtain ⟨here, others⟩ := List.forall_mem_cons.mp bounded
      intro piece member
      rw [pieces, List.mem_cons, List.mem_cons] at member
      rcases member with rfl | rfl | later
      · exact here.1.trans here.2
      · exact here.2
      · exact ih others piece later

theorem pieces_proper {start : Nat} {regions : List (Region Nat UInt32)}
    (known : ∀ region ∈ regions, ProperKind region.kind) :
    ∀ piece ∈ pieces start regions, ProperKind piece.kind := by
  induction regions generalizing start with
  | nil =>
      intro piece member
      rw [pieces, List.mem_singleton] at member
      subst member
      exact properKind_gap
  | cons region rest ih =>
      obtain ⟨here, others⟩ := List.forall_mem_cons.mp known
      intro piece member
      rw [pieces, List.mem_cons, List.mem_cons] at member
      rcases member with rfl | rfl | later
      · exact properKind_gap
      · exact here
      · exact ih others piece later

/-- `e820_check_region` returns the common kind of the pieces it finds to overlap. -/
theorem e820CheckRegion_eq (valid : table.Valid)
    (fits : base.toNat + length.toNat < 2 ^ 64)
    (known : ∀ entry ∈ table.entries,
      Overlaps base.toNat (base.toNat + length.toNat) entry.region → ProperKind entry.type) :
    e820CheckRegion table base length =
      commonKind (seenKinds base.toNat (base.toNat + length.toNat) (pieces 0 table.regions)) := by
  have limit : (base + length).toNat = base.toNat + length.toNat := by
    rw [UInt64.toNat_add, Nat.mod_eq_of_lt fits]
  have split : table.entries = [] ++ table.entries := rfl
  have loop := @checkRegionLoop_commonKind base (base + length) [] table [] table.entries split
    (by omega) valid.wellFormed
    (fun entry member => valid.bounded _ (List.mem_map_of_mem member))
    (by rw [limit]; exact known) 0 (fun _ _ => Nat.zero_le _) (by simp)
  rw [limit, List.nil_append, E820Table.length_entries] at loop
  exact loop

theorem mem_pieces {start : Nat} {regions : List (Region Nat UInt32)}
    {region : Region Nat UInt32} (member : region ∈ regions) : region ∈ pieces start regions := by
  induction regions generalizing start with
  | nil => cases member
  | cons first rest ih =>
      rw [pieces, List.mem_cons, List.mem_cons]
      rcases List.mem_cons.mp member with rfl | later
      · exact .inr (.inl rfl)
      · exact .inr (.inr (ih later))

/-- A range of RAM is found to be RAM, if no sum of its length with the length of an entry of
RAM wraps around and it does not lie, empty, at the start of one. -/
theorem e820CheckRegion_ram (valid : table.Valid) (fits : base.toNat + length.toNat < 2 ^ 64)
    (ram : ∀ a, base.toNat ≤ a → a < base.toNat + max length.toNat 1 →
      table.typeAt a = some e820Ram)
    (inside : length.toNat = 0 → base.toNat ∉ table.regions.map Region.base)
    (sums : ∀ region ∈ table.regions, region.kind = e820Ram →
      length.toNat + (region.limit - region.base) < 2 ^ 64) :
    e820CheckRegion table base length = e820Ram := by
  have proper : ProperKind e820Ram := properKind_of_type (by decide)
  have overlapped : ∀ piece ∈ pieces 0 table.regions,
      Overlaps base.toNat (base.toNat + length.toNat) piece → piece.kind = e820Ram := by
    rintro piece member ⟨nonempty, lower, upper⟩
    have holds : piece.Holds (max base.toNat piece.base) := ⟨by omega, by omega⟩
    have kind := (pieces_kind valid.wellFormed (fun _ _ => Nat.zero_le _) member holds).2
    rw [kind, ← E820Table.typeAt, ram _ (by omega) (by omega)]
    rfl
  obtain ⟨region, member, ⟨start, reach⟩, kind⟩ :=
    exists_of_lookup (ram base.toNat le_rfl (by omega))
  have before : region.base < base.toNat + length.toNat := by
    by_cases empty : length.toNat = 0
    · have apart : region.base ≠ base.toNat := fun same =>
        inside empty (same ▸ List.mem_map_of_mem member)
      omega
    · omega
  have sum := sums region member kind
  have seen : e820Ram ∈ seenKinds base.toNat (base.toNat + length.toNat)
      (pieces 0 table.regions) := by
    rw [seenKinds, List.mem_map]
    refine ⟨region, List.mem_filter.mpr ⟨mem_pieces member, decide_eq_true ⟨?_, ?_⟩⟩, kind⟩
    · exact ⟨valid.wellFormed.nonempty region member, before, reach⟩
    · rw [SumFits, Nat.add_sub_cancel_left]
      exact sum
  rw [e820CheckRegion_eq valid fits]
  · refine commonKind_same seen fun other found => ?_
    obtain ⟨piece, listed, rfl⟩ := List.mem_map.mp found
    obtain ⟨listed, shown⟩ := List.mem_filter.mp listed
    exact overlapped piece listed (of_decide_eq_true shown).1
  · intro entry listed overlaps
    have kind := overlapped entry.region (mem_pieces (List.mem_map_of_mem listed)) overlaps
    rw [show entry.type = e820Ram from kind]
    exact proper

/-- A piece that is missed does not change the kind of the pieces that are seen. -/
def Redundant (seen : List UInt32) (kind : UInt32) : Prop :=
  kind ∈ seen ∨ e820Gap ∈ seen ∨ (kind ≠ e820Gap ∧ ∃ one ∈ seen, ∃ two ∈ seen, one ≠ two)

theorem seenKinds_eq_nil_iff {lo hi : Nat} {list : List (Region Nat UInt32)} :
    seenKinds lo hi list = [] ↔
      ∀ piece ∈ list, ¬ (Overlaps lo hi piece ∧ SumFits lo hi piece) := by
  rw [seenKinds, List.map_eq_nil_iff, List.filter_eq_nil_iff]
  simp only [decide_eq_true_iff]

theorem mem_seenKinds {lo hi : Nat} {list : List (Region Nat UInt32)} {kind : UInt32} :
    kind ∈ seenKinds lo hi list ↔
      ∃ piece ∈ list, (Overlaps lo hi piece ∧ SumFits lo hi piece) ∧ piece.kind = kind := by
  rw [seenKinds, List.mem_map]
  simp only [List.mem_filter, decide_eq_true_iff, and_assoc]

theorem seenKinds_common_iff {lo hi : Nat} {list : List (Region Nat UInt32)}
    (proper : ∀ piece ∈ list, ProperKind piece.kind)
    (overlapped : overlappedKinds lo hi list ≠ []) :
    commonKind (seenKinds lo hi list) = commonKind (overlappedKinds lo hi list) ↔
      ∀ piece ∈ list, Overlaps lo hi piece → ¬ SumFits lo hi piece →
        Redundant (seenKinds lo hi list) piece.kind := by
  have subset : ∀ other ∈ seenKinds lo hi list, other ∈ overlappedKinds lo hi list := by
    intro other member
    obtain ⟨piece, inside, seen, rfl⟩ := mem_seenKinds.mp member
    exact List.mem_map_of_mem (List.mem_filter.mpr ⟨inside, decide_eq_true seen.1⟩)
  have kinds : ∀ other ∈ overlappedKinds lo hi list, ProperKind other := by
    intro other member
    obtain ⟨piece, found, rfl⟩ := List.mem_map.mp member
    exact proper piece (List.mem_filter.mp found).1
  rw [commonKind_eq_iff subset overlapped kinds]
  constructor
  · intro found piece member overlaps _
    exact found _ (List.mem_map_of_mem (List.mem_filter.mpr ⟨member, decide_eq_true overlaps⟩))
  · intro redundant other member
    obtain ⟨piece, found, rfl⟩ := List.mem_map.mp member
    obtain ⟨inside, overlaps⟩ := List.mem_filter.mp found
    by_cases sums : SumFits lo hi piece
    · exact .inl (mem_seenKinds.mpr
        ⟨piece, inside, ⟨of_decide_eq_true overlaps, sums⟩, rfl⟩)
    · exact redundant piece inside (of_decide_eq_true overlaps) sums

/-- What is documented of `e820_check_region`: it does not return zero, and a range that is
not empty gets its kind. -/
def ChecksRegion (table : E820Table) (base length : UInt64) : Prop :=
  e820CheckRegion table base length ≠ 0 ∧
    (0 < length.toNat → CoversKind table base.toNat (base.toNat + length.toNat)
      (e820CheckRegion table base length))

/-- An empty range has to lie inside a piece, and the pieces that are missed because the sum
of the lengths wraps around must not matter. -/
theorem checksRegion_iff (table : E820Table) (base length : UInt64) (valid : table.Valid)
    (known : ∀ entry ∈ table.entries, 1 ≤ entry.type ∧ entry.type ≤ 5)
    (fits : base.toNat + length.toNat < 2 ^ 64) :
    ChecksRegion table base length ↔
      if length.toNat = 0 then
        ∃ piece ∈ pieces 0 table.regions, piece.base < base.toNat ∧ base.toNat < piece.limit
      else ∀ piece ∈ pieces 0 table.regions,
        Overlaps base.toNat (base.toNat + length.toNat) piece →
        ¬ SumFits base.toNat (base.toNat + length.toNat) piece →
        Redundant (seenKinds base.toNat (base.toNat + length.toNat) (pieces 0 table.regions))
          piece.kind := by
  have entriesProper : ∀ entry ∈ table.entries, ProperKind entry.type := fun entry member =>
    properKind_of_type (known entry member)
  have proper : ∀ piece ∈ pieces 0 table.regions, ProperKind piece.kind := by
    refine pieces_proper fun region member => ?_
    obtain ⟨entry, origin, rfl⟩ := List.mem_map.mp member
    exact entriesProper entry origin
  have covered : ∀ region ∈ table.regions, region.kind ≠ e820Gap := by
    intro region member gap
    obtain ⟨entry, origin, rfl⟩ := List.mem_map.mp member
    have kind := (known entry origin).2
    rw [show entry.type = e820Gap from gap] at kind
    exact absurd kind (by decide)
  rw [ChecksRegion, e820CheckRegion_eq valid fits fun entry member _ =>
    entriesProper entry member]
  by_cases empty : length.toNat = 0
  · rw [if_pos empty, empty, Nat.add_zero]
    simp only [Nat.lt_irrefl, false_imp_iff, and_true]
    constructor
    · intro nonzero
      by_contra outside
      push Not at outside
      refine nonzero ?_
      rw [seenKinds_eq_nil_iff.mpr]
      · rfl
      · rintro piece member ⟨⟨-, lower, upper⟩, -⟩
        have := outside piece member lower
        omega
    · rintro ⟨piece, member, lower, upper⟩
      refine commonKind_ne_zero (fun none => ?_)
        (seenKinds_proper fun piece member _ => proper piece member)
      have bound := pieces_bounded (fun region inside =>
        ⟨valid.wellFormed.nonempty region inside, valid.bounded region inside⟩) piece member
      refine seenKinds_eq_nil_iff.mp none piece member ⟨⟨?_, lower, upper⟩, ?_⟩
      · omega
      · rw [SumFits]
        omega
  · rw [if_neg empty]
    have filled : base.toNat < base.toNat + length.toNat := by omega
    have overlapped : overlappedKinds base.toNat (base.toNat + length.toNat)
        (pieces 0 table.regions) ≠ [] := by
      exact List.ne_nil_of_mem ((mem_overlappedKinds valid filled fits _).mpr
        ⟨base.toNat, le_rfl, filled, rfl⟩)
    have kinds : ∀ other ∈ overlappedKinds base.toNat (base.toNat + length.toNat)
        (pieces 0 table.regions), ProperKind other := by
      intro other member
      obtain ⟨piece, found, rfl⟩ := List.mem_map.mp member
      exact proper piece (List.mem_filter.mp found).1
    rw [coversKind_iff valid filled fits covered, ← seenKinds_common_iff proper overlapped]
    constructor
    · exact fun checks => checks.2 (by omega)
    · intro same
      refine ⟨?_, fun _ => same⟩
      rw [same]
      exact commonKind_ne_zero overlapped kinds

theorem checksRegion_ram :
    ChecksRegion (.ofEntries [⟨20, 0, 0x9000, e820Ram⟩]) 0x1000 0x1000 := by
  rw [checksRegion_iff (.ofEntries [⟨20, 0, 0x9000, e820Ram⟩]) 0x1000 0x1000
    ⟨⟨by decide, by decide⟩, by decide⟩ (by decide) (by decide)]
  rw [if_neg (by decide)]
  intro piece member _ wraps
  refine (wraps ?_).elim
  revert piece
  decide

/-- A range of sixteen pages of which nine are RAM: the gap behind them is so long that it is
missed. -/
theorem checksRegion_not :
    ¬ ∀ (table : E820Table) (base length : UInt64), table.Valid →
      (∀ entry ∈ table.entries, 1 ≤ entry.type ∧ entry.type ≤ 5) →
      base.toNat + length.toNat < 2 ^ 64 → ChecksRegion table base length := by
  intro checks
  have ram : e820CheckRegion (.ofEntries [⟨20, 0, 0x9000, e820Ram⟩]) 0 0x10000 = e820Ram := by
    decide
  have result := checks (.ofEntries [⟨20, 0, 0x9000, e820Ram⟩]) 0 0x10000
    ⟨⟨by decide, by decide⟩, by decide⟩ (by decide) (by decide)
  have gap := (result.2 (by decide)).gap ⟨0x9000, by decide, by decide, by decide⟩
  rw [ram] at gap
  exact absurd gap (by decide)

end Kinds

end Sable
