import Sable.E820Regions

/-!
# When updates of the memory map fail

`protect_region` and `e820_reserve_ram` change the table step by step and fail
when an insertion finds it full.  This file counts the insertions they need,
shows that tables with room for two more entries are always updated, and says
which failures leave the table as it was.
-/

namespace Sable

open RegionTable E820Table

variable {table : E820Table} {front rest : List MemoryMap} {entry : MemoryMap}

/-- A failed update has changed neither the number of entries nor the entries. -/
def Atomic (table : E820Table) (result : Bool × E820Table) : Prop :=
  result.1 = false → result.2.entries = table.entries

theorem insertAfterRegion_fits (room : table.nrMap + 1 ≤ maxE820Entries) (pos : Nat)
    (addr size : UInt64) (type : UInt32) :
    ∃ reached, insertAfterRegion table pos addr size type = (true, reached) ∧
      reached.nrMap = table.nrMap + 1 := by
  rw [insertAfterRegion, if_neg (by omega)]
  exact ⟨_, rfl, rfl⟩

section Reserve

variable {base length limit : UInt64}

/-- The loop of `e820_reserve_ram` does not skip the entry. -/
def Touches (base limit : UInt64) (entry : MemoryMap) : Prop :=
  entry.type = e820Ram ∧ entry.baseAddr < limit ∧ base < entry.baseAddr + entry.length

/-- The range starts behind the start of an entry of RAM. -/
def SplitsStart (base limit : UInt64) (entry : MemoryMap) : Prop :=
  Touches base limit entry ∧ entry.baseAddr < base

/-- The range ends before the end of an entry of RAM. -/
def SplitsEnd (base limit : UInt64) (entry : MemoryMap) : Prop :=
  Touches base limit entry ∧ limit < entry.baseAddr + entry.length

instance (base limit : UInt64) : DecidablePred (Touches base limit) := fun _ =>
  inferInstanceAs (Decidable (_ ∧ _ ∧ _))

instance (base limit : UInt64) : DecidablePred (SplitsStart base limit) := fun _ =>
  inferInstanceAs (Decidable (_ ∧ _))

instance (base limit : UInt64) : DecidablePred (SplitsEnd base limit) := fun _ =>
  inferInstanceAs (Decidable (_ ∧ _))

/-- The number of insertions that `e820_reserve_ram` makes. -/
def insertions (base limit : UInt64) (entries : List MemoryMap) : Nat :=
  entries.countP (SplitsStart base limit ·) + entries.countP (SplitsEnd base limit ·)

/-- Every entry that the range touches is only cut at its front, so that the first insertion
comes before any other change. -/
def OnlyCutsFront (base limit : UInt64) (entries : List MemoryMap) : Prop :=
  ∀ entry ∈ entries, Touches base limit entry →
    SplitsEnd base limit entry ∧ ¬ SplitsStart base limit entry

theorem insertions_cons (base limit : UInt64) (entry : MemoryMap) (rest : List MemoryMap) :
    insertions base limit (entry :: rest) =
      insertions base limit rest + (if SplitsStart base limit entry then 1 else 0) +
        (if SplitsEnd base limit entry then 1 else 0) := by
  rw [insertions, insertions, List.countP_cons, List.countP_cons]
  simp only [decide_eq_true_eq]
  omega

theorem insertions_of_untouched {entries : List MemoryMap}
    (untouched : ∀ entry ∈ entries, ¬ Touches base limit entry) :
    insertions base limit entries = 0 := by
  have starts : entries.countP (SplitsStart base limit ·) = 0 := by
    rw [List.countP_eq_zero]
    intro entry member splits
    exact untouched entry member (of_decide_eq_true splits).1
  have ends : entries.countP (SplitsEnd base limit ·) = 0 := by
    rw [List.countP_eq_zero]
    intro entry member splits
    exact untouched entry member (of_decide_eq_true splits).1
  rw [insertions, starts, ends]

/-- Behind an entry that reaches over the end of the range nothing is touched. -/
theorem untouched_behind (bounded : entry.region.limit < 2 ^ 64)
    (valid : WellFormed ((entry :: rest).map MemoryMap.region))
    (upper : limit < entry.baseAddr + entry.length) :
    ∀ other ∈ rest, ¬ Touches base limit other := by
  obtain ⟨-, -, apart⟩ := WellFormed.cons_iff.mp valid
  rintro other member ⟨-, early, -⟩
  have order : entry.region.limit ≤ other.baseAddr.toNat := apart _ (List.mem_map_of_mem member)
  rw [UInt64.lt_iff_toNat_lt, MemoryMap.toNat_limit bounded] at upper
  rw [UInt64.lt_iff_toNat_lt] at early
  omega

/-- How the loop of `e820_reserve_ram` ends: whether it fails, and what it has then done to
the entries from the current one on. -/
structure ReserveEnds (base limit : UInt64) (table : E820Table)
    (front rest : List MemoryMap) (result : Bool × E820Table) : Prop where
  success : result.1 = decide (table.nrMap + insertions base limit rest ≤ maxE820Entries)
  failure : result.1 = false → ∃ left, result.2.entries = front ++ left ∧
    (left = rest ↔ OnlyCutsFront base limit rest)

theorem ReserveEnds.next {middle : E820Table} {new : MemoryMap}
    {result : Bool × E820Table} (same : middle.nrMap = table.nrMap)
    (none : insertions base limit (entry :: rest) = insertions base limit rest)
    (unchanged : new = entry ↔ ¬ Touches base limit entry)
    (ends : ReserveEnds base limit middle (front ++ [new]) rest result)
    (notFront : Touches base limit entry → ¬ SplitsEnd base limit entry) :
    ReserveEnds base limit table front (entry :: rest) result := by
  constructor
  · rw [ends.success, none, same]
  · intro failed
    obtain ⟨left, entries, kept⟩ := ends.failure failed
    refine ⟨new :: left, by rw [entries, List.append_assoc, List.singleton_append], ?_⟩
    rw [List.cons.injEq, unchanged, kept, OnlyCutsFront, OnlyCutsFront, List.forall_mem_cons]
    refine and_congr_left fun _ => ⟨fun skipped touches => (skipped touches).elim, ?_⟩
    exact fun cut touches => notFront touches (cut touches).1

theorem shortened_ne (reaches : base < entry.baseAddr + entry.length) :
    { entry with length := base - entry.baseAddr } ≠ entry := by
  intro same
  have length := congrArg MemoryMap.length same
  simp only at length
  rw [← length, UInt64.add_comm, UInt64.sub_add_cancel] at reaches
  exact UInt64.lt_irrefl base reaches

/-- A result in which the entry has been shortened. -/
theorem ReserveEnds.shortened {result : Bool × E820Table}
    (success : result.1 =
      decide (table.nrMap + insertions base limit (entry :: rest) ≤ maxE820Entries))
    (splits : SplitsStart base limit entry)
    (entries : result.1 = false → ∃ left, result.2.entries =
      front ++ { entry with length := base - entry.baseAddr } :: left) :
    ReserveEnds base limit table front (entry :: rest) result := by
  refine ⟨success, fun failed => ?_⟩
  obtain ⟨left, changed⟩ := entries failed
  refine ⟨_, changed, iff_of_false ?_ ?_⟩
  · intro same
    exact shortened_ne splits.1.2.2 (List.cons.inj same).1
  · intro cuts
    exact (cuts entry List.mem_cons_self splits.1).2 splits

/-- The table in which the entry ends where the range starts. -/
def shortenEntry (table : E820Table) (i : Nat) (entry : MemoryMap) (base : UInt64) :
    E820Table :=
  table.set i { entry with length := base - entry.baseAddr }

/-- The range starts inside the entry and reaches its end. -/
theorem reserveBack_ends (split : table.entries = front ++ entry :: rest)
    (splits : SplitsStart base limit entry) (whole : ¬ SplitsEnd base limit entry)
    {onward : E820Table → Bool × E820Table}
    (later : ∀ middle : E820Table, middle.nrMap ≤ maxE820Entries →
      middle.entries = front ++ [{ entry with length := base - entry.baseAddr },
        ⟨20, base, entry.baseAddr + entry.length - base, e820Reserved⟩] ++ rest →
      ReserveEnds base limit middle (front ++ [{ entry with length := base - entry.baseAddr },
          ⟨20, base, entry.baseAddr + entry.length - base, e820Reserved⟩]) rest
        (onward middle)) :
    ReserveEnds base limit table front (entry :: rest)
      (let (inserted, middle) := insertAfterRegion
          (shortenEntry table front.length entry base)
          front.length base (entry.baseAddr + entry.length - base) e820Reserved
        if inserted then onward middle else (false, middle)) := by
  have count : insertions base limit (entry :: rest) = insertions base limit rest + 1 := by
    rw [insertions_cons, if_pos splits, if_neg whole]
  have shortened := E820Table.entries_set split { entry with length := base - entry.baseAddr }
  by_cases room : table.nrMap + 1 ≤ maxE820Entries
  · obtain ⟨middle, run, size⟩ := @insertAfterRegion_fits
      (shortenEntry table front.length entry base) room front.length base
      (entry.baseAddr + entry.length - base) e820Reserved
    have moved := reserve_back_entries split run
    have size : middle.nrMap = table.nrMap + 1 := size
    have ends := later middle (by omega) moved
    rw [run]
    refine ReserveEnds.shortened ?_ splits fun failed => ?_
    · have success := ends.success
      rw [size] at success
      rw [count, ← Nat.add_assoc, Nat.add_right_comm]
      exact success
    · obtain ⟨left, entries, -⟩ := ends.failure failed
      refine ⟨⟨20, base, entry.baseAddr + entry.length - base, e820Reserved⟩ :: left, ?_⟩
      simpa using entries
  · have full : ¬ (shortenEntry table front.length entry base).nrMap + 1 ≤ maxE820Entries := room
    rw [insertAfterRegion_full full]
    refine ReserveEnds.shortened ?_ splits fun _ => ⟨rest, shortened⟩
    rw [count]
    exact (decide_eq_false (by omega)).symm

/-- The range lies inside the entry. -/
theorem reserveMiddle_ends (split : table.entries = front ++ entry :: rest)
    (bounded : entry.region.limit < 2 ^ 64)
    (valid : WellFormed ((entry :: rest).map MemoryMap.region))
    (starts : SplitsStart base limit entry) (ends : SplitsEnd base limit entry) :
    ReserveEnds base limit table front (entry :: rest)
      (let (inserted, middle) := insertAfterRegion
          (shortenEntry table front.length entry base)
          front.length base length e820Reserved
        if inserted then insertAfterRegion middle (front.length + 1) limit
          (entry.baseAddr + entry.length - limit) (middle.map front.length).type
        else (false, middle)) := by
  have count : insertions base limit (entry :: rest) = 2 := by
    rw [insertions_cons, if_pos starts, if_pos ends,
      insertions_of_untouched (untouched_behind bounded valid ends.2)]
  have shortened := E820Table.entries_set split { entry with length := base - entry.baseAddr }
  by_cases room : table.nrMap + 1 ≤ maxE820Entries
  · obtain ⟨middle, run, size⟩ := @insertAfterRegion_fits
      (shortenEntry table front.length entry base) room front.length base length e820Reserved
    have moved := reserve_back_entries split run
    have size : middle.nrMap = table.nrMap + 1 := size
    rw [run]
    by_cases more : middle.nrMap + 1 ≤ maxE820Entries
    · obtain ⟨reached, second, -⟩ := insertAfterRegion_fits more (front.length + 1) limit
        (entry.baseAddr + entry.length - limit) (middle.map front.length).type
      simp only [if_true]
      rw [second]
      refine ReserveEnds.shortened ?_ starts fun failed => by cases failed
      rw [count]
      exact (decide_eq_true (by omega)).symm
    · simp only [if_true]
      rw [insertAfterRegion_full more]
      refine ReserveEnds.shortened ?_ starts fun _ =>
        ⟨⟨20, base, length, e820Reserved⟩ :: rest, by simpa using moved⟩
      rw [count]
      exact (decide_eq_false (by omega)).symm
  · have full : ¬ (shortenEntry table front.length entry base).nrMap + 1 ≤ maxE820Entries := room
    rw [insertAfterRegion_full full]
    refine ReserveEnds.shortened ?_ starts fun _ => ⟨rest, shortened⟩
    rw [count]
    exact (decide_eq_false (by omega)).symm

/-- The range ends inside the entry and starts at or below it. -/
theorem reserveFront_ends (split : table.entries = front ++ entry :: rest)
    (bounded : entry.region.limit < 2 ^ 64)
    (valid : WellFormed ((entry :: rest).map MemoryMap.region))
    (starts : ¬ SplitsStart base limit entry) (ends : SplitsEnd base limit entry)
    {pos : Nat} {addr size : UInt64} {type : UInt32} {fixup : E820Table → E820Table} :
    ReserveEnds base limit table front (entry :: rest)
      (let (inserted, middle) := insertAfterRegion table pos addr size type
        if inserted then (true, fixup middle) else (false, middle)) := by
  have untouched : ∀ other ∈ rest, ¬ Touches base limit other :=
    untouched_behind bounded valid ends.2
  have count : insertions base limit (entry :: rest) = 1 := by
    rw [insertions_cons, if_neg starts, if_pos ends, insertions_of_untouched untouched]
  by_cases room : table.nrMap + 1 ≤ maxE820Entries
  · obtain ⟨middle, run, -⟩ := insertAfterRegion_fits room pos addr size type
    rw [run]
    refine ⟨?_, fun failed => by cases failed⟩
    rw [count]
    exact (decide_eq_true room).symm
  · rw [insertAfterRegion_full room]
    refine ⟨?_, fun _ => ⟨entry :: rest, split, iff_of_true rfl ?_⟩⟩
    · rw [count]
      exact (decide_eq_false room).symm
    · rw [OnlyCutsFront, List.forall_mem_cons]
      exact ⟨fun _ => ⟨ends, starts⟩, fun other member touches =>
        (untouched other member touches).elim⟩

theorem reserveRamLoop_ends (split : table.entries = front ++ rest)
    (valid : WellFormed (rest.map MemoryMap.region))
    (bounded : ∀ other ∈ rest, other.region.limit < 2 ^ 64)
    (small : table.nrMap ≤ maxE820Entries) :
    ReserveEnds base limit table front rest
      (reserveRamLoop base length limit rest.length front.length table) := by
  induction rest generalizing front table with
  | nil =>
      refine ⟨?_, fun failed => by cases failed⟩
      exact (decide_eq_true small).symm
  | cons entry rest ih =>
      obtain ⟨-, restValid, -⟩ := WellFormed.cons_iff.mp valid
      have bound := bounded entry List.mem_cons_self
      have rests : ∀ other ∈ rest, other.region.limit < 2 ^ 64 :=
        fun other member => bounded other (List.mem_cons_of_mem _ member)
      have next (new : MemoryMap) {middle : E820Table}
          (ahead : middle.entries = front ++ new :: rest) (same : middle.nrMap = table.nrMap) :
          ReserveEnds base limit middle (front ++ [new]) rest
            (reserveRamLoop base length limit rest.length (front.length + 1) middle) := by
        have moved : middle.entries = (front ++ [new]) ++ rest := by simpa using ahead
        simpa using ih moved restValid rests (by omega)
      have round := reserveRamLoop_round base length limit rest.length front.length table
      rw [E820Table.map_of_split split] at round
      rw [List.length_cons]
      cases round with
      | skipped apart onward =>
          rw [onward]
          refine ReserveEnds.next rfl ?_ (iff_of_true rfl apart) (next entry split rfl)
            fun touches => (apart touches).elim
          rw [insertions_cons, if_neg fun splits => apart splits.1,
            if_neg fun splits => apart splits.1]
          rfl
      | covered ram inside reaches lower upper onward =>
          have touches : Touches base limit entry := ⟨ram, inside, reaches⟩
          have starts : ¬ SplitsStart base limit entry :=
            fun splits => UInt64.not_lt.mpr lower splits.2
          have whole : ¬ SplitsEnd base limit entry :=
            fun ends => UInt64.not_lt.mpr upper ends.2
          rw [onward]
          refine ReserveEnds.next (E820Table.nrMap_set _ _ _) ?_ ?_
            (next _ (E820Table.entries_set split _) rfl) fun _ => whole
          · rw [insertions_cons, if_neg starts, if_neg whole]
            rfl
          · refine iff_of_false (fun same => ?_) (not_not_intro touches)
            have type : e820Reserved = entry.type := congrArg MemoryMap.type same
            rw [ram] at type
            exact absurd type (by decide)
      | cutFront ram inside reaches lower upper onward =>
          rw [onward]
          exact @reserveFront_ends table front rest entry base limit split bound valid
            (fun splits => UInt64.not_lt.mpr lower splits.2) ⟨⟨ram, inside, reaches⟩, upper⟩
            (unsignedPred front.length) entry.baseAddr (limit - entry.baseAddr)
            e820Reserved fun middle => middle.set (front.length + 1)
              { middle.map (front.length + 1) with
                baseAddr := limit
                length := entry.baseAddr + entry.length - limit }
      | cutBack ram inside reaches inner upper onward =>
          rw [onward]
          refine reserveBack_ends split ⟨⟨ram, inside, reaches⟩, inner⟩
            (fun ends => UInt64.not_lt.mpr upper ends.2) fun middle room moved => ?_
          simpa using ih moved restValid rests room
      | cutMiddle ram inside reaches inner upper onward =>
          rw [onward]
          exact reserveMiddle_ends split bound valid ⟨⟨ram, inside, reaches⟩, inner⟩
            ⟨⟨ram, inside, reaches⟩, upper⟩

theorem countP_le_one {α : Type} {holds : α → Bool} {list : List α}
    (exclusive : list.Pairwise fun first second => holds first → ¬ holds second) :
    list.countP holds ≤ 1 := by
  induction exclusive with
  | nil => simp
  | @cons first rest apart _ ih =>
      rw [List.countP_cons]
      by_cases found : holds first
      · have none : rest.countP holds = 0 :=
          List.countP_eq_zero.mpr fun other member => apart other member found
        rw [none]
        split <;> omega
      · rw [if_neg found]
        exact ih

section Once

variable {entries : List MemoryMap}

theorem entries_apart (valid : WellFormed (entries.map MemoryMap.region))
    (bounded : ∀ other ∈ entries, other.region.limit < 2 ^ 64) :
    entries.Pairwise fun first second => first.baseAddr + first.length ≤ second.baseAddr := by
  refine (List.pairwise_map.mp valid.ascending).imp_of_mem ?_
  intro first second member _ apart
  rw [UInt64.le_iff_toNat_le, MemoryMap.toNat_limit (bounded first member)]
  exact apart

/-- A range starts inside at most one entry. -/
theorem countP_splitsStart_le (valid : WellFormed (entries.map MemoryMap.region))
    (bounded : ∀ other ∈ entries, other.region.limit < 2 ^ 64) :
    entries.countP (SplitsStart base limit ·) ≤ 1 := by
  refine countP_le_one ((entries_apart valid bounded).imp ?_)
  intro first second apart one two
  have early := (of_decide_eq_true one).1.2.2
  have late := (of_decide_eq_true two).2
  exact UInt64.lt_irrefl _ (UInt64.lt_trans (UInt64.lt_of_lt_of_le early apart) late)

/-- A range ends inside at most one entry. -/
theorem countP_splitsEnd_le (valid : WellFormed (entries.map MemoryMap.region))
    (bounded : ∀ other ∈ entries, other.region.limit < 2 ^ 64) :
    entries.countP (SplitsEnd base limit ·) ≤ 1 := by
  refine countP_le_one ((entries_apart valid bounded).imp ?_)
  intro first second apart one two
  have early := (of_decide_eq_true one).2
  have late := (of_decide_eq_true two).1.2.1
  exact UInt64.lt_irrefl _ (UInt64.lt_trans (UInt64.lt_of_lt_of_le early apart) late)

theorem insertions_le_two (valid : WellFormed (entries.map MemoryMap.region))
    (bounded : ∀ other ∈ entries, other.region.limit < 2 ^ 64) :
    insertions base limit entries ≤ 2 :=
  Nat.add_le_add (countP_splitsStart_le valid bounded) (countP_splitsEnd_le valid bounded)

end Once

theorem e820ReserveRam_ends (valid : table.Valid) (filled : length ≠ 0)
    (small : table.nrMap ≤ maxE820Entries) :
    ReserveEnds base (base + length) table [] table.entries
      (e820ReserveRam table base length) := by
  have split : table.entries = [] ++ table.entries := rfl
  rw [e820ReserveRam, if_neg filled, ← E820Table.length_entries]
  exact reserveRamLoop_ends split valid.wellFormed
    (fun other member => valid.bounded _ (List.mem_map_of_mem member)) small

/-- None of the four cases of `e820_reserve_ram` applies to an entry it does not skip. -/
def NeverGetHere (base limit : UInt64) (entry : MemoryMap) : Prop :=
  Touches base limit entry ∧
    ¬ (base ≤ entry.baseAddr ∧ entry.baseAddr + entry.length ≤ limit) ∧
    ¬ (entry.baseAddr ≥ base ∧ limit > entry.baseAddr ∧
      entry.baseAddr + entry.length > limit) ∧
    ¬ (base > entry.baseAddr ∧ entry.baseAddr + entry.length > base ∧
      limit ≥ entry.baseAddr + entry.length) ∧
    ¬ (base > entry.baseAddr ∧ entry.baseAddr + entry.length > limit)

theorem not_neverGetHere (base limit : UInt64) (entry : MemoryMap) :
    ¬ NeverGetHere base limit entry := by
  rintro ⟨⟨-, reaches, starts⟩, covered, front, back, middle⟩
  by_cases inner : entry.baseAddr < base
  · by_cases past : limit < entry.baseAddr + entry.length
    · exact middle ⟨inner, past⟩
    · exact back ⟨inner, starts, UInt64.not_lt.mp past⟩
  · by_cases past : limit < entry.baseAddr + entry.length
    · exact front ⟨UInt64.not_lt.mp inner, reaches, past⟩
    · exact covered ⟨UInt64.not_lt.mp inner, UInt64.not_lt.mp past⟩

/-- With room for two entries `e820_reserve_ram` reserves the RAM of any range that does not
cut the front off the first entry. -/
theorem e820ReserveRam_reserves (table : E820Table) (base length : UInt64)
    (valid : table.Valid) (small : table.nrMap ≤ 254)
    (fits : base.toNat + length.toNat < 2 ^ 64)
    (safe : ∀ first ∈ table.entries.head?, ¬ CutsFront base (base + length) first) :
    (∀ entry, ¬ NeverGetHere base (base + length) entry) ∧
      ∃ reached, e820ReserveRam table base length = (true, reached) ∧ reached.Valid ∧
        ∀ a, reached.typeAt a = (table.typeAt a).map fun type =>
          if type = e820Ram ∧ base.toNat ≤ a ∧ a < base.toNat + length.toNat then e820Reserved
          else type := by
  refine ⟨not_neverGetHere base (base + length), ?_⟩
  have succeeds : (e820ReserveRam table base length).1 = true := by
    by_cases empty : length = 0
    · rw [e820ReserveRam, if_pos empty]
    · have limit : maxE820Entries = 256 := rfl
      have few := @insertions_le_two base (base + length) table.entries valid.wellFormed
        fun other member => valid.bounded _ (List.mem_map_of_mem member)
      rw [(e820ReserveRam_ends valid empty (by omega)).success]
      exact decide_eq_true (by omega)
  obtain ⟨reached, run⟩ := exists_reached succeeds
  exact ⟨reached, run, e820ReserveRam_spec valid fits safe run⟩

theorem e820ReserveRam_reserves_middle :
    ∃ reached, e820ReserveRam (.ofEntries [⟨20, 0, 0x9000, e820Ram⟩]) 0x3000 0x1000 =
      (true, reached) ∧ reached.typeAt 0x3000 = some e820Reserved := by
  have safe : ∀ first ∈ (E820Table.ofEntries [⟨20, 0, 0x9000, e820Ram⟩]).entries.head?,
      ¬ CutsFront 0x3000 (0x3000 + 0x1000) first := by
    rintro first head ⟨-, below, -⟩
    cases head
    exact absurd below (by decide)
  obtain ⟨-, reached, run, -, types⟩ :=
    e820ReserveRam_reserves (.ofEntries [⟨20, 0, 0x9000, e820Ram⟩]) 0x3000 0x1000
      ⟨⟨by decide, by decide⟩, by decide⟩ (by decide) (by decide) safe
  refine ⟨reached, run, ?_⟩
  rw [types]
  decide

end Reserve

section Protect

variable {newAddr newSize : UInt64} {newType : UInt32}

/-- The new region starts behind the start of an entry, which is then cut in two. -/
def SplitsEntry (newAddr : UInt64) (entries : List MemoryMap) : Prop :=
  ∃ entry ∈ entries, entry.baseAddr < newAddr ∧ newAddr < entry.baseAddr + entry.length

instance (newAddr : UInt64) (entries : List MemoryMap) : Decidable (SplitsEntry newAddr entries) :=
  inferInstanceAs (Decidable (∃ entry ∈ entries,
    entry.baseAddr < newAddr ∧ newAddr < entry.baseAddr + entry.length))

/-- How the search loop of `protect_region` ends. -/
structure SearchEnds (newAddr : UInt64) (table : E820Table) (rest : List MemoryMap)
    (result : Bool × Nat × E820Table) : Prop where
  splits : SplitsEntry newAddr rest → result.1 = false →
    ¬ table.nrMap + 2 ≤ maxE820Entries ∧
      (table.nrMap + 1 ≤ maxE820Entries → result.2.2.nrMap = table.nrMap + 1) ∧
      (¬ table.nrMap + 1 ≤ maxE820Entries → result.2.2 = table)
  splitsRoom : SplitsEntry newAddr rest → ¬ table.nrMap + 2 ≤ maxE820Entries →
    result.1 = false
  between : ¬ SplitsEntry newAddr rest → result.1 = false →
    ¬ table.nrMap + 1 ≤ maxE820Entries ∧ result.2.2 = table
  place : result.1 = true → result.2.1 = table.nrMap ∧ result.2.2 = table ∨
    result.2.1 < result.2.2.nrMap ∧ table.nrMap + 1 ≤ maxE820Entries

/-- The region goes in front of an entry. -/
theorem searchEnds_between {i pos : Nat} (inside : i ≤ table.nrMap)
    (between : ¬ SplitsEntry newAddr rest) :
    SearchEnds newAddr table rest
      (let (inserted, reached) := insertAfterRegion table pos newAddr newSize newType
       (inserted, i, reached)) := by
  by_cases room : table.nrMap + 1 ≤ maxE820Entries
  · obtain ⟨reached, run, size⟩ := insertAfterRegion_fits room pos newAddr newSize newType
    rw [run]
    exact ⟨fun splits => (between splits).elim, fun splits => (between splits).elim,
      fun _ failed => (by cases failed), fun _ => .inr ⟨by simp only; omega, room⟩⟩
  · rw [insertAfterRegion_full room]
    exact ⟨fun splits => (between splits).elim, fun splits => (between splits).elim,
      fun _ _ => ⟨room, rfl⟩, fun done => (by cases done)⟩

/-- The region starts inside an entry, and two entries are added. -/
theorem searchEnds_splits {i : Nat} {addr size : UInt64} {type : UInt32}
    {fixup : E820Table → E820Table} (fixed : ∀ middle, (fixup middle).nrMap = middle.nrMap)
    (inside : i < table.nrMap) (splits : SplitsEntry newAddr rest) :
    SearchEnds newAddr table rest
      (let (inserted, middle) := insertAfterRegion table i newAddr newSize newType
       if inserted then
         let (inserted, reached) := insertAfterRegion (fixup middle) (i + 1) addr size type
         (inserted, i + 1, reached)
       else (false, i, middle)) := by
  by_cases room : table.nrMap + 1 ≤ maxE820Entries
  · obtain ⟨middle, run, count⟩ := insertAfterRegion_fits room i newAddr newSize newType
    have count : (fixup middle).nrMap = table.nrMap + 1 := (fixed middle).trans count
    rw [run]
    by_cases more : (fixup middle).nrMap + 1 ≤ maxE820Entries
    · obtain ⟨reached, second, last⟩ := insertAfterRegion_fits more (i + 1) addr size type
      simp only [if_true]
      rw [second]
      exact ⟨fun _ failed => (by cases failed), fun _ full => absurd more (by omega),
        fun between => (between splits).elim, fun _ => .inr ⟨by simp only; omega, room⟩⟩
    · simp only [if_true]
      rw [insertAfterRegion_full more]
      exact ⟨fun _ _ => ⟨by omega, fun _ => count, fun full => (full room).elim⟩,
        fun _ _ => rfl, fun between => (between splits).elim, fun done => (by cases done)⟩
  · rw [insertAfterRegion_full room]
    exact ⟨fun _ _ => ⟨by omega, fun fits => (room fits).elim, fun _ => rfl⟩, fun _ _ => rfl,
      fun between => (between splits).elim, fun done => (by cases done)⟩

/-- Nothing starts inside entries that lie at or above the start. -/
theorem not_splitsEntry_above (valid : WellFormed ((entry :: rest).map MemoryMap.region))
    (above : newAddr ≤ entry.baseAddr) : ¬ SplitsEntry newAddr (entry :: rest) := by
  obtain ⟨nonempty, -, apart⟩ := WellFormed.cons_iff.mp valid
  rintro ⟨other, member, lower, -⟩
  rw [UInt64.lt_iff_toNat_lt] at lower
  rw [UInt64.le_iff_toNat_le] at above
  rcases List.mem_cons.mp member with rfl | later
  · omega
  · have order : entry.region.limit ≤ other.baseAddr.toNat := apart _ (List.mem_map_of_mem later)
    have start : entry.baseAddr.toNat < entry.region.limit := nonempty
    omega

theorem protectSearch_ends (split : table.entries = front ++ rest)
    (valid : WellFormed (rest.map MemoryMap.region)) :
    SearchEnds newAddr table rest
      (protectSearch newAddr newSize newType table rest.length front.length) := by
  have count := E820Table.nrMap_eq split
  induction rest generalizing front with
  | nil =>
      refine ⟨fun _ failed => (by cases failed), ?_, fun _ failed => (by cases failed), fun _ => ?_⟩
      · rintro ⟨entry, member, -⟩
        cases member
      · exact .inl ⟨by simpa [protectSearch] using count.symm, rfl⟩
  | cons entry rest ih =>
      rw [List.length_cons] at count
      have inTable : front.length ≤ table.nrMap := by omega
      rw [List.length_cons, protectSearch]
      simp only [E820Table.map_of_split split]
      by_cases equal : newAddr = entry.baseAddr
      · rw [if_pos equal]
        have above : newAddr ≤ entry.baseAddr := by
          rw [equal]
          exact UInt64.le_refl _
        exact searchEnds_between inTable (not_splitsEntry_above valid above)
      rw [if_neg equal]
      by_cases inside : newAddr > entry.baseAddr ∧ newAddr < entry.baseAddr + entry.length
      · rw [if_pos inside]
        exact @searchEnds_splits table (entry :: rest) newAddr newSize newType front.length
          entry.baseAddr entry.length entry.type
          (fun middle => middle.set front.length { middle.map front.length with
            length := newAddr - (middle.map front.length).baseAddr })
          (fun middle => rfl) (by omega) ⟨entry, List.mem_cons_self, inside⟩
      rw [if_neg inside]
      by_cases gap : entry.baseAddr > newAddr
      · rw [if_pos gap]
        exact searchEnds_between inTable (not_splitsEntry_above valid (UInt64.le_of_lt gap))
      rw [if_neg gap]
      obtain ⟨-, restValid, -⟩ := WellFormed.cons_iff.mp valid
      have moved : table.entries = (front ++ [entry]) ++ rest := by simpa using split
      have moves : table.nrMap = (front ++ [entry]).length + rest.length := by
        rw [List.length_append, List.length_singleton]
        omega
      have ends := ih moved restValid moves
      have same : SplitsEntry newAddr (entry :: rest) ↔ SplitsEntry newAddr rest := by
        simp only [SplitsEntry, List.exists_mem_cons_iff, or_iff_right inside]
      rw [List.length_append, List.length_singleton] at ends
      exact ⟨fun splits => ends.splits (same.mp splits),
        fun splits => ends.splitsRoom (same.mp splits),
        fun between => ends.between fun splits => between (same.mpr splits), ends.place⟩

theorem wraps_iff (newAddr newSize : UInt64) :
    newAddr + newSize < newAddr ↔ ¬ newAddr.toNat + newSize.toNat < 2 ^ 64 := by
  have size := newSize.toNat_lt
  have start := newAddr.toNat_lt
  rw [UInt64.lt_iff_toNat_lt, UInt64.toNat_add]
  omega

/-- The number of entries that `protect_region` inserts. -/
def slotsNeeded (newAddr : UInt64) (entries : List MemoryMap) : Nat :=
  if SplitsEntry newAddr entries then 2 else 1

/-- When `protect_region` fails, and what it has then done to the table. -/
structure ProtectEnds (newAddr : UInt64) (table : E820Table) (result : Bool × E820Table) :
    Prop where
  success : result.1 = true ↔
    table.nrMap + slotsNeeded newAddr table.entries ≤ maxE820Entries
  halfway : SplitsEntry newAddr table.entries → table.nrMap + 1 = maxE820Entries →
    result.1 = false ∧ result.2.nrMap = table.nrMap + 1
  kept : ¬ (SplitsEntry newAddr table.entries ∧ table.nrMap + 1 = maxE820Entries) →
    result.1 = false → result.2 = table

theorem SearchEnds.protectEnds {i : Nat} {inserted : Bool} {middle : E820Table}
    (search : SearchEnds newAddr table table.entries (inserted, i, middle)) :
    ProtectEnds newAddr table
      (if inserted then
        if i = middle.nrMap then
          insertAfterRegion middle (unsignedPred i) newAddr newSize newType
        else (true, protectRest newAddr (newAddr + newSize) middle (i + 1))
      else (false, middle)) := by
  cases inserted with
  | false =>
      rw [if_neg (by decide)]
      refine ⟨iff_of_false Bool.false_ne_true fun room => ?_, fun splits last => ⟨rfl, ?_⟩,
        fun other _ => ?_⟩
      · rw [slotsNeeded] at room
        by_cases splits : SplitsEntry newAddr table.entries
        · rw [if_pos splits] at room
          exact (search.splits splits rfl).1 room
        · rw [if_neg splits] at room
          exact (search.between splits rfl).1 room
      · exact (search.splits splits rfl).2.1 (by omega)
      · by_cases splits : SplitsEntry newAddr table.entries
        · obtain ⟨full, -, same⟩ := search.splits splits rfl
          exact same fun room => other ⟨splits, by omega⟩
        · exact (search.between splits rfl).2
  | true =>
      rw [if_pos rfl]
      have room : SplitsEntry newAddr table.entries → table.nrMap + 2 ≤ maxE820Entries := by
        intro splits
        by_contra full
        cases search.splitsRoom splits full
      have needed : table.nrMap + slotsNeeded newAddr table.entries ≤ maxE820Entries ↔
          table.nrMap + 1 ≤ maxE820Entries := by
        rw [slotsNeeded]
        split
        · next splits => exact iff_of_true (room splits) (Nat.le_of_succ_le (room splits))
        · exact Iff.rfl
      have place : i = table.nrMap ∧ middle = table ∨
          i < middle.nrMap ∧ table.nrMap + 1 ≤ maxE820Entries := search.place rfl
      rcases place with ⟨rfl, rfl⟩ | ⟨inside, fits⟩
      · rw [if_pos rfl]
        by_cases fits : middle.nrMap + 1 ≤ maxE820Entries
        · obtain ⟨reached, run, -⟩ :=
            insertAfterRegion_fits fits (unsignedPred middle.nrMap) newAddr newSize newType
          rw [run]
          exact ⟨iff_of_true rfl (needed.mpr fits),
            fun splits last => absurd (room splits) (by omega), fun _ failed => (by cases failed)⟩
        · rw [insertAfterRegion_full fits]
          exact ⟨iff_of_false Bool.false_ne_true fun more => fits (needed.mp more),
            fun splits last => absurd (room splits) (by omega), fun _ _ => rfl⟩
      · rw [if_neg (Nat.ne_of_lt inside)]
        exact ⟨iff_of_true rfl (needed.mpr fits),
          fun splits last => absurd (room splits) (by omega), fun _ failed => (by cases failed)⟩

/-- Two free entries are enough for any region. -/
theorem ProtectEnds.room {result : Bool × E820Table}
    (ends : ProtectEnds newAddr table result) (room : table.nrMap + 2 ≤ maxE820Entries) :
    result.1 = true := by
  apply ends.success.mpr
  rw [slotsNeeded]
  split
  · exact room
  · omega

theorem protectRegion_ends (valid : table.Valid) (filled : newSize ≠ 0)
    (fits : newAddr.toNat + newSize.toNat < 2 ^ 64) :
    ProtectEnds newAddr table (protectRegion table newAddr newSize newType) := by
  have noWrap : ¬ newAddr + newSize < newAddr := fun wraps =>
    (wraps_iff newAddr newSize).mp wraps fits
  have split : table.entries = [] ++ table.entries := rfl
  have search := @protectSearch_ends table [] table.entries newAddr newSize newType split
    valid.wellFormed
  rw [protectRegion, if_neg filled, if_neg noWrap]
  rw [E820Table.length_entries, List.length_nil] at search
  exact search.protectEnds

/-- With room for two entries `protect_region` overwrites any range that starts above the
first entry. -/
theorem protectRegion_protects (table : E820Table) (newAddr newSize : UInt64)
    (newType : UInt32) (valid : table.Valid) (small : table.nrMap ≤ 254)
    (filled : 0 < newSize.toNat) (fits : newAddr.toNat + newSize.toNat < 2 ^ 64)
    (lowest : ∀ first ∈ table.firstBase, first < newAddr.toNat) :
    ∃ reached, protectRegion table newAddr newSize newType = (true, reached) ∧
      reached.Valid ∧ ∀ a, reached.typeAt a =
        if newAddr.toNat ≤ a ∧ a < newAddr.toNat + newSize.toNat then some newType
        else table.typeAt a := by
  have nonzero : newSize ≠ 0 := by
    rintro rfl
    exact Nat.lt_irrefl 0 filled
  have limit : maxE820Entries = 256 := rfl
  have ends := @protectRegion_ends table newAddr newSize newType valid nonzero fits
  obtain ⟨reached, run⟩ := exists_reached (ends.room (by omega))
  exact ⟨reached, run, protectRegion_spec valid (fun _ => lowest) run⟩

theorem protectRegion_protects_middle :
    ∃ reached, protectRegion (.ofEntries [⟨20, 0, 0x9000, e820Ram⟩]) 0x3000 0x1000
      e820Reserved = (true, reached) ∧ reached.typeAt 0x3000 = some e820Reserved := by
  obtain ⟨reached, run, -, types⟩ :=
    protectRegion_protects (.ofEntries [⟨20, 0, 0x9000, e820Ram⟩]) 0x3000 0x1000
      e820Reserved ⟨⟨by decide, by decide⟩, by decide⟩ (by decide) (by decide) (by decide)
      (by decide)
  refine ⟨reached, run, ?_⟩
  rw [types]
  decide

theorem protectRegion_atomic (valid : table.Valid) :
    Atomic table (protectRegion table newAddr newSize newType) ↔
      ¬ (newSize ≠ 0 ∧ newAddr.toNat + newSize.toNat < 2 ^ 64 ∧
        table.nrMap + 1 = maxE820Entries ∧ SplitsEntry newAddr table.entries) := by
  by_cases empty : newSize = 0
  · rw [protectRegion, if_pos empty]
    exact iff_of_true (fun failed => (by cases failed)) fun holds => holds.1 empty
  by_cases fits : newAddr.toNat + newSize.toNat < 2 ^ 64
  · have ends := @protectRegion_ends table newAddr newSize newType valid empty fits
    constructor
    · rintro atomic ⟨-, -, last, splits⟩
      obtain ⟨failed, count⟩ := ends.halfway splits last
      have same := congrArg List.length (atomic failed)
      rw [E820Table.length_entries, E820Table.length_entries] at same
      omega
    · intro other failed
      rw [ends.kept (fun both => other ⟨empty, fits, both.2, both.1⟩) failed]
  · rw [protectRegion, if_neg empty, if_pos ((wraps_iff newAddr newSize).mpr fits)]
    exact iff_of_true (fun _ => rfl) fun holds => fits holds.2.1

end Protect

section Changes

variable {regions : List (Region Nat UInt32)} {changes : List (Change Nat UInt32)}
  {newAddr newSize base length : UInt64} {newType : UInt32}

/-- The RAM of a range becomes reserved. -/
def reserveRange (lo hi : Nat) : List (Change Nat UInt32) :=
  if lo < hi then [.retype lo hi e820Ram e820Reserved] else []

theorem reserveRange_proper (lo hi : Nat) : ∀ change ∈ reserveRange lo hi, change.Proper := by
  rw [reserveRange]
  split
  · next range => exact List.forall_mem_singleton.mpr range
  · simp

theorem kindAt_reserveRange (regions : List (Region Nat UInt32)) (lo hi a : Nat)
    (changes : List (Change Nat UInt32)) :
    kindAt regions (reserveRange lo hi ++ changes) a = (kindAt regions changes a).map fun kind =>
      if kind = e820Ram ∧ lo ≤ a ∧ a < hi then e820Reserved else kind := by
  rw [reserveRange]
  split
  · rfl
  · next empty =>
      have outside (kind : UInt32) : ¬ (kind = e820Ram ∧ lo ≤ a ∧ a < hi) := by omega
      simp [outside]

/-- A range becomes reserved, whatever it was. -/
def coverRange (lo hi : Nat) : List (Change Nat UInt32) :=
  if lo < hi then [.cover ⟨lo, hi, e820Reserved⟩] else []

theorem kindAt_coverRange (regions : List (Region Nat UInt32)) (lo hi a : Nat)
    (changes : List (Change Nat UInt32)) :
    kindAt regions (coverRange lo hi ++ changes) a =
      if lo ≤ a ∧ a < hi then some e820Reserved else kindAt regions changes a := by
  rw [coverRange]
  split
  · rfl
  · next empty => rw [if_neg (by omega), List.nil_append]

/-- The table is what changes have left of a map. -/
structure ChangedTable (table : E820Table) (regions : List (Region Nat UInt32))
    (changes : List (Change Nat UInt32)) : Prop where
  wellFormed : WellFormed regions
  proper : ∀ change ∈ changes, change.Proper
  valid : table.Valid
  regions : table.regions = changed regions changes

theorem splitsEntry_iff (valid : table.Valid) :
    SplitsEntry newAddr table.entries ↔
      (lookup table.regions newAddr.toNat).isSome ∧
        newAddr.toNat ∉ table.regions.map Region.base := by
  rw [Option.isSome_iff_exists, ← exists_and_right]
  simp only [← valid.wellFormed.inside_iff]
  constructor
  · rintro ⟨entry, member, lower, upper⟩
    have bounded := valid.bounded _ (List.mem_map_of_mem member)
    rw [UInt64.lt_iff_toNat_lt, MemoryMap.toNat_limit bounded] at upper
    exact ⟨_, entry.region, List.mem_map_of_mem member, rfl, lower, upper⟩
  · rintro ⟨kind, region, member, -, lower, upper⟩
    obtain ⟨entry, listed, rfl⟩ := List.mem_map.mp member
    have bounded := valid.bounded _ member
    refine ⟨entry, listed, lower, ?_⟩
    rw [UInt64.lt_iff_toNat_lt, MemoryMap.toNat_limit bounded]
    exact upper

section Ends

variable {limit : UInt64}

theorem exists_splitsStart_iff (valid : table.Valid) (range : base.toNat < limit.toNat) :
    (∃ entry ∈ table.entries, SplitsStart base limit entry) ↔
      lookup table.regions base.toNat = some e820Ram ∧
        base.toNat ∉ table.regions.map Region.base := by
  rw [← valid.wellFormed.inside_iff]
  constructor
  · rintro ⟨entry, member, ⟨ram, -, upper⟩, lower⟩
    have bounded := valid.bounded _ (List.mem_map_of_mem member)
    rw [UInt64.lt_iff_toNat_lt, MemoryMap.toNat_limit bounded] at upper
    exact ⟨entry.region, List.mem_map_of_mem member, ram, lower, upper⟩
  · rintro ⟨region, member, ram, lower, upper⟩
    obtain ⟨entry, listed, rfl⟩ := List.mem_map.mp member
    have bounded := valid.bounded _ member
    refine ⟨entry, listed, ⟨ram, lower.trans range, ?_⟩, lower⟩
    rw [UInt64.lt_iff_toNat_lt, MemoryMap.toNat_limit bounded]
    exact upper

theorem exists_splitsEnd_iff (valid : table.Valid) (range : base.toNat < limit.toNat) :
    (∃ entry ∈ table.entries, SplitsEnd base limit entry) ↔
      lookup table.regions limit.toNat = some e820Ram ∧
        limit.toNat ∉ table.regions.map Region.base := by
  rw [← valid.wellFormed.inside_iff]
  constructor
  · rintro ⟨entry, member, ⟨ram, lower, -⟩, upper⟩
    have bounded := valid.bounded _ (List.mem_map_of_mem member)
    rw [UInt64.lt_iff_toNat_lt, MemoryMap.toNat_limit bounded] at upper
    exact ⟨entry.region, List.mem_map_of_mem member, ram, lower, upper⟩
  · rintro ⟨region, member, ram, lower, upper⟩
    obtain ⟨entry, listed, rfl⟩ := List.mem_map.mp member
    have bounded := valid.bounded _ member
    have whole := MemoryMap.toNat_limit bounded
    refine ⟨entry, listed, ⟨ram, lower, ?_⟩, ?_⟩
    · rw [UInt64.lt_iff_toNat_lt, whole]
      exact range.trans upper
    · rw [UInt64.lt_iff_toNat_lt, whole]
      exact upper

end Ends

theorem countP_eq_ite {α : Type} {holds : α → Prop} [DecidablePred holds] {list : List α}
    (once : list.countP (holds ·) ≤ 1) :
    list.countP (holds ·) = if ∃ x ∈ list, holds x then 1 else 0 := by
  have found : 0 < list.countP (holds ·) ↔ ∃ x ∈ list, holds x := by
    simp [List.countP_pos_iff]
  split
  · next here => have := found.mpr here; omega
  · next absent => have := mt found.mp absent; omega

namespace ChangedTable

variable (after : ChangedTable table regions changes)
include after

theorem nrMap : table.nrMap = pieces regions changes := by
  rw [← length_changed after.wellFormed after.proper, ← after.regions, E820Table.regions,
    List.length_map, E820Table.length_entries]

theorem typeAt (a : Nat) : table.typeAt a = kindAt regions changes a := by
  rw [E820Table.typeAt, after.regions, lookup_changed after.proper]

theorem slotsNeeded_eq :
    slotsNeeded newAddr table.entries =
      (Change.cover ⟨newAddr.toNat, newAddr.toNat + newSize.toNat, newType⟩).slots
        regions changes := by
  have splits := @splitsEntry_iff table newAddr after.valid
  rw [after.regions, lookup_changed after.proper,
    ← startsPiece_iff after.wellFormed after.proper] at splits
  rw [slotsNeeded, Change.slots]
  exact if_congr splits rfl rfl

theorem insertions_eq {limit : UInt64} (range : base.toNat < limit.toNat) :
    insertions base limit table.entries =
      (Change.retype base.toNat limit.toNat e820Ram e820Reserved).slots regions changes := by
  have bounded (entry : MemoryMap) (member : entry ∈ table.entries) :=
    after.valid.bounded _ (List.mem_map_of_mem (f := MemoryMap.region) member)
  have starts := @exists_splitsStart_iff table base limit after.valid range
  have ends := @exists_splitsEnd_iff table base limit after.valid range
  rw [after.regions, lookup_changed after.proper,
    ← startsPiece_iff after.wellFormed after.proper] at starts ends
  rw [insertions, countP_eq_ite (countP_splitsStart_le after.valid.wellFormed bounded),
    countP_eq_ite (countP_splitsEnd_le after.valid.wellFormed bounded), Change.slots]
  exact congrArg₂ (· + ·) (if_congr starts rfl rfl) (if_congr ends rfl rfl)

/-- When a region finds room. -/
theorem protect_iff (filled : newSize ≠ 0) (fits : newAddr.toNat + newSize.toNat < 2 ^ 64) :
    (protectRegion table newAddr newSize newType).1 = true ↔
      pieces regions changes +
        (Change.cover ⟨newAddr.toNat, newAddr.toNat + newSize.toNat, newType⟩).slots
          regions changes ≤ maxE820Entries := by
  rw [(protectRegion_ends after.valid filled fits).success, after.slotsNeeded_eq,
    after.nrMap]

theorem protect {reached : E820Table} (filled : newSize ≠ 0)
    (lowest : ∀ first ∈ table.firstBase, first < newAddr.toNat)
    (run : protectRegion table newAddr newSize newType = (true, reached)) :
    ChangedTable reached regions
      (.cover ⟨newAddr.toNat, newAddr.toNat + newSize.toNat, newType⟩ :: changes) where
  wellFormed := after.wellFormed
  proper := List.forall_mem_cons.mpr ⟨Nat.lt_add_of_pos_right (Nat.pos_of_ne_zero fun zero =>
    filled (UInt64.toNat_inj.mp zero)), after.proper⟩
  valid := (protectRegion_spec after.valid (fun _ => lowest) run).1
  regions := by
    rw [protectRegion_regions after.valid filled lowest run, after.regions]
    rfl

/-- Reserving a range that finds room. -/
theorem reserves (fits : base.toNat + length.toNat < 2 ^ 64) (filled : length ≠ 0)
    (room : pieces regions changes +
      (Change.retype base.toNat (base.toNat + length.toNat) e820Ram e820Reserved).slots
        regions changes ≤ maxE820Entries) :
    ∃ reached, e820ReserveRam table base length = (true, reached) := by
  have limit : (base + length).toNat = base.toNat + length.toNat := by
    rw [UInt64.toNat_add, Nat.mod_eq_of_lt fits]
  have positive : 0 < length.toNat := Nat.pos_of_ne_zero fun zero =>
    filled (UInt64.toNat_inj.mp zero)
  have range : base.toNat < (base + length).toNat := by omega
  rw [← limit, ← after.insertions_eq range, ← after.nrMap] at room
  apply exists_reached
  rw [(e820ReserveRam_ends after.valid filled (by omega)).success]
  exact decide_eq_true room

theorem reserve {reached : E820Table} (filled : length ≠ 0)
    (fits : base.toNat + length.toNat < 2 ^ 64)
    (safe : ∀ first ∈ table.entries.head?, ¬ CutsFront base (base + length) first)
    (run : e820ReserveRam table base length = (true, reached)) :
    ChangedTable reached regions
      (.retype base.toNat (base.toNat + length.toNat) e820Ram e820Reserved :: changes) where
  wellFormed := after.wellFormed
  proper := List.forall_mem_cons.mpr ⟨Nat.lt_add_of_pos_right (Nat.pos_of_ne_zero fun zero =>
    filled (UInt64.toNat_inj.mp zero)), after.proper⟩
  valid := (e820ReserveRam_spec after.valid fits safe run).1
  regions := by
    rw [e820ReserveRam_regions after.valid filled fits safe run, after.regions]
    rfl

/-- Reserving the RAM of a range, which may be empty. -/
theorem reserveRange_total (fits : base.toNat + length.toNat < 2 ^ 64)
    (safe : ∀ first ∈ table.entries.head?, ¬ CutsFront base (base + length) first)
    (room : Room maxE820Entries regions
      (reserveRange base.toNat (base.toNat + length.toNat) ++ changes)) :
    ∃ reached, e820ReserveRam table base length = (true, reached) ∧
      ChangedTable reached regions
        (reserveRange base.toNat (base.toNat + length.toNat) ++ changes) := by
  rw [reserveRange] at *
  by_cases empty : length = 0
  · have none : ¬ base.toNat < base.toNat + length.toNat := by
      rw [empty, UInt64.toNat_zero]
      omega
    rw [if_neg none, e820ReserveRam, if_pos empty]
    exact ⟨table, rfl, after⟩
  · have range : base.toNat < base.toNat + length.toNat :=
      Nat.lt_add_of_pos_right (Nat.pos_of_ne_zero fun zero => empty (UInt64.toNat_inj.mp zero))
    rw [if_pos range] at room ⊢
    obtain ⟨reached, run⟩ := after.reserves fits empty room.1
    exact ⟨reached, run, after.reserve empty fits safe run⟩

/-- Reserving a range, which may be empty. -/
theorem coverRange_total (fits : newSize ≠ 0 → newAddr.toNat + newSize.toNat < 2 ^ 64)
    (lowest : newSize ≠ 0 → ∀ first ∈ table.firstBase, first < newAddr.toNat)
    (room : Room maxE820Entries regions
      (coverRange newAddr.toNat (newAddr.toNat + newSize.toNat) ++ changes)) :
    ∃ reached, e820ProtectRegion table newAddr newSize e820Reserved = (true, reached) ∧
      ChangedTable reached regions
        (coverRange newAddr.toNat (newAddr.toNat + newSize.toNat) ++ changes) := by
  rw [coverRange] at *
  by_cases empty : newSize = 0
  · have none : ¬ newAddr.toNat < newAddr.toNat + newSize.toNat := by
      rw [empty, UInt64.toNat_zero]
      omega
    rw [if_neg none, e820ProtectRegion, protectRegion, if_pos empty]
    exact ⟨table, rfl, after⟩
  · have range : newAddr.toNat < newAddr.toNat + newSize.toNat :=
      Nat.lt_add_of_pos_right (Nat.pos_of_ne_zero fun zero => empty (UInt64.toNat_inj.mp zero))
    rw [if_pos range] at room ⊢
    obtain ⟨reached, run⟩ := exists_reached ((after.protect_iff empty (fits empty)).mpr room.1)
    exact ⟨reached, run, after.protect empty (lowest empty) run⟩

end ChangedTable

end Changes

section Atomicity

variable {base length : UInt64}

theorem e820ReserveRam_atomic (valid : table.Valid) (small : table.nrMap ≤ maxE820Entries) :
    Atomic table (e820ReserveRam table base length) ↔
      length = 0 ∨
        table.nrMap + insertions base (base + length) table.entries ≤ maxE820Entries ∨
        OnlyCutsFront base (base + length) table.entries := by
  by_cases empty : length = 0
  · rw [e820ReserveRam, if_pos empty]
    exact iff_of_true (fun failed => (by cases failed)) (.inl empty)
  rw [or_iff_right empty]
  have ends := @e820ReserveRam_ends table base length valid empty small
  by_cases room : table.nrMap + insertions base (base + length) table.entries ≤ maxE820Entries
  · refine iff_of_true (fun failed => ?_) (.inl room)
    rw [ends.success, decide_eq_true room] at failed
    cases failed
  · have failed : (e820ReserveRam table base length).1 = false := by
      rw [ends.success]
      exact decide_eq_false room
    obtain ⟨left, entries, same⟩ := ends.failure failed
    rw [or_iff_right room, ← same, Atomic, entries]
    exact ⟨fun atomic => atomic failed, fun same _ => same⟩

/-- The two updates of the map leave it alone when they fail, except when they fail at their
second change. -/
theorem mapUpdates_atomic_iff (table : E820Table) (base length : UInt64) (type : UInt32)
    (valid : table.Valid) (small : table.nrMap ≤ maxE820Entries) :
    (Atomic table (protectRegion table base length type) ↔
      ¬ (length ≠ 0 ∧ base.toNat + length.toNat < 2 ^ 64 ∧
        table.nrMap + 1 = maxE820Entries ∧ SplitsEntry base table.entries)) ∧
      (Atomic table (e820ReserveRam table base length) ↔
        length = 0 ∨
          table.nrMap + insertions base (base + length) table.entries ≤ maxE820Entries ∨
          OnlyCutsFront base (base + length) table.entries) :=
  ⟨protectRegion_atomic valid, e820ReserveRam_atomic valid small⟩

theorem mapUpdates_atomic_single :
    Atomic (.ofEntries [⟨20, 0, 0x9000, e820Ram⟩])
        (protectRegion (.ofEntries [⟨20, 0, 0x9000, e820Ram⟩]) 0x3000 0x1000 e820Reserved) ∧
      Atomic (.ofEntries [⟨20, 0, 0x9000, e820Ram⟩])
        (e820ReserveRam (.ofEntries [⟨20, 0, 0x9000, e820Ram⟩]) 0x3000 0x1000) := by
  obtain ⟨protect, reserve⟩ :=
    mapUpdates_atomic_iff (.ofEntries [⟨20, 0, 0x9000, e820Ram⟩]) 0x3000 0x1000 e820Reserved
      ⟨⟨by decide, by decide⟩, by decide⟩ (by decide)
  exact ⟨protect.mpr (by decide), reserve.mpr (.inr (.inl (by decide)))⟩

/-- Entries of two bytes of RAM with holes of two bytes between them. -/
def combEntries (count : Nat) : List MemoryMap :=
  (List.range count).map fun i => ⟨20, UInt64.ofNat (4 * i), 2, e820Ram⟩

theorem combEntries_region {i : Nat} (small : i < maxE820Entries) :
    MemoryMap.region ⟨20, UInt64.ofNat (4 * i), 2, e820Ram⟩ =
      ⟨4 * i, 4 * i + 2, e820Ram⟩ := by
  have limit : maxE820Entries = 256 := rfl
  have start : (UInt64.ofNat (4 * i)).toNat = 4 * i := by
    rw [UInt64.toNat_ofNat', Nat.mod_eq_of_lt (by omega)]
  rw [MemoryMap.region]
  simp only [start]
  rfl

theorem entries_ofEntries (entries : List MemoryMap) :
    (E820Table.ofEntries entries).entries = entries := by
  refine List.ext_getElem (E820Table.length_entries _) fun i _ inside => ?_
  simp [E820Table.entries, E820Table.ofEntries, inside]

theorem comb_valid {count : Nat} (small : count ≤ maxE820Entries) :
    (E820Table.ofEntries (combEntries count)).Valid := by
  have limit : maxE820Entries = 256 := rfl
  have regions : (E820Table.ofEntries (combEntries count)).regions =
      (List.range count).map fun i => ⟨4 * i, 4 * i + 2, e820Ram⟩ := by
    rw [E820Table.regions, entries_ofEntries, combEntries, List.map_map]
    refine List.map_congr_left fun i member => combEntries_region ?_
    rw [List.mem_range] at member
    omega
  constructor
  · rw [regions]
    constructor
    · intro region member
      obtain ⟨i, -, rfl⟩ := List.mem_map.mp member
      simp
    · rw [List.pairwise_map]
      refine List.pairwise_lt_range.imp fun less => ?_
      simp only
      omega
  · rw [regions]
    intro region member
    obtain ⟨i, inside, rfl⟩ := List.mem_map.mp member
    rw [List.mem_range] at inside
    simp only
    omega

/-- One entry below the limit, `protect_region` inserts the new region and then fails to
insert the rest of the entry it has split. -/
theorem mapUpdates_not_atomic :
    ¬ ∀ (table : E820Table) (base length : UInt64) (type : UInt32), table.Valid →
      table.nrMap ≤ maxE820Entries →
      Atomic table (protectRegion table base length type) ∧
        Atomic table (e820ReserveRam table base length) := by
  intro atomic
  have fits : (E820Table.ofEntries (combEntries 255)).nrMap = 255 := by
    simp [E820Table.ofEntries, combEntries]
  have valid := @comb_valid 255 (by decide)
  have result := (atomic _ 1 1 e820Reserved valid (by rw [fits]; decide)).1
  refine (protectRegion_atomic valid).mp result ⟨by decide, by decide, ?_, ?_⟩
  · rw [fits]
    rfl
  · rw [entries_ofEntries]
    refine ⟨⟨20, UInt64.ofNat (4 * 0), 2, e820Ram⟩, ?_, by decide, by decide⟩
    exact List.mem_map_of_mem (List.mem_range.mpr (by decide))

end Atomicity

end Sable
