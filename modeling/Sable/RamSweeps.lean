import Sable.VtdRanges

/-!
# Getting the ranges of RAM twice

`get_ram_ranges` is called before the launch and again after it.  The loop is a
sweep over the list of entries, in which low RAM behind a reserved region
becomes reserved.  A second sweep over the swept entries changes nothing and
finds the same ranges.
-/

namespace Sable

open RegionTable E820Table

section Sweep

/-- Whether an entry that is not RAM ends the search for low RAM. -/
def foundReservedRegion (ranges : RamRanges) (found : Bool) (entry : MemoryMap) : Bool :=
  if ranges.minLoRam ≠ 0xffffffffffffffff ∧ entry.baseAddr + entry.length > 0x100000 then true
  else found

/-- The loop of `get_ram_ranges` as a function of the entries that are still to come. -/
def sweep : RamRanges → Bool → List MemoryMap → Option (RamRanges × List MemoryMap)
  | ranges, _, [] => some (ranges, [])
  | ranges, found, entry :: rest =>
      let base := entry.baseAddr
      let limit := base + entry.length
      if entry.type = e820Ram then
        if base < fourGigabytes ∧ limit > fourGigabytes then none
        else if found = false ∨ base ≤ 0 then
          (sweep ((ranges.addLow base limit).addHigh base limit) found rest).map
            fun (final, swept) => (final, entry :: swept)
        else if base < fourGigabytes then
          (sweep (ranges.addHigh base limit) found rest).map
            fun (final, swept) => (final, { entry with type := e820Reserved } :: swept)
        else
          (sweep (ranges.addHigh base limit) found rest).map
            fun (final, swept) => (final, entry :: swept)
      else
        (sweep ranges (foundReservedRegion ranges found entry) rest).map
          fun (final, swept) => (final, entry :: swept)

/-- What one step of a sweep does. -/
inductive SweepStep (ranges : RamRanges) (found : Bool) (entry : MemoryMap) :
    RamRanges → Bool → MemoryMap → Prop
  | counted (ram : entry.type = e820Ram)
      (sides : ¬ (entry.baseAddr < fourGigabytes ∧
        entry.baseAddr + entry.length > fourGigabytes))
      (counts : found = false ∨ entry.baseAddr ≤ 0) :
      SweepStep ranges found entry
        ((ranges.addLow entry.baseAddr (entry.baseAddr + entry.length)).addHigh entry.baseAddr
          (entry.baseAddr + entry.length)) found entry
  | reserved (ram : entry.type = e820Ram)
      (sides : ¬ (entry.baseAddr < fourGigabytes ∧
        entry.baseAddr + entry.length > fourGigabytes))
      (counts : ¬ (found = false ∨ entry.baseAddr ≤ 0)) (low : entry.baseAddr < fourGigabytes) :
      SweepStep ranges found entry
        (ranges.addHigh entry.baseAddr (entry.baseAddr + entry.length)) found
        { entry with type := e820Reserved }
  | high (ram : entry.type = e820Ram)
      (sides : ¬ (entry.baseAddr < fourGigabytes ∧
        entry.baseAddr + entry.length > fourGigabytes))
      (counts : ¬ (found = false ∨ entry.baseAddr ≤ 0))
      (high : ¬ entry.baseAddr < fourGigabytes) :
      SweepStep ranges found entry
        (ranges.addHigh entry.baseAddr (entry.baseAddr + entry.length)) found entry
  | other (notRam : entry.type ≠ e820Ram) :
      SweepStep ranges found entry ranges (foundReservedRegion ranges found entry) entry

variable {ranges final next : RamRanges} {found after : Bool} {entry new : MemoryMap}
  {rest swept : List MemoryMap}

theorem sweep_cons_of_step (step : SweepStep ranges found entry next after new) :
    sweep ranges found (entry :: rest) =
      (sweep next after rest).map fun (final, swept) => (final, new :: swept) := by
  cases step with
  | counted ram sides counts =>
      rw [sweep]
      simp only
      rw [if_pos ram, if_neg sides, if_pos counts]
  | reserved ram sides counts low =>
      rw [sweep]
      simp only
      rw [if_pos ram, if_neg sides, if_neg counts, if_pos low]
  | high ram sides counts high =>
      rw [sweep]
      simp only
      rw [if_pos ram, if_neg sides, if_neg counts, if_neg high]
  | other notRam =>
      rw [sweep]
      simp only
      rw [if_neg notRam]

/-- Only RAM on both sides of four gigabytes stops a sweep. -/
theorem sweepStep_or_crosses (ranges : RamRanges) (found : Bool) (entry : MemoryMap) :
    (∃ next after new, SweepStep ranges found entry next after new) ∨
      entry.type = e820Ram ∧ entry.baseAddr < fourGigabytes ∧
        entry.baseAddr + entry.length > fourGigabytes := by
  by_cases ram : entry.type = e820Ram
  · by_cases crosses : entry.baseAddr < fourGigabytes ∧
        entry.baseAddr + entry.length > fourGigabytes
    · exact .inr ⟨ram, crosses⟩
    by_cases counts : found = false ∨ entry.baseAddr ≤ 0
    · exact .inl ⟨_, _, _, .counted ram crosses counts⟩
    by_cases low : entry.baseAddr < fourGigabytes
    · exact .inl ⟨_, _, _, .reserved ram crosses counts low⟩
    · exact .inl ⟨_, _, _, .high ram crosses counts low⟩
  · exact .inl ⟨_, _, _, .other ram⟩

/-- A sweep that succeeds goes on after every entry. -/
theorem sweep_cons (run : sweep ranges found (entry :: rest) = some (final, swept)) :
    ∃ next after new more, SweepStep ranges found entry next after new ∧
      swept = new :: more ∧ sweep next after rest = some (final, more) := by
  rcases sweepStep_or_crosses ranges found entry with ⟨next, after, new, step⟩ | ⟨ram, crosses⟩
  · rw [sweep_cons_of_step step, Option.map_eq_some_iff] at run
    obtain ⟨⟨last, more⟩, rests, same⟩ := run
    cases same
    exact ⟨next, after, new, more, step, rfl, rests⟩
  · rw [sweep] at run
    simp only at run
    rw [if_pos ram, if_pos crosses] at run
    cases run

/-- Low RAM does not extend the high range. -/
theorem addHigh_low (low : entry.baseAddr < fourGigabytes)
    (sides : ¬ (entry.baseAddr < fourGigabytes ∧
      entry.baseAddr + entry.length > fourGigabytes)) :
    ranges.addHigh entry.baseAddr (entry.baseAddr + entry.length) = ranges := by
  have start : ¬ (entry.baseAddr ≥ fourGigabytes ∧ entry.baseAddr < ranges.minHiRam) :=
    fun high => UInt64.not_le.mpr low high.1
  have reach : ¬ (entry.baseAddr + entry.length > fourGigabytes ∧
      entry.baseAddr + entry.length > ranges.maxHiRam) := fun high => sides ⟨low, high.1⟩
  rw [RamRanges.addHigh, if_neg start, if_neg reach]

/-- The step is the same for the entry that it leaves. -/
theorem SweepStep.again (step : SweepStep ranges found entry next after new) :
    SweepStep ranges found new next after new := by
  cases step with
  | counted ram sides counts => exact .counted ram sides counts
  | high ram sides counts high => exact .high ram sides counts high
  | other notRam => exact .other notRam
  | reserved ram sides counts low =>
      have isFound : found = true := by
        by_contra missing
        exact counts (.inl (Bool.eq_false_iff.mpr missing))
      have same : foundReservedRegion ranges found { entry with type := e820Reserved } =
          found := by
        rw [foundReservedRegion, isFound, ite_self]
      rw [addHigh_low low sides]
      have step : SweepStep ranges found { entry with type := e820Reserved } ranges _ _ :=
        .other reserved_ne_ram
      rw [same] at step
      exact step

/-- A second sweep changes nothing and finds the same ranges. -/
theorem sweep_again {entries : List MemoryMap}
    (run : sweep ranges found entries = some (final, swept)) :
    sweep ranges found swept = some (final, swept) := by
  induction entries generalizing ranges found swept with
  | nil =>
      cases run
      rfl
  | cons entry rest ih =>
      obtain ⟨next, after, new, more, step, rfl, rests⟩ := sweep_cons run
      rw [sweep_cons_of_step step.again, ih rests]
      rfl

/-- Only low RAM has changed, and it has become reserved. -/
def ReservedOnly (old new : MemoryMap) : Prop :=
  new = old ∨ (old.type = e820Ram ∧ old.baseAddr < fourGigabytes ∧
    new = { old with type := e820Reserved })

theorem SweepStep.reservedOnly (step : SweepStep ranges found entry next after new) :
    ReservedOnly entry new := by
  cases step with
  | counted ram sides counts => exact .inl rfl
  | high ram sides counts high => exact .inl rfl
  | other notRam => exact .inl rfl
  | reserved ram sides counts low => exact .inr ⟨ram, low, rfl⟩

theorem sweep_reservedOnly {entries : List MemoryMap}
    (run : sweep ranges found entries = some (final, swept)) :
    List.Forall₂ ReservedOnly entries swept := by
  induction entries generalizing ranges found swept with
  | nil =>
      cases run
      exact .nil
  | cons entry rest ih =>
      obtain ⟨next, after, new, more, step, rfl, rests⟩ := sweep_cons run
      exact .cons step.reservedOnly (ih rests)

variable {table reached : E820Table} {front back : List MemoryMap} {count : Nat}

/-- One round of the loop of `get_ram_ranges` is a step of the sweep. -/
theorem ramRangesLoop_step (valid : table.Valid)
    (split : table.entries = front ++ entry :: back)
    (step : SweepStep ranges found entry next after new) :
    ∃ middle, middle.Valid ∧ middle.entries = front ++ new :: back ∧
      (new = entry → middle = table) ∧
      ramRangesLoop (count + 1) front.length ranges found table =
        ramRangesLoop count (front.length + 1) next after middle := by
  have inside : front.length < table.nrMap := by
    rw [E820Table.nrMap_eq split, List.length_cons]
    omega
  rw [ramRangesLoop, if_pos inside]
  simp only [E820Table.map_of_split split]
  cases step with
  | counted ram sides counts =>
      rw [if_pos ram, if_neg sides, if_pos counts]
      exact ⟨table, valid, split, fun _ => rfl, rfl⟩
  | high ram sides counts high =>
      rw [if_pos ram, if_neg sides, if_neg counts, if_neg high]
      exact ⟨table, valid, split, fun _ => rfl, rfl⟩
  | other notRam =>
      rw [if_neg notRam]
      exact ⟨table, valid, split, fun _ => rfl, rfl⟩
  | reserved ram sides counts low =>
      have length : entry.baseAddr + entry.length - entry.baseAddr = entry.length := by
        rw [UInt64.add_comm, UInt64.add_sub_cancel]
      rw [if_pos ram, if_neg sides, if_neg counts, if_pos low, length,
        e820ReserveRam_entry valid split ram]
      refine ⟨_, (set_reserved_tightens valid split).valid, E820Table.entries_set split _,
        fun same => ?_, rfl⟩
      have type : e820Reserved = entry.type := congrArg MemoryMap.type same
      rw [ram] at type
      exact absurd type reserved_ne_ram

/-- A loop that succeeds is a sweep. -/
theorem ramRangesLoop_sweep (split : table.entries = front ++ rest) (valid : table.Valid)
    (enough : rest.length ≤ count)
    (run : ramRangesLoop count front.length ranges found table = (some final, reached)) :
    ∃ swept, sweep ranges found rest = some (final, swept) ∧
      reached.entries = front ++ swept := by
  induction rest generalizing front table count ranges found with
  | nil =>
      have length := E820Table.nrMap_eq split
      have done : ranges = final ∧ table = reached := by
        cases count with
        | zero =>
            cases run
            exact ⟨rfl, rfl⟩
        | succ count =>
            rw [ramRangesLoop, if_neg (by simp [length])] at run
            cases run
            exact ⟨rfl, rfl⟩
      obtain ⟨rfl, rfl⟩ := done
      exact ⟨[], rfl, split⟩
  | cons entry rest ih =>
      rw [List.length_cons] at enough
      obtain ⟨count, rfl⟩ : ∃ more, count = more + 1 := ⟨count - 1, by omega⟩
      rcases sweepStep_or_crosses ranges found entry with
        ⟨next, after, new, step⟩ | ⟨ram, crosses⟩
      · obtain ⟨middle, middleValid, entries, -, same⟩ :=
          @ramRangesLoop_step ranges next found after entry new table front rest count valid
            split step
        have moved : middle.entries = (front ++ [new]) ++ rest := by simpa using entries
        have less : rest.length ≤ count := by omega
        rw [same] at run
        obtain ⟨swept, rests, all⟩ := ih moved middleValid less (by simpa using run)
        refine ⟨new :: swept, ?_, by simpa using all⟩
        rw [sweep_cons_of_step step, rests]
        rfl
      · have inside : front.length < table.nrMap := by
          rw [E820Table.nrMap_eq split, List.length_cons]
          omega
        rw [ramRangesLoop, if_pos inside] at run
        simp only [E820Table.map_of_split split] at run
        rw [if_pos ram, if_pos crosses] at run
        cases run

/-- A sweep that changes nothing is a loop that changes nothing. -/
theorem ramRangesLoop_of_sweep (split : table.entries = front ++ rest) (valid : table.Valid)
    (enough : rest.length ≤ count) (run : sweep ranges found rest = some (final, rest)) :
    ramRangesLoop count front.length ranges found table = (some final, table) := by
  induction rest generalizing front count ranges found with
  | nil =>
      have length := E820Table.nrMap_eq split
      cases run
      cases count with
      | zero => rfl
      | succ count => rw [ramRangesLoop, if_neg (by simp [length])]
  | cons entry rest ih =>
      rw [List.length_cons] at enough
      obtain ⟨count, rfl⟩ : ∃ more, count = more + 1 := ⟨count - 1, by omega⟩
      obtain ⟨next, after, new, more, step, same, rests⟩ := sweep_cons run
      obtain ⟨rfl, rfl⟩ := List.cons.inj same
      obtain ⟨middle, -, -, unchanged, loop⟩ :=
        @ramRangesLoop_step ranges next found after entry entry table front rest count valid
          split step
      have moved : table.entries = (front ++ [entry]) ++ rest := by simpa using split
      have tail := ih moved (by omega : rest.length ≤ count) rests
      rw [List.length_append, List.length_singleton] at tail
      rw [loop, unchanged rfl, tail]

end Sweep

section LowRange

variable {ranges final next : RamRanges} {found after : Bool} {entry new : MemoryMap}
  {entries swept : List MemoryMap} {start : Nat}

/-- What holds of the low range when the entries still to come lie at or above `start`. -/
structure LowBelow (ranges : RamRanges) (found : Bool) (start : Nat) : Prop where
  maxLo : ranges.maxLoRam.toNat ≤ start
  minLo : ranges.minLoRam = 0xffffffffffffffff ∨ ranges.minLoRam.toNat < start
  counted : found = true → 0 < start

@[simp]
theorem addHigh_minLo (ranges : RamRanges) (base limit : UInt64) :
    (ranges.addHigh base limit).minLoRam = ranges.minLoRam :=
  rfl

@[simp]
theorem addHigh_maxLo (ranges : RamRanges) (base limit : UInt64) :
    (ranges.addHigh base limit).maxLoRam = ranges.maxLoRam :=
  rfl

theorem addLow_minLo (ranges : RamRanges) (base limit : UInt64) :
    (ranges.addLow base limit).minLoRam = ranges.minLoRam ∨
      (ranges.addLow base limit).minLoRam = base := by
  simp only [RamRanges.addLow]
  split
  · exact .inr rfl
  · exact .inl rfl

theorem addLow_maxLo (ranges : RamRanges) (base limit : UInt64) :
    (ranges.addLow base limit).maxLoRam = ranges.maxLoRam ∨
      (ranges.addLow base limit).maxLoRam = limit := by
  simp only [RamRanges.addLow]
  split
  · exact .inr rfl
  · exact .inl rfl

theorem SweepStep.lowBelow (step : SweepStep ranges found entry next after new)
    (below : LowBelow ranges found start) (above : start ≤ entry.region.base)
    (nonempty : entry.region.base < entry.region.limit)
    (bounded : entry.region.limit < 2 ^ 64) : LowBelow next after entry.region.limit := by
  have base : entry.region.base = entry.baseAddr.toNat := rfl
  have whole := MemoryMap.toNat_limit bounded
  have maxLo := below.maxLo
  have kept : ranges.minLoRam = 0xffffffffffffffff ∨
      ranges.minLoRam.toNat < entry.region.limit :=
    below.minLo.imp_right fun less => by omega
  have positive (_ : after = true) : 0 < entry.region.limit := by omega
  cases step with
  | counted ram sides counts =>
      refine ⟨?_, ?_, positive⟩
      · rw [addHigh_maxLo]
        rcases addLow_maxLo ranges entry.baseAddr (entry.baseAddr + entry.length) with same | same
        · rw [same]
          omega
        · rw [same]
          omega
      · rw [addHigh_minLo]
        rcases addLow_minLo ranges entry.baseAddr (entry.baseAddr + entry.length) with same | same
        · rw [same]
          exact kept
        · rw [same]
          exact .inr (by omega)
  | reserved ram sides counts low =>
      exact ⟨by rw [addHigh_maxLo]; omega, kept, positive⟩
  | high ram sides counts high =>
      exact ⟨by rw [addHigh_maxLo]; omega, kept, positive⟩
  | other notRam => exact ⟨by omega, kept, positive⟩

/-- After a reserved region the low range no longer changes. -/
theorem SweepStep.frozen (step : SweepStep ranges true entry next after new)
    (positive : 0 < entry.region.base) :
    next.minLoRam = ranges.minLoRam ∧ next.maxLoRam = ranges.maxLoRam ∧ after = true := by
  cases step with
  | counted ram sides counts =>
      rcases counts with missing | zero
      · cases missing
      · have : entry.region.base ≤ 0 := zero
        omega
  | reserved ram sides counts low => exact ⟨rfl, rfl, rfl⟩
  | high ram sides counts high => exact ⟨rfl, rfl, rfl⟩
  | other notRam =>
      refine ⟨rfl, rfl, ?_⟩
      rw [foundReservedRegion, ite_self]

theorem sweep_frozen (positive : ∀ other ∈ entries, 0 < other.region.base)
    (run : sweep ranges true entries = some (final, swept)) :
    final.minLoRam = ranges.minLoRam ∧ final.maxLoRam = ranges.maxLoRam := by
  induction entries generalizing ranges swept with
  | nil =>
      cases run
      exact ⟨rfl, rfl⟩
  | cons entry rest ih =>
      obtain ⟨here, others⟩ := List.forall_mem_cons.mp positive
      obtain ⟨next, after, new, more, step, rfl, rests⟩ := sweep_cons run
      obtain ⟨minLo, maxLo, rfl⟩ := step.frozen here
      obtain ⟨finalMin, finalMax⟩ := ih others rests
      exact ⟨finalMin.trans minLo, finalMax.trans maxLo⟩

/-- The low range starts at an entry that is still to come, or where it does now. -/
theorem sweep_minLo (above : ∀ other ∈ entries, start ≤ other.region.base)
    (run : sweep ranges found entries = some (final, swept)) :
    final.minLoRam = ranges.minLoRam ∨ start ≤ final.minLoRam.toNat := by
  induction entries generalizing ranges found swept with
  | nil =>
      cases run
      exact .inl rfl
  | cons entry rest ih =>
      obtain ⟨here, others⟩ := List.forall_mem_cons.mp above
      obtain ⟨next, after, new, more, step, rfl, rests⟩ := sweep_cons run
      rcases ih others rests with same | later
      · rw [same]
        cases step with
        | counted ram sides counts =>
            rcases addLow_minLo ranges entry.baseAddr (entry.baseAddr + entry.length) with
              kept | moved
            · exact .inl kept
            · refine .inr ?_
              rw [addHigh_minLo, moved]
              exact here
        | reserved ram sides counts low => exact .inl rfl
        | high ram sides counts high => exact .inl rfl
        | other notRam => exact .inl rfl
      · exact .inr later

/-- Above one megabyte and behind the start of the low range, what is not RAM lies behind the
low range. -/
theorem sweep_behind (valid : WellFormed (entries.map MemoryMap.region))
    (bounded : ∀ other ∈ entries, other.region.limit < 2 ^ 64)
    (above : ∀ other ∈ entries, start ≤ other.region.base)
    (below : LowBelow ranges found start)
    (run : sweep ranges found entries = some (final, swept)) :
    ∀ other ∈ swept, other.type ≠ e820Ram → final.minLoRam.toNat ≤ other.region.base →
      2 ^ 20 < other.region.limit → final.maxLoRam.toNat ≤ other.region.base := by
  induction entries generalizing ranges found start swept with
  | nil =>
      cases run
      simp
  | cons entry rest ih =>
      obtain ⟨nonempty, restValid, apart⟩ := WellFormed.cons_iff.mp valid
      obtain ⟨here, others⟩ := List.forall_mem_cons.mp above
      obtain ⟨limit, limits⟩ := List.forall_mem_cons.mp bounded
      obtain ⟨next, after, new, more, step, rfl, rests⟩ := sweep_cons run
      have behind : ∀ other ∈ rest, entry.region.limit ≤ other.region.base :=
        fun other member => apart _ (List.mem_map_of_mem member)
      have positive : ∀ other ∈ rest, 0 < other.region.base :=
        fun other member => (Nat.zero_lt_of_lt nonempty).trans_le (behind other member)
      have whole := MemoryMap.toNat_limit limit
      have maxLo := below.maxLo
      refine List.forall_mem_cons.mpr ⟨?_,
        ih restValid limits behind (step.lowBelow below here nonempty limit) rests⟩
      intro notRam lower upper
      cases step with
      | counted ram sides counts => exact (notRam ram).elim
      | high ram sides counts high => exact (notRam ram).elim
      | reserved ram sides counts low =>
          have isFound : found = true := by
            by_contra missing
            exact counts (.inl (Bool.eq_false_iff.mpr missing))
          rw [isFound] at rests
          rw [(sweep_frozen positive rests).2]
          exact maxLo.trans here
      | other otherType =>
          by_cases started : ranges.minLoRam ≠ 0xffffffffffffffff
          · have past : entry.baseAddr + entry.length > 0x100000 := by
              rw [gt_iff_lt, UInt64.lt_iff_toNat_lt, whole]
              exact upper
            rw [foundReservedRegion, if_pos ⟨started, past⟩] at rests
            rw [(sweep_frozen positive rests).2]
            exact maxLo.trans here
          · push Not at started
            exfalso
            rcases sweep_minLo behind rests with same | later
            · rw [same, started] at lower
              have top : (0xffffffffffffffff : UInt64).toNat = 2 ^ 64 - 1 := rfl
              omega
            · omega

end LowRange

section Twice

variable {table : E820Table}

/-- What a successful `get_ram_ranges` leaves. -/
structure RangesSettled (table reached : E820Table) (ranges : RamRanges) : Prop where
  ram : ∀ entry ∈ reached.entries, entry.type = e820Ram →
    (ranges.minLoRam.toNat ≤ entry.region.base ∧
        entry.region.limit ≤ ranges.maxLoRam.toNat) ∨
      (ranges.minHiRam.toNat ≤ entry.region.base ∧
        entry.region.limit ≤ ranges.maxHiRam.toNat)
  reserved : ∀ entry ∈ reached.entries, entry.type ≠ e820Ram →
    ranges.minLoRam.toNat ≤ entry.region.base → 2 ^ 20 < entry.region.limit →
    ¬ ∃ a, entry.region.Holds a ∧ ranges.minLoRam.toNat ≤ a ∧ a < ranges.maxLoRam.toNat
  changes : List.Forall₂ ReservedOnly table.entries reached.entries
  again : getRamRanges reached = (some ranges, reached)

/-- The second call of `get_ram_ranges` finds the ranges of the first and changes nothing. -/
theorem getRamRanges_settled (table reached : E820Table) (ranges : RamRanges)
    (valid : table.Valid) (run : getRamRanges table = (some ranges, reached)) :
    RangesSettled table reached ranges := by
  obtain ⟨found, tightens, size⟩ := getRamRanges_found valid run
  have split : table.entries = [] ++ table.entries := rfl
  have enough : table.entries.length ≤ table.nrMap + maxE820Entries := by
    rw [E820Table.length_entries]
    omega
  rw [getRamRanges] at run
  cases loop : ramRangesLoop (table.nrMap + maxE820Entries) 0
      ⟨0xffffffffffffffff, 0, 0xffffffffffffffff, 0⟩ false table with
  | mk result middle =>
      rw [loop] at run
      cases result with
      | none => cases run
      | some final =>
          obtain ⟨swept, swipe, entries⟩ := ramRangesLoop_sweep split valid enough loop
          have low : ranges.minLoRam = final.minLoRam ∧ ranges.maxLoRam = final.maxLoRam ∧
              reached = middle := by
            dsimp only at run
            by_cases none : final.minLoRam ≥ final.maxLoRam
            · rw [if_pos none] at run
              cases run
            rw [if_neg none] at run
            by_cases noHigh : final.minHiRam ≥ final.maxHiRam
            · rw [if_pos noHigh] at run
              cases run
              exact ⟨rfl, rfl, rfl⟩
            · rw [if_neg noHigh] at run
              cases run
              exact ⟨rfl, rfl, rfl⟩
          obtain ⟨minLo, maxLo, rfl⟩ := low
          have behind := sweep_behind valid.wellFormed
            (fun other member => valid.bounded _ (List.mem_map_of_mem member))
            (fun other _ => Nat.zero_le _) ⟨le_rfl, .inl rfl, fun missing => (by cases missing)⟩
            swipe
          constructor
          case ram =>
            intro entry member isRam
            rcases found.spans entry member isRam with low | high
            · exact .inl low.2
            · exact .inr high.2
          case reserved =>
            rintro entry member notRam lower upper ⟨a, holds, -, inside⟩
            rw [entries, List.nil_append] at member
            rw [minLo] at lower
            have after := behind entry member notRam lower upper
            rw [← maxLo] at after
            have start := holds.1
            omega
          case changes =>
            rw [entries]
            exact sweep_reservedOnly swipe
          case again =>
            have resplit : reached.entries = [] ++ reached.entries := rfl
            have room : reached.entries.length ≤ reached.nrMap + maxE820Entries := by
              rw [E820Table.length_entries]
              omega
            have unchanged : sweep ⟨0xffffffffffffffff, 0, 0xffffffffffffffff, 0⟩ false
                reached.entries = some (final, reached.entries) := by
              rw [entries]
              exact sweep_again swipe
            have second := ramRangesLoop_of_sweep resplit tightens.valid room unchanged
            rw [List.length_nil] at second
            rw [getRamRanges, second]
            exact run

theorem getRamRanges_settled_scatteredRam :
    ∃ ranges reached, getRamRanges scatteredRam = (some ranges, reached) ∧
      RangesSettled scatteredRam reached ranges := by
  have returns : (getRamRanges scatteredRam).1 =
      some ⟨0, 0x80000000, 0x100000000, 0x140001000⟩ := by
    decide
  obtain ⟨reached, run⟩ := exists_reached returns
  exact ⟨_, reached, run, getRamRanges_settled _ _ _ ⟨⟨by decide, by decide⟩, by decide⟩ run⟩

end Twice

end Sable
