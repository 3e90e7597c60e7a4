import Sable.MapUpdates
import Sable.PostLaunch

/-!
# The ranges that VT-d protects

The ranges that `get_ram_ranges` finds cover all RAM of the table it leaves.
`verify_vtd_pmrs` reserves what the rounding to two megabytes leaves out of the
protected ranges, so that these cover all remaining RAM.
-/

namespace Sable

open RegionTable

section Reserve

variable {table : E820Table} {front back rest : List MemoryMap} {entry : MemoryMap}
  {base length limit : UInt64}

/-- Entries apart from the range are passed over. -/
theorem reserveRamLoop_skip {passed : List MemoryMap}
    (split : table.entries = front ++ passed ++ back)
    (bounded : ∀ other ∈ passed, other.region.limit < 2 ^ 64)
    (apart : ∀ other ∈ passed,
      other.region.limit ≤ base.toNat ∨ limit.toNat ≤ other.region.base) (count : Nat) :
    reserveRamLoop base length limit (passed.length + count) front.length table =
      reserveRamLoop base length limit count (front ++ passed).length table := by
  induction passed generalizing front with
  | nil => simp
  | cons entry passed ih =>
      rw [List.forall_mem_cons] at bounded apart
      have here : table.entries = front ++ entry :: (passed ++ back) := by
        simpa using split
      have next : table.entries = front ++ [entry] ++ passed ++ back := by
        simpa using split
      have more := ih next bounded.2 apart.2
      simp only [List.length_append, List.length_singleton] at more
      have rounds : (entry :: passed).length + count = passed.length + count + 1 := by
        rw [List.length_cons]
        omega
      have place : (front ++ entry :: passed).length = front.length + 1 + passed.length := by
        rw [List.length_append, List.length_cons]
        omega
      rw [rounds, place, reserveRamLoop]
      simp only [E820Table.map_of_split here, ← more]
      by_cases ram : entry.type = e820Ram
      · rw [if_neg (not_not.mpr ram)]
        by_cases above : limit ≤ entry.baseAddr
        · rw [if_pos above]
        · have below : base ≥ entry.baseAddr + entry.length := by
            rw [ge_iff_le, UInt64.le_iff_toNat_le, MemoryMap.toNat_limit bounded.1]
            exact apart.1.resolve_right above
          rw [if_neg above, if_pos below]
      · rw [if_pos ram]

/-- The range of one entry of RAM. -/
theorem e820ReserveRam_entry (valid : table.Valid)
    (split : table.entries = front ++ entry :: back) (ram : entry.type = e820Ram) :
    e820ReserveRam table entry.baseAddr entry.length =
      (true, table.set front.length { entry with type := e820Reserved }) := by
  have whole : table.regions = front.map MemoryMap.region ++
      entry.region :: back.map MemoryMap.region := by
    rw [E820Table.regions, split, List.map_append, List.map_cons]
  have wellFormed := valid.wellFormed
  have bounded (other : MemoryMap) (member : other ∈ table.entries) :
      other.region.limit < 2 ^ 64 :=
    valid.bounded _ (List.mem_map_of_mem member)
  rw [whole] at wellFormed
  obtain ⟨-, following, before⟩ := WellFormed.append_iff.mp wellFormed
  obtain ⟨nonempty, -, after⟩ := WellFormed.cons_iff.mp following
  have entryBounded := bounded entry (by rw [split]; simp)
  have limit := MemoryMap.toNat_limit entryBounded
  have filled : entry.length ≠ 0 := by
    intro zero
    have width : entry.region.limit = entry.region.base := by
      simp [MemoryMap.region, zero]
    omega
  have count : table.nrMap = front.length + (back.length + 1) := by
    rw [E820Table.nrMap_eq split, List.length_cons]
  have frontSplit : table.entries = [] ++ front ++ entry :: back := split
  have skipped := @reserveRamLoop_skip table [] (entry :: back) entry.baseAddr entry.length
    (entry.baseAddr + entry.length) front frontSplit
    (fun other member => bounded other (by rw [split]; simp [member]))
    (fun other member => .inl (before _ (List.mem_map_of_mem member) _ List.mem_cons_self))
    (back.length + 1)
  have covered : entry.baseAddr ≤ entry.baseAddr ∧
      entry.baseAddr + entry.length ≤ entry.baseAddr + entry.length :=
    ⟨UInt64.le_refl _, UInt64.le_refl _⟩
  have above : ¬ entry.baseAddr + entry.length ≤ entry.baseAddr := by
    rw [UInt64.le_iff_toNat_le, limit]
    exact Nat.not_le_of_lt nonempty
  have reserved : (table.set front.length { entry with type := e820Reserved }).entries =
      front ++ [{ entry with type := e820Reserved }] ++ back ++ [] := by
    rw [E820Table.entries_set split]
    simp
  have last := @reserveRamLoop_skip
    (table.set front.length { entry with type := e820Reserved })
    (front ++ [{ entry with type := e820Reserved }]) [] entry.baseAddr entry.length
    (entry.baseAddr + entry.length) back reserved
    (fun other member => bounded other (by rw [split]; simp [member]))
    (fun other member => .inr (by rw [limit]; exact after _ (List.mem_map_of_mem member))) 0
  rw [e820ReserveRam, if_neg filled, count]
  simp only [List.length_nil, List.nil_append] at skipped
  rw [skipped, reserveRamLoop]
  simp only [E820Table.map_of_split split]
  rw [if_neg (not_not.mpr ram), if_neg above, if_neg above, if_pos covered]
  simp only [List.length_append, List.length_singleton, Nat.add_zero] at last
  rw [last, reserveRamLoop]

/-- Reserving succeeds when the range ends inside no entry of RAM and there is room
for the entry that it may start inside of. -/
theorem reserveRamLoop_total {extra : Nat} (split : table.entries = front ++ rest)
    (valid : WellFormed (rest.map MemoryMap.region))
    (bounded : ∀ other ∈ rest, other.region.limit < 2 ^ 64)
    (room : table.nrMap + extra ≤ maxE820Entries)
    (starts : extra = 0 → ∀ other ∈ rest, other.type = e820Ram →
      base.toNat ≤ other.region.base ∨ other.region.limit ≤ base.toNat)
    (ends : ∀ other ∈ rest, other.type = e820Ram →
      other.region.limit ≤ limit.toNat ∨ limit.toNat ≤ other.region.base) :
    ∃ reached, reserveRamLoop base length limit rest.length front.length table =
        (true, reached) ∧ reached.nrMap ≤ table.nrMap + extra := by
  induction rest generalizing front table extra with
  | nil => exact ⟨table, rfl, Nat.le_add_right _ _⟩
  | cons entry rest ih =>
      obtain ⟨nonempty, restValid, after⟩ := WellFormed.cons_iff.mp valid
      rw [List.forall_mem_cons] at bounded ends
      have whole := MemoryMap.toNat_limit bounded.1
      have restStarts (none : extra = 0) := (List.forall_mem_cons.mp (starts none)).2
      have next (new : MemoryMap) {middle : E820Table}
          (ahead : middle.entries = front ++ new :: rest)
          (same : middle.nrMap = table.nrMap) :
          ∃ reached, reserveRamLoop base length limit rest.length (front.length + 1) middle =
            (true, reached) ∧ reached.nrMap ≤ table.nrMap + extra := by
        have moved : middle.entries = (front ++ [new]) ++ rest := by simpa using ahead
        obtain ⟨reached, run, small⟩ :=
          ih moved restValid bounded.2 (by omega) restStarts ends.2
        exact ⟨reached, by simpa using run, by omega⟩
      have round := reserveRamLoop_round base length limit rest.length front.length table
      rw [E820Table.map_of_split split] at round
      rw [List.length_cons]
      have uncut (ram : entry.type = e820Ram) (inside : entry.baseAddr < limit)
          (upper : limit < entry.baseAddr + entry.length) : False := by
        rw [UInt64.lt_iff_toNat_lt, whole] at upper
        rcases ends.1 ram with short | behind
        · exact absurd upper short.not_gt
        · exact absurd inside (Nat.not_lt.mpr behind)
      cases round with
      | skipped apart onward =>
          rw [onward]
          exact next entry split rfl
      | covered ram inside reaches lower upper onward =>
          rw [onward]
          exact next _ (E820Table.entries_set split _) rfl
      | cutFront ram inside reaches lower upper onward => exact (uncut ram inside upper).elim
      | cutMiddle ram inside reaches inner upper onward => exact (uncut ram inside upper).elim
      | cutBack ram inside reaches inner upper onward =>
          have positive : extra ≠ 0 := by
            intro none
            rcases starts none entry List.mem_cons_self ram with early | late
            · exact absurd inner (Nat.not_lt.mpr early)
            · rw [UInt64.lt_iff_toNat_lt, whole] at reaches
              exact absurd reaches late.not_gt
          have size : (table.set front.length
              { entry with length := base - entry.baseAddr }).nrMap = table.nrMap := rfl
          rw [onward]
          cases inserted : insertAfterRegion
              (table.set front.length { entry with length := base - entry.baseAddr })
              front.length base (entry.baseAddr + entry.length - base) e820Reserved with
          | mk done middle =>
              have enough : table.nrMap + 1 ≤ maxE820Entries := by omega
              cases done with
              | false =>
                  rw [insertAfterRegion, if_neg (by omega)] at inserted
                  cases inserted
              | true =>
                  have moved := reserve_back_entries split inserted
                  have count := E820Table.nrMap_eq moved
                  have length := E820Table.nrMap_eq split
                  simp only [List.length_append, List.length_cons, List.length_nil] at count length
                  have behind : (0 : Nat) = 0 → ∀ other ∈ rest, other.type = e820Ram →
                      base.toNat ≤ other.region.base ∨ other.region.limit ≤ base.toNat := by
                    intro _ other member _
                    have order := after _ (List.mem_map_of_mem member)
                    rw [UInt64.lt_iff_toNat_lt, whole] at reaches
                    exact .inl (reaches.le.trans order)
                  obtain ⟨reached, run, small⟩ :=
                    ih moved restValid bounded.2 (by omega) behind ends.2
                  refine ⟨reached, ?_, by omega⟩
                  simpa using run

/-- The end of a range lies inside no entry of RAM. -/
def EndsOutsideRam (table : E820Table) (limit : Nat) : Prop :=
  ∀ other ∈ table.entries, other.type = e820Ram →
    other.region.limit ≤ limit ∨ limit ≤ other.region.base

theorem EndsOutsideRam.not_cutsFront (ends : EndsOutsideRam table limit.toNat) :
    ∀ first ∈ table.entries.head?, ¬ CutsFront base limit first := by
  rintro first head ⟨ram, -, inside, upper⟩
  rcases ends first (List.mem_of_mem_head? head) ram with short | behind
  · exact absurd upper short.not_gt
  · exact absurd inside behind.not_gt

/-- Reserving a range that ends inside no entry of RAM. -/
theorem e820ReserveRam_total (valid : table.Valid) (room : table.nrMap + 1 ≤ maxE820Entries)
    (ends : EndsOutsideRam table (base + length).toNat) :
    ∃ reached, e820ReserveRam table base length = (true, reached) ∧
      reached.nrMap ≤ table.nrMap + 1 := by
  rw [e820ReserveRam]
  by_cases empty : length = 0
  · exact ⟨table, if_pos empty, Nat.le_succ _⟩
  · have split : table.entries = [] ++ table.entries := rfl
    have total := @reserveRamLoop_total table [] table.entries base length (base + length) 1
      split valid.wellFormed
      (fun other member => valid.bounded _ (List.mem_map_of_mem member)) room
      (fun none => absurd none Nat.one_ne_zero) ends
    rw [E820Table.length_entries] at total
    rw [if_neg empty]
    exact total

end Reserve

section RamRanges

/-- An entry of RAM lies in the low or in the high range. -/
def RamRanges.Spans (ranges : RamRanges) (entry : MemoryMap) : Prop :=
  entry.type = e820Ram →
    (entry.region.limit ≤ 2 ^ 32 ∧ ranges.minLoRam.toNat ≤ entry.region.base ∧
        entry.region.limit ≤ ranges.maxLoRam.toNat) ∨
      (2 ^ 32 ≤ entry.region.base ∧ ranges.minHiRam.toNat ≤ entry.region.base ∧
        entry.region.limit ≤ ranges.maxHiRam.toNat)

/-- The low range ends at or below four gigabytes, the high one starts there or
above, and both have grown from other ranges. -/
structure RamRanges.Extends (ranges before : RamRanges) : Prop where
  minLo : ranges.minLoRam.toNat ≤ before.minLoRam.toNat
  maxLo : before.maxLoRam.toNat ≤ ranges.maxLoRam.toNat
  minHi : ranges.minHiRam.toNat ≤ before.minHiRam.toNat
  maxHi : before.maxHiRam.toNat ≤ ranges.maxHiRam.toNat
  lowEnd : before.maxLoRam.toNat ≤ 2 ^ 32 → ranges.maxLoRam.toNat ≤ 2 ^ 32
  highStart : 2 ^ 32 ≤ before.minHiRam.toNat → 2 ^ 32 ≤ ranges.minHiRam.toNat

namespace RamRanges

variable {ranges before : RamRanges} {entry : MemoryMap}

theorem Extends.refl (ranges : RamRanges) : ranges.Extends ranges :=
  ⟨le_rfl, le_rfl, le_rfl, le_rfl, id, id⟩

theorem Extends.trans {after : RamRanges} (second : after.Extends ranges)
    (first : ranges.Extends before) : after.Extends before where
  minLo := second.minLo.trans first.minLo
  maxLo := first.maxLo.trans second.maxLo
  minHi := second.minHi.trans first.minHi
  maxHi := first.maxHi.trans second.maxHi
  lowEnd := second.lowEnd ∘ first.lowEnd
  highStart := second.highStart ∘ first.highStart

theorem Spans.extend (spans : before.Spans entry) (extends_ : ranges.Extends before) :
    ranges.Spans entry := by
  obtain ⟨minLo, maxLo, minHi, maxHi, -, -⟩ := extends_
  intro ram
  rcases spans ram with low | high
  · exact .inl ⟨low.1, minLo.trans low.2.1, low.2.2.trans maxLo⟩
  · exact .inr ⟨high.1, minHi.trans high.2.1, high.2.2.trans maxHi⟩

theorem addLow_extends (ranges : RamRanges) (base limit : UInt64) :
    (ranges.addLow base limit).Extends ranges := by
  have four : fourGigabytes.toNat = 2 ^ 32 := rfl
  constructor
  case minLo =>
    simp only [addLow, UInt64.lt_iff_toNat_lt]
    split <;> omega
  case maxLo =>
    simp only [addLow, gt_iff_lt, UInt64.lt_iff_toNat_lt]
    split <;> omega
  case lowEnd =>
    simp only [addLow, UInt64.le_iff_toNat_le]
    split <;> omega
  case minHi => exact le_rfl
  case maxHi => exact le_rfl
  case highStart => exact id

theorem addHigh_extends (ranges : RamRanges) (base limit : UInt64) :
    (ranges.addHigh base limit).Extends ranges := by
  have four : fourGigabytes.toNat = 2 ^ 32 := rfl
  constructor
  case minHi =>
    simp only [addHigh, UInt64.lt_iff_toNat_lt]
    split <;> omega
  case maxHi =>
    simp only [addHigh, gt_iff_lt, UInt64.lt_iff_toNat_lt]
    split <;> omega
  case highStart =>
    simp only [addHigh, ge_iff_le, UInt64.le_iff_toNat_le]
    split <;> omega
  case minLo => exact le_rfl
  case maxLo => exact le_rfl
  case lowEnd => exact id

theorem addLow_spans (bounded : entry.region.limit < 2 ^ 64)
    (nonempty : entry.region.base < entry.region.limit) (low : entry.region.limit ≤ 2 ^ 32) :
    (ranges.addLow entry.baseAddr (entry.baseAddr + entry.length)).Spans entry := by
  intro _
  have four : fourGigabytes.toNat = 2 ^ 32 := rfl
  have whole := MemoryMap.toNat_limit bounded
  have start : entry.region.base = entry.baseAddr.toNat := rfl
  refine .inl ⟨low, ?_, ?_⟩
  · simp only [addLow, UInt64.lt_iff_toNat_lt]
    split <;> omega
  · simp only [addLow, gt_iff_lt, UInt64.lt_iff_toNat_lt, UInt64.le_iff_toNat_le]
    split <;> omega

theorem addHigh_spans (bounded : entry.region.limit < 2 ^ 64)
    (nonempty : entry.region.base < entry.region.limit) (high : 2 ^ 32 ≤ entry.region.base) :
    (ranges.addHigh entry.baseAddr (entry.baseAddr + entry.length)).Spans entry := by
  intro _
  have four : fourGigabytes.toNat = 2 ^ 32 := rfl
  have whole := MemoryMap.toNat_limit bounded
  have start : entry.region.base = entry.baseAddr.toNat := rfl
  refine .inr ⟨high, ?_, ?_⟩
  · simp only [addHigh, UInt64.lt_iff_toNat_lt, ge_iff_le, UInt64.le_iff_toNat_le]
    split <;> omega
  · simp only [addHigh, gt_iff_lt, UInt64.lt_iff_toNat_lt]
    split <;> omega

end RamRanges

variable {table : E820Table} {front back rest : List MemoryMap} {entry : MemoryMap}

theorem reserved_ne_ram : e820Reserved ≠ e820Ram := by
  decide

/-- An entry becomes reserved. -/
theorem set_reserved_tightens (valid : table.Valid)
    (split : table.entries = front ++ entry :: back) :
    Tightens table (table.set front.length { entry with type := e820Reserved }) := by
  have old : table.regions = front.map MemoryMap.region ++
      entry.region :: back.map MemoryMap.region := by
    rw [E820Table.regions, split, List.map_append, List.map_cons]
  have new : (table.set front.length { entry with type := e820Reserved }).regions =
      front.map MemoryMap.region ++
        { entry.region with kind := e820Reserved } :: back.map MemoryMap.region := by
    rw [E820Table.regions, E820Table.entries_set split, List.map_append, List.map_cons]
    rfl
  obtain ⟨wellFormed, bounded⟩ := valid
  rw [old, WellFormed.append_iff, WellFormed.cons_iff] at wellFormed
  rw [old] at bounded
  simp only [List.forall_mem_append, List.forall_mem_cons] at wellFormed bounded
  refine ⟨⟨?_, ?_⟩, fun a => ?_, fun origin start => ?_⟩
  · rw [new, WellFormed.append_iff, WellFormed.cons_iff]
    simpa only [List.forall_mem_append, List.forall_mem_cons] using wellFormed
  · rw [new]
    simpa only [List.forall_mem_append, List.forall_mem_cons] using bounded
  · rw [E820Table.typeAt, E820Table.typeAt, old, new, lookup_append, lookup_append, lookup,
      lookup]
    have same : ({ entry.region with kind := e820Reserved } : Region Nat UInt32).Holds a ↔
        entry.region.Holds a := Iff.rfl
    cases lookup (front.map MemoryMap.region) a with
    | some type => exact .inl rfl
    | none =>
        by_cases holds : entry.region.Holds a
        · rw [if_pos (same.mpr holds)]
          exact .inr rfl
        · rw [if_neg holds, if_neg fun changed => holds (same.mp changed)]
          exact .inl rfl
  · obtain ⟨first, head, base, limit, kind⟩ := start
    rw [E820Table.Starts, new]
    rw [old] at head
    cases front with
    | nil =>
        cases head
        exact ⟨_, rfl, base, limit, fun ram => absurd ram reserved_ne_ram⟩
    | cons other front =>
        cases head
        exact ⟨_, rfl, base, limit, kind⟩

/-- What `get_ram_ranges` does to an entry: RAM below four gigabytes and behind the low range
becomes reserved. -/
def RamRanges.Keeps (ranges : RamRanges) (entry new : MemoryMap) : Prop :=
  new = entry ∨ entry.type = e820Ram ∧ ranges.maxLoRam.toNat ≤ entry.region.base ∧
    entry.region.limit ≤ 2 ^ 32 ∧ new = { entry with type := e820Reserved }

/-- What a round of the loop makes of the ranges, of the mark for a reserved region and of its
entry. -/
inductive RamRound (ranges : RamRanges) (foundReserved : Bool) (entry : MemoryMap) :
    RamRanges → Bool → MemoryMap → Prop
  | other (kind : entry.type ≠ e820Ram) :
      RamRound ranges foundReserved entry ranges
        (if ranges.minLoRam ≠ 0xffffffffffffffff ∧ entry.baseAddr + entry.length > 0x100000 then
          true else foundReserved) entry
  | counted (sides : entry.region.limit ≤ 2 ^ 32 ∨ 2 ^ 32 ≤ entry.region.base)
      (front : foundReserved = false ∨ entry.region.base = 0) :
      RamRound ranges foundReserved entry
        ((ranges.addLow entry.baseAddr (entry.baseAddr + entry.length)).addHigh entry.baseAddr
          (entry.baseAddr + entry.length)) foundReserved entry
  | reserved (kind : entry.type = e820Ram) (found : foundReserved = true)
      (low : entry.region.limit ≤ 2 ^ 32) :
      RamRound ranges foundReserved entry
        (ranges.addHigh entry.baseAddr (entry.baseAddr + entry.length)) foundReserved
        { entry with type := e820Reserved }
  | high (found : foundReserved = true) (high : 2 ^ 32 ≤ entry.region.base) :
      RamRound ranges foundReserved entry
        (ranges.addHigh entry.baseAddr (entry.baseAddr + entry.length)) foundReserved entry

namespace RamRound

variable {ranges next : RamRanges} {foundReserved found : Bool} {new : MemoryMap}

theorem extends_ (round : RamRound ranges foundReserved entry next found new) :
    next.Extends ranges := by
  cases round with
  | other kind => exact .refl _
  | counted sides front =>
      exact (RamRanges.addHigh_extends _ _ _).trans (RamRanges.addLow_extends _ _ _)
  | reserved kind found low => exact RamRanges.addHigh_extends _ _ _
  | high found high => exact RamRanges.addHigh_extends _ _ _

theorem spans (round : RamRound ranges foundReserved entry next found new)
    (bounded : entry.region.limit < 2 ^ 64) (nonempty : entry.region.base < entry.region.limit) :
    next.Spans new := by
  cases round with
  | other kind => exact fun ram => absurd ram kind
  | counted sides front =>
      rcases sides with low | high
      · exact (RamRanges.addLow_spans bounded nonempty low).extend (RamRanges.addHigh_extends _ _ _)
      · exact RamRanges.addHigh_spans bounded nonempty high
  | reserved kind found low => exact fun ram => absurd ram reserved_ne_ram
  | high found high => exact RamRanges.addHigh_spans bounded nonempty high

/-- The low range ends at the entry at the latest. -/
theorem low_le (round : RamRound ranges foundReserved entry next found new)
    (bounded : entry.region.limit < 2 ^ 64) (nonempty : entry.region.base < entry.region.limit)
    (above : ranges.maxLoRam.toNat ≤ entry.region.base) :
    next.maxLoRam.toNat ≤ entry.region.limit := by
  have limit := MemoryMap.toNat_limit bounded
  cases round with
  | other kind => exact above.trans nonempty.le
  | counted sides front =>
      simp only [RamRanges.addHigh, RamRanges.addLow]
      split <;> omega
  | reserved kind found low => exact above.trans nonempty.le
  | high found high => exact above.trans nonempty.le

/-- Behind a reserved region the low range stays as it is. -/
theorem stays (round : RamRound ranges foundReserved entry next found new)
    (old : foundReserved = true) (behind : 0 < entry.region.base) :
    next.maxLoRam = ranges.maxLoRam ∧ found = true := by
  cases round with
  | other kind =>
      refine ⟨rfl, ?_⟩
      rw [old]
      split <;> rfl
  | counted sides front =>
      rcases front with fresh | zero
      · exact absurd old (by simp [fresh])
      · exact absurd zero behind.ne'
  | reserved kind found low => exact ⟨rfl, old⟩
  | high found high => exact ⟨rfl, old⟩

theorem keeps {final : RamRanges} (round : RamRound ranges foundReserved entry next found new)
    (above : ranges.maxLoRam.toNat ≤ entry.region.base)
    (fixed : found = true → final.maxLoRam = next.maxLoRam) : final.Keeps entry new := by
  cases round with
  | other kind => exact .inl rfl
  | counted sides front => exact .inl rfl
  | reserved kind old low =>
      have same : final.maxLoRam = ranges.maxLoRam := fixed old
      exact .inr ⟨kind, same ▸ above, low, rfl⟩
  | high found high => exact .inl rfl

end RamRound

/-- One round of the loop, if the loop ends well. -/
theorem ramRangesLoop_round {count : Nat} {ranges final : RamRanges} {foundReserved : Bool}
    {reached : E820Table} (valid : table.Valid) (split : table.entries = front ++ entry :: back)
    (run : ramRangesLoop (count + 1) front.length ranges foundReserved table =
      (some final, reached)) :
    ∃ (next : RamRanges) (found : Bool) (new : MemoryMap) (middle : E820Table),
      RamRound ranges foundReserved entry next found new ∧ Tightens table middle ∧
      middle.entries = front ++ new :: back ∧
      ramRangesLoop count (front.length + 1) next found middle = (some final, reached) := by
  have member : entry.region ∈ table.regions := by
    rw [E820Table.regions, split]
    simp
  have whole := MemoryMap.toNat_limit (valid.bounded _ member)
  have four : fourGigabytes.toNat = 2 ^ 32 := rfl
  have start : entry.region.base = entry.baseAddr.toNat := rfl
  have inside : front.length < table.nrMap := by
    rw [E820Table.nrMap_eq split, List.length_cons]
    omega
  rw [ramRangesLoop, if_pos inside] at run
  simp only [E820Table.map_of_split split] at run
  by_cases ram : entry.type = e820Ram
  case neg =>
    rw [if_neg ram] at run
    exact ⟨_, _, entry, table, .other ram, .refl valid, split, run⟩
  rw [if_pos ram] at run
  by_cases crosses : entry.baseAddr < fourGigabytes ∧
      entry.baseAddr + entry.length > fourGigabytes
  · rw [if_pos crosses] at run
    cases run
  rw [if_neg crosses] at run
  have sides : entry.region.limit ≤ 2 ^ 32 ∨ 2 ^ 32 ≤ entry.region.base := by
    rw [gt_iff_lt, UInt64.lt_iff_toNat_lt, UInt64.lt_iff_toNat_lt, whole] at crosses
    omega
  by_cases counted : foundReserved = false ∨ entry.baseAddr ≤ 0
  · rw [if_pos counted] at run
    refine ⟨_, _, entry, table, .counted sides (counted.imp_right fun zero => ?_), .refl valid,
      split, run⟩
    exact Nat.le_zero.mp zero
  rw [if_neg counted] at run
  rw [not_or, Bool.not_eq_false] at counted
  by_cases low : entry.baseAddr < fourGigabytes
  · have length : entry.baseAddr + entry.length - entry.baseAddr = entry.length := by
      rw [UInt64.add_comm, UInt64.add_sub_cancel]
    rw [if_pos low, length, e820ReserveRam_entry valid split ram] at run
    have below : entry.region.limit ≤ 2 ^ 32 := by
      have less : entry.baseAddr.toNat < 2 ^ 32 := low
      omega
    exact ⟨_, _, _, _, .reserved ram counted.1 below, set_reserved_tightens valid split,
      E820Table.entries_set split _, run⟩
  · rw [if_neg low] at run
    exact ⟨_, _, entry, table, .high counted.1 (Nat.le_of_not_lt low), .refl valid, split, run⟩

/-- Behind the last entry nothing happens. -/
theorem ramRangesLoop_end {count : Nat} {ranges final : RamRanges} {foundReserved : Bool}
    {reached : E820Table} (all : table.entries = front)
    (run : ramRangesLoop count front.length ranges foundReserved table = (some final, reached)) :
    ranges = final ∧ table = reached := by
  have length := table.length_entries
  rw [all] at length
  cases count with
  | zero =>
      cases run
      exact ⟨rfl, rfl⟩
  | succ count =>
      rw [ramRangesLoop, if_neg (by omega)] at run
      cases run
      exact ⟨rfl, rfl⟩

/-- The loop of `get_ram_ranges` ends with ranges that span all RAM. -/
theorem ramRangesLoop_spans {count : Nat} {ranges final : RamRanges} {foundReserved : Bool}
    {reached : E820Table} (split : table.entries = front ++ rest) (valid : table.Valid)
    (enough : rest.length ≤ count) (spans : ∀ entry ∈ front, ranges.Spans entry)
    (run : ramRangesLoop count front.length ranges foundReserved table =
      (some final, reached)) :
    final.Extends ranges ∧ Tightens table reached ∧ reached.nrMap = table.nrMap ∧
      ∀ entry ∈ reached.entries, final.Spans entry := by
  induction rest generalizing front table count ranges foundReserved with
  | nil =>
      obtain ⟨rfl, rfl⟩ := ramRangesLoop_end (split.trans (List.append_nil _)) run
      rw [split, List.append_nil]
      exact ⟨.refl _, .refl valid, rfl, spans⟩
  | cons entry rest ih =>
      rw [List.length_cons] at enough
      obtain ⟨count, rfl⟩ : ∃ more, count = more + 1 := ⟨count - 1, by omega⟩
      have member : entry.region ∈ table.regions := by
        rw [E820Table.regions, split]
        simp
      obtain ⟨next, found, new, middle, round, tightens, ahead, more⟩ :=
        ramRangesLoop_round valid split run
      have spansNew := round.spans (valid.bounded _ member) (valid.wellFormed.nonempty _ member)
      have moved : middle.entries = (front ++ [new]) ++ rest := by simpa using ahead
      have spansFront : ∀ other ∈ front ++ [new], next.Spans other := by
        rw [List.forall_mem_append]
        exact ⟨fun other member => (spans other member).extend round.extends_,
          by simpa using spansNew⟩
      have less : rest.length ≤ count := by omega
      obtain ⟨grown, further, size, all⟩ := ih moved tightens.valid less spansFront
        (by simpa using more)
      have same : middle.nrMap = table.nrMap := by
        rw [E820Table.nrMap_eq ahead, E820Table.nrMap_eq split, List.length_cons, List.length_cons]
      exact ⟨grown.trans round.extends_, tightens.trans further, size.trans same, all⟩

/-- The loop of `get_ram_ranges` keeps the places of the entries.  Once it has found a reserved
region, the low range does not grow any more. -/
theorem ramRangesLoop_keeps {count : Nat} {ranges final : RamRanges} {foundReserved : Bool}
    {reached : E820Table} (split : table.entries = front ++ rest) (valid : table.Valid)
    (enough : rest.length ≤ count)
    (above : ∀ entry ∈ rest, ranges.maxLoRam.toNat ≤ entry.region.base)
    (behind : foundReserved = true → ∀ entry ∈ rest, 0 < entry.region.base)
    (run : ramRangesLoop count front.length ranges foundReserved table =
      (some final, reached)) :
    (foundReserved = true → final.maxLoRam = ranges.maxLoRam) ∧
      ∃ after, reached.entries = front ++ after ∧ List.Forall₂ final.Keeps rest after := by
  induction rest generalizing front table count ranges foundReserved with
  | nil =>
      obtain ⟨rfl, rfl⟩ := ramRangesLoop_end (split.trans (List.append_nil _)) run
      exact ⟨fun _ => rfl, [], split, .nil⟩
  | cons entry rest ih =>
      rw [List.length_cons] at enough
      obtain ⟨count, rfl⟩ : ∃ more, count = more + 1 := ⟨count - 1, by omega⟩
      have whole : table.regions = front.map MemoryMap.region ++
          entry.region :: rest.map MemoryMap.region := by
        rw [E820Table.regions, split, List.map_append, List.map_cons]
      have order := valid.wellFormed
      rw [whole] at order
      obtain ⟨nonempty, -, apart⟩ := WellFormed.cons_iff.mp (WellFormed.append_iff.mp order).2.1
      have bounded := valid.bounded entry.region (by rw [whole]; simp)
      have later (other : MemoryMap) (member : other ∈ rest) :
          entry.region.limit ≤ other.region.base := apart _ (List.mem_map_of_mem member)
      obtain ⟨next, found, new, middle, round, tightens, ahead, more⟩ :=
        ramRangesLoop_round valid split run
      have start := above entry List.mem_cons_self
      have low := round.low_le bounded nonempty start
      have moved : middle.entries = (front ++ [new]) ++ rest := by simpa using ahead
      have less : rest.length ≤ count := by omega
      obtain ⟨fixed, after, entries, kept⟩ := ih moved tightens.valid less
        (fun other member => low.trans (later other member))
        (fun _ other member => (Nat.zero_le _).trans_lt (nonempty.trans_le (later other member)))
        (by simpa using more)
      refine ⟨fun old => ?_, new :: after, ?_, .cons (round.keeps start fixed) kept⟩
      · obtain ⟨same, still⟩ := round.stays old (behind old entry List.mem_cons_self)
        exact (fixed still).trans same
      · rw [entries, List.append_assoc, List.singleton_append]

/-- The ranges that `get_ram_ranges` returns, and the table it leaves. -/
structure RamRanges.Found (ranges : RamRanges) (table : E820Table) : Prop where
  low : ranges.minLoRam.toNat < ranges.maxLoRam.toNat
  lowEnd : ranges.maxLoRam.toNat ≤ 2 ^ 32
  high : ranges.minHiRam = 0 ∧ ranges.maxHiRam = 0 ∨
    2 ^ 32 ≤ ranges.minHiRam.toNat ∧ ranges.minHiRam.toNat < ranges.maxHiRam.toNat
  spans : ∀ entry ∈ table.entries, ranges.Spans entry
  valid : table.Valid

/-- The ranges that `get_ram_ranges` returns are those of its loop, or these without the high
range if that is empty. -/
theorem getRamRanges_cases {ranges : RamRanges} {reached : E820Table}
    (run : getRamRanges table = (some ranges, reached)) :
    ∃ final, ramRangesLoop (table.nrMap + maxE820Entries) 0
        ⟨0xffffffffffffffff, 0, 0xffffffffffffffff, 0⟩ false table = (some final, reached) ∧
      final.minLoRam.toNat < final.maxLoRam.toNat ∧
      (final.maxHiRam.toNat ≤ final.minHiRam.toNat ∧
          ranges = { final with minHiRam := 0, maxHiRam := 0 } ∨
        final.minHiRam.toNat < final.maxHiRam.toNat ∧ ranges = final) := by
  rw [getRamRanges] at run
  cases loop : ramRangesLoop (table.nrMap + maxE820Entries) 0
      ⟨0xffffffffffffffff, 0, 0xffffffffffffffff, 0⟩ false table with
  | mk result middle =>
      rw [loop] at run
      cases result with
      | none => cases run
      | some final =>
          dsimp only at run
          by_cases low : final.minLoRam ≥ final.maxLoRam
          · rw [if_pos low] at run
            cases run
          rw [if_neg low] at run
          by_cases noHigh : final.minHiRam ≥ final.maxHiRam
          · rw [if_pos noHigh] at run
            cases run
            exact ⟨final, rfl, Nat.lt_of_not_le low, .inl ⟨noHigh, rfl⟩⟩
          · rw [if_neg noHigh] at run
            cases run
            exact ⟨_, rfl, Nat.lt_of_not_le low, .inr ⟨Nat.lt_of_not_le noHigh, rfl⟩⟩

theorem getRamRanges_found {ranges : RamRanges} {reached : E820Table} (valid : table.Valid)
    (run : getRamRanges table = (some ranges, reached)) :
    ranges.Found reached ∧ Tightens table reached ∧ reached.nrMap = table.nrMap := by
  obtain ⟨final, loop, low, sides⟩ := getRamRanges_cases run
  have split : table.entries = [] ++ table.entries := rfl
  obtain ⟨grown, tightens, size, spans⟩ := ramRangesLoop_spans split valid
    (by rw [E820Table.length_entries]; exact Nat.le_add_right _ _) (by simp) loop
  have lowEnd := grown.lowEnd (Nat.zero_le _)
  have highStart := grown.highStart (by decide)
  refine ⟨?_, tightens, size⟩
  rcases sides with ⟨noHigh, rfl⟩ | ⟨high, rfl⟩
  · refine ⟨low, lowEnd, .inl ⟨rfl, rfl⟩, fun entry member ram => ?_, tightens.valid⟩
    rcases spans entry member ram with inLow | inHigh
    · exact .inl inLow
    · have nonempty := tightens.valid.wellFormed.nonempty _ (List.mem_map_of_mem member)
      omega
  · exact ⟨low, lowEnd, .inr ⟨highStart, high⟩, spans, tightens.valid⟩

theorem getRamRanges_keeps {ranges : RamRanges} {reached : E820Table} (valid : table.Valid)
    (run : getRamRanges table = (some ranges, reached)) :
    List.Forall₂ ranges.Keeps table.entries reached.entries := by
  obtain ⟨final, loop, -, sides⟩ := getRamRanges_cases run
  have split : table.entries = [] ++ table.entries := rfl
  obtain ⟨-, after, entries, keeps⟩ := ramRangesLoop_keeps split valid
    (by rw [E820Table.length_entries]; exact Nat.le_add_right _ _)
    (fun _ _ => Nat.zero_le _) (fun found => by cases found) loop
  rw [entries, List.nil_append]
  rcases sides with ⟨-, rfl⟩ | ⟨-, rfl⟩
  · exact keeps
  · exact keeps

end RamRanges

section Protection

/-- An address in one of the ranges that VT-d protects. -/
def VtdPmrs.Protects (pmrs : VtdPmrs) (a : Nat) : Prop :=
  pmrs.loBase.toNat ≤ a ∧ a < pmrs.loBase.toNat + pmrs.loSize.toNat ∨
    pmrs.hiBase.toNat ≤ a ∧ a < pmrs.hiBase.toNat + pmrs.hiSize.toNat

/-- The mask rounds down to a multiple of two megabytes. -/
theorem toNat_and_pmrMask (x : UInt64) :
    (x &&& pmrMask).toNat = x.toNat / 2 ^ 21 * 2 ^ 21 := by
  have mask : pmrMask.toNat = (2 ^ 43 - 1) <<< 21 := rfl
  rw [UInt64.toNat_and, mask]
  apply Nat.eq_of_testBit_eq
  intro i
  rw [Nat.testBit_and, Nat.testBit_shiftLeft, Nat.testBit_two_pow_sub_one,
    Nat.testBit_mul_two_pow, Nat.testBit_div_two_pow]
  by_cases low : 21 ≤ i
  · have place : i - 21 + 21 = i := Nat.sub_add_cancel low
    by_cases high : i < 64
    · have inside : i - 21 < 43 := by omega
      simp [low, inside, place]
    · have zero : x.toNat.testBit i = false :=
        Nat.testBit_lt_two_pow (x.toNat_lt.trans_le (Nat.pow_le_pow_right (by decide)
          (Nat.le_of_not_lt high)))
      simp [low, place, zero]
  · simp [low]

/-- A protected range starts at or below the RAM and ends at the last multiple of
two megabytes in it. -/
theorem pmr_range {minRam maxRam : UInt64} (order : minRam.toNat ≤ maxRam.toNat) :
    (minRam &&& pmrMask).toNat ≤ minRam.toNat ∧
      (minRam &&& pmrMask).toNat + ((maxRam - (minRam &&& pmrMask)) &&& pmrMask).toNat =
        maxRam.toNat / 2 ^ 21 * 2 ^ 21 ∧
      ((minRam &&& pmrMask) + ((maxRam - (minRam &&& pmrMask)) &&& pmrMask)).toNat =
        maxRam.toNat / 2 ^ 21 * 2 ^ 21 := by
  have size := maxRam.toNat_lt
  have start := toNat_and_pmrMask minRam
  have difference : (maxRam - (minRam &&& pmrMask)).toNat =
      maxRam.toNat - (minRam &&& pmrMask).toNat :=
    UInt64.toNat_sub_of_le _ _ (by rw [UInt64.le_iff_toNat_le]; omega)
  have length := toNat_and_pmrMask (maxRam - (minRam &&& pmrMask))
  rw [difference] at length
  rw [UInt64.toNat_add]
  omega

variable {table : E820Table}

theorem reserveDelta_total {maxRam limit : UInt64} (valid : table.Valid)
    (room : table.nrMap + 1 ≤ maxE820Entries)
    (ends : EndsOutsideRam table maxRam.toNat) :
    ∃ reached, reserveDelta table maxRam limit = (true, reached) ∧
      reached.nrMap ≤ table.nrMap + 1 := by
  rw [reserveDelta]
  by_cases same : maxRam = limit
  · rw [if_neg (not_not.mpr same)]
    exact ⟨table, rfl, Nat.le_succ _⟩
  · have whole : limit + (maxRam - limit) = maxRam := by
      rw [UInt64.add_comm, UInt64.sub_add_cancel]
    rw [if_pos same]
    exact e820ReserveRam_total valid room (by rw [whole]; exact ends)

/-- The effect of reserving what the rounding leaves out. -/
theorem reserveDelta_spec {maxRam limit : UInt64} {reached : E820Table} (valid : table.Valid)
    (order : limit.toNat ≤ maxRam.toNat) (ends : EndsOutsideRam table maxRam.toNat)
    (run : reserveDelta table maxRam limit = (true, reached)) :
    Tightens table reached ∧ ∀ a, reached.typeAt a = some e820Ram →
      ¬ (limit.toNat ≤ a ∧ a < maxRam.toNat) := by
  rw [reserveDelta] at run
  by_cases same : maxRam = limit
  · rw [if_neg (not_not.mpr same)] at run
    cases run
    refine ⟨.refl valid, fun a _ => ?_⟩
    rw [same]
    omega
  · have size := maxRam.toNat_lt
    have length : (maxRam - limit).toNat = maxRam.toNat - limit.toNat :=
      UInt64.toNat_sub_of_le _ _ (by rw [UInt64.le_iff_toNat_le]; exact order)
    have sum : limit.toNat + (maxRam - limit).toNat = maxRam.toNat := by omega
    have fits : limit.toNat + (maxRam - limit).toNat < 2 ^ 64 := by omega
    have whole : limit + (maxRam - limit) = maxRam := by
      rw [UInt64.add_comm, UInt64.sub_add_cancel]
    have safe : ∀ first ∈ table.entries.head?,
        ¬ CutsFront limit (limit + (maxRam - limit)) first := by
      rw [whole]
      exact ends.not_cutsFront
    rw [if_pos same] at run
    obtain ⟨-, types⟩ := e820ReserveRam_spec valid fits safe run
    refine ⟨e820ReserveRam_tightens valid fits safe run, fun a found inside => ?_⟩
    rw [types, sum, Option.map_eq_some_iff] at found
    obtain ⟨type, listed, kept⟩ := found
    by_cases cut : type = e820Ram ∧ limit.toNat ≤ a ∧ a < maxRam.toNat
    · rw [if_pos cut] at kept
      exact reserved_ne_ram kept
    · rw [if_neg cut] at kept
      exact cut ⟨kept, inside⟩

/-- A RAM address of a table that the ranges span. -/
theorem RamRanges.Found.typeAt {ranges : RamRanges} (found : ranges.Found table) {a : Nat}
    (ram : table.typeAt a = some e820Ram) :
    ranges.minLoRam.toNat ≤ a ∧ a < ranges.maxLoRam.toNat ∨
      ranges.minHiRam.toNat ≤ a ∧ a < ranges.maxHiRam.toNat := by
  obtain ⟨region, member, holds, kind⟩ := exists_of_lookup ram
  obtain ⟨entry, listed, rfl⟩ := List.mem_map.mp member
  rcases found.spans entry listed kind with ⟨-, lower, upper⟩ | ⟨-, lower, upper⟩
  · exact .inl ⟨lower.trans holds.1, holds.2.trans_le upper⟩
  · exact .inr ⟨lower.trans holds.1, holds.2.trans_le upper⟩

theorem RamRanges.Found.lowEnds {ranges : RamRanges} (found : ranges.Found table) :
    EndsOutsideRam table ranges.maxLoRam.toNat := by
  intro other member ram
  rcases found.spans other member ram with ⟨-, -, upper⟩ | ⟨lower, -, -⟩
  · exact .inl upper
  · exact .inr (found.lowEnd.trans lower)

theorem RamRanges.Found.highEnds {ranges : RamRanges} (found : ranges.Found table)
    {middle : E820Table} (tightens : Tightens table middle) :
    EndsOutsideRam middle ranges.maxHiRam.toNat := by
  intro other member ram
  have listed : other.region ∈ middle.regions := List.mem_map_of_mem member
  have nonempty := tightens.valid.wellFormed.nonempty _ listed
  have last : other.region.Holds (other.region.limit - 1) := ⟨by omega, by omega⟩
  have kind : middle.typeAt (other.region.limit - 1) = some e820Ram := by
    rw [E820Table.typeAt, tightens.valid.wellFormed.lookup_eq listed last]
    exact congrArg some ram
  have before := tightens.typeAt_of_ne kind reserved_ne_ram.symm
  have lowEnd := found.lowEnd
  rcases found.high with ⟨-, maxZero⟩ | ⟨start, order⟩
  · right
    rw [maxZero]
    exact Nat.zero_le _
  · left
    rcases found.typeAt before with inLow | inHigh
    · omega
    · omega

theorem RamRanges.Found.highOrder {ranges : RamRanges} (found : ranges.Found table) :
    ranges.minHiRam.toNat ≤ ranges.maxHiRam.toNat := by
  rcases found.high with ⟨minZero, maxZero⟩ | ⟨-, order⟩
  · rw [minZero, maxZero]
  · exact order.le

/-- The memory that the rounding leaves out can be reserved. -/
theorem RamRanges.Found.reserve_total {ranges : RamRanges} (found : ranges.Found table)
    (room : table.nrMap + 2 ≤ maxE820Entries) :
    ∃ reached, reserveVtdDeltaMem (setVtdPmrs ranges) table ranges = (true, reached) := by
  obtain ⟨-, -, lowLimit⟩ := pmr_range found.low.le
  have lowOrder : ((setVtdPmrs ranges).loBase + (setVtdPmrs ranges).loSize).toNat ≤
      ranges.maxLoRam.toNat := by
    simp only [setVtdPmrs]
    omega
  have roomLow : table.nrMap + 1 ≤ maxE820Entries := by omega
  obtain ⟨middle, first, small⟩ := @reserveDelta_total table ranges.maxLoRam
    ((setVtdPmrs ranges).loBase + (setVtdPmrs ranges).loSize) found.valid roomLow found.lowEnds
  obtain ⟨tightens, -⟩ := reserveDelta_spec found.valid lowOrder found.lowEnds first
  have roomHigh : middle.nrMap + 1 ≤ maxE820Entries := by omega
  obtain ⟨reached, second, -⟩ := @reserveDelta_total middle ranges.maxHiRam
    ((setVtdPmrs ranges).hiBase + (setVtdPmrs ranges).hiSize) tightens.valid roomHigh
    (found.highEnds tightens)
  refine ⟨reached, ?_⟩
  rw [reserveVtdDeltaMem, first]
  exact second

/-- Once the memory that the rounding leaves out is reserved, the rest of the RAM is
protected. -/
theorem RamRanges.Found.reserve_protects {ranges : RamRanges} (found : ranges.Found table)
    {reached : E820Table}
    (run : reserveVtdDeltaMem (setVtdPmrs ranges) table ranges = (true, reached)) :
    Tightens table reached ∧
      ∀ a, reached.typeAt a = some e820Ram → (setVtdPmrs ranges).Protects a := by
  obtain ⟨lowStart, lowSum, lowLimit⟩ := pmr_range found.low.le
  obtain ⟨highStart, highSum, highLimit⟩ := pmr_range found.highOrder
  have lowOrder : ((setVtdPmrs ranges).loBase + (setVtdPmrs ranges).loSize).toNat ≤
      ranges.maxLoRam.toNat := by
    simp only [setVtdPmrs]
    omega
  have highOrder : ((setVtdPmrs ranges).hiBase + (setVtdPmrs ranges).hiSize).toNat ≤
      ranges.maxHiRam.toNat := by
    simp only [setVtdPmrs]
    omega
  rw [reserveVtdDeltaMem] at run
  cases first : reserveDelta table ranges.maxLoRam
      ((setVtdPmrs ranges).loBase + (setVtdPmrs ranges).loSize) with
  | mk done middle =>
      rw [first] at run
      cases done with
      | false => cases run
      | true =>
          obtain ⟨lowTightens, outsideLow⟩ :=
            reserveDelta_spec found.valid lowOrder found.lowEnds first
          obtain ⟨highTightens, outsideHigh⟩ := reserveDelta_spec lowTightens.valid highOrder
            (found.highEnds lowTightens) run
          refine ⟨lowTightens.trans highTightens, fun a ram => ?_⟩
          have afterLow := highTightens.typeAt_of_ne ram reserved_ne_ram.symm
          have before := lowTightens.typeAt_of_ne afterLow reserved_ne_ram.symm
          have notLow := outsideLow a afterLow
          have notHigh := outsideHigh a ram
          simp only [setVtdPmrs] at notLow notHigh
          simp only [VtdPmrs.Protects, setVtdPmrs]
          rcases found.typeAt before with inLow | inHigh
          · left
            omega
          · right
            omega

/-- The check after the launch succeeds on the table the ranges were taken from, and
the protected ranges cover the RAM that is left. -/
theorem verifyVtdPmrs_protects {ranges : RamRanges} {before : E820Table}
    (valid : table.Valid) (room : table.nrMap + 2 ≤ maxE820Entries)
    (run : getRamRanges table = (some ranges, before)) :
    ∃ after, verifyVtdPmrs (setVtdPmrs ranges) table = (true, after) ∧
      ∀ a, after.typeAt a = some e820Ram → (setVtdPmrs ranges).Protects a := by
  obtain ⟨found, -, size⟩ := getRamRanges_found valid run
  obtain ⟨after, reserved⟩ := found.reserve_total (by omega)
  refine ⟨after, ?_, (found.reserve_protects reserved).2⟩
  rw [verifyVtdPmrs, run]
  simp [reserved]

/-- Low RAM with a hole, and high RAM that does not end at a multiple of two
megabytes. -/
def scatteredRam : E820Table :=
  .ofEntries [⟨20, 0, 0x9f000, e820Ram⟩, ⟨20, 0x9f000, 0x1000, e820Reserved⟩,
    ⟨20, 0x100000, 0x7ff00000, e820Ram⟩, ⟨20, 0x100000000, 0x40001000, e820Ram⟩]

theorem verifyVtdPmrs_protects_scatteredRam :
    ∃ ranges after, verifyVtdPmrs (setVtdPmrs ranges) scatteredRam = (true, after) ∧
      ∀ a, after.typeAt a = some e820Ram → (setVtdPmrs ranges).Protects a := by
  have returns : (getRamRanges scatteredRam).1 =
      some ⟨0, 0x80000000, 0x100000000, 0x140001000⟩ := by
    decide
  obtain ⟨before, run⟩ := exists_reached returns
  exact ⟨_, verifyVtdPmrs_protects ⟨⟨by decide, by decide⟩, by decide⟩ (by decide) run⟩

/-- What a successful check does to the table. -/
theorem verifyVtdPmrs_tightens {pmrs : VtdPmrs} {reached : E820Table} (valid : table.Valid)
    (run : verifyVtdPmrs pmrs table = (true, reached)) : Tightens table reached := by
  rw [verifyVtdPmrs] at run
  cases found : getRamRanges table with
  | mk result middle =>
      rw [found] at run
      cases result with
      | none => cases run
      | some ranges =>
          obtain ⟨spans, tightens, -⟩ := getRamRanges_found valid found
          dsimp only at run
          cases reserve : reserveVtdDeltaMem pmrs middle ranges with
          | mk done after =>
              rw [reserve] at run
              cases done with
              | false => cases run
              | true =>
                  rw [if_pos rfl, Prod.mk.injEq, decide_eq_true_eq] at run
                  obtain ⟨rfl, rfl⟩ := run
                  exact tightens.trans (spans.reserve_protects reserve).1

/-- The RAM that VT-d does not protect becomes reserved. -/
def VtdPmrs.changes (pmrs : VtdPmrs) : List (Change Nat UInt32) :=
  reserveRange (max (2 ^ 32) (pmrs.hiBase.toNat + pmrs.hiSize.toNat)) (2 ^ 64) ++
    reserveRange (pmrs.loBase.toNat + pmrs.loSize.toNat) (2 ^ 32)

theorem forall₂_mem {α β : Type} {related : α → β → Prop} {first : List α} {second : List β}
    (all : List.Forall₂ related first second) :
    List.Forall₂ (fun x y => related x y ∧ x ∈ first ∧ y ∈ second) first second := by
  induction all with
  | nil => exact .nil
  | cons here _ ih =>
      refine .cons ⟨here, List.mem_cons_self, List.mem_cons_self⟩ (ih.imp ?_)
      rintro x y ⟨kept, left, right⟩
      exact ⟨kept, List.mem_cons_of_mem _ left, List.mem_cons_of_mem _ right⟩

theorem exists_of_forall₂ {α β : Type} {related : α → β → Prop} {first : List α}
    {second : List β} (all : List.Forall₂ related first second) {x : α} (member : x ∈ first) :
    ∃ y ∈ second, related x y := by
  induction all with
  | nil => cases member
  | cons here _ ih =>
      rcases List.mem_cons.mp member with rfl | later
      · exact ⟨_, List.mem_cons_self, here⟩
      · obtain ⟨y, listed, kept⟩ := ih later
        exact ⟨y, List.mem_cons_of_mem _ listed, kept⟩

theorem flatMap_congr_of_forall₂ {α β γ : Type} {related : α → β → Prop} {first : List α}
    {second : List β} {f : α → List γ} {g : β → List γ}
    (all : List.Forall₂ related first second) (same : ∀ x y, related x y → f x = g y) :
    first.flatMap f = second.flatMap g := by
  induction all with
  | nil => rfl
  | cons here _ ih => rw [List.flatMap_cons, List.flatMap_cons, same _ _ here, ih]

section Parts

variable {region : Region Nat UInt32} {lo hi : Nat}

/-- The parts of a region when the RAM of a range becomes reserved. -/
def reservedParts (lo hi : Nat) (region : Region Nat UInt32) : List (Region Nat UInt32) :=
  if lo < hi then splitRegion lo hi e820Ram e820Reserved region else [region]

theorem changed_reserveRange (regions : List (Region Nat UInt32)) (lo hi : Nat)
    (changes : List (Change Nat UInt32)) :
    changed regions (reserveRange lo hi ++ changes) =
      (changed regions changes).flatMap (reservedParts lo hi) := by
  rw [reserveRange]
  split
  · next range =>
      have parts : reservedParts lo hi = splitRegion lo hi e820Ram e820Reserved :=
        funext fun region => if_pos range
      rw [parts]
      rfl
  · next empty =>
      have parts : reservedParts lo hi = fun region => [region] :=
        funext fun region => if_neg empty
      rw [parts, List.flatMap_singleton', List.nil_append]

theorem reservedParts_of_ne (other : region.kind ≠ e820Ram) :
    reservedParts lo hi region = [region] := by
  rw [reservedParts, splitRegion_of_ne other, ite_self]

theorem reservedParts_of_le (nonempty : region.base < region.limit) (below : region.limit ≤ lo) :
    reservedParts lo hi region = [region] := by
  rw [reservedParts]
  split
  · next range => exact splitRegion_of_le nonempty range.le below
  · rfl

theorem reservedParts_of_ge (nonempty : region.base < region.limit) (above : hi ≤ region.base) :
    reservedParts lo hi region = [region] := by
  rw [reservedParts]
  split
  · next range => exact splitRegion_of_ge nonempty range.le above
  · rfl

/-- How far the range reaches behind the region does not matter. -/
theorem reservedParts_of_reach {other : Nat} (nonempty : region.base < region.limit)
    (upper : region.limit ≤ hi) (reach : region.limit ≤ other) :
    reservedParts lo hi region = reservedParts lo other region := by
  by_cases below : region.limit ≤ lo
  · rw [reservedParts_of_le nonempty below, reservedParts_of_le nonempty below]
  · rw [reservedParts, reservedParts, if_pos (by omega), if_pos (by omega),
      splitRegion_of_reach upper reach]

theorem reservedParts_of_covered (nonempty : region.base < region.limit)
    (ram : region.kind = e820Ram) (lower : lo ≤ region.base) (upper : region.limit ≤ hi) :
    reservedParts lo hi region = [{ region with kind := e820Reserved }] := by
  rw [reservedParts, if_pos (by omega), splitRegion_of_covered nonempty ram lower upper]

end Parts

theorem reserveDelta_regions {maxRam limit : UInt64} {reached : E820Table}
    (valid : table.Valid) (order : limit.toNat ≤ maxRam.toNat)
    (ends : EndsOutsideRam table maxRam.toNat)
    (run : reserveDelta table maxRam limit = (true, reached)) :
    reached.regions = table.regions.flatMap (reservedParts limit.toNat maxRam.toNat) := by
  rw [reserveDelta] at run
  by_cases same : maxRam = limit
  · rw [if_neg (not_not.mpr same)] at run
    cases run
    have parts : reservedParts limit.toNat maxRam.toNat = fun region => [region] :=
      funext fun region => if_neg (by rw [same]; exact lt_irrefl _)
    rw [parts, List.flatMap_singleton']
  · have differ : maxRam.toNat ≠ limit.toNat := fun equal => same (UInt64.toNat_inj.mp equal)
    have range : limit.toNat < maxRam.toNat := by omega
    have size := maxRam.toNat_lt
    have length : (maxRam - limit).toNat = maxRam.toNat - limit.toNat :=
      UInt64.toNat_sub_of_le _ _ (by rw [UInt64.le_iff_toNat_le]; exact order)
    have sum : limit.toNat + (maxRam - limit).toNat = maxRam.toNat := by omega
    have whole : limit + (maxRam - limit) = maxRam := by
      rw [UInt64.add_comm, UInt64.sub_add_cancel]
    have filled : maxRam - limit ≠ 0 := by
      intro zero
      rw [zero, UInt64.toNat_zero] at length
      omega
    have safe : ∀ first ∈ table.entries.head?,
        ¬ CutsFront limit (limit + (maxRam - limit)) first := by
      rw [whole]
      exact ends.not_cutsFront
    have parts : reservedParts limit.toNat maxRam.toNat =
        splitRegion limit.toNat maxRam.toNat e820Ram e820Reserved :=
      funext fun region => if_pos range
    rw [if_pos same] at run
    rw [e820ReserveRam_regions valid filled (by omega) safe run, sum, parts]
    rfl

namespace RamRanges.Found

variable {ranges : RamRanges} {middle low : E820Table}

/-- RAM lies on one side of four gigabytes, and the high range reaches over the RAM there. -/
theorem sides (found : ranges.Found middle)
    (keeps : List.Forall₂ ranges.Keeps table.entries middle.entries) :
    ∀ region ∈ table.regions, region.kind = e820Ram →
      region.limit ≤ 2 ^ 32 ∨
        2 ^ 32 ≤ region.base ∧ region.limit ≤ ranges.maxHiRam.toNat := by
  intro region member ram
  obtain ⟨entry, listed, rfl⟩ := List.mem_map.mp member
  obtain ⟨new, newListed, kept⟩ := exists_of_forall₂ keeps listed
  rcases kept with rfl | ⟨-, -, reach, -⟩
  · rcases found.spans _ newListed ram with ⟨reach, -, -⟩ | ⟨start, -, reach⟩
    · exact .inl reach
    · exact .inr ⟨start, reach⟩
  · exact .inl reach

/-- The steps of the check below four gigabytes. -/
theorem low_regions (found : ranges.Found middle) (valid : table.Valid)
    (keeps : List.Forall₂ ranges.Keeps table.entries middle.entries) {limit : UInt64}
    (order : limit.toNat ≤ ranges.maxLoRam.toNat)
    (run : reserveDelta middle ranges.maxLoRam limit = (true, low)) :
    low.regions = changed table.regions (reserveRange limit.toNat (2 ^ 32)) := by
  have lowEnd := found.lowEnd
  have target := changed_reserveRange table.regions limit.toNat (2 ^ 32) []
  rw [List.append_nil] at target
  rw [reserveDelta_regions found.valid order found.lowEnds run, target, changed,
    List.foldr_nil, E820Table.regions, E820Table.regions, List.flatMap_map, List.flatMap_map]
  refine (flatMap_congr_of_forall₂ (forall₂_mem keeps) ?_).symm
  rintro entry new ⟨kept, listed, newListed⟩
  have nonempty : entry.region.base < entry.region.limit :=
    valid.wellFormed.nonempty _ (List.mem_map_of_mem listed)
  rcases kept with rfl | ⟨ram, start, reach, rfl⟩
  · by_cases ram : new.type = e820Ram
    · rcases found.spans _ newListed ram with ⟨reach, -, upper⟩ | ⟨start, -, -⟩
      · exact reservedParts_of_reach nonempty reach upper
      · rw [reservedParts_of_ge nonempty start,
          reservedParts_of_ge nonempty (lowEnd.trans start)]
    · rw [reservedParts_of_ne ram, reservedParts_of_ne ram]
  · rw [reservedParts_of_covered nonempty ram (order.trans start) reach,
      reservedParts_of_ne reserved_ne_ram]
    rfl

end RamRanges.Found

/-- The ranges that SINIT was given end at multiples of two megabytes at or below the ends of
the RAM. -/
theorem setVtdPmrs_ends {ranges : RamRanges} (found : ranges.Found table) :
    ((setVtdPmrs ranges).loBase + (setVtdPmrs ranges).loSize).toNat =
        (setVtdPmrs ranges).loBase.toNat + (setVtdPmrs ranges).loSize.toNat ∧
      (setVtdPmrs ranges).loBase.toNat + (setVtdPmrs ranges).loSize.toNat ≤
        ranges.maxLoRam.toNat ∧
      ((setVtdPmrs ranges).hiBase + (setVtdPmrs ranges).hiSize).toNat =
        (setVtdPmrs ranges).hiBase.toNat + (setVtdPmrs ranges).hiSize.toNat ∧
      (setVtdPmrs ranges).hiBase.toNat + (setVtdPmrs ranges).hiSize.toNat ≤
        ranges.maxHiRam.toNat ∧
      (ranges.maxHiRam.toNat = 0 ∨ 2 ^ 32 ≤ (setVtdPmrs ranges).hiBase.toNat ∧
        2 ^ 32 ≤ (setVtdPmrs ranges).hiBase.toNat + (setVtdPmrs ranges).hiSize.toNat) := by
  obtain ⟨-, lowSum, lowLimit⟩ := pmr_range found.low.le
  obtain ⟨-, highSum, highLimit⟩ := pmr_range found.highOrder
  have highStart := toNat_and_pmrMask ranges.minHiRam
  simp only [setVtdPmrs]
  refine ⟨lowLimit.trans lowSum.symm, by omega, highLimit.trans highSum.symm, by omega, ?_⟩
  rcases found.high with ⟨-, zero⟩ | ⟨start, order⟩
  · exact .inl (by rw [zero]; rfl)
  · right
    omega

/-- What a successful check says of the table before it: which of its RAM is protected, and how
the rest is cut off. -/
structure VtdVerified (pmrs : VtdPmrs) (table reached : E820Table) : Prop where
  after : ChangedTable reached table.regions pmrs.changes
  sides : ∀ region ∈ table.regions, region.kind = e820Ram →
    region.limit ≤ 2 ^ 32 ∨ 2 ^ 32 ≤ region.base
  ram : ∀ a, reached.typeAt a = some e820Ram ↔
    table.typeAt a = some e820Ram ∧ pmrs.Protects a

theorem reserveVtdDeltaMem_cases {pmrs : VtdPmrs} {ranges : RamRanges} {middle reached : E820Table}
    (run : reserveVtdDeltaMem pmrs middle ranges = (true, reached)) :
    ∃ low, reserveDelta middle ranges.maxLoRam (pmrs.loBase + pmrs.loSize) = (true, low) ∧
      reserveDelta low ranges.maxHiRam (pmrs.hiBase + pmrs.hiSize) = (true, reached) := by
  rw [reserveVtdDeltaMem] at run
  cases first : reserveDelta middle ranges.maxLoRam (pmrs.loBase + pmrs.loSize) with
  | mk done low =>
      rw [first] at run
      cases done with
      | false => cases run
      | true => exact ⟨low, rfl, run⟩

/-- The RAM of the table is cut off behind the two protected ranges. -/
theorem RamRanges.Found.regions_eq {ranges : RamRanges} {middle reached : E820Table}
    (found : ranges.Found middle) (valid : table.Valid)
    (keeps : List.Forall₂ ranges.Keeps table.entries middle.entries)
    (run : reserveVtdDeltaMem (setVtdPmrs ranges) middle ranges = (true, reached)) :
    reached.regions = changed table.regions (setVtdPmrs ranges).changes := by
  obtain ⟨lowEnd, lowOrder, highEnd, highOrder, highStart⟩ := setVtdPmrs_ends found
  have sides := found.sides keeps
  have lowLimit := found.lowEnd
  obtain ⟨low, first, second⟩ := reserveVtdDeltaMem_cases run
  generalize setVtdPmrs ranges = pmrs at *
  have lowTightens := (reserveDelta_spec found.valid (lowEnd.trans_le lowOrder)
    found.lowEnds first).1
  have lowRegions := found.low_regions valid keeps (lowEnd.trans_le lowOrder) first
  have highRegions := reserveDelta_regions lowTightens.valid (highEnd.trans_le highOrder)
    (found.highEnds lowTightens) second
  rw [lowEnd] at lowRegions
  rw [highEnd] at highRegions
  rw [highRegions, VtdPmrs.changes, changed_reserveRange, ← lowRegions]
  refine List.flatMap_congr fun region member => ?_
  have nonempty := lowTightens.valid.wellFormed.nonempty region member
  by_cases ram : region.kind = e820Ram
  case neg => rw [reservedParts_of_ne ram, reservedParts_of_ne ram]
  -- The region is a piece of RAM of the table, on one side of the four gigabytes.
  rw [lowRegions] at member
  obtain ⟨origin, listed, kind, lower, upper⟩ := changed_origin member (by
    rw [reserveRange]
    split <;> simp [ram, Change.kind, reserved_ne_ram])
  have size := ranges.maxHiRam.toNat_lt
  rcases sides origin listed (kind.trans ram) with reach | ⟨start, reach⟩
  · have below : region.limit ≤ max (2 ^ 32) (pmrs.hiBase.toNat + pmrs.hiSize.toNat) :=
      le_max_of_le_left (upper.trans reach)
    rw [reservedParts_of_le nonempty below]
    rcases highStart with zero | ⟨-, above⟩
    · rw [reservedParts_of_ge nonempty (by omega)]
    · rw [reservedParts_of_le nonempty (by omega)]
  · rw [max_eq_right (by omega)]
    exact reservedParts_of_reach nonempty (by omega) (by omega)

theorem RamRanges.Found.verified {ranges : RamRanges} {middle reached : E820Table}
    (found : ranges.Found middle) (valid : table.Valid)
    (keeps : List.Forall₂ ranges.Keeps table.entries middle.entries)
    (tightens : Tightens table middle)
    (run : reserveVtdDeltaMem (setVtdPmrs ranges) middle ranges = (true, reached)) :
    VtdVerified (setVtdPmrs ranges) table reached := by
  obtain ⟨further, protects⟩ := found.reserve_protects run
  have proper : ∀ change ∈ (setVtdPmrs ranges).changes, change.Proper :=
    List.forall_mem_append.mpr ⟨reserveRange_proper _ _, reserveRange_proper _ _⟩
  have after : ChangedTable reached table.regions (setVtdPmrs ranges).changes :=
    ⟨valid.wellFormed, proper, further.valid, found.regions_eq valid keeps run⟩
  refine ⟨after, fun region member ram => ?_, fun a => ⟨fun ram => ?_, ?_⟩⟩
  · exact (found.sides keeps region member ram).imp_right And.left
  · refine ⟨?_, protects a ram⟩
    exact (tightens.trans further).typeAt_of_ne ram reserved_ne_ram.symm
  · rintro ⟨ram, inside⟩
    obtain ⟨-, lowOrder, -, highOrder, highStart⟩ := setVtdPmrs_ends found
    have lowLimit := found.lowEnd
    rw [VtdPmrs.Protects] at inside
    rw [after.typeAt, VtdPmrs.changes, kindAt_reserveRange,
      ← List.append_nil (reserveRange _ (2 ^ 32)), kindAt_reserveRange, kindAt,
      ← E820Table.typeAt, ram, Option.map_some, Option.map_some, if_neg (by omega),
      if_neg (by omega)]

theorem verifyVtdPmrs_verified {pmrs : VtdPmrs} {reached : E820Table} (valid : table.Valid)
    (run : verifyVtdPmrs pmrs table = (true, reached)) : VtdVerified pmrs table reached := by
  rw [verifyVtdPmrs] at run
  cases found : getRamRanges table with
  | mk result middle =>
      rw [found] at run
      cases result with
      | none => cases run
      | some ranges =>
          obtain ⟨spans, tightens, -⟩ := getRamRanges_found valid found
          dsimp only at run
          cases reserve : reserveVtdDeltaMem pmrs middle ranges with
          | mk done after =>
              rw [reserve] at run
              cases done with
              | false => cases run
              | true =>
                  rw [if_pos rfl, Prod.mk.injEq, decide_eq_true_eq] at run
                  obtain ⟨rfl, rfl⟩ := run
                  exact spans.verified valid (getRamRanges_keeps valid found) tightens reserve

/-- The ranges of an empty table are not found. -/
theorem verifyVtdPmrs_nonempty {pmrs : VtdPmrs} {reached : E820Table}
    (run : verifyVtdPmrs pmrs table = (true, reached)) : table.nrMap ≠ 0 := by
  intro empty
  have none : (getRamRanges table).1 = none := by
    rw [getRamRanges, empty]
    simp [maxE820Entries, ramRangesLoop, empty]
  rw [verifyVtdPmrs] at run
  cases found : getRamRanges table with
  | mk result middle =>
      rw [found] at run none
      cases none
      cases run

end Protection

end Sable
