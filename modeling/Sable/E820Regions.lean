import Sable.E820
import Sable.RegionTables

/-!
# The memory map as a table of regions

The entries of the copied memory map are regions of addresses.  Where no entry
is inserted in front of the first one, `protect_region` overwrites a range and
`e820_reserve_ram` recolours the RAM in it.
-/

namespace Sable

open ByteMemory BigEndian HaltingProgram RegionTable

/-- The addresses that belong to an entry. -/
def MemoryMap.region (entry : MemoryMap) : Region Nat UInt32 :=
  ⟨entry.baseAddr.toNat, entry.baseAddr.toNat + entry.length.toNat, entry.type⟩

namespace E820Table

def regions (table : E820Table) : List (Region Nat UInt32) :=
  table.entries.map MemoryMap.region

/-- The type of an address, if an entry covers it. -/
def typeAt (table : E820Table) (a : Nat) : Option UInt32 :=
  lookup table.regions a

/-- The start of the first entry. -/
def firstBase (table : E820Table) : Option Nat :=
  table.regions.head?.map Region.base

/-- The entries are in ascending order, not empty, apart from each other, and end
below `2 ^ 64`. -/
structure Valid (table : E820Table) : Prop where
  wellFormed : WellFormed table.regions
  bounded : ∀ region ∈ table.regions, region.limit < 2 ^ 64

variable {table : E820Table} {front back : List MemoryMap} {entry : MemoryMap}

@[simp]
theorem nrMap_set (table : E820Table) (i : Nat) (entry : MemoryMap) :
    (table.set i entry).nrMap = table.nrMap :=
  rfl

@[simp]
theorem length_entries (table : E820Table) : table.entries.length = table.nrMap := by
  simp [entries]

theorem getElem?_entries (table : E820Table) (i : Nat) :
    table.entries[i]? = if i < table.nrMap then some (table.map i) else none := by
  by_cases inside : i < table.nrMap <;> simp [entries, inside]

/-- Two tables with the same number of entries and the same entries. -/
theorem entries_eq {list : List MemoryMap} (length : table.nrMap = list.length)
    (same : ∀ i, i < list.length → some (table.map i) = list[i]?) :
    table.entries = list := by
  apply List.ext_getElem?
  intro i
  rw [getElem?_entries]
  by_cases inside : i < table.nrMap
  · rw [if_pos inside]
    exact same i (by omega)
  · rw [if_neg inside, List.getElem?_eq_none (by omega)]

theorem nrMap_eq (split : table.entries = front ++ back) :
    table.nrMap = front.length + back.length := by
  rw [← length_entries, split, List.length_append]

theorem map_of_split (split : table.entries = front ++ entry :: back) :
    table.map front.length = entry := by
  have found := getElem?_entries table front.length
  have length := nrMap_eq split
  rw [List.length_cons] at length
  rw [if_pos (by omega), split, List.getElem?_append_right le_rfl] at found
  simpa using found.symm

theorem entries_set (split : table.entries = front ++ entry :: back) (new : MemoryMap) :
    (table.set front.length new).entries = front ++ new :: back := by
  have length := nrMap_eq split
  rw [List.length_cons] at length
  apply entries_eq
  · rw [List.length_append, List.length_cons]
    exact length
  · intro i inside
    rw [List.length_append, List.length_cons] at inside
    have found := getElem?_entries table i
    rw [if_pos (by omega), split] at found
    by_cases at_ : i = front.length
    · subst at_
      simp [set]
    · simp only [set, Function.update_of_ne at_]
      rw [← found]
      by_cases early : i < front.length
      · rw [List.getElem?_append_left early, List.getElem?_append_left early]
      · rw [List.getElem?_append_right (by omega), List.getElem?_append_right (by omega)]
        obtain ⟨rest, difference⟩ : ∃ rest, i - front.length = rest + 1 :=
          ⟨i - front.length - 1, by omega⟩
        rw [difference, List.getElem?_cons_succ, List.getElem?_cons_succ]

end E820Table

section Shift

theorem shiftUp_apply (pos : Nat) (map : Nat → MemoryMap) (i k : Nat) :
    shiftUp pos map i k = if pos + 1 < k ∧ k ≤ i + 1 then map (k - 1) else map k := by
  induction i generalizing map with
  | zero =>
      rw [shiftUp, if_neg (by omega)]
  | succ i ih =>
      rw [shiftUp]
      by_cases behind : pos < i + 1
      · rw [if_pos behind, ih]
        by_cases moved : pos + 1 < k ∧ k ≤ i + 1
        · rw [if_pos moved, if_pos (by omega), Function.update_of_ne (by omega)]
        · by_cases last : k = i + 2
          · subst last
            rw [if_neg moved, if_pos (by omega), Function.update_self]
            rfl
          · rw [if_neg moved, if_neg (by omega), Function.update_of_ne last]
      · rw [if_neg behind, if_neg (by omega)]

theorem shiftDown_apply (map : Nat → MemoryMap) (count i k : Nat) :
    shiftDown map count i k =
      if i ≤ k ∧ k < i + count then map (k + 1) else map k := by
  induction count generalizing map i with
  | zero => rw [shiftDown, if_neg (by omega)]
  | succ count ih =>
      rw [shiftDown, ih]
      by_cases later : i + 1 ≤ k ∧ k < i + 1 + count
      · rw [if_pos later, if_pos (by omega), Function.update_of_ne (by omega)]
      · by_cases here : k = i
        · subst here
          rw [if_neg later, if_pos (by omega), Function.update_self]
        · rw [if_neg later, if_neg (by omega), Function.update_of_ne here]

theorem unsignedPred_succ {i : Nat} (small : i < 2 ^ 32) : unsignedPred (i + 1) = i := by
  rw [unsignedPred]
  omega

theorem unsignedPred_zero_succ : (unsignedPred 0 + 1) % 2 ^ 32 = 0 :=
  rfl

end Shift

section Splits

variable {table : E820Table} {front back : List MemoryMap} {entry : MemoryMap}

/-- The memory area after an insertion behind a nonempty front. -/
theorem insertAfterRegion_map (room : table.nrMap + 1 ≤ maxE820Entries) {pos : Nat}
    (inside : pos < table.nrMap) (addr size : UInt64) (type : UInt32) :
    insertAfterRegion table pos addr size type =
      (true, ⟨fun k => if k = pos + 1 then ⟨20, addr, size, type⟩
        else if pos + 1 < k ∧ k ≤ table.nrMap then table.map (k - 1) else table.map k,
        table.nrMap + 1⟩) := by
  have limit : maxE820Entries = 256 := rfl
  have next : (pos + 1) % 2 ^ 32 = pos + 1 := Nat.mod_eq_of_lt (by omega)
  have last : unsignedPred table.nrMap + 1 = table.nrMap := by
    rw [unsignedPred]
    omega
  have map : Function.update (shiftUp pos table.map (unsignedPred table.nrMap)) (pos + 1)
      ⟨20, addr, size, type⟩ = fun k => if k = pos + 1 then ⟨20, addr, size, type⟩
        else if pos + 1 < k ∧ k ≤ table.nrMap then table.map (k - 1) else table.map k := by
    funext k
    rw [Function.update_apply, shiftUp_apply, last]
  rw [insertAfterRegion, if_neg (by omega), next]
  simp only [map]

/-- Insertion behind `front`; in front of the first entry it works only for an
empty table. -/
theorem insertAfterRegion_entries (split : table.entries = front ++ back)
    (room : table.nrMap + 1 ≤ maxE820Entries) (later : front ≠ [] ∨ back = [])
    (addr size : UInt64) (type : UInt32) :
    ∃ reached, insertAfterRegion table (unsignedPred front.length) addr size type =
        (true, reached) ∧
      reached.entries = front ++ ⟨20, addr, size, type⟩ :: back := by
  have limit : maxE820Entries = 256 := rfl
  have length := E820Table.nrMap_eq split
  cases front with
  | nil =>
      have none : back = [] := later.resolve_left (by simp)
      subst none
      rw [List.length_nil] at length
      rw [insertAfterRegion, if_neg (by omega)]
      refine ⟨_, rfl, E820Table.entries_eq ?_ ?_⟩
      · simp [length]
      · intro i inside
        have first : i = 0 := by
          simp only [List.nil_append, List.length_cons, List.length_nil] at inside
          omega
        subst first
        simp only [List.length_nil, unsignedPred_zero_succ, Function.update_self]
        rfl
  | cons first front =>
      rw [List.length_cons] at length
      rw [List.length_cons, unsignedPred_succ (by omega),
        insertAfterRegion_map room (by omega)]
      refine ⟨_, rfl, E820Table.entries_eq ?_ ?_⟩
      · simp only [List.length_append, List.length_cons]
        omega
      · intro i inside
        simp only [List.length_append, List.length_cons] at inside
        have found (k : Nat) (present : k < table.nrMap) :
            some (table.map k) = (first :: front ++ back)[k]? := by
          rw [← split, E820Table.getElem?_entries, if_pos present]
        have width : (first :: front).length = front.length + 1 := rfl
        dsimp only
        rcases Nat.lt_trichotomy i (front.length + 1) with early | here | late
        · rw [if_neg (by omega), if_neg (by omega), found i (by omega),
            List.getElem?_append_left (by omega), List.getElem?_append_left (by omega)]
        · rw [if_pos here, List.getElem?_append_right (by omega), here, width, Nat.sub_self]
          rfl
        · obtain ⟨k, rfl⟩ : ∃ k, i = k + 1 := ⟨i - 1, by omega⟩
          rw [if_neg (by omega), if_pos (by omega), Nat.add_sub_cancel, found k (by omega),
            List.getElem?_append_right (by omega), List.getElem?_append_right (by omega)]
          have difference : k + 1 - (first :: front).length =
              k - (first :: front).length + 1 := by omega
          rw [difference, List.getElem?_cons_succ]

theorem insertAfterRegion_full (full : ¬ table.nrMap + 1 ≤ maxE820Entries) (pos : Nat)
    (addr size : UInt64) (type : UInt32) :
    insertAfterRegion table pos addr size type = (false, table) := by
  rw [insertAfterRegion, if_pos (by omega)]

theorem removeRegion_entries (split : table.entries = front ++ entry :: back) :
    (removeRegion table front.length).entries = front ++ back := by
  have length := E820Table.nrMap_eq split
  rw [List.length_cons] at length
  apply E820Table.entries_eq
  · rw [List.length_append]
    simp only [removeRegion]
    omega
  · intro i inside
    rw [List.length_append] at inside
    have found (k : Nat) (present : k < table.nrMap) :
        some (table.map k) = (front ++ entry :: back)[k]? := by
      rw [← split, E820Table.getElem?_entries, if_pos present]
    simp only [removeRegion, shiftDown_apply]
    by_cases early : i < front.length
    · rw [if_neg (by omega), found i (by omega), List.getElem?_append_left early,
        List.getElem?_append_left early]
    · rw [if_pos (by omega), found (i + 1) (by omega),
        List.getElem?_append_right (by omega), List.getElem?_append_right (by omega)]
      have difference : i + 1 - front.length = i - front.length + 1 := by omega
      rw [difference, List.getElem?_cons_succ]

end Splits

section Entries

variable {entry : MemoryMap}

theorem MemoryMap.toNat_limit (bounded : entry.region.limit < 2 ^ 64) :
    (entry.baseAddr + entry.length).toNat = entry.region.limit := by
  rw [UInt64.toNat_add]
  exact Nat.mod_eq_of_lt bounded

theorem truncateFront_region {limit : UInt64} (bounded : entry.region.limit < 2 ^ 64)
    (upper : limit.toNat ≤ entry.region.limit) :
    (truncateFront entry limit).region = ⟨limit.toNat, entry.region.limit, entry.type⟩ := by
  have whole := MemoryMap.toNat_limit bounded
  have rest : (entry.baseAddr + entry.length - limit).toNat =
      entry.region.limit - limit.toNat := by
    rw [UInt64.toNat_sub_of_le _ _ (by rw [UInt64.le_iff_toNat_le, whole]; exact upper), whole]
  have sum : limit.toNat + (entry.region.limit - limit.toNat) = entry.region.limit :=
    Nat.add_sub_of_le upper
  rw [← sum, ← rest]
  rfl

end Entries

section Protect

variable {table : E820Table} {front back : List MemoryMap} {entry : MemoryMap}
  {newAddr newSize limit : UInt64} {newType : UInt32}

/-- The loop that deletes covered entries stops at the first one that reaches
above the new region. -/
theorem removeCovered_entries (limit : UInt64) {rest : List MemoryMap}
    (split : table.entries = front ++ rest)
    (bounded : ∀ entry ∈ rest, entry.region.limit < 2 ^ 64) {count : Nat}
    (enough : rest.length ≤ count) :
    (removeCovered limit front.length count table).entries =
      front ++ rest.dropWhile fun entry => entry.region.limit ≤ limit.toNat := by
  induction rest generalizing table count with
  | nil =>
      have length := E820Table.nrMap_eq split
      rw [List.length_nil] at length
      cases count with
      | zero => exact split
      | succ count =>
          rw [removeCovered, if_neg (by omega)]
          exact split
  | cons entry rest ih =>
      rw [List.forall_mem_cons] at bounded
      rw [List.length_cons] at enough
      have length := E820Table.nrMap_eq split
      rw [List.length_cons] at length
      obtain ⟨count, rfl⟩ : ∃ more, count = more + 1 := ⟨count - 1, by omega⟩
      have found := E820Table.map_of_split split
      have reach : limit ≥ entry.baseAddr + entry.length ↔
          entry.region.limit ≤ limit.toNat := by
        rw [ge_iff_le, UInt64.le_iff_toNat_le, MemoryMap.toNat_limit bounded.1]
      rw [removeCovered]
      simp only [found, reach]
      by_cases covered : entry.region.limit ≤ limit.toNat
      · rw [if_pos ⟨by omega, covered⟩, List.dropWhile_cons_of_pos (by simpa using covered)]
        exact ih (removeRegion_entries split) bounded.2 (by omega)
      · rw [if_neg fun both => covered both.2,
          List.dropWhile_cons_of_neg (by simpa using covered)]
        exact split

theorem filterMap_cutAbove_dropWhile (rest : List MemoryMap) (hi : Nat) :
    ((rest.dropWhile fun entry => entry.region.limit ≤ hi).map MemoryMap.region).filterMap
        (cutAbove hi) = (rest.map MemoryMap.region).filterMap (cutAbove hi) := by
  induction rest with
  | nil => rfl
  | cons entry rest ih =>
      by_cases covered : entry.region.limit ≤ hi
      · rw [List.dropWhile_cons_of_pos (by simpa using covered), ih, List.map_cons,
          List.filterMap_cons_none (cutAbove_of_le covered)]
      · rw [List.dropWhile_cons_of_neg (by simpa using covered)]

/-- The truncation of the entry behind the deleted ones. -/
theorem truncate_regions {rest : List MemoryMap} (split : table.entries = front ++ rest)
    (bounded : ∀ entry ∈ rest, entry.region.limit < 2 ^ 64)
    (valid : WellFormed (rest.map MemoryMap.region))
    (reaches : ∀ entry ∈ rest.head?, limit.toNat < entry.region.limit) :
    (if front.length < table.nrMap ∧ limit > (table.map front.length).baseAddr then
        table.set front.length (truncateFront (table.map front.length) limit)
      else table).regions =
      front.map MemoryMap.region ++
        (rest.map MemoryMap.region).filterMap (cutAbove limit.toNat) := by
  have length := E820Table.nrMap_eq split
  cases rest with
  | nil =>
      rw [List.length_nil] at length
      rw [if_neg (by omega), E820Table.regions, split]
      simp
  | cons entry rest =>
      have above : limit.toNat < entry.region.limit := reaches entry rfl
      rw [List.forall_mem_cons] at bounded
      rw [List.length_cons] at length
      rw [List.map_cons, filterMap_cutAbove_cons valid above, E820Table.map_of_split split]
      by_cases cut : limit > entry.baseAddr
      · have lower : entry.region.base ≤ limit.toNat := Nat.le_of_lt cut
        rw [if_pos ⟨by omega, cut⟩, E820Table.regions, E820Table.entries_set split,
          List.map_append, List.map_cons, truncateFront_region bounded.1 above.le,
          max_eq_right lower]
        rfl
      · have lower : limit.toNat ≤ entry.region.base := Nat.le_of_not_lt cut
        rw [if_neg fun both => cut both.2, E820Table.regions, split, List.map_append,
          List.map_cons, max_eq_left lower]

/-- The end of `protect_region` cuts off what the new region covers. -/
theorem protectRest_regions (split : table.entries = front ++ entry :: back)
    (bounded : ∀ other ∈ entry :: back, other.region.limit < 2 ^ 64)
    (valid : WellFormed ((entry :: back).map MemoryMap.region))
    (filled : newAddr.toNat < limit.toNat) :
    (protectRest newAddr limit table front.length).regions =
      front.map MemoryMap.region ++
        ((entry :: back).map MemoryMap.region).filterMap (cutAbove limit.toNat) := by
  have within := bounded entry List.mem_cons_self
  have reach : limit < entry.baseAddr + entry.length ↔
      limit.toNat < entry.region.limit := by
    rw [UInt64.lt_iff_toNat_lt, MemoryMap.toNat_limit within]
  rw [protectRest]
  simp only [E820Table.map_of_split split, reach]
  by_cases splits : newAddr ≥ entry.baseAddr ∧ limit.toNat < entry.region.limit
  · have lower : entry.region.base ≤ limit.toNat :=
      Nat.le_of_lt (Nat.lt_of_le_of_lt splits.1 filled)
    rw [if_pos splits, E820Table.regions, E820Table.entries_set split, List.map_append,
      List.map_cons, truncateFront_region within splits.2.le, List.map_cons,
      filterMap_cutAbove_cons valid splits.2, max_eq_right lower]
    rfl
  · have length := E820Table.nrMap_eq split
    have removed := removeCovered_entries limit split bounded
      (by omega : (entry :: back).length ≤ table.nrMap)
    rw [if_neg splits, ← filterMap_cutAbove_dropWhile]
    apply truncate_regions removed
    · intro other member
      exact bounded other ((List.dropWhile_suffix _).subset member)
    · refine ⟨?_, ?_⟩
      · intro region member
        obtain ⟨other, origin, rfl⟩ := List.mem_map.mp member
        exact valid.nonempty _
          (List.mem_map_of_mem ((List.dropWhile_suffix _).subset origin))
      · exact valid.ascending.sublist ((List.dropWhile_suffix _).sublist.map _)
    · intro other first
      have stopped := List.head?_dropWhile_not
        (fun entry : MemoryMap => decide (entry.region.limit ≤ limit.toNat)) (entry :: back)
      rw [first] at stopped
      simpa using stopped

/-- What the search loop leaves: everything in front of the new region lies below
its start, and the entry that reaches above the start follows it whole. -/
structure Placed (table reached : E820Table) (new : MemoryMap) (i : Nat)
    (passed left : List MemoryMap) (entry copy : MemoryMap) (back : List MemoryMap) :
    Prop where
  split : table.entries = passed ++ entry :: back
  below : ∀ other ∈ passed, other.region.limit ≤ new.baseAddr.toNat
  above : new.baseAddr.toNat < entry.region.limit
  cut : left.map MemoryMap.region = (cutBelow new.baseAddr.toNat entry.region).toList
  same : copy.region = entry.region
  index : i = (passed ++ left).length
  entries : reached.entries = passed ++ left ++ new :: copy :: back

theorem cutBelow_region (lower : entry.baseAddr < newAddr)
    (upper : newAddr.toNat < entry.region.limit) :
    cutBelow newAddr.toNat entry.region =
      some { entry with length := newAddr - entry.baseAddr }.region := by
  have lower : entry.region.base < newAddr.toNat := lower
  have length : (newAddr - entry.baseAddr).toNat = newAddr.toNat - entry.region.base :=
    UInt64.toNat_sub_of_le _ _ (by rw [UInt64.le_iff_toNat_le]; exact lower.le)
  have sum : entry.region.base + (newAddr - entry.baseAddr).toNat = newAddr.toNat := by
    rw [length]
    exact Nat.add_sub_of_le lower.le
  rw [cutBelow, if_pos lower, min_eq_right upper.le, ← sum]
  rfl

/-- A successful insertion behind `front`. -/
theorem insertAfterRegion_true {reached : E820Table} {pos : Nat} {addr size : UInt64}
    {type : UInt32} (split : table.entries = front ++ back) (later : front ≠ [] ∨ back = [])
    (place : unsignedPred front.length = pos)
    (run : insertAfterRegion table pos addr size type = (true, reached)) :
    reached.entries = front ++ ⟨20, addr, size, type⟩ :: back := by
  subst place
  by_cases room : table.nrMap + 1 ≤ maxE820Entries
  · obtain ⟨inserted, eq, entries⟩ :=
      insertAfterRegion_entries split room later addr size type
    rw [run] at eq
    cases eq
    exact entries
  · rw [insertAfterRegion_full room] at run
    cases run

/-- A successful insertion tells that the table is small. -/
theorem insertAfterRegion_room {pos : Nat} {reached : E820Table} {addr size : UInt64}
    {type : UInt32} (run : insertAfterRegion table pos addr size type = (true, reached)) :
    table.nrMap + 1 ≤ maxE820Entries := by
  by_contra full
  rw [insertAfterRegion_full full] at run
  cases run

/-- An insertion in front of an entry that starts at or above the new region. -/
theorem placed_before (split : table.entries = front ++ entry :: back)
    (nonempty : entry.region.base < entry.region.limit)
    (below : ∀ other ∈ front, other.region.limit ≤ newAddr.toNat)
    (later : front ≠ []) (start : newAddr.toNat ≤ entry.region.base)
    {reached : E820Table}
    (run : insertAfterRegion table (unsignedPred front.length) newAddr newSize newType =
      (true, reached)) :
    Placed table reached ⟨20, newAddr, newSize, newType⟩ front.length front [] entry entry
      back where
  split := split
  below := below
  above := start.trans_lt nonempty
  cut := by
    rw [cutBelow_of_ge start]
    rfl
  same := rfl
  index := by simp
  entries := by simpa using insertAfterRegion_true split (.inl later) rfl run

/-- The insertion into the middle of an entry. -/
theorem placed_inside (split : table.entries = front ++ entry :: back)
    (below : ∀ other ∈ front, other.region.limit ≤ newAddr.toNat)
    (lower : entry.baseAddr < newAddr) (upper : newAddr.toNat < entry.region.limit)
    {middle reached : E820Table}
    (first : insertAfterRegion table front.length newAddr newSize newType = (true, middle))
    (second : insertAfterRegion (middle.set front.length
        { middle.map front.length with
          length := newAddr - (middle.map front.length).baseAddr })
      (front.length + 1) entry.baseAddr entry.length entry.type = (true, reached)) :
    Placed table reached ⟨20, newAddr, newSize, newType⟩ (front.length + 1) front
      [{ entry with length := newAddr - entry.baseAddr }] entry
      ⟨20, entry.baseAddr, entry.length, entry.type⟩ back where
  split := split
  below := below
  above := upper
  cut := by
    rw [cutBelow_region lower upper]
    rfl
  same := rfl
  index := by simp
  entries := by
    have limit : maxE820Entries = 256 := rfl
    have room := insertAfterRegion_room first
    have length := E820Table.nrMap_eq split
    have moved : table.entries = (front ++ [entry]) ++ back := by simpa using split
    have one : unsignedPred (front ++ [entry]).length = front.length := by
      rw [List.length_append]
      exact unsignedPred_succ (by omega)
    have inserted := insertAfterRegion_true moved (.inl (by simp)) one first
    rw [List.append_assoc, List.singleton_append] at inserted
    rw [E820Table.map_of_split inserted] at second
    have shortened := E820Table.entries_set inserted
      { entry with length := newAddr - entry.baseAddr }
    have ahead : front ++ { entry with length := newAddr - entry.baseAddr } ::
        ⟨20, newAddr, newSize, newType⟩ :: back =
        front ++ [{ entry with length := newAddr - entry.baseAddr },
          ⟨20, newAddr, newSize, newType⟩] ++ back := by simp
    rw [ahead] at shortened
    have two : unsignedPred (front ++ [{ entry with length := newAddr - entry.baseAddr },
        ⟨20, newAddr, newSize, newType⟩]).length = front.length + 1 := by
      rw [List.length_append, List.length_cons, List.length_singleton, ← Nat.add_assoc]
      exact unsignedPred_succ (by omega)
    rw [insertAfterRegion_true shortened (.inl (by simp)) two second]
    simp

/-- The search loop either runs to the end of the table or places the region. -/
theorem protectSearch_placed {rest : List MemoryMap} (split : table.entries = front ++ rest)
    (valid : table.Valid) (below : ∀ other ∈ front, other.region.limit ≤ newAddr.toNat)
    (lowest : ∀ first ∈ table.entries.head?, first.region.base < newAddr.toNat)
    {i : Nat} {reached : E820Table}
    (run : protectSearch newAddr newSize newType table rest.length front.length =
      (true, i, reached)) :
    (i = table.nrMap ∧ reached = table ∧
        ∀ other ∈ table.entries, other.region.limit ≤ newAddr.toNat) ∨
      ∃ passed left entry copy back,
        Placed table reached ⟨20, newAddr, newSize, newType⟩ i passed left entry copy back := by
  induction rest generalizing front with
  | nil =>
      have length := E820Table.nrMap_eq split
      cases run
      rw [split, List.append_nil]
      exact .inl ⟨by simpa using length.symm, rfl, below⟩
  | cons entry rest ih =>
      have member : entry.region ∈ table.regions := by
        rw [E820Table.regions, split]
        simp
      have nonempty := valid.wellFormed.nonempty _ member
      have bounded := valid.bounded _ member
      have whole := MemoryMap.toNat_limit bounded
      have later (start : newAddr.toNat ≤ entry.region.base) : front ≠ [] := by
        rintro rfl
        rw [split] at lowest
        exact absurd (lowest entry rfl) start.not_gt
      simp only [List.length_cons, protectSearch, E820Table.map_of_split split] at run
      by_cases equal : newAddr = entry.baseAddr
      · have start : newAddr.toNat ≤ entry.region.base := by
          rw [equal]
          exact le_rfl
        rw [if_pos equal] at run
        obtain ⟨inserted, rfl, rfl⟩ := by simpa only [Prod.mk.injEq] using run
        exact .inr ⟨_, _, _, _, _, placed_before split nonempty below (later start) start
          (Prod.ext inserted rfl)⟩
      · rw [if_neg equal] at run
        by_cases inside : newAddr > entry.baseAddr ∧ newAddr < entry.baseAddr + entry.length
        · rw [if_pos inside] at run
          have upper : newAddr.toNat < entry.region.limit := by
            rw [← whole]
            exact inside.2
          cases first : insertAfterRegion table front.length newAddr newSize newType with
          | mk inserted middle =>
              rw [first] at run
              cases inserted with
              | false => simp at run
              | true =>
                  simp only [if_true] at run
                  obtain ⟨second, rfl, rfl⟩ := by simpa only [Prod.mk.injEq] using run
                  exact .inr ⟨_, _, _, _, _, placed_inside split below inside.1 upper first
                    (Prod.ext second rfl)⟩
        · rw [if_neg inside] at run
          by_cases gap : entry.baseAddr > newAddr
          · have start : newAddr.toNat ≤ entry.region.base := Nat.le_of_lt gap
            rw [if_pos gap] at run
            obtain ⟨inserted, rfl, rfl⟩ := by simpa only [Prod.mk.injEq] using run
            exact .inr ⟨_, _, _, _, _, placed_before split nonempty below (later start) start
              (Prod.ext inserted rfl)⟩
          · rw [if_neg gap] at run
            have passed : entry.region.limit ≤ newAddr.toNat := by
              have distinct : newAddr.toNat ≠ entry.baseAddr.toNat := fun same =>
                equal (UInt64.toNat_inj.mp same)
              have notBelow : entry.baseAddr.toNat ≤ newAddr.toNat := Nat.le_of_not_lt gap
              rw [← whole]
              by_contra short
              exact inside ⟨by rw [gt_iff_lt, UInt64.lt_iff_toNat_lt]; omega,
                by rw [UInt64.lt_iff_toNat_lt]; omega⟩
            have next : table.entries = (front ++ [entry]) ++ rest := by simpa using split
            have below : ∀ other ∈ front ++ [entry], other.region.limit ≤ newAddr.toNat := by
              intro other member
              rcases List.mem_append.mp member with old | new
              · exact below other old
              · rw [List.mem_singleton.mp new]
                exact passed
            exact ih next below (by simpa using run)

/-- The regions in front of the new one, and the parts of the others above it. -/
theorem Placed.overwrite {reached : E820Table} {new : MemoryMap} {i : Nat}
    {passed left : List MemoryMap} {copy : MemoryMap}
    (placed : Placed table reached new i passed left entry copy back)
    (valid : table.Valid) :
    overwrite new.region table.regions =
      (passed ++ left).map MemoryMap.region ++ new.region ::
        ((copy :: back).map MemoryMap.region).filterMap (cutAbove new.region.limit) := by
  have whole : table.regions =
      passed.map MemoryMap.region ++ entry.region :: back.map MemoryMap.region := by
    rw [E820Table.regions, placed.split, List.map_append, List.map_cons]
  have wellFormed := valid.wellFormed
  rw [whole] at wellFormed
  obtain ⟨front, rest, -⟩ := WellFormed.append_iff.mp wellFormed
  obtain ⟨-, -, apart⟩ := WellFormed.cons_iff.mp rest
  have passedBelow : ∀ region ∈ passed.map MemoryMap.region,
      region.limit ≤ new.region.base := by
    intro region member
    obtain ⟨other, origin, rfl⟩ := List.mem_map.mp member
    exact placed.below other origin
  have backAbove : ∀ region ∈ back.map MemoryMap.region, new.region.base ≤ region.base :=
    fun region member => placed.above.le.trans (apart region member)
  have passedCut : (passed.map MemoryMap.region).filterMap (cutAbove new.region.limit) = [] :=
    filterMap_cutAbove_of_le fun region member =>
      (passedBelow region member).trans (Nat.le_add_right _ _)
  have entryCut : (entry.region :: back.map MemoryMap.region).filterMap
      (cutBelow new.region.base) = left.map MemoryMap.region := by
    have none := filterMap_cutBelow_of_ge backAbove
    rw [placed.cut]
    cases cut : cutBelow new.region.base entry.region with
    | none =>
        rw [List.filterMap_cons_none cut, none]
        exact (congrArg Option.toList cut).symm
    | some part =>
        rw [List.filterMap_cons_some cut, none]
        exact (congrArg Option.toList cut).symm
  rw [whole, RegionTable.overwrite, List.filterMap_append, List.filterMap_append,
    filterMap_cutBelow_of_le front passedBelow, passedCut, entryCut, List.map_append,
    List.map_cons, placed.same, List.nil_append]

/-- The regions from the placed one's successor on are a part of the old table. -/
theorem Placed.following {reached : E820Table} {new : MemoryMap} {i : Nat}
    {passed left : List MemoryMap} {copy : MemoryMap}
    (placed : Placed table reached new i passed left entry copy back) (valid : table.Valid) :
    WellFormed ((copy :: back).map MemoryMap.region) ∧
      ∀ other ∈ copy :: back, other.region.limit < 2 ^ 64 := by
  have whole : table.regions =
      passed.map MemoryMap.region ++ (copy :: back).map MemoryMap.region := by
    rw [E820Table.regions, placed.split, List.map_append, List.map_cons, List.map_cons,
      placed.same]
  have wellFormed := valid.wellFormed
  rw [whole] at wellFormed
  refine ⟨(WellFormed.append_iff.mp wellFormed).2.1, fun other member => ?_⟩
  apply valid.bounded
  rw [whole]
  exact List.mem_append_right _ (List.mem_map_of_mem member)

/-- The region at the end of the table. -/
theorem protectRegion_at_end (valid : table.Valid)
    (below : ∀ other ∈ table.entries, other.region.limit ≤ newAddr.toNat)
    {reached : E820Table}
    (run : insertAfterRegion table (unsignedPred table.nrMap) newAddr newSize newType =
      (true, reached)) :
    reached.regions =
      overwrite ⟨newAddr.toNat, newAddr.toNat + newSize.toNat, newType⟩ table.regions := by
  have split : table.entries = table.entries ++ [] := by simp
  have inserted := insertAfterRegion_true split (.inr rfl)
    (by rw [E820Table.length_entries]) run
  have regionsBelow : ∀ region ∈ table.regions, region.limit ≤ newAddr.toNat := by
    intro region member
    obtain ⟨other, origin, rfl⟩ := List.mem_map.mp member
    exact below other origin
  rw [RegionTable.overwrite, filterMap_cutBelow_of_le valid.wellFormed regionsBelow,
    filterMap_cutAbove_of_le fun region member =>
      (regionsBelow region member).trans (Nat.le_add_right _ _),
    E820Table.regions, inserted, List.map_append]
  rfl

/-- A region that wraps around is refused. -/
theorem protectRegion_fits (filled : newSize ≠ 0) {reached : E820Table}
    (run : protectRegion table newAddr newSize newType = (true, reached)) :
    newAddr.toNat + newSize.toNat < 2 ^ 64 := by
  by_contra wraps
  have size := newSize.toNat_lt
  have start := newAddr.toNat_lt
  have wrapped : newAddr + newSize < newAddr := by
    rw [UInt64.lt_iff_toNat_lt, UInt64.toNat_add]
    omega
  rw [protectRegion, if_neg filled, if_pos wrapped] at run
  cases run

/-- A successful `protect_region` that does not insert in front of the first
entry overwrites the range. -/
theorem protectRegion_regions (valid : table.Valid) (filled : newSize ≠ 0)
    (lowest : ∀ first ∈ table.firstBase, first < newAddr.toNat) {reached : E820Table}
    (run : protectRegion table newAddr newSize newType = (true, reached)) :
    reached.regions =
      overwrite ⟨newAddr.toNat, newAddr.toNat + newSize.toNat, newType⟩ table.regions := by
  have fits := protectRegion_fits filled run
  have lowest : ∀ first ∈ table.entries.head?, first.region.base < newAddr.toNat := by
    intro first head
    apply lowest
    rw [Option.mem_def] at head
    simp [E820Table.firstBase, E820Table.regions, head]
  have limit : (newAddr + newSize).toNat = newAddr.toNat + newSize.toNat := by
    rw [UInt64.toNat_add]
    exact Nat.mod_eq_of_lt fits
  have positive : 0 < newSize.toNat := Nat.pos_of_ne_zero fun zero =>
    filled (UInt64.toNat_inj.mp zero)
  have noWrap : ¬ newAddr + newSize < newAddr := by
    rw [UInt64.lt_iff_toNat_lt, limit]
    omega
  rw [protectRegion, if_neg filled, if_neg noWrap] at run
  have split : table.entries = [] ++ table.entries := rfl
  cases search : protectSearch newAddr newSize newType table table.nrMap 0 with
  | mk inserted rest =>
      obtain ⟨i, middle⟩ := rest
      rw [search] at run
      dsimp only at run
      cases inserted with
      | false => simp at run
      | true =>
          rw [if_pos rfl] at run
          rw [← E820Table.length_entries] at search
          rcases protectSearch_placed split valid (by simp) lowest search with
            ⟨rfl, rfl, below⟩ | ⟨passed, left, entry, copy, back, placed⟩
          · rw [if_pos rfl] at run
            exact protectRegion_at_end valid below run
          · have entries := placed.entries
            have length := E820Table.nrMap_eq entries
            have index := placed.index
            rw [List.length_cons, List.length_cons] at length
            rw [if_neg (by omega)] at run
            have ahead : middle.entries =
                (passed ++ left ++ [⟨20, newAddr, newSize, newType⟩]) ++ copy :: back := by
              rw [entries]
              simp
            have place : (passed ++ left ++
                [(⟨20, newAddr, newSize, newType⟩ : MemoryMap)]).length = i + 1 := by
              rw [List.length_append, ← index]
              rfl
            obtain ⟨following, bounded⟩ := placed.following valid
            have rest := protectRest_regions ahead bounded following
              (by omega : newAddr.toNat < (newAddr + newSize).toNat)
            cases run
            rw [place] at rest
            rw [rest, limit]
            have target := placed.overwrite valid
            simp only [MemoryMap.region] at target
            rw [target, List.map_append]
            simp [MemoryMap.region]

/-- The effect of a successful `protect_region` that does not insert in front of
the first entry. -/
theorem protectRegion_spec (valid : table.Valid)
    (lowest : newSize ≠ 0 → ∀ first ∈ table.firstBase, first < newAddr.toNat)
    {reached : E820Table}
    (run : protectRegion table newAddr newSize newType = (true, reached)) :
    reached.Valid ∧ ∀ a, reached.typeAt a =
      if newAddr.toNat ≤ a ∧ a < newAddr.toNat + newSize.toNat then some newType
      else table.typeAt a := by
  by_cases empty : newSize = 0
  · rw [protectRegion, if_pos empty] at run
    cases run
    have zero : newSize.toNat = 0 := by
      rw [empty]
      rfl
    refine ⟨valid, fun a => ?_⟩
    rw [if_neg (by omega)]
  · have regions := protectRegion_regions valid empty (lowest empty) run
    have fits := protectRegion_fits empty run
    have positive : 0 < newSize.toNat := Nat.pos_of_ne_zero fun zero =>
      empty (UInt64.toNat_inj.mp zero)
    have filled : newAddr.toNat < newAddr.toNat + newSize.toNat := by omega
    refine ⟨⟨?_, ?_⟩, fun a => ?_⟩
    · rw [regions]
      exact valid.wellFormed.overwrite filled
    · rw [regions]
      exact fun region member => overwrite_limit_lt valid.bounded fits member
    · rw [E820Table.typeAt, regions, lookup_overwrite _ filled]
      rfl

/-- The start of the table after a region has been added. -/
theorem protectRegion_firstBase (valid : table.Valid) (filled : newSize ≠ 0)
    (lowest : ∀ first ∈ table.firstBase, first < newAddr.toNat) {reached : E820Table}
    (run : protectRegion table newAddr newSize newType = (true, reached)) :
    reached.firstBase = table.firstBase.or (some newAddr.toNat) := by
  have regions := protectRegion_regions valid filled lowest run
  rw [E820Table.firstBase, regions, overwrite]
  rw [E820Table.firstBase] at lowest ⊢
  cases list : table.regions with
  | nil => rfl
  | cons first rest =>
      rw [list] at lowest
      have below : first.base < newAddr.toNat := lowest first.base rfl
      rw [List.filterMap_cons_some (by rw [cutBelow, if_pos below])]
      rfl

end Protect

section Reserve

variable {table : E820Table} {front rest : List MemoryMap} {entry : MemoryMap}
  {base length limit : UInt64}

/-- The range starts at or below the entry of RAM and ends inside it. -/
def CutsFront (base limit : UInt64) (entry : MemoryMap) : Prop :=
  entry.type = e820Ram ∧ base.toNat ≤ entry.region.base ∧
    entry.region.base < limit.toNat ∧ limit.toNat < entry.region.limit

theorem region_of_lengths {size : UInt32} {addr : UInt64} {type : UInt32} {lo hi : UInt64}
    (start : addr = lo) (order : lo.toNat ≤ hi.toNat) :
    MemoryMap.region ⟨size, addr, hi - lo, type⟩ = ⟨lo.toNat, hi.toNat, type⟩ := by
  have difference : (hi - lo).toNat = hi.toNat - lo.toNat :=
    UInt64.toNat_sub_of_le _ _ (by rw [UInt64.le_iff_toNat_le]; exact order)
  rw [MemoryMap.region, difference, start, Nat.add_sub_of_le order]

theorem region_of_rest {size : UInt32} {lo : UInt64} {type : UInt32}
    (bounded : entry.region.limit < 2 ^ 64) (order : lo.toNat ≤ entry.region.limit) :
    MemoryMap.region ⟨size, lo, entry.baseAddr + entry.length - lo, type⟩ =
      ⟨lo.toNat, entry.region.limit, type⟩ := by
  have whole := MemoryMap.toNat_limit bounded
  rw [region_of_lengths rfl (by rw [whole]; exact order), whole]

theorem recolour_cons (lo hi : Nat) (region : Region Nat UInt32)
    (regions : List (Region Nat UInt32)) :
    recolour lo hi e820Ram e820Reserved (region :: regions) =
      splitRegion lo hi e820Ram e820Reserved region ++
        recolour lo hi e820Ram e820Reserved regions :=
  List.flatMap_cons

/-- Entries behind the end of the range stay as they are. -/
theorem recolour_following (valid : WellFormed ((entry :: rest).map MemoryMap.region))
    {lo hi : Nat} (range : lo ≤ hi) (upper : hi ≤ entry.region.limit) :
    recolour lo hi e820Ram e820Reserved (rest.map MemoryMap.region) =
      rest.map MemoryMap.region := by
  obtain ⟨-, restValid, apart⟩ := WellFormed.cons_iff.mp valid
  exact recolour_of_ge restValid.nonempty range
    fun region member => upper.trans (apart region member)

/-- A range that starts at or below an entry and ends inside it. -/
theorem reserve_front (split : table.entries = front ++ entry :: rest) (later : front ≠ [])
    (bounded : entry.region.limit < 2 ^ 64)
    (valid : WellFormed ((entry :: rest).map MemoryMap.region))
    (cuts : CutsFront base limit entry) {middle : E820Table}
    (run : insertAfterRegion table (unsignedPred front.length) entry.baseAddr
      (limit - entry.baseAddr) e820Reserved = (true, middle)) :
    (middle.set (front.length + 1)
      { middle.map (front.length + 1) with
        baseAddr := limit
        length := entry.baseAddr + entry.length - limit }).regions =
      front.map MemoryMap.region ++ recolour base.toNat limit.toNat e820Ram e820Reserved
        ((entry :: rest).map MemoryMap.region) := by
  obtain ⟨ram, lower, inside, upper⟩ := cuts
  have inserted := insertAfterRegion_true split (.inl later) rfl run
  have ahead : middle.entries = (front ++
      [⟨20, entry.baseAddr, limit - entry.baseAddr, e820Reserved⟩]) ++ entry :: rest := by
    rw [inserted]
    simp
  have place : (front ++ [(⟨20, entry.baseAddr, limit - entry.baseAddr, e820Reserved⟩ :
      MemoryMap)]).length = front.length + 1 := by simp
  have found := E820Table.map_of_split ahead
  have changed := E820Table.entries_set ahead
    { entry with baseAddr := limit, length := entry.baseAddr + entry.length - limit }
  rw [place] at found changed
  rw [found, E820Table.regions, changed, List.map_append, List.map_append, List.map_cons,
    List.map_cons, List.map_cons, region_of_lengths rfl inside.le,
    region_of_rest bounded upper.le, recolour_cons,
    recolour_following valid (lower.trans inside.le) upper.le,
    splitRegion_of_front ram lower inside upper]
  simp [MemoryMap.region]

/-- The shortened entry and the reserved one behind it. -/
theorem reserve_back_entries (split : table.entries = front ++ entry :: rest)
    {size : UInt64} {middle : E820Table}
    (run : insertAfterRegion
        (table.set front.length { entry with length := base - entry.baseAddr })
        front.length base size e820Reserved = (true, middle)) :
    middle.entries = front ++ [{ entry with length := base - entry.baseAddr },
      ⟨20, base, size, e820Reserved⟩] ++ rest := by
  have limit : maxE820Entries = 256 := rfl
  have room := insertAfterRegion_room run
  have length := E820Table.nrMap_eq split
  have shortened := E820Table.entries_set split
    { entry with length := base - entry.baseAddr }
  have ahead : (table.set front.length
      { entry with length := base - entry.baseAddr }).entries =
        (front ++ [{ entry with length := base - entry.baseAddr }]) ++ rest := by
    rw [shortened]
    simp
  have place : unsignedPred (front ++
      [{ entry with length := base - entry.baseAddr }]).length = front.length := by
    have small : table.nrMap + 1 ≤ maxE820Entries := room
    rw [List.length_append]
    exact unsignedPred_succ (by omega)
  rw [insertAfterRegion_true ahead (.inl (by simp)) place run]
  simp

theorem region_of_shortened (order : entry.region.base ≤ base.toNat) :
    MemoryMap.region { entry with length := base - entry.baseAddr } =
      { entry.region with limit := base.toNat } :=
  region_of_lengths rfl order

/-- A range inside an entry. -/
theorem reserve_middle (split : table.entries = front ++ entry :: rest)
    (bounded : entry.region.limit < 2 ^ 64)
    (valid : WellFormed ((entry :: rest).map MemoryMap.region))
    (span : base.toNat + length.toNat = limit.toNat) (ram : entry.type = e820Ram)
    (lower : entry.region.base < base.toNat) (range : base.toNat < limit.toNat)
    (upper : limit.toNat < entry.region.limit) {middle reached : E820Table}
    (first : insertAfterRegion
        (table.set front.length { entry with length := base - entry.baseAddr })
        front.length base length e820Reserved = (true, middle))
    (second : insertAfterRegion middle (front.length + 1) limit
        (entry.baseAddr + entry.length - limit) (middle.map front.length).type =
      (true, reached)) :
    reached.regions = front.map MemoryMap.region ++
      recolour base.toNat limit.toNat e820Ram e820Reserved
        ((entry :: rest).map MemoryMap.region) := by
  have small : maxE820Entries = 256 := rfl
  have room := insertAfterRegion_room second
  have inserted := reserve_back_entries split first
  have count := E820Table.nrMap_eq inserted
  have found : middle.map front.length = { entry with length := base - entry.baseAddr } := by
    apply E820Table.map_of_split
    rw [inserted, List.append_assoc]
    rfl
  have place : unsignedPred (front ++ [{ entry with length := base - entry.baseAddr },
      ⟨20, base, length, e820Reserved⟩]).length = front.length + 1 := by
    rw [List.length_append, List.length_cons, List.length_singleton] at count ⊢
    rw [← Nat.add_assoc]
    exact unsignedPred_succ (by omega)
  have last := insertAfterRegion_true inserted (.inl (by simp)) place second
  have reserved : MemoryMap.region ⟨20, base, length, e820Reserved⟩ =
      ⟨base.toNat, limit.toNat, e820Reserved⟩ := by
    rw [MemoryMap.region, span]
  rw [E820Table.regions, last, found, List.map_append, List.map_append, List.map_cons,
    List.map_cons, List.map_cons, List.map_cons, region_of_shortened lower.le, reserved,
    region_of_rest bounded upper.le, recolour_cons,
    recolour_following valid range.le upper.le, splitRegion_of_middle ram lower range upper]
  simp [MemoryMap.region]

/-- A round of the loop at an entry: how the range lies to the entry, and how the loop goes on. -/
inductive ReserveRound (base length limit : UInt64) (count i : Nat) (entry : MemoryMap)
    (table : E820Table) (outcome : Bool × E820Table) : Prop
  | skipped
      (apart : ¬ (entry.type = e820Ram ∧ entry.baseAddr < limit ∧
        base < entry.baseAddr + entry.length))
      (onward : outcome = reserveRamLoop base length limit count (i + 1) table)
  | covered (ram : entry.type = e820Ram) (inside : entry.baseAddr < limit)
      (reaches : base < entry.baseAddr + entry.length) (lower : base ≤ entry.baseAddr)
      (upper : entry.baseAddr + entry.length ≤ limit)
      (onward : outcome = reserveRamLoop base length limit count (i + 1)
        (table.set i { entry with type := e820Reserved }))
  | cutFront (ram : entry.type = e820Ram) (inside : entry.baseAddr < limit)
      (reaches : base < entry.baseAddr + entry.length) (lower : base ≤ entry.baseAddr)
      (upper : limit < entry.baseAddr + entry.length)
      (onward : outcome =
        let (inserted, middle) := insertAfterRegion table (unsignedPred i) entry.baseAddr
          (limit - entry.baseAddr) e820Reserved
        if inserted then
          (true, middle.set (i + 1)
            { middle.map (i + 1) with
              baseAddr := limit, length := entry.baseAddr + entry.length - limit })
        else (false, middle))
  | cutBack (ram : entry.type = e820Ram) (inside : entry.baseAddr < limit)
      (reaches : base < entry.baseAddr + entry.length) (inner : entry.baseAddr < base)
      (upper : entry.baseAddr + entry.length ≤ limit)
      (onward : outcome =
        let (inserted, middle) := insertAfterRegion
          (table.set i { entry with length := base - entry.baseAddr }) i base
          (entry.baseAddr + entry.length - base) e820Reserved
        if inserted then reserveRamLoop base length limit count (i + 2) middle
        else (false, middle))
  | cutMiddle (ram : entry.type = e820Ram) (inside : entry.baseAddr < limit)
      (reaches : base < entry.baseAddr + entry.length) (inner : entry.baseAddr < base)
      (upper : limit < entry.baseAddr + entry.length)
      (onward : outcome =
        let (inserted, middle) := insertAfterRegion
          (table.set i { entry with length := base - entry.baseAddr }) i base length e820Reserved
        if inserted then
          insertAfterRegion middle (i + 1) limit (entry.baseAddr + entry.length - limit)
            (middle.map i).type
        else (false, middle))

theorem reserveRamLoop_round (base length limit : UInt64) (count i : Nat) (table : E820Table) :
    ReserveRound base length limit count i (table.map i) table
      (reserveRamLoop base length limit (count + 1) i table) := by
  rw [reserveRamLoop]
  generalize table.map i = entry
  by_cases ram : entry.type = e820Ram
  swap
  · rw [if_pos ram]
    exact .skipped (fun all => ram all.1) rfl
  rw [if_neg (not_not.mpr ram)]
  by_cases above : limit ≤ entry.baseAddr
  · rw [if_pos above]
    exact .skipped (fun all => UInt64.not_le.mpr all.2.1 above) rfl
  rw [if_neg above]
  by_cases below : base ≥ entry.baseAddr + entry.length
  · rw [if_pos below]
    exact .skipped (fun all => UInt64.not_le.mpr all.2.2 below) rfl
  rw [if_neg below]
  have inside : entry.baseAddr < limit := UInt64.not_le.mp above
  have reaches : base < entry.baseAddr + entry.length := UInt64.not_le.mp below
  by_cases inner : entry.baseAddr < base
  · have uncovered : ¬ base ≤ entry.baseAddr := UInt64.not_le.mpr inner
    rw [if_neg fun both => uncovered both.1, if_neg fun all => uncovered all.1]
    by_cases past : limit < entry.baseAddr + entry.length
    · rw [if_neg fun all => UInt64.not_le.mpr past all.2.2, if_pos ⟨inner, past⟩]
      exact .cutMiddle ram inside reaches inner past rfl
    · rw [if_pos ⟨inner, reaches, UInt64.not_lt.mp past⟩]
      exact .cutBack ram inside reaches inner (UInt64.not_lt.mp past) rfl
  · have lower : base ≤ entry.baseAddr := UInt64.not_lt.mp inner
    by_cases past : limit < entry.baseAddr + entry.length
    · rw [if_neg fun both => UInt64.not_le.mpr past both.2, if_pos ⟨lower, inside, past⟩]
      exact .cutFront ram inside reaches lower past rfl
    · rw [if_pos ⟨lower, UInt64.not_lt.mp past⟩]
      exact .covered ram inside reaches lower (UInt64.not_lt.mp past) rfl

/-- A successful run of the loop from an entry on recolours the entries to come. -/
theorem reserveRamLoop_regions (split : table.entries = front ++ rest)
    (valid : WellFormed (rest.map MemoryMap.region))
    (bounded : ∀ other ∈ rest, other.region.limit < 2 ^ 64)
    (range : base.toNat < limit.toNat)
    (span : base.toNat + length.toNat = limit.toNat)
    (safe : front ≠ [] ∨ ∀ first ∈ rest.head?, ¬ CutsFront base limit first)
    {reached : E820Table}
    (run : reserveRamLoop base length limit rest.length front.length table =
      (true, reached)) :
    reached.regions = front.map MemoryMap.region ++
      recolour base.toNat limit.toNat e820Ram e820Reserved (rest.map MemoryMap.region) := by
  induction rest generalizing front table with
  | nil =>
      cases run
      rw [E820Table.regions, split, List.map_append]
      rfl
  | cons entry rest ih =>
      obtain ⟨nonempty, restValid, -⟩ := WellFormed.cons_iff.mp valid
      rw [List.forall_mem_cons] at bounded
      have whole := MemoryMap.toNat_limit bounded.1
      have next (new : MemoryMap) {middle : E820Table}
          (ahead : middle.entries = front ++ new :: rest)
          (same : splitRegion base.toNat limit.toNat e820Ram e820Reserved entry.region =
            [new.region])
          (more : reserveRamLoop base length limit rest.length (front.length + 1) middle =
            (true, reached)) :
          reached.regions = front.map MemoryMap.region ++
            recolour base.toNat limit.toNat e820Ram e820Reserved
              ((entry :: rest).map MemoryMap.region) := by
        have moved : middle.entries = (front ++ [new]) ++ rest := by simpa using ahead
        have later : front ++ [new] ≠ [] := by simp
        rw [ih moved restValid bounded.2 (.inl later) (by simpa using more), List.map_cons,
          recolour_cons, same]
        simp
      have round := reserveRamLoop_round base length limit rest.length front.length table
      rw [E820Table.map_of_split split] at round
      rw [List.length_cons] at run
      cases round with
      | skipped apart onward =>
          refine next entry split ?_ (onward ▸ run)
          by_cases ram : entry.type = e820Ram
          swap
          · exact splitRegion_of_ne ram
          by_cases inside : entry.baseAddr < limit
          · have below : ¬ base < entry.baseAddr + entry.length :=
              fun reaches => apart ⟨ram, inside, reaches⟩
            rw [UInt64.lt_iff_toNat_lt, whole] at below
            exact splitRegion_of_le nonempty range.le (Nat.le_of_not_lt below)
          · exact splitRegion_of_ge nonempty range.le (UInt64.not_lt.mp inside)
      | covered ram inside reaches lower upper onward =>
          rw [UInt64.le_iff_toNat_le, whole] at upper
          exact next { entry with type := e820Reserved } (E820Table.entries_set split _)
            (splitRegion_of_covered nonempty ram lower upper) (onward ▸ run)
      | cutFront ram inside reaches lower upper onward =>
          rw [UInt64.lt_iff_toNat_lt, whole] at upper
          have cuts : CutsFront base limit entry := ⟨ram, lower, inside, upper⟩
          have later : front ≠ [] := safe.resolve_right fun none => none entry rfl cuts
          rw [run] at onward
          cases inserted : insertAfterRegion table (unsignedPred front.length) entry.baseAddr
              (limit - entry.baseAddr) e820Reserved with
          | mk done middle =>
              rw [inserted] at onward
              cases done with
              | false => cases onward
              | true =>
                  cases onward
                  exact reserve_front split later bounded.1 valid cuts inserted
      | cutBack ram inside reaches inner upper onward =>
          rw [UInt64.lt_iff_toNat_lt, whole] at reaches
          rw [UInt64.le_iff_toNat_le, whole] at upper
          have inner : entry.region.base < base.toNat := inner
          rw [run] at onward
          cases inserted : insertAfterRegion
              (table.set front.length { entry with length := base - entry.baseAddr })
              front.length base (entry.baseAddr + entry.length - base) e820Reserved with
          | mk done middle =>
              rw [inserted] at onward
              cases done with
              | false => cases onward
              | true =>
                  have moved := reserve_back_entries split inserted
                  rw [ih moved restValid bounded.2 (.inl (by simp)) (by simpa using onward.symm),
                    List.map_cons, recolour_cons, splitRegion_of_back ram inner reaches upper,
                    List.map_append, List.map_cons, List.map_cons,
                    region_of_shortened inner.le, region_of_rest bounded.1 reaches.le]
                  simp
      | cutMiddle ram inside reaches inner upper onward =>
          rw [UInt64.lt_iff_toNat_lt, whole] at upper
          rw [run] at onward
          cases inserted : insertAfterRegion
              (table.set front.length { entry with length := base - entry.baseAddr })
              front.length base length e820Reserved with
          | mk done middle =>
              rw [inserted] at onward
              cases done with
              | false => cases onward
              | true =>
                  exact reserve_middle split bounded.1 valid span ram inner range upper inserted
                    onward.symm

/-- A successful `e820_reserve_ram` that does not cut the front off the first
entry reserves the RAM of the range. -/
theorem e820ReserveRam_regions (valid : table.Valid) (filled : length ≠ 0)
    (fits : base.toNat + length.toNat < 2 ^ 64)
    (safe : ∀ first ∈ table.entries.head?, ¬ CutsFront base (base + length) first)
    {reached : E820Table} (run : e820ReserveRam table base length = (true, reached)) :
    reached.regions =
      recolour base.toNat (base.toNat + length.toNat) e820Ram e820Reserved table.regions := by
  have span : base.toNat + length.toNat = (base + length).toNat := by
    rw [UInt64.toNat_add]
    exact (Nat.mod_eq_of_lt fits).symm
  have positive : 0 < length.toNat := Nat.pos_of_ne_zero fun zero =>
    filled (UInt64.toNat_inj.mp zero)
  rw [e820ReserveRam, if_neg filled, ← E820Table.length_entries] at run
  have split : table.entries = [] ++ table.entries := rfl
  rw [span]
  refine reserveRamLoop_regions split valid.wellFormed ?_ (by omega) span (.inr safe) run
  intro other member
  exact valid.bounded _ (List.mem_map_of_mem member)

/-- The effect of a successful `e820_reserve_ram`. -/
theorem e820ReserveRam_spec (valid : table.Valid)
    (fits : base.toNat + length.toNat < 2 ^ 64)
    (safe : ∀ first ∈ table.entries.head?, ¬ CutsFront base (base + length) first)
    {reached : E820Table} (run : e820ReserveRam table base length = (true, reached)) :
    reached.Valid ∧ ∀ a, reached.typeAt a = (table.typeAt a).map fun type =>
      if type = e820Ram ∧ base.toNat ≤ a ∧ a < base.toNat + length.toNat then e820Reserved
      else type := by
  by_cases empty : length = 0
  · rw [e820ReserveRam, if_pos empty] at run
    cases run
    have zero : length.toNat = 0 := by
      rw [empty]
      rfl
    refine ⟨valid, fun a => ?_⟩
    have none (type : UInt32) : ¬ (type = e820Ram ∧ base.toNat ≤ a ∧
        a < base.toNat + length.toNat) := by omega
    simp only [none, if_false, Option.map_id']
  · have regions := e820ReserveRam_regions valid empty fits safe run
    have range : base.toNat ≤ base.toNat + length.toNat := Nat.le_add_right _ _
    refine ⟨⟨?_, ?_⟩, fun a => ?_⟩
    · rw [regions]
      exact valid.wellFormed.recolour range e820Ram e820Reserved
    · rw [regions]
      exact fun region member => recolour_limit_lt valid.bounded member
    · rw [E820Table.typeAt, regions, lookup_recolour]
      rfl

end Reserve

section Tightens

variable {table middle reached : E820Table}

/-- The first region of the table is what is left of the front of a region. -/
def E820Table.Starts (table : E820Table) (origin : Region Nat UInt32) : Prop :=
  ∃ first ∈ table.regions.head?, first.base = origin.base ∧ first.limit ≤ origin.limit ∧
    (first.kind = e820Ram → origin.kind = e820Ram)

/-- Addresses of a table have become reserved, and nothing else has changed. -/
structure Tightens (table reached : E820Table) : Prop where
  valid : reached.Valid
  types : ∀ a, reached.typeAt a = table.typeAt a ∨ reached.typeAt a = some e820Reserved
  starts : ∀ origin, table.Starts origin → reached.Starts origin

namespace Tightens

theorem refl (valid : table.Valid) : Tightens table table :=
  ⟨valid, fun _ => .inl rfl, fun _ => id⟩

theorem trans (first : Tightens table middle) (second : Tightens middle reached) :
    Tightens table reached where
  valid := second.valid
  types a := by
    rcases second.types a with same | reserved
    · rw [same]
      exact first.types a
    · exact .inr reserved
  starts origin start := second.starts origin (first.starts origin start)

/-- A type other than RESERVED was there before. -/
theorem typeAt_of_ne (tightens : Tightens table reached) {a : Nat} {type : UInt32}
    (found : reached.typeAt a = some type) (other : type ≠ e820Reserved) :
    table.typeAt a = some type := by
  rcases tightens.types a with same | reserved
  · rw [← same]
    exact found
  · rw [found] at reserved
    exact absurd (Option.some.inj reserved) other

theorem reserved (tightens : Tightens table reached) {a : Nat}
    (found : table.typeAt a = some e820Reserved) : reached.typeAt a = some e820Reserved := by
  rcases tightens.types a with same | reserved
  · rw [same]
    exact found
  · exact reserved

end Tightens

/-- What lies behind the start of the table lies behind its first entry. -/
theorem E820Table.Starts.lowest {origin : Region Nat UInt32} (start : table.Starts origin)
    {a : Nat} (behind : origin.base < a) : ∀ first ∈ table.firstBase, first < a := by
  obtain ⟨region, head, base, -, -⟩ := start
  intro first member
  rw [E820Table.firstBase, Option.mem_def.mp head] at member
  cases member
  rw [base]
  exact behind

/-- Protecting a region behind the start of the table. -/
theorem protectRegion_tightens {addr size : UInt64} {origin : Region Nat UInt32}
    (valid : table.Valid) (start : table.Starts origin)
    (behind : size ≠ 0 → origin.base < addr.toNat)
    (run : protectRegion table addr size e820Reserved = (true, reached)) :
    Tightens table reached ∧ ∀ a, addr.toNat ≤ a → a < addr.toNat + size.toNat →
      reached.typeAt a = some e820Reserved := by
  have lowest : size ≠ 0 → ∀ low ∈ table.firstBase, low < addr.toNat :=
    fun filled => start.lowest (behind filled)
  obtain ⟨reachedValid, types⟩ := protectRegion_spec valid lowest run
  refine ⟨⟨reachedValid, fun a => ?_, fun other old => ?_⟩, fun a lower upper => ?_⟩
  · rw [types]
    by_cases inside : addr.toNat ≤ a ∧ a < addr.toNat + size.toNat
    · rw [if_pos inside]
      exact .inr rfl
    · rw [if_neg inside]
      exact .inl rfl
  · by_cases empty : size = 0
    · rw [protectRegion, if_pos empty] at run
      cases run
      exact old
    · obtain ⟨region, listed, same, limit, kind⟩ := old
      have regions := protectRegion_regions valid empty (lowest empty) run
      have below : region.base < addr.toNat := by
        apply lowest empty
        rw [E820Table.firstBase, Option.mem_def.mp listed]
        rfl
      cases list : table.regions with
      | nil =>
          rw [list] at listed
          cases listed
      | cons front rest =>
          rw [list] at listed
          cases listed
          refine ⟨{ region with limit := min region.limit addr.toNat }, ?_, same,
            (min_le_left _ _).trans limit, kind⟩
          rw [regions, overwrite, list,
            List.filterMap_cons_some (by rw [cutBelow, if_pos below])]
          rfl
  · rw [types, if_pos ⟨lower, upper⟩]

/-- Reserving the RAM of a range that does not cut the front off the first entry. -/
theorem e820ReserveRam_tightens {base length : UInt64} (valid : table.Valid)
    (fits : base.toNat + length.toNat < 2 ^ 64)
    (safe : ∀ first ∈ table.entries.head?, ¬ CutsFront base (base + length) first)
    (run : e820ReserveRam table base length = (true, reached)) : Tightens table reached := by
  obtain ⟨reachedValid, types⟩ := e820ReserveRam_spec valid fits safe run
  refine ⟨reachedValid, fun a => ?_, fun origin start => ?_⟩
  · rw [types]
    cases table.typeAt a with
    | none => exact .inl rfl
    | some type =>
        by_cases changed : type = e820Ram ∧ base.toNat ≤ a ∧ a < base.toNat + length.toNat
        · rw [Option.map_some, if_pos changed]
          exact .inr rfl
        · rw [Option.map_some, if_neg changed]
          exact .inl rfl
  · by_cases empty : length = 0
    · rw [e820ReserveRam, if_pos empty] at run
      cases run
      exact start
    · obtain ⟨region, listed, same, limit, kind⟩ := start
      obtain ⟨part, head, partBase, partLimit, kinds⟩ :=
        @recolour_first _ _ _ _ table.regions base.toNat (base.toNat + length.toNat) e820Ram
          e820Reserved valid.wellFormed.nonempty region listed
      rw [E820Table.Starts, e820ReserveRam_regions valid empty fits safe run]
      refine ⟨part, head, partBase.trans same, partLimit.trans limit, fun ram => ?_⟩
      rcases kinds with changed | ⟨old, -⟩
      · rw [changed] at ram
        exact absurd ram (by decide)
      · exact kind (old.symm.trans ram)

end Tightens

/-- A table in an area of zeros. -/
def E820Table.ofEntries (entries : List MemoryMap) : E820Table :=
  ⟨fun i => entries.getD i ⟨0, 0, 0, 0⟩, entries.length⟩

theorem exists_reached {α : Type} {result : α × E820Table} {value : α}
    (returns : result.1 = value) : ∃ reached, result = (value, reached) :=
  ⟨result.2, Prod.ext returns rfl⟩

end Sable
