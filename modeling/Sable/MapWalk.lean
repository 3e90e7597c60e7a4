import Sable.FirmwareMap

/-!
# The walk over the raw memory map

The loop of `copy_e820_map` walks over the raw map: behind each entry it finds the
next one by the size field.  The walk may come back to where it was, and its last
entry may reach over the end of the map.  This file says for which maps the loop
ends and reads nothing but the map.  A run is first followed through the tables it
makes; as long as no entry goes in front of the first one, the entries themselves
tell where it stops.
-/

namespace Sable

open ByteMemory BigEndian HaltingProgram RegionTable

variable (mem : Mem) (memmap memmapLength : UInt32)

/-- The offsets of the entries that the loop of `copy_e820_map` reads within a number of
rounds. -/
def offsetsRead : Nat → UInt32 → E820Table → List UInt32
  | 0, _, _ => []
  | fuel + 1, entryOffset, table =>
      if entryOffset < memmapLength ∧ table.nrMap < maxE820Entries then
        let entry := rawEntry mem (memmap + entryOffset)
        let (done, table) := protectRegion table entry.baseAddr entry.length entry.type
        if done then entryOffset :: offsetsRead fuel (entryOffset + (entry.size + 4)) table
        else [entryOffset]
      else []

/-- The offset of the entry after `k` others. -/
def walkOffset : Nat → UInt32
  | 0 => 0
  | k + 1 => walkOffset k + ((rawEntry mem (memmap + walkOffset k)).size + 4)

def walkEntry (k : Nat) : MemoryMap :=
  rawEntry mem (memmap + walkOffset mem memmap k)

/-- The first entries of the walk. -/
def walkEntries (n : Nat) : List MemoryMap :=
  (List.range n).map (walkEntry mem memmap)

/-- Protect the regions of the entries one after the other. -/
def protectAll : E820Table → List MemoryMap → Option E820Table
  | table, [] => some table
  | table, entry :: rest =>
      let (done, table) := protectRegion table entry.baseAddr entry.length entry.type
      if done then protectAll table rest else none

/-- An entry that belongs to the map as a whole. -/
def EntryInside (offset : UInt32) : Prop :=
  offset.toNat + 24 ≤ memmapLength.toNat

/-- The first entries of the walk take it out of the map, are refused or fill the table. -/
def RunStops (table : E820Table) (n : Nat) : Prop :=
  memmapLength ≤ walkOffset mem memmap n ∨
    ∀ reached, protectAll table (walkEntries mem memmap n) = some reached →
      maxE820Entries ≤ reached.nrMap

/-- The loop of `copy_e820_map` ends, and it reads entries inside the map only. -/
def CopiesSafely (table : E820Table) : Prop :=
  (∃ fuel value reached, copyEntries mem memmap memmapLength fuel 0 table =
      .ok value reached) ∧
    ∀ fuel, ∀ offset ∈ offsetsRead mem memmap memmapLength fuel 0 table,
      EntryInside memmapLength offset

/-- An entry that wraps around the end of the addresses. -/
def Wraps (entry : MemoryMap) : Prop :=
  entry.length ≠ 0 ∧ 2 ^ 64 ≤ entry.baseAddr.toNat + entry.length.toNat

/-- The walk stops behind its first entries: it has left the map, one of them wraps around,
or, the first of them being the lowest, their pieces fill the table or leave no room for the
next one. -/
def WalkStops (n : Nat) : Prop :=
  memmapLength ≤ walkOffset mem memmap n ∨
    (FirstLowest (walkEntries mem memmap n) ∧
      maxE820Entries ≤ pieces [] (layers (walkEntries mem memmap n))) ∨
    ∃ k < n, Wraps (walkEntry mem memmap k) ∨
      FirstLowest (walkEntries mem memmap k) ∧ (walkEntry mem memmap k).length ≠ 0 ∧
        maxE820Entries < slots (walkEntries mem memmap k) (walkEntry mem memmap k)

/-- The walk stops, and all entries before that lie inside the map. -/
def SafeWalk : Prop :=
  ∃ n, WalkStops mem memmap memmapLength n ∧
    ∀ k < n, EntryInside memmapLength (walkOffset mem memmap k)

/-- An entry of the walk that finds room starts at or below the first one. -/
def InsertsInFront : Prop :=
  ∃ k, (∀ j ≤ k, walkOffset mem memmap j < memmapLength ∧ ¬ Wraps (walkEntry mem memmap j)) ∧
    ¬ Overfull (walkEntries mem memmap (k + 1)) ∧
    FirstLowest (walkEntries mem memmap k) ∧ ¬ FirstLowest (walkEntries mem memmap (k + 1))

section Walk

variable {mem memmap memmapLength} {table middle : E820Table} {k : Nat}

theorem offsetsRead_here {fuel : Nat} {entryOffset : UInt32}
    (more : entryOffset < memmapLength ∧ table.nrMap < maxE820Entries) :
    entryOffset ∈ offsetsRead mem memmap memmapLength (fuel + 1) entryOffset table := by
  rw [offsetsRead, if_pos more]
  dsimp only
  split
  · exact List.mem_cons_self
  · exact List.mem_singleton_self _

theorem offsetsRead_later {fuel : Nat} {entryOffset : UInt32} {entry : MemoryMap}
    (more : entryOffset < memmapLength ∧ table.nrMap < maxE820Entries)
    (found : rawEntry mem (memmap + entryOffset) = entry) {next : E820Table}
    (protect : protectRegion table entry.baseAddr entry.length entry.type = (true, next)) :
    offsetsRead mem memmap memmapLength (fuel + 1) entryOffset table =
      entryOffset :: offsetsRead mem memmap memmapLength fuel
        (entryOffset + (entry.size + 4)) next := by
  rw [offsetsRead, if_pos more]
  dsimp only
  rw [found, protect]
  dsimp only
  rw [if_pos rfl]

/-- The run depends on the entries at these offsets only. -/
theorem copyEntries_determined {other : Mem} {fuel : Nat} {entryOffset : UInt32}
    (agree : ∀ offset ∈ offsetsRead mem memmap memmapLength fuel entryOffset table,
      rawEntry other (memmap + offset) = rawEntry mem (memmap + offset)) :
    copyEntries other memmap memmapLength fuel entryOffset table =
      copyEntries mem memmap memmapLength fuel entryOffset table := by
  induction fuel generalizing entryOffset table with
  | zero => rfl
  | succ fuel ih =>
      rw [copyEntries, copyEntries, Prog.bind_get, Prog.bind_get]
      by_cases more : entryOffset < memmapLength ∧ table.nrMap < maxE820Entries
      · have same := agree entryOffset (offsetsRead_here more)
        rw [if_pos more, if_pos more, Prog.bind_step, Prog.bind_step, same]
        generalize found : rawEntry mem (memmap + entryOffset) = entry
        cases protect : protectRegion table entry.baseAddr entry.length entry.type with
        | mk done next =>
            dsimp only
            cases done with
            | false => rw [if_neg (by decide), if_neg (by decide)]
            | true =>
                rw [if_pos rfl, if_pos rfl]
                rw [offsetsRead_later more found protect] at agree
                exact ih (List.forall_mem_cons.mp agree).2
      · rw [if_neg more, if_neg more]

theorem protectAll_append (entries : List MemoryMap) (entry : MemoryMap) :
    protectAll table (entries ++ [entry]) =
      (protectAll table entries).bind fun middle => protectAll middle [entry] := by
  induction entries generalizing table with
  | nil => rfl
  | cons first rest ih =>
      rw [List.cons_append, protectAll, protectAll]
      dsimp only
      split
      · exact ih
      · rfl

theorem walkEntries_succ (mem : Mem) (memmap : UInt32) (k : Nat) :
    walkEntries mem memmap (k + 1) = walkEntries mem memmap k ++ [walkEntry mem memmap k] := by
  rw [walkEntries, List.range_succ, List.map_append, List.map_singleton]
  rfl

theorem protectAll_succ (sofar : protectAll table (walkEntries mem memmap k) = some middle) :
    protectAll table (walkEntries mem memmap (k + 1)) =
      protectAll middle [rawEntry mem (memmap + walkOffset mem memmap k)] := by
  rw [walkEntries_succ, protectAll_append, sofar]
  rfl

/-- What one round of the loop does. -/
inductive CopyRound (mem : Mem) (memmap memmapLength : UInt32) (table : E820Table) (k : Nat)
    (middle : E820Table) : Prop
  | stops (stop : RunStops mem memmap memmapLength table k)
      (returns : ∀ fuel, copyEntries mem memmap memmapLength (fuel + 1)
        (walkOffset mem memmap k) middle = .ok true middle)
      (reads : ∀ fuel, offsetsRead mem memmap memmapLength fuel
        (walkOffset mem memmap k) middle = [])
  | refuses (inside : ¬ RunStops mem memmap memmapLength table k)
      (stop : RunStops mem memmap memmapLength table (k + 1))
      (returns : ∀ fuel, ∃ reached, copyEntries mem memmap memmapLength (fuel + 1)
        (walkOffset mem memmap k) middle = .ok false reached)
      (reads : ∀ fuel, offsetsRead mem memmap memmapLength (fuel + 1)
        (walkOffset mem memmap k) middle = [walkOffset mem memmap k])
  | continues (next : E820Table) (inside : ¬ RunStops mem memmap memmapLength table k)
      (sofar : protectAll table (walkEntries mem memmap (k + 1)) = some next)
      (returns : ∀ fuel, copyEntries mem memmap memmapLength (fuel + 1)
        (walkOffset mem memmap k) middle =
          copyEntries mem memmap memmapLength fuel (walkOffset mem memmap (k + 1)) next)
      (reads : ∀ fuel, offsetsRead mem memmap memmapLength (fuel + 1)
        (walkOffset mem memmap k) middle = walkOffset mem memmap k ::
          offsetsRead mem memmap memmapLength fuel (walkOffset mem memmap (k + 1)) next)

theorem copyRound (sofar : protectAll table (walkEntries mem memmap k) = some middle) :
    CopyRound mem memmap memmapLength table k middle := by
  by_cases more : walkOffset mem memmap k < memmapLength ∧ middle.nrMap < maxE820Entries
  · have inside : ¬ RunStops mem memmap memmapLength table k := by
      rintro (left | full)
      · exact UInt32.not_le.mpr more.1 left
      · exact Nat.not_le.mpr more.2 (full middle sofar)
    have succ := protectAll_succ sofar
    rw [protectAll] at succ
    cases protect : protectRegion middle
        (rawEntry mem (memmap + walkOffset mem memmap k)).baseAddr
        (rawEntry mem (memmap + walkOffset mem memmap k)).length
        (rawEntry mem (memmap + walkOffset mem memmap k)).type with
    | mk done next =>
        rw [protect] at succ
        cases done with
        | false =>
            refine .refuses inside (.inr ?_) (fun fuel => ⟨next, ?_⟩) fun fuel => ?_
            · rw [succ]
              rintro reached ⟨⟩
            · rw [copyEntries, Prog.bind_get, if_pos more, Prog.bind_step, protect]
              rfl
            · rw [offsetsRead, if_pos more]
              simp only [protect]
              rfl
        | true =>
            refine .continues next inside succ (fun fuel => ?_) fun fuel => ?_
            · rw [copyEntries, Prog.bind_get, if_pos more, Prog.bind_step, protect]
              rfl
            · rw [offsetsRead, if_pos more]
              simp only [protect]
              rfl
  · refine .stops ?_ (fun fuel => ?_) fun fuel => ?_
    · by_cases inside : walkOffset mem memmap k < memmapLength
      · refine .inr fun reached same => ?_
        rw [sofar] at same
        cases same
        exact Nat.le_of_not_lt fun room => more ⟨inside, room⟩
      · exact .inl (UInt32.not_lt.mp inside)
    · rw [copyEntries, Prog.bind_get, if_neg more]
      rfl
    · cases fuel with
      | zero => rfl
      | succ fuel => rw [offsetsRead, if_neg more]

/-- A loop that ends has come to a stop of the walk and read all entries before it. -/
theorem copyEntries_stops {fuel : Nat} {value : Bool} {reached : E820Table}
    (sofar : protectAll table (walkEntries mem memmap k) = some middle)
    (run : copyEntries mem memmap memmapLength fuel (walkOffset mem memmap k) middle =
      .ok value reached) :
    ∃ n, RunStops mem memmap memmapLength table n ∧ ∀ j, k ≤ j → j < n →
      walkOffset mem memmap j ∈
        offsetsRead mem memmap memmapLength fuel (walkOffset mem memmap k) middle := by
  induction fuel generalizing k middle with
  | zero => cases run
  | succ fuel ih =>
      cases @copyRound mem memmap memmapLength table middle k sofar with
      | stops stop returns reads => exact ⟨k, stop, fun j above below => by omega⟩
      | refuses inside stop returns reads =>
          refine ⟨k + 1, stop, fun j above below => ?_⟩
          obtain rfl : j = k := by omega
          rw [reads]
          exact List.mem_singleton_self _
      | continues next inside sofar returns reads =>
          rw [returns] at run
          obtain ⟨n, stop, read⟩ := ih sofar run
          refine ⟨n, stop, fun j above below => ?_⟩
          rw [reads]
          by_cases first : j = k
          · rw [first]
            exact List.mem_cons_self
          · exact List.mem_cons_of_mem _ (read j (by omega) below)

/-- The loop ends at a stop of the walk and reads only entries before it. -/
theorem copyEntries_returns {n : Nat} (stop : RunStops mem memmap memmapLength table n)
    {rounds : Nat} (ahead : n ≤ k + rounds)
    (sofar : protectAll table (walkEntries mem memmap k) = some middle) (before : k ≤ n) :
    (∃ value reached, copyEntries mem memmap memmapLength (rounds + 1)
        (walkOffset mem memmap k) middle = .ok value reached) ∧
      ∀ fuel, ∀ offset ∈ offsetsRead mem memmap memmapLength fuel
        (walkOffset mem memmap k) middle, ∃ j < n, offset = walkOffset mem memmap j := by
  induction rounds generalizing k middle with
  | zero =>
      obtain rfl : k = n := by omega
      cases @copyRound mem memmap memmapLength table middle k sofar with
      | stops _ returns reads =>
          refine ⟨⟨true, middle, returns 0⟩, fun fuel offset member => ?_⟩
          rw [reads] at member
          cases member
      | refuses inside _ _ _ => exact (inside stop).elim
      | continues _ inside _ _ _ => exact (inside stop).elim
  | succ rounds ih =>
      cases @copyRound mem memmap memmapLength table middle k sofar with
      | stops _ returns reads =>
          refine ⟨⟨true, middle, returns _⟩, fun fuel offset member => ?_⟩
          rw [reads] at member
          cases member
      | refuses inside later returns reads =>
          have early : k < n := lt_of_le_of_ne before fun same => inside (same ▸ stop)
          obtain ⟨reached, run⟩ := returns (rounds + 1)
          refine ⟨⟨false, reached, run⟩, fun fuel offset member => ?_⟩
          cases fuel with
          | zero => cases member
          | succ fuel =>
              rw [reads, List.mem_singleton] at member
              exact ⟨k, early, member⟩
      | continues next inside sofar returns reads =>
          have early : k < n := lt_of_le_of_ne before fun same => inside (same ▸ stop)
          obtain ⟨run, read⟩ := ih (by omega) sofar early
          refine ⟨?_, fun fuel offset member => ?_⟩
          · rw [returns]
            exact run
          · cases fuel with
            | zero => cases member
            | succ fuel =>
                rw [reads, List.mem_cons] at member
                rcases member with here | later
                · exact ⟨k, early, here⟩
                · exact read fuel offset later

/-- A run is safe if and only if it comes to a stop and reads entries inside the map only. -/
theorem copiesSafely_run (mem : Mem) (memmap memmapLength : UInt32) (table : E820Table) :
    CopiesSafely mem memmap memmapLength table ↔
      ∃ n, RunStops mem memmap memmapLength table n ∧
        ∀ k < n, EntryInside memmapLength (walkOffset mem memmap k) := by
  have start : protectAll table (walkEntries mem memmap 0) = some table := rfl
  constructor
  · rintro ⟨⟨fuel, value, reached, run⟩, inside⟩
    obtain ⟨n, stop, read⟩ := copyEntries_stops start run
    exact ⟨n, stop, fun k below => inside fuel _ (read k (Nat.zero_le k) below)⟩
  · rintro ⟨n, stop, inside⟩
    obtain ⟨⟨value, reached, run⟩, read⟩ := copyEntries_returns stop (Nat.le_add_left n 0) start
      (Nat.zero_le n)
    refine ⟨⟨_, value, reached, run⟩, fun fuel offset member => ?_⟩
    obtain ⟨j, below, rfl⟩ := read fuel offset member
    exact inside j below

end Walk

section Entries

variable {mem : Mem} {memmap memmapLength : UInt32} {table reached : E820Table} {k n : Nat}

theorem not_wraps_iff {entry : MemoryMap} :
    ¬ Wraps entry ↔
      (entry.length ≠ 0 → entry.baseAddr.toNat + entry.length.toNat < 2 ^ 64) := by
  rw [Wraps, not_and, Nat.not_le]

theorem protectAll_single {entry : MemoryMap} (run : protectAll table [entry] = some reached) :
    protectRegion table entry.baseAddr entry.length entry.type = (true, reached) := by
  rw [protectAll] at run
  cases protect : protectRegion table entry.baseAddr entry.length entry.type with
  | mk done next =>
      rw [protect] at run
      cases done with
      | false => cases run
      | true =>
          cases run
          rfl

theorem protectAll_append_some {done : List MemoryMap} {entry : MemoryMap}
    (run : protectAll table (done ++ [entry]) = some reached) :
    ∃ middle, protectAll table done = some middle ∧
      protectRegion middle entry.baseAddr entry.length entry.type = (true, reached) := by
  rw [protectAll_append, Option.bind_eq_some_iff] at run
  obtain ⟨middle, before, last⟩ := run
  exact ⟨middle, before, protectAll_single last⟩

theorem protectAll_walkEntry (below : k < n)
    (run : protectAll table (walkEntries mem memmap n) = some reached) :
    ∃ middle next, protectAll table (walkEntries mem memmap k) = some middle ∧
      protectRegion middle (walkEntry mem memmap k).baseAddr (walkEntry mem memmap k).length
        (walkEntry mem memmap k).type = (true, next) := by
  induction n generalizing reached with
  | zero => omega
  | succ n ih =>
      rw [walkEntries_succ] at run
      obtain ⟨middle, before, last⟩ := protectAll_append_some run
      rcases Nat.lt_succ_iff_lt_or_eq.mp below with early | rfl
      · exact ih early before
      · exact ⟨middle, reached, before, last⟩

/-- Entries that are all protected are copied as long as the first one is the lowest. -/
theorem protectAll_copied (empty : table.nrMap = 0)
    (lowest : FirstLowest (walkEntries mem memmap n))
    (run : protectAll table (walkEntries mem memmap n) = some reached) :
    Copied reached (walkEntries mem memmap n) := by
  induction n generalizing reached with
  | zero =>
      cases run
      exact .nil empty
  | succ n ih =>
      rw [walkEntries_succ] at run lowest ⊢
      obtain ⟨middle, before, last⟩ := protectAll_append_some run
      have early := lowest.take (walkEntries mem memmap n).length
      rw [List.take_left] at early
      exact (ih early before).step lowest last

/-- Where the walk stops, every run has stopped. -/
theorem WalkStops.runStops (empty : table.nrMap = 0)
    (stop : WalkStops mem memmap memmapLength n) :
    RunStops mem memmap memmapLength table n := by
  rcases stop with left | ⟨lowest, full⟩ | ⟨k, below, refused⟩
  · exact .inl left
  · refine .inr fun reached run => ?_
    rw [(protectAll_copied empty lowest run).after.nrMap]
    exact full
  · refine .inr fun reached run => ?_
    obtain ⟨middle, next, before, protect⟩ := protectAll_walkEntry below run
    rcases refused with ⟨filled, wraps⟩ | ⟨lowest, filled, crowded⟩
    · have fits := protectRegion_fits filled protect
      omega
    · have copied := protectAll_copied empty lowest before
      have room := (copied.success_iff filled (protectRegion_fits filled protect)).mp
        (by rw [protect])
      omega

/-- Entries that find room are copied as long as the first one is the lowest. -/
theorem walk_reaches (empty : table.nrMap = 0)
    (inside : ∀ j < k, walkOffset mem memmap j < memmapLength ∧
      ¬ Wraps (walkEntry mem memmap j))
    (room : ¬ Overfull (walkEntries mem memmap k))
    (lowest : FirstLowest (walkEntries mem memmap k)) :
    ∃ middle, protectAll table (walkEntries mem memmap k) = some middle ∧
      Copied middle (walkEntries mem memmap k) ∧
      ∀ fuel, copyEntries mem memmap memmapLength (fuel + k) 0 table =
        copyEntries mem memmap memmapLength fuel (walkOffset mem memmap k) middle := by
  induction k with
  | zero => exact ⟨table, rfl, .nil empty, fun fuel => rfl⟩
  | succ k ih =>
      rw [walkEntries_succ] at room lowest
      rw [overfull_append, not_or] at room
      have early := lowest.take (walkEntries mem memmap k).length
      rw [List.take_left] at early
      obtain ⟨middle, sofar, copied, reaches⟩ :=
        ih (fun j below => inside j (Nat.lt_succ_of_lt below)) room.1 early
      obtain ⟨here, fits⟩ := inside k (Nat.lt_succ_self k)
      obtain ⟨next, protect⟩ := copied.protects room.2 (not_wraps_iff.mp fits)
      have small : middle.nrMap < maxE820Entries := by
        rw [copied.after.nrMap]
        exact Nat.lt_of_not_le fun full => room.2 (.inl full)
      refine ⟨next, ?_, ?_, fun fuel => ?_⟩
      · rw [protectAll_succ sofar, protectAll]
        rw [walkEntry] at protect
        rw [protect]
        rfl
      · rw [walkEntries_succ]
        exact copied.step lowest protect
      · rw [walkEntry] at protect
        rw [← Nat.add_assoc, Nat.add_right_comm, reaches, copyEntries, Prog.bind_get,
          if_pos ⟨here, small⟩, Prog.bind_step, protect]
        rfl

end Entries

/-- The loop of `copy_e820_map` is safe if the walk stops and all entries before that lie
inside the map.  Otherwise it is not, unless the table is given an entry in front of its first
one. -/
theorem copiesSafely_walk (mem : Mem) (memmap memmapLength : UInt32) (before : E820Table) :
    (SafeWalk mem memmap memmapLength →
      CopiesSafely mem memmap memmapLength { before with nrMap := 0 }) ∧
    (CopiesSafely mem memmap memmapLength { before with nrMap := 0 } →
      SafeWalk mem memmap memmapLength ∨ InsertsInFront mem memmap memmapLength) := by
  rw [copiesSafely_run]
  constructor
  · rintro ⟨n, stop, inside⟩
    exact ⟨n, stop.runStops rfl, inside⟩
  · rintro ⟨n, stop, inside⟩
    by_contra neither
    obtain ⟨unsafeWalk, inOrder⟩ := not_or.mp neither
    have goesOn (m : Nat) (early : m ≤ n) : ¬ WalkStops mem memmap memmapLength m :=
      fun stops => unsafeWalk ⟨m, stops, fun k below => inside k (below.trans_le early)⟩
    -- Up to the stop of the run every entry finds room and starts above the first one.
    have copies (m : Nat) (early : m ≤ n) :
        (∀ j < m, walkOffset mem memmap j < memmapLength ∧ ¬ Wraps (walkEntry mem memmap j)) ∧
          ¬ Overfull (walkEntries mem memmap m) ∧ FirstLowest (walkEntries mem memmap m) := by
      induction m with
      | zero =>
          refine ⟨fun j below => absurd below (Nat.not_lt_zero j), ?_, ?_⟩
          · rintro ⟨⟨k, below⟩, -⟩
            exact absurd below (Nat.not_lt_zero k)
          · rintro first ⟨⟩
      | succ m ih =>
          obtain ⟨walked, room, lowest⟩ := ih (Nat.le_of_succ_le early)
          have here := goesOn m (Nat.le_of_succ_le early)
          have next := goesOn (m + 1) early
          have fits : ¬ Wraps (walkEntry mem memmap m) := fun wraps =>
            next (.inr (.inr ⟨m, Nat.lt_succ_self m, .inl wraps⟩))
          have uncrowded :
              ¬ Crowded (walkEntries mem memmap m) (walkEntry mem memmap m) := by
            rintro (full | crowded)
            · exact here (.inr (.inl ⟨lowest, full⟩))
            · exact next (.inr (.inr ⟨m, Nat.lt_succ_self m, .inr ⟨lowest, crowded⟩⟩))
          have more : ¬ Overfull (walkEntries mem memmap (m + 1)) := by
            rw [walkEntries_succ, overfull_append]
            exact not_or.mpr ⟨room, uncrowded⟩
          have walkedOn : ∀ j ≤ m, walkOffset mem memmap j < memmapLength ∧
              ¬ Wraps (walkEntry mem memmap j) := by
            intro j below
            rcases Nat.lt_or_eq_of_le below with before | rfl
            · exact walked j before
            · exact ⟨UInt32.not_le.mp fun left => here (.inl left), fits⟩
          refine ⟨fun j below => walkedOn j (Nat.le_of_lt_succ below), more, ?_⟩
          by_contra above
          exact inOrder ⟨m, walkedOn, more, lowest, above⟩
    obtain ⟨walked, room, lowest⟩ := copies n le_rfl
    obtain ⟨middle, sofar, copied, -⟩ :=
      @walk_reaches mem memmap memmapLength { before with nrMap := 0 } n rfl walked room lowest
    refine goesOn n le_rfl ?_
    rcases stop with left | full
    · exact .inl left
    · refine .inr (.inl ⟨lowest, ?_⟩)
      rw [← copied.after.nrMap]
      exact full middle sofar

/-- A run over such a walk comes to an entry at or below the first one of a table with
room. -/
theorem InsertsInFront.reaches {mem : Mem} {memmap memmapLength : UInt32}
    (inFront : InsertsInFront mem memmap memmapLength) (before : E820Table) :
    ∃ k middle, (∀ fuel,
        copyEntries mem memmap memmapLength (fuel + k) 0 { before with nrMap := 0 } =
          copyEntries mem memmap memmapLength fuel (walkOffset mem memmap k) middle) ∧
      walkOffset mem memmap k < memmapLength ∧ middle.nrMap < maxE820Entries ∧
      (walkEntry mem memmap k).length ≠ 0 ∧
      ∃ first ∈ middle.firstBase, (walkEntry mem memmap k).baseAddr.toNat ≤ first := by
  obtain ⟨k, walked, room, lowest, above⟩ := inFront
  rw [walkEntries_succ] at room above
  rw [overfull_append, not_or] at room
  obtain ⟨middle, -, copied, reaches⟩ :=
    @walk_reaches mem memmap memmapLength { before with nrMap := 0 } k rfl
      (fun j below => walked j below.le) room.1 lowest
  have small : middle.nrMap < maxE820Entries := by
    rw [copied.after.nrMap]
    exact Nat.lt_of_not_le fun full => room.2 (.inl full)
  refine ⟨k, middle, reaches, (walked k le_rfl).1, small, ?_⟩
  rw [firstLowest_append, and_iff_right lowest, Classical.not_imp] at above
  obtain ⟨filled, below⟩ := above
  refine ⟨filled, ?_⟩
  rw [copied.first]
  simp only [not_forall] at below
  obtain ⟨first, head, order⟩ := below
  exact ⟨_, Option.mem_map_of_mem _ head, Nat.le_of_not_lt order⟩

section RawMaps

variable {mem : Mem} {memmap memmapLength : UInt32} {count k : Nat}

/-- In a raw map the walk goes from entry to entry. -/
theorem walkOffset_rawMap (whole : memmapLength.toNat = 24 * count)
    (sizes : ∀ entry ∈ rawMap mem memmap count, entry.size = 20) (inside : k ≤ count) :
    walkOffset mem memmap k = UInt32.ofNat (24 * k) := by
  induction k with
  | zero => rfl
  | succ k ih =>
      have size := sizes (rawEntry mem (memmap + UInt32.ofNat (24 * k)))
        (List.mem_map_of_mem (List.mem_range.mpr inside))
      rw [walkOffset, ih (Nat.le_of_succ_le inside), size, entryOffset_succ whole inside]

theorem walkEntries_rawMap (whole : memmapLength.toNat = 24 * count)
    (sizes : ∀ entry ∈ rawMap mem memmap count, entry.size = 20) (inside : k ≤ count) :
    walkEntries mem memmap k = rawMap mem memmap k := by
  rw [walkEntries, rawMap]
  refine List.map_congr_left fun j below => ?_
  have early := List.mem_range.mp below
  rw [walkEntry, walkOffset_rawMap whole sizes (by omega)]

/-- A raw map whose first entry is not the lowest of those that are copied makes
`protect_region` insert an entry in front of the first one. -/
theorem RawMap.insertsInFront {lctx : LoaderCtx} {raw : List MemoryMap}
    (given : RawMap mem lctx raw) (lower : ¬ LowestCopied raw) :
    InsertsInFront mem (getLoaderMemmap mem lctx) (getLoaderMemmapLength mem lctx) := by
  have entries := given.entries
  have sizes : ∀ entry ∈ rawMap mem (getLoaderMemmap mem lctx) raw.length, entry.size = 20 := by
    rw [← entries]
    exact given.sizes
  by_contra inOrder
  refine lower fun k => ?_
  rw [entries, length_rawMap]
  intro inside
  rw [rawMap_take _ _ inside]
  induction k with
  | zero => exact .inl (by rintro first ⟨⟩)
  | succ k ih =>
      by_contra neither
      obtain ⟨above, room⟩ := not_or.mp neither
      have early := room
      rw [rawMap_succ, overfull_append, not_or] at early
      have lowest := (ih (Nat.le_of_succ_le inside)).resolve_right early.1
      have same (j : Nat) (below : j ≤ raw.length) := walkEntries_rawMap given.whole sizes below
      refine inOrder ⟨k, fun j below => ⟨?_, ?_⟩, ?_, ?_, ?_⟩
      · have offset := walkOffset_rawMap given.whole sizes (by omega : j ≤ raw.length)
        rw [offset, UInt32.lt_iff_toNat_lt,
          toNat_entryOffset given.whole (by omega : j ≤ raw.length), given.whole]
        omega
      · rw [not_wraps_iff]
        intro filled
        apply given.bounded
        rw [entries, walkEntry, walkOffset_rawMap given.whole sizes (by omega : j ≤ raw.length)]
        exact List.mem_map_of_mem (List.mem_range.mpr (by omega))
      · rw [same _ inside]
        exact room
      · rw [same _ (Nat.le_of_succ_le inside)]
        exact lowest
      · rw [same _ inside]
        exact above

end RawMaps

/-- A map of one empty entry with a size that leads back to it. -/
def returningMap : Mem :=
  memoryOf [(0x1000, 0xfc), (0x1001, 0xff), (0x1002, 0xff), (0x1003, 0xff)]

theorem copyEntries_returningMap (fuel : Nat) (table : E820Table) (empty : table.nrMap = 0) :
    copyEntries returningMap 0x1000 24 fuel 0 table = .halt .spin table := by
  have more : (0 : UInt32) < 24 ∧ table.nrMap < maxE820Entries := by
    rw [empty]
    decide
  have entry : rawEntry returningMap (0x1000 + 0) = ⟨0xfffffffc, 0, 0, 0⟩ := by decide
  have protect : protectRegion table 0 0 0 = (true, table) := by
    rw [protectRegion, if_pos rfl]
  have back : (0 : UInt32) + (0xfffffffc + 4) = 0 := by decide
  induction fuel with
  | zero => rfl
  | succ fuel ih =>
      rw [copyEntries, Prog.bind_get, if_pos more, entry, Prog.bind_step, protect]
      dsimp only
      rw [if_pos rfl, back]
      exact ih

theorem copiesSafely_not :
    ¬ ∀ (mem : Mem) (memmap memmapLength : UInt32) (table : E820Table), table.nrMap = 0 →
      CopiesSafely mem memmap memmapLength table := by
  intro safe
  obtain ⟨⟨fuel, value, reached, run⟩, -⟩ := safe returningMap 0x1000 24 .blank rfl
  rw [copyEntries_returningMap fuel .blank rfl] at run
  cases run

end Sable
