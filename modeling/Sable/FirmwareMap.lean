import Sable.MapUpdates

/-!
# Copying the firmware's memory map

The boot loader hands over a raw memory map, whose entries may overlap and come
in any order, later ones taking precedence.  As long as the first entry starts
below all others that are copied, `copy_e820_map` turns the map into a well-formed
table with the same types.  How many entries the table has, and so how many of the
raw ones are copied, is counted on the raw map.
-/

namespace Sable

open ByteMemory BigEndian HaltingProgram RegionTable

/-- The raw map with `count` entries of 24 bytes each. -/
def rawMap (mem : Mem) (memmap : UInt32) (count : Nat) : List MemoryMap :=
  (List.range count).map fun k => rawEntry mem (memmap + UInt32.ofNat (24 * k))

/-- The type of the last raw entry that contains an address. -/
def lastType (raw : List MemoryMap) (a : Nat) : Option UInt32 :=
  lookup (raw.reverse.map MemoryMap.region) a

/-- The entries of a raw map that are not empty. -/
def filledEntries (raw : List MemoryMap) : List MemoryMap :=
  raw.filter fun entry => entry.length ≠ 0

/-- The first entry that is not empty starts below all later ones. -/
def FirstLowest (raw : List MemoryMap) : Prop :=
  ∀ first ∈ (filledEntries raw).head?, ∀ entry ∈ (filledEntries raw).tail,
    first.baseAddr < entry.baseAddr

instance (raw : List MemoryMap) : Decidable (FirstLowest raw) :=
  inferInstanceAs (Decidable (∀ first ∈ (filledEntries raw).head?, _))

/-- The region of an entry is laid over what is there. -/
def MemoryMap.layer (entry : MemoryMap) : Change Nat UInt32 :=
  .cover entry.region

/-- The entries of a raw map, each laid over the ones before it. -/
def layers (raw : List MemoryMap) : List (Change Nat UInt32) :=
  (filledEntries raw).reverse.map MemoryMap.layer

/-- What the table has to hold while an entry is copied. -/
def slots (done : List MemoryMap) (entry : MemoryMap) : Nat :=
  pieces [] (layers done) + entry.layer.slots [] (layers done)

/-- The pieces of the entries before it leave no room for the entry. -/
def Crowded (done : List MemoryMap) (entry : MemoryMap) : Prop :=
  maxE820Entries ≤ pieces [] (layers done) ∨
    entry.length ≠ 0 ∧ maxE820Entries < slots done entry

instance (done : List MemoryMap) (entry : MemoryMap) : Decidable (Crowded done entry) :=
  inferInstanceAs (Decidable (_ ∨ _))

/-- Some entry of a raw map finds no room. -/
def Overfull (raw : List MemoryMap) : Prop :=
  ∃ k : Fin raw.length, Crowded (raw.take k) raw[k]

instance (raw : List MemoryMap) : Decidable (Overfull raw) :=
  inferInstanceAs (Decidable (∃ k : Fin raw.length, Crowded (raw.take k) raw[k]))

/-- The first entry that is not empty starts below all later ones up to the one that finds
no room. -/
def LowestCopied (raw : List MemoryMap) : Prop :=
  ∀ k ≤ raw.length, FirstLowest (raw.take k) ∨ Overfull (raw.take k)

instance (raw : List MemoryMap) : Decidable (LowestCopied raw) :=
  inferInstanceAs (Decidable (∀ k ≤ raw.length, _))

section Bounds

variable {table : E820Table}

theorem insertAfterRegion_nrMap_le (small : table.nrMap ≤ maxE820Entries) (pos : Nat)
    (addr size : UInt64) (type : UInt32) :
    (insertAfterRegion table pos addr size type).2.nrMap ≤ maxE820Entries := by
  rw [insertAfterRegion]
  split
  · exact small
  · dsimp only
    omega

theorem removeCovered_nrMap_le (limit : UInt64) (i count : Nat) (table : E820Table) :
    (removeCovered limit i count table).nrMap ≤ table.nrMap := by
  induction count generalizing table with
  | zero => exact le_rfl
  | succ count ih =>
      rw [removeCovered]
      split
      · exact (ih _).trans (Nat.sub_le _ _)
      · exact le_rfl

theorem protectSearch_nrMap_le {newAddr newSize : UInt64} {newType : UInt32}
    (small : table.nrMap ≤ maxE820Entries) (count i : Nat) :
    (protectSearch newAddr newSize newType table count i).2.2.nrMap ≤ maxE820Entries := by
  induction count generalizing i with
  | zero => exact small
  | succ count ih =>
      simp only [protectSearch]
      split
      · exact insertAfterRegion_nrMap_le small _ _ _ _
      · split
        · split
          · apply insertAfterRegion_nrMap_le
            rw [E820Table.nrMap_set]
            exact insertAfterRegion_nrMap_le small _ _ _ _
          · exact insertAfterRegion_nrMap_le small _ _ _ _
        · split
          · exact insertAfterRegion_nrMap_le small _ _ _ _
          · exact ih _

theorem protectRest_nrMap_le (newAddr limit : UInt64) (i : Nat) :
    (protectRest newAddr limit table i).nrMap ≤ table.nrMap := by
  have removed := removeCovered_nrMap_le limit i table.nrMap table
  simp only [protectRest]
  split
  · exact le_rfl
  · split
    · exact removed
    · exact removed

/-- The table never outgrows its memory area. -/
theorem protectRegion_nrMap_le (small : table.nrMap ≤ maxE820Entries)
    (newAddr newSize : UInt64) (newType : UInt32) :
    (protectRegion table newAddr newSize newType).2.nrMap ≤ maxE820Entries := by
  have searched := @protectSearch_nrMap_le table newAddr newSize newType small table.nrMap 0
  simp only [protectRegion]
  split
  · exact small
  · split
    · exact small
    · split
      · split
        · exact insertAfterRegion_nrMap_le searched _ _ _ _
        · exact (protectRest_nrMap_le _ _ _).trans searched
      · exact searched

end Bounds

section Layers

variable {done raw : List MemoryMap} {entry : MemoryMap}

theorem layers_proper (raw : List MemoryMap) : ∀ change ∈ layers raw, change.Proper := by
  intro change member
  obtain ⟨entry, found, rfl⟩ := List.mem_map.mp member
  have filled : entry.length ≠ 0 := by
    simpa [filledEntries] using (List.mem_filter.mp (List.mem_reverse.mp found)).2
  have positive : 0 < entry.length.toNat := Nat.pos_of_ne_zero fun zero =>
    filled (UInt64.toNat_inj.mp zero)
  exact Nat.lt_add_of_pos_right positive

theorem layers_append_empty (done : List MemoryMap) (empty : entry.length = 0) :
    layers (done ++ [entry]) = layers done := by
  simp [layers, filledEntries, empty]

theorem layers_append_filled (done : List MemoryMap) (filled : entry.length ≠ 0) :
    layers (done ++ [entry]) = entry.layer :: layers done := by
  simp [layers, filledEntries, filled]

theorem lastType_append (done : List MemoryMap) (entry : MemoryMap) (a : Nat) :
    lastType (done ++ [entry]) a =
      if entry.region.Holds a then some entry.type else lastType done a := by
  rw [lastType, List.reverse_append]
  rfl

theorem kindAt_layers (raw : List MemoryMap) (a : Nat) :
    kindAt [] (layers raw) a = lastType raw a := by
  induction raw using List.reverseRecOn with
  | nil => rfl
  | append_singleton done entry ih =>
      rw [lastType_append, ← ih]
      by_cases empty : entry.length = 0
      · have outside : ¬ entry.region.Holds a := by
          rintro ⟨lower, upper⟩
          simp only [MemoryMap.region, empty, UInt64.toNat_zero] at lower upper
          omega
        rw [layers_append_empty done empty, if_neg outside]
      · rw [layers_append_filled done empty]
        rfl

theorem overfull_append :
    Overfull (done ++ [entry]) ↔ Overfull done ∨ Crowded done entry := by
  have early (k : Nat) (inside : k < done.length) :
      (done ++ [entry]).take k = done.take k := List.take_append_of_le_length inside.le
  constructor
  · rintro ⟨⟨k, inside⟩, crowded⟩
    dsimp only [Fin.getElem_fin] at crowded
    by_cases before : k < done.length
    · rw [early k before, List.getElem_append_left before] at crowded
      exact .inl ⟨⟨k, before⟩, crowded⟩
    · rw [List.length_append, List.length_singleton] at inside
      obtain rfl : k = done.length := by omega
      rw [List.take_left, List.getElem_concat_length rfl] at crowded
      exact .inr crowded
  · rintro (⟨⟨k, inside⟩, crowded⟩ | crowded)
    · refine ⟨⟨k, by rw [List.length_append]; omega⟩, ?_⟩
      dsimp only [Fin.getElem_fin] at crowded ⊢
      rw [early k inside, List.getElem_append_left inside]
      exact crowded
    · refine ⟨⟨done.length, by simp⟩, ?_⟩
      dsimp only [Fin.getElem_fin]
      rw [List.take_left, List.getElem_concat_length rfl]
      exact crowded

theorem FirstLowest.take (lowest : FirstLowest raw) (k : Nat) : FirstLowest (raw.take k) := by
  have split : filledEntries raw = filledEntries (raw.take k) ++ filledEntries (raw.drop k) := by
    rw [filledEntries, filledEntries, filledEntries, ← List.filter_append, List.take_append_drop]
  intro first head entry later
  cases front : filledEntries (raw.take k) with
  | nil =>
      rw [front] at head
      cases head
  | cons start rest =>
      rw [front] at head later
      rw [FirstLowest, split, front] at lowest
      exact lowest first head entry (List.mem_append_left _ later)

theorem firstLowest_append :
    FirstLowest (done ++ [entry]) ↔ FirstLowest done ∧
      (entry.length ≠ 0 → ∀ first ∈ (filledEntries done).head?,
        first.baseAddr < entry.baseAddr) := by
  by_cases empty : entry.length = 0
  · simp [FirstLowest, filledEntries, empty]
  · have parts : filledEntries (done ++ [entry]) = filledEntries done ++ [entry] := by
      simp [filledEntries, empty]
    rw [FirstLowest, FirstLowest, parts]
    cases filledEntries done with
    | nil => simp
    | cons start rest => simp [empty, or_imp, forall_and]

theorem FirstLowest.copied (lowest : FirstLowest raw) : LowestCopied raw :=
  fun k _ => .inl (lowest.take k)

end Layers

section Loop

/-- The table holds what the raw entries in `done` say. -/
structure Copied (table : E820Table) (done : List MemoryMap) : Prop where
  after : ChangedTable table [] (layers done)
  first : table.firstBase = (filledEntries done).head?.map fun entry => entry.baseAddr.toNat
  small : table.nrMap ≤ maxE820Entries

theorem Copied.nil {table : E820Table} (empty : table.nrMap = 0) : Copied table [] := by
  have none : table.regions = [] := by
    rw [E820Table.regions, E820Table.entries, empty]
    rfl
  refine ⟨⟨.nil, layers_proper [], ⟨?_, ?_⟩, none⟩, ?_, by omega⟩
  · rw [none]
    exact .nil
  · rw [none]
    simp
  · rw [E820Table.firstBase, none]
    rfl

section Copied

variable {table reached : E820Table} {done : List MemoryMap} {entry : MemoryMap}

theorem Copied.types (copied : Copied table done) (a : Nat) :
    table.typeAt a = lastType done a := by
  rw [copied.after.typeAt, kindAt_layers]

/-- When one round of the loop finds room. -/
theorem Copied.success_iff (copied : Copied table done) (filled : entry.length ≠ 0)
    (fits : entry.baseAddr.toNat + entry.length.toNat < 2 ^ 64) :
    (protectRegion table entry.baseAddr entry.length entry.type).1 = true ↔
      slots done entry ≤ maxE820Entries :=
  copied.after.protect_iff filled fits

/-- A later entry that is not empty starts above the table. -/
theorem Copied.above (copied : Copied table done) (lowest : FirstLowest (done ++ [entry]))
    (filled : entry.length ≠ 0) :
    ∀ first ∈ table.firstBase, first < entry.baseAddr.toNat := by
  intro start found
  rw [copied.first] at found
  obtain ⟨first, head, rfl⟩ := Option.map_eq_some_iff.mp found
  exact (firstLowest_append.mp lowest).2 filled first head

/-- One round of the loop. -/
theorem Copied.step (copied : Copied table done) (lowest : FirstLowest (done ++ [entry]))
    (run : protectRegion table entry.baseAddr entry.length entry.type = (true, reached)) :
    Copied reached (done ++ [entry]) := by
  by_cases empty : entry.length = 0
  · rw [protectRegion, if_pos empty] at run
    cases run
    refine ⟨?_, ?_, copied.small⟩
    · rw [layers_append_empty done empty]
      exact copied.after
    · rw [copied.first]
      simp [filledEntries, empty]
  · have above := copied.above lowest empty
    have bound := protectRegion_nrMap_le copied.small entry.baseAddr entry.length entry.type
    rw [run] at bound
    refine ⟨?_, ?_, bound⟩
    · rw [layers_append_filled done empty]
      exact copied.after.protect empty above run
    · rw [protectRegion_firstBase copied.after.valid empty above run, copied.first]
      have parts : filledEntries (done ++ [entry]) = filledEntries done ++ [entry] := by
        simp [filledEntries, empty]
      rw [parts]
      cases filledEntries done with
      | nil => rfl
      | cons first rest => rfl

/-- An entry that is copied finds room. -/
theorem Copied.not_crowded (copied : Copied table done) (room : table.nrMap < maxE820Entries)
    (run : protectRegion table entry.baseAddr entry.length entry.type = (true, reached)) :
    ¬ Crowded done entry := by
  rintro (full | ⟨filled, crowded⟩)
  · rw [← copied.after.nrMap] at full
    omega
  · have success := (copied.success_iff filled (protectRegion_fits filled run)).mp (by rw [run])
    omega

/-- An entry that finds room is copied if it does not wrap around. -/
theorem Copied.protects (copied : Copied table done) (room : ¬ Crowded done entry)
    (fits : entry.length ≠ 0 → entry.baseAddr.toNat + entry.length.toNat < 2 ^ 64) :
    ∃ reached, protectRegion table entry.baseAddr entry.length entry.type = (true, reached) := by
  apply exists_reached
  by_cases empty : entry.length = 0
  · rw [protectRegion, if_pos empty]
  · apply (copied.success_iff empty (fits empty)).mpr
    by_contra crowded
    exact room (.inr ⟨empty, Nat.lt_of_not_le crowded⟩)

end Copied

variable {mem : Mem} {memmap memmapLength : UInt32} {count : Nat}

theorem rawMap_succ (mem : Mem) (memmap : UInt32) (k : Nat) :
    rawMap mem memmap (k + 1) =
      rawMap mem memmap k ++ [rawEntry mem (memmap + UInt32.ofNat (24 * k))] := by
  simp [rawMap, List.range_succ]

theorem length_rawMap (mem : Mem) (memmap : UInt32) (count : Nat) :
    (rawMap mem memmap count).length = count := by
  simp [rawMap]

theorem rawMap_take (mem : Mem) (memmap : UInt32) {k : Nat} (inside : k ≤ count) :
    (rawMap mem memmap count).take k = rawMap mem memmap k := by
  rw [rawMap, rawMap, ← List.map_take, List.take_range, min_eq_left inside]

theorem LowestCopied.first (lowest : LowestCopied (rawMap mem memmap count)) {k : Nat}
    (inside : k ≤ count) (room : ¬ Overfull (rawMap mem memmap k)) :
    FirstLowest (rawMap mem memmap k) := by
  have initial := lowest k (by rw [length_rawMap]; exact inside)
  rw [rawMap_take mem memmap inside] at initial
  exact initial.resolve_right room

theorem toNat_entryOffset (whole : memmapLength.toNat = 24 * count) {k : Nat}
    (inside : k ≤ count) : (UInt32.ofNat (24 * k)).toNat = 24 * k := by
  have bound := memmapLength.toNat_lt
  rw [UInt32.toNat_ofNat']
  exact Nat.mod_eq_of_lt (by omega)

theorem entryOffset_succ (whole : memmapLength.toNat = 24 * count) {k : Nat}
    (next : k < count) :
    UInt32.ofNat (24 * k) + (20 + 4) = UInt32.ofNat (24 * (k + 1)) := by
  have bound := memmapLength.toNat_lt
  have constant : (20 + 4 : UInt32).toNat = 24 := rfl
  apply UInt32.toNat_inj.mp
  rw [UInt32.toNat_add, toNat_entryOffset whole next.le, toNat_entryOffset whole next, constant]
  omega

/-- A round of the loop that copies its entry. -/
theorem copyEntries_continues (whole : memmapLength.toNat = 24 * count) {k : Nat}
    (next : k < count) {entry : MemoryMap}
    (found : rawEntry mem (memmap + UInt32.ofNat (24 * k)) = entry) (size : entry.size = 20)
    {table middle : E820Table} (room : table.nrMap < maxE820Entries)
    (protect : protectRegion table entry.baseAddr entry.length entry.type = (true, middle))
    (fuel : Nat) :
    copyEntries mem memmap memmapLength (fuel + 1) (UInt32.ofNat (24 * k)) table =
      copyEntries mem memmap memmapLength fuel (UInt32.ofNat (24 * (k + 1))) middle := by
  have more : UInt32.ofNat (24 * k) < memmapLength := by
    rw [UInt32.lt_iff_toNat_lt, toNat_entryOffset whole next.le, whole]
    omega
  rw [copyEntries, Prog.bind_get, if_pos ⟨more, room⟩, Prog.bind_step, found, protect]
  dsimp only
  rw [if_pos rfl, size, entryOffset_succ whole next]

/-- The loop stops with all entries copied or with a full table. -/
theorem copyEntries_copied (whole : memmapLength.toNat = 24 * count)
    (sizes : ∀ entry ∈ rawMap mem memmap count, entry.size = 20)
    (lowest : LowestCopied (rawMap mem memmap count)) (fuel : Nat) {k : Nat}
    (inside : k ≤ count) {table reached : E820Table}
    (copied : Copied table (rawMap mem memmap k)) (found : ¬ Overfull (rawMap mem memmap k))
    (run : copyEntries mem memmap memmapLength fuel (UInt32.ofNat (24 * k)) table =
      .ok true reached) :
    Copied reached (rawMap mem memmap count) ∨ reached.nrMap = maxE820Entries := by
  induction fuel generalizing k table with
  | zero => cases run
  | succ fuel ih =>
      by_cases more : UInt32.ofNat (24 * k) < memmapLength ∧ table.nrMap < maxE820Entries
      · have next : k < count := by
          have before := more.1
          rw [UInt32.lt_iff_toNat_lt, toNat_entryOffset whole inside, whole] at before
          omega
        have size := sizes (rawEntry mem (memmap + UInt32.ofNat (24 * k)))
          (List.mem_map_of_mem (List.mem_range.mpr next))
        cases protect : protectRegion table
            (rawEntry mem (memmap + UInt32.ofNat (24 * k))).baseAddr
            (rawEntry mem (memmap + UInt32.ofNat (24 * k))).length
            (rawEntry mem (memmap + UInt32.ofNat (24 * k))).type with
        | mk done middle =>
            cases done with
            | false =>
                rw [copyEntries, Prog.bind_get, if_pos more, Prog.bind_step, protect] at run
                cases run
            | true =>
                rw [copyEntries_continues whole next rfl size more.2 protect] at run
                -- The entry has found room, so the first entry is still the lowest one.
                have room : ¬ Overfull (rawMap mem memmap (k + 1)) := by
                  rw [rawMap_succ, overfull_append]
                  exact not_or.mpr ⟨found, copied.not_crowded more.2 protect⟩
                have order := lowest.first next room
                rw [rawMap_succ] at order
                have step := copied.step order protect
                rw [← rawMap_succ] at step
                exact ih next step room run
      · rw [copyEntries, Prog.bind_get, if_neg more] at run
        obtain rfl : table = reached := by
          cases run
          rfl
        by_cases full : table.nrMap < maxE820Entries
        · have done : k = count := by
            have after : ¬ UInt32.ofNat (24 * k) < memmapLength := fun early =>
              more ⟨early, full⟩
            rw [UInt32.lt_iff_toNat_lt, toNat_entryOffset whole inside, whole] at after
            omega
          subst done
          exact .inl copied
        · exact .inr (Nat.le_antisymm copied.small (Nat.le_of_not_lt full))

end Loop

/-- What is said of a raw map: every entry has the usual size and ends below
`2 ^ 64`. -/
structure RawMap (mem : Mem) (lctx : LoaderCtx) (raw : List MemoryMap) : Prop where
  multiboot : lctx.addr ≠ 0 ∧ lctx.type = 1
  present : load32 mem lctx.addr.toNat &&& mbiFlagMemmap ≠ 0
  entries : raw = rawMap mem (getLoaderMemmap mem lctx) raw.length
  whole : (getLoaderMemmapLength mem lctx).toNat = 24 * raw.length
  sizes : ∀ entry ∈ raw, entry.size = 20
  bounded : ∀ entry ∈ raw, entry.baseAddr.toNat + entry.length.toNat < 2 ^ 64

/-- The copied table has the types of the raw map if the first entry that is not
empty starts below all later ones up to the one that finds no room. -/
theorem copyE820Map_faithful {mem : Mem} {lctx : LoaderCtx} {raw : List MemoryMap}
    (given : RawMap mem lctx raw) (lowest : LowestCopied raw) {before reached : E820Table}
    (run : copyE820Map mem lctx before = .ok true reached) :
    reached.Valid ∧ ∀ a, reached.typeAt a = lastType raw a := by
  have good : lctx.bad = false := by
    simp [LoaderCtx.bad, given.multiboot]
  have present : haveLoaderMemmap mem lctx { before with nrMap := 0 } =
      .ok true { before with nrMap := 0 } := by
    rw [haveLoaderMemmap, if_neg (by simp [good]), if_pos given.multiboot.2]
    simp [given.present]
  rw [copyE820Map, Prog.bind_modify, Prog.bind_ok present, if_pos rfl, Prog.bind_eq_ok] at run
  obtain ⟨copied, table, loop, rest⟩ := run
  cases copied with
  | false => cases rest
  | true =>
      rw [if_pos rfl, Prog.bind_get] at rest
      have start : Copied { before with nrMap := 0 }
          (rawMap mem (getLoaderMemmap mem lctx) 0) := Copied.nil rfl
      have entries := given.entries
      have result := copyEntries_copied given.whole (by rw [← entries]; exact given.sizes)
        (by rw [← entries]; exact lowest) _ (Nat.zero_le _) start
        (by rintro ⟨⟨k, inside⟩, -⟩; exact absurd inside (Nat.not_lt_zero k)) loop
      rw [← entries] at result
      have notFull : table.nrMap ≠ maxE820Entries ∧ table = reached := by
        simpa using rest
      obtain ⟨notFull, rfl⟩ := notFull
      have final := result.resolve_right notFull
      exact ⟨final.after.valid, final.types⟩

/-- A table area full of zeros. -/
def E820Table.blank : E820Table :=
  ⟨fun _ => ⟨0, 0, 0, 0⟩, 0⟩

/-- Multiboot information at `0x1000` with a raw map at `0x2000`: RAM from `0x1000`
to `0x4000` and, inside it, a reserved page at `0x2000`. -/
def overlappingMap : Mem :=
  memoryOf [(0x1000, 0x40), (0x102c, 0x30), (0x1031, 0x20),
    (0x2000, 0x14), (0x2005, 0x10), (0x200d, 0x30), (0x2014, 1),
    (0x2018, 0x14), (0x201d, 0x20), (0x2025, 0x10), (0x202c, 2)]

theorem overlappingMap_raw :
    RawMap overlappingMap ⟨0x1000, 1⟩
      [⟨20, 0x1000, 0x3000, e820Ram⟩, ⟨20, 0x2000, 0x1000, e820Reserved⟩] := by
  refine ⟨⟨by decide, rfl⟩, by decide, by decide, by decide, ?_, ?_⟩
  · decide
  · decide

theorem copyE820Map_faithful_overlapping :
    ∃ reached, copyE820Map overlappingMap ⟨0x1000, 1⟩ E820Table.blank = .ok true reached ∧
      reached.Valid ∧ ∀ a, reached.typeAt a =
        lastType [⟨20, 0x1000, 0x3000, e820Ram⟩, ⟨20, 0x2000, 0x1000, e820Reserved⟩] a := by
  have returns : (copyE820Map overlappingMap ⟨0x1000, 1⟩ E820Table.blank).value? = some true := by
    decide
  obtain ⟨reached, run⟩ := Outcome.eq_ok_of_value? returns
  exact ⟨reached, run, copyE820Map_faithful overlappingMap_raw
    (FirstLowest.copied (by decide)) run⟩

/-- A raw map with a page of RAM at `0x100000` followed by one at `0x1000`. -/
def descendingMap : Mem :=
  memoryOf [(0x1000, 0x40), (0x102c, 0x30), (0x1031, 0x20),
    (0x2000, 0x14), (0x2006, 0x10), (0x200d, 0x10), (0x2014, 1),
    (0x2018, 0x14), (0x201d, 0x10), (0x2025, 0x10), (0x202c, 1)]

theorem descendingMap_raw :
    RawMap descendingMap ⟨0x1000, 1⟩
      [⟨20, 0x100000, 0x1000, e820Ram⟩, ⟨20, 0x1000, 0x1000, e820Ram⟩] := by
  refine ⟨⟨by decide, rfl⟩, by decide, by decide, by decide, ?_, ?_⟩
  · decide
  · decide

/-- The entry at `0x100000` is overwritten by the one at `0x1000`. -/
theorem copyE820Map_loses_entry :
    ∃ raw reached, RawMap descendingMap ⟨0x1000, 1⟩ raw ∧
      copyE820Map descendingMap ⟨0x1000, 1⟩ E820Table.blank = .ok true reached ∧
      lastType raw 0x100000 = some e820Ram ∧ reached.typeAt 0x100000 = none := by
  have returns : (copyE820Map descendingMap ⟨0x1000, 1⟩ E820Table.blank).value? =
      some true := by
    decide
  have lost : (copyE820Map descendingMap ⟨0x1000, 1⟩ E820Table.blank).state.typeAt 0x100000 =
      none := by
    decide
  obtain ⟨reached, run⟩ := Outcome.eq_ok_of_value? returns
  rw [run] at lost
  exact ⟨_, reached, descendingMap_raw, run, by decide, lost⟩

end Sable
