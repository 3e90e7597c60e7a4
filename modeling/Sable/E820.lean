import Sable.ByteMemory
import Sable.Exceptions
import Sable.HaltingPrograms

/-!
# The memory map of `e820.c`

The copy of the firmware's memory map, which lies in a fixed memory area behind
`g_copy_e820_map`, and the functions that change it in place.  Entries behind
the last one keep whatever the area holds.  The release build is modelled, so
that nothing is printed.
-/

namespace Sable

open ByteMemory BigEndian HaltingProgram

/-- `memory_map_t`, with the halves of its 64-bit fields put together as by
`combine64b`. -/
structure MemoryMap where
  size : UInt32
  baseAddr : UInt64
  length : UInt64
  type : UInt32
  deriving DecidableEq

def e820Ram : UInt32 := 1
def e820Reserved : UInt32 := 2
def e820Mixed : UInt32 := 0xfffffffe
def e820Gap : UInt32 := 0xffffffff

/-- `MAX_E820_ENTRIES`. -/
def maxE820Entries : Nat := 0x1800 / 24

/-- `g_copy_e820_map` and `g_nr_map`. -/
structure E820Table where
  map : Nat → MemoryMap
  nrMap : Nat

/-- The entries of the table, without the rest of the memory area. -/
def E820Table.entries (table : E820Table) : List MemoryMap :=
  (List.range table.nrMap).map table.map

/-- Change one entry of the memory area. -/
def E820Table.set (table : E820Table) (i : Nat) (entry : MemoryMap) : E820Table :=
  { table with map := Function.update table.map i entry }

/-- The value of `i - 1` for an `unsigned int`. -/
def unsignedPred (i : Nat) : Nat :=
  (i + 2 ^ 32 - 1) % 2 ^ 32

section Regions

/-- The loop of `insert_after_region` that copies the entries behind `pos` up. -/
def shiftUp (pos : Nat) (map : Nat → MemoryMap) : Nat → (Nat → MemoryMap)
  | 0 => map
  | i + 1 =>
      if pos < i + 1 then shiftUp pos (Function.update map (i + 2) (map (i + 1))) i
      else map

def insertAfterRegion (table : E820Table) (pos : Nat) (addr size : UInt64)
    (type : UInt32) : Bool × E820Table :=
  if table.nrMap + 1 > maxE820Entries then (false, table)
  else
    let map := shiftUp pos table.map (unsignedPred table.nrMap)
    (true, ⟨Function.update map ((pos + 1) % 2 ^ 32) ⟨20, addr, size, type⟩,
      table.nrMap + 1⟩)

/-- The loop of `remove_region` that copies `count` entries down to `i`. -/
def shiftDown (map : Nat → MemoryMap) : Nat → Nat → (Nat → MemoryMap)
  | 0, _ => map
  | count + 1, i => shiftDown (Function.update map i (map (i + 1))) count (i + 1)

def removeRegion (table : E820Table) (pos : Nat) : E820Table :=
  ⟨shiftDown table.map (table.nrMap - 1 - pos) pos, table.nrMap - 1⟩

/-- The search loop of `protect_region`, which inserts the new region; the
result is the position of the new region, or the end of the table. -/
def protectSearch (newAddr newSize : UInt64) (newType : UInt32) (table : E820Table) :
    Nat → Nat → Bool × Nat × E820Table
  | 0, i => (true, i, table)
  | count + 1, i =>
      let entry := table.map i
      if newAddr = entry.baseAddr then
        let (inserted, table) :=
          insertAfterRegion table (unsignedPred i) newAddr newSize newType
        (inserted, i, table)
      else if newAddr > entry.baseAddr ∧ newAddr < entry.baseAddr + entry.length then
        let (inserted, table) := insertAfterRegion table i newAddr newSize newType
        if inserted then
          let table := table.set i
            { table.map i with length := newAddr - (table.map i).baseAddr }
          let (inserted, table) :=
            insertAfterRegion table (i + 1) entry.baseAddr entry.length entry.type
          (inserted, i + 1, table)
        else (false, i, table)
      else if entry.baseAddr > newAddr then
        let (inserted, table) :=
          insertAfterRegion table (unsignedPred i) newAddr newSize newType
        (inserted, i, table)
      else protectSearch newAddr newSize newType table count (i + 1)

/-- Move the start of an entry up to `limit` and keep its end. -/
def truncateFront (entry : MemoryMap) (limit : UInt64) : MemoryMap :=
  { entry with
    baseAddr := limit
    length := entry.baseAddr + entry.length - limit }

/-- The loop of `protect_region` that deletes the entries the new region covers. -/
def removeCovered (limit : UInt64) (i : Nat) : Nat → E820Table → E820Table
  | 0, table => table
  | count + 1, table =>
      if i < table.nrMap ∧
          limit ≥ (table.map i).baseAddr + (table.map i).length then
        removeCovered limit i count (removeRegion table i)
      else table

/-- The end of `protect_region`, with `i` behind the new region. -/
def protectRest (newAddr limit : UInt64) (table : E820Table) (i : Nat) : E820Table :=
  let entry := table.map i
  if newAddr ≥ entry.baseAddr ∧ limit < entry.baseAddr + entry.length then
    table.set i (truncateFront entry limit)
  else
    let table := removeCovered limit i table.nrMap table
    if i < table.nrMap ∧ limit > (table.map i).baseAddr then
      table.set i (truncateFront (table.map i) limit)
    else table

def protectRegion (table : E820Table) (newAddr newSize : UInt64) (newType : UInt32) :
    Bool × E820Table :=
  if newSize = 0 then (true, table)
  else if newAddr + newSize < newAddr then (false, table)
  else
    let (inserted, i, table) := protectSearch newAddr newSize newType table table.nrMap 0
    if inserted then
      if i = table.nrMap then
        insertAfterRegion table (unsignedPred i) newAddr newSize newType
      else (true, protectRest newAddr (newAddr + newSize) table (i + 1))
    else (false, table)

/-- `e820_protect_region` is `protect_region` on the copied table. -/
def e820ProtectRegion (table : E820Table) (addr size : UInt64) (type : UInt32) :
    Bool × E820Table :=
  protectRegion table addr size type

end Regions

section ReserveRam

/-- The loop of `e820_reserve_ram` from entry `i` on.  A round that inserts an
entry also skips it, so that the entries still to come do not become more. -/
def reserveRamLoop (base length limit : UInt64) :
    Nat → Nat → E820Table → Bool × E820Table
  | 0, _, table => (true, table)
  | count + 1, i, table =>
      let entry := table.map i
      let e820Base := entry.baseAddr
      let e820End := e820Base + entry.length
      if entry.type ≠ e820Ram then reserveRamLoop base length limit count (i + 1) table
      else if limit ≤ e820Base then reserveRamLoop base length limit count (i + 1) table
      else if base ≥ e820End then reserveRamLoop base length limit count (i + 1) table
      else if base ≤ e820Base ∧ e820End ≤ limit then
        reserveRamLoop base length limit count (i + 1)
          (table.set i { entry with type := e820Reserved })
      else if e820Base ≥ base ∧ limit > e820Base ∧ e820End > limit then
        let (inserted, table) := insertAfterRegion table (unsignedPred i) e820Base
          (limit - e820Base) e820Reserved
        if inserted then
          (true, table.set (i + 1)
            { table.map (i + 1) with baseAddr := limit, length := e820End - limit })
        else (false, table)
      else if base > e820Base ∧ e820End > base ∧ limit ≥ e820End then
        let table := table.set i { entry with length := base - e820Base }
        let (inserted, table) := insertAfterRegion table i base (e820End - base)
          e820Reserved
        if inserted then reserveRamLoop base length limit count (i + 2) table
        else (false, table)
      else if base > e820Base ∧ e820End > limit then
        let table := table.set i { entry with length := base - e820Base }
        let (inserted, table) := insertAfterRegion table i base length e820Reserved
        if inserted then
          insertAfterRegion table (i + 1) limit (e820End - limit) (table.map i).type
        else (false, table)
      else (false, table)

/-- Any RAM in the given range becomes reserved. -/
def e820ReserveRam (table : E820Table) (base length : UInt64) : Bool × E820Table :=
  if length = 0 then (true, table)
  else reserveRamLoop base length (base + length) table.nrMap 0 table

end ReserveRam

section CheckRegion

/-- Whether two ranges overlap. -/
def isOverlapped (base limit e820Base e820End : UInt64) : Bool :=
  let length := limit - base
  let e820Length := e820End - e820Base
  let min := if base < e820Base then base else e820Base
  let max := if limit > e820End then limit else e820End
  if max - min < length + e820Length then true
  else
    max - min = length + e820Length ∧
      (length = 0 ∧ base > e820Base ∧ base < e820End ∨
        e820Length = 0 ∧ e820Base > base ∧ e820Base < limit)

/-- The type of a range that covers a part of type `ret` and one of type
`type`; zero stands for no part. -/
def mergeType (ret type : UInt32) : UInt32 :=
  if ret = 0 then type
  else if ret = type then ret
  else if ret = e820Gap then ret
  else if type = e820Gap then e820Gap
  else e820Mixed

/-- One round of the loop of `e820_check_region`. -/
def checkRange (base limit e820Base e820Length : UInt64) (type ret : UInt32) : UInt32 :=
  if e820Length = 0 then ret
  else if isOverlapped base limit e820Base (e820Base + e820Length) then mergeType ret type
  else ret

/-- The loop of `e820_check_region`, which looks at the gap in front of an entry
and then at the entry; the result also holds the end of the last entry. -/
def checkRegionLoop (table : E820Table) (base limit : UInt64) :
    Nat → Nat → UInt64 → UInt32 → UInt64 × UInt32
  | 0, _, e820End, ret => (e820End, ret)
  | count + 1, i, e820End, ret =>
      let entry := table.map i
      let ret := checkRange base limit e820End (entry.baseAddr - e820End) e820Gap ret
      let ret := checkRange base limit entry.baseAddr entry.length entry.type ret
      checkRegionLoop table base limit count (i + 1) (entry.baseAddr + entry.length) ret

/-- Which kind of range a region covers. -/
def e820CheckRegion (table : E820Table) (base length : UInt64) : UInt32 :=
  let limit := base + length
  let (e820End, ret) := checkRegionLoop table base limit table.nrMap 0 0 0
  if isOverlapped base limit e820End 0xffffffffffffffff then e820Gap else ret

end CheckRegion

section RamRanges

/-- The four results of `get_ram_ranges`. -/
structure RamRanges where
  minLoRam : UInt64
  maxLoRam : UInt64
  minHiRam : UInt64
  maxHiRam : UInt64
  deriving DecidableEq

def fourGigabytes : UInt64 := 0x100000000

/-- Take an entry of RAM into the low range. -/
def RamRanges.addLow (ranges : RamRanges) (base limit : UInt64) : RamRanges :=
  { ranges with
    minLoRam := if base < fourGigabytes ∧ base < ranges.minLoRam then base
      else ranges.minLoRam
    maxLoRam := if limit ≤ fourGigabytes ∧ limit > ranges.maxLoRam then limit
      else ranges.maxLoRam }

/-- Take an entry of RAM into the high range. -/
def RamRanges.addHigh (ranges : RamRanges) (base limit : UInt64) : RamRanges :=
  { ranges with
    minHiRam := if base ≥ fourGigabytes ∧ base < ranges.minHiRam then base
      else ranges.minHiRam
    maxHiRam := if limit > fourGigabytes ∧ limit > ranges.maxHiRam then limit
      else ranges.maxHiRam }

/-- The loop of `get_ram_ranges` from entry `i` on, for a zero `g_min_ram`: low
RAM behind a reserved region is itself reserved.  The table has at most
`maxE820Entries` entries, so that this bounds the rounds. -/
def ramRangesLoop : Nat → Nat → RamRanges → Bool → E820Table →
    Option RamRanges × E820Table
  | 0, _, ranges, _, table => (some ranges, table)
  | count + 1, i, ranges, foundReserved, table =>
      if i < table.nrMap then
        let entry := table.map i
        let base := entry.baseAddr
        let limit := base + entry.length
        if entry.type = e820Ram then
          if base < fourGigabytes ∧ limit > fourGigabytes then (none, table)
          else if foundReserved = false ∨ base ≤ 0 then
            let ranges := (ranges.addLow base limit).addHigh base limit
            ramRangesLoop count (i + 1) ranges foundReserved table
          else if base < fourGigabytes then
            let (reserved, table) := e820ReserveRam table base (limit - base)
            if reserved then
              ramRangesLoop count (i + 1) (ranges.addHigh base limit) foundReserved table
            else (none, table)
          else ramRangesLoop count (i + 1) (ranges.addHigh base limit) foundReserved table
        else
          let foundReserved :=
            if ranges.minLoRam ≠ 0xffffffffffffffff ∧ limit > 0x100000 then true
            else foundReserved
          ramRangesLoop count (i + 1) ranges foundReserved table
      else (some ranges, table)

def getRamRanges (table : E820Table) : Option RamRanges × E820Table :=
  match ramRangesLoop (table.nrMap + maxE820Entries) 0
      ⟨0xffffffffffffffff, 0, 0xffffffffffffffff, 0⟩ false table with
  | (none, table) => (none, table)
  | (some ranges, table) =>
      if ranges.minLoRam ≥ ranges.maxLoRam then (none, table)
      else if ranges.minHiRam ≥ ranges.maxHiRam then
        (some { ranges with minHiRam := 0, maxHiRam := 0 }, table)
      else (some ranges, table)

end RamRanges

section Copy

/-- `loader_ctx`. -/
structure LoaderCtx where
  addr : UInt32
  type : UInt32
  deriving DecidableEq

/-- `LOADER_CTX_BAD`. -/
def LoaderCtx.bad (lctx : LoaderCtx) : Bool :=
  lctx.addr = 0 ∨ lctx.type ≠ 1 ∧ lctx.type ≠ 2

def mbiFlagMemlimits : UInt32 := 0x1
def mbiFlagMemmap : UInt32 := 0x40

/-- The 64-bit word stored as two 32-bit halves, the lower one first. -/
def load64 (mem : Mem) (addr : Nat) : UInt64 :=
  (load32 mem (addr + 4)).toUInt64 <<< 32 ||| (load32 mem addr).toUInt64

/-- The entry of a raw memory map at an address. -/
def rawEntry (mem : Mem) (addr : UInt32) : MemoryMap where
  size := load32 mem addr.toNat
  baseAddr := load64 mem (addr.toNat + 4)
  length := load64 mem (addr.toNat + 12)
  type := load32 mem (addr.toNat + 20)

variable (mem : Mem)

def haveLoaderMemmap (lctx : LoaderCtx) : Prog Halt E820Table Bool :=
  if lctx.bad then pure false
  else if lctx.type = 1 then
    pure (load32 mem lctx.addr.toNat &&& mbiFlagMemmap ≠ 0)
  else Prog.halt .spin

def haveLoaderMemlimits (lctx : LoaderCtx) : Bool :=
  if lctx.bad then false
  else if lctx.type = 1 then load32 mem lctx.addr.toNat &&& mbiFlagMemlimits ≠ 0
  else false

def getLoaderMemmapLength (lctx : LoaderCtx) : UInt32 :=
  load32 mem (lctx.addr.toNat + 44)

def getLoaderMemmap (lctx : LoaderCtx) : UInt32 :=
  load32 mem (lctx.addr.toNat + 48)

/-- The loop of `copy_e820_map`, with a bound on its rounds; a run that needs
more of them counts as one that does not end. -/
def copyEntries (memmap memmapLength : UInt32) :
    Nat → UInt32 → Prog Halt E820Table Bool
  | 0, _ => Prog.halt .spin
  | fuel + 1, entryOffset => do
      let table ← Prog.get
      if entryOffset < memmapLength ∧ table.nrMap < maxE820Entries then
        let entry := rawEntry mem (memmap + entryOffset)
        let done ← Prog.step fun table =>
          protectRegion table entry.baseAddr entry.length entry.type
        if done then
          copyEntries memmap memmapLength fuel (entryOffset + (entry.size + 4))
        else pure false
      else pure true

/-- Copy the raw map from the boot loader to the table, which is emptied first. -/
def copyE820Map (lctx : LoaderCtx) : Prog Halt E820Table Bool := do
  Prog.modify fun table => { table with nrMap := 0 }
  let present ← haveLoaderMemmap mem lctx
  if present then
    let copied ← copyEntries mem (getLoaderMemmap mem lctx)
      (getLoaderMemmapLength mem lctx) (2 ^ 32) 0
    if copied then
      let table ← Prog.get
      return table.nrMap ≠ maxE820Entries
    else return false
  else if haveLoaderMemlimits mem lctx then Prog.halt .spin
  else return false

end Copy

end Sable
